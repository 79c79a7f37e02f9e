import Mathlib.Data.Nat.Basic

/-!
# The USB requests of the HID device (`xhci/usb.rs`, `xhci/usb_descriptors.rs`)

The setup packet in the parameter of a Setup Stage TRB, the requests the device answers and the descriptors it returns.
-/

namespace BridgeVm.Xhci

structure SetupPacket where
  bmRequestType : UInt8
  request : UInt8
  value : UInt16
  index : UInt16
  length : UInt16
deriving DecidableEq, Repr

/-- `parse_setup_packet`: the bytes of the parameter, least significant first. -/
def parseSetupPacket (parameter : UInt64) : SetupPacket where
  bmRequestType := parameter.toUInt8
  request := (parameter >>> 8).toUInt8
  value := (parameter >>> 16).toUInt16
  index := (parameter >>> 32).toUInt16
  length := (parameter >>> 48).toUInt16

/-! ## Descriptors -/

def deviceDescriptor : List UInt8 :=
  [18, 1, 0x00, 0x02, 0, 0, 0, 64, 0x09, 0x12, 0x01, 0x00, 0x00, 0x01, 0, 0, 0, 1]

def configurationDescriptor : List UInt8 :=
  [9, 2, 59, 0, 2, 1, 0, 0x80, 50,
    9, 4, 0, 0, 1, 0x03, 0x01, 0x01, 0,
    9, 0x21, 0x11, 0x01, 0, 1, 0x22, 63, 0,
    7, 5, 0x81, 0x03, 8, 0, 10,
    9, 4, 1, 0, 1, 0x03, 0x00, 0x00, 0,
    9, 0x21, 0x11, 0x01, 0, 1, 0x22, 63, 0,
    7, 5, 0x82, 0x03, 8, 0, 10]

def hidReportDescriptor : List UInt8 :=
  [0x05, 0x01, 0x09, 0x06, 0xa1, 0x01, 0x05, 0x07, 0x19, 0xe0, 0x29, 0xe7, 0x15, 0x00, 0x25, 0x01,
    0x75, 0x01, 0x95, 0x08, 0x81, 0x02, 0x95, 0x01, 0x75, 0x08, 0x81, 0x03, 0x95, 0x05, 0x75, 0x01,
    0x05, 0x08, 0x19, 0x01, 0x29, 0x05, 0x91, 0x02, 0x95, 0x01, 0x75, 0x03, 0x91, 0x03, 0x95, 0x06,
    0x75, 0x08, 0x15, 0x00, 0x25, 0x65, 0x05, 0x07, 0x19, 0x00, 0x29, 0x65, 0x81, 0x00, 0xc0]

def hidPointerReportDescriptor : List UInt8 :=
  [0x05, 0x01, 0x09, 0x02, 0xa1, 0x01, 0x09, 0x01, 0xa1, 0x00, 0x05, 0x09, 0x19, 0x01, 0x29, 0x03,
    0x15, 0x00, 0x25, 0x01, 0x75, 0x01, 0x95, 0x03, 0x81, 0x02, 0x75, 0x05, 0x95, 0x01, 0x81, 0x03,
    0x05, 0x01, 0x09, 0x30, 0x09, 0x31, 0x15, 0x00, 0x26, 0xff, 0x7f, 0x75, 0x10, 0x95, 0x02, 0x81,
    0x02, 0x09, 0x38, 0x15, 0x81, 0x25, 0x7f, 0x75, 0x08, 0x95, 0x01, 0x81, 0x06, 0xc0, 0xc0]

/-- `HID_KEYBOARD_CLASS_DESCRIPTOR`, `HID_POINTER_CLASS_DESCRIPTOR`. -/
def hidKeyboardClassDescriptor : List UInt8 := [9, 0x21, 0x11, 0x01, 0, 1, 0x22, 63, 0]

def hidPointerClassDescriptor : List UInt8 := [9, 0x21, 0x11, 0x01, 0, 1, 0x22, 63, 0]

def string0Descriptor : List UInt8 := [4, 3, 0x09, 0x04]

/-! ## Requests -/

/-- `descriptor_for_setup_packet`: GET_DESCRIPTOR of index zero, of the device or of an interface. -/
def descriptorForSetupPacket (packet : SetupPacket) : Option (List UInt8) :=
  let descriptorIndex := packet.value.toUInt8
  let descriptorType := (packet.value >>> 8).toUInt8
  if packet.request ≠ 0x06 ∨ descriptorIndex ≠ 0 then none
  else
    match packet.bmRequestType, descriptorType, packet.index with
    | 0x80, 1, 0 => some deviceDescriptor
    | 0x80, 2, 0 => some configurationDescriptor
    | 0x80, 3, 0 => some string0Descriptor
    | 0x81, 0x22, 0 => some hidReportDescriptor
    | 0x81, 0x22, 1 => some hidPointerReportDescriptor
    | 0x81, 0x21, 0 => some hidKeyboardClassDescriptor
    | 0x81, 0x21, 1 => some hidPointerClassDescriptor
    | _, _, _ => none

/-- `get_configuration_for_setup_packet`. -/
def getConfigurationForSetupPacket (packet : SetupPacket) (currentConfiguration : UInt8) : Option (List UInt8) :=
  if packet.bmRequestType = 0x80 ∧ packet.request = 0x08 ∧ packet.value = 0 ∧ packet.index = 0 ∧
  packet.length = 1 then
    some [currentConfiguration]
  else none

/-- `data_in_for_setup_packet`. -/
def dataInForSetupPacket (packet : SetupPacket) (currentConfiguration : UInt8) : Option (List UInt8) :=
  (descriptorForSetupPacket packet).or (getConfigurationForSetupPacket packet currentConfiguration)

/-- `set_configuration_value`. -/
def setConfigurationValue (packet : SetupPacket) : Option UInt8 :=
  if packet.bmRequestType ≠ 0x00 ∨ packet.request ≠ 0x09 ∨ packet.index ≠ 0 ∨ packet.length ≠ 0 then none
  else
    match packet.value with
    | 0 => some 0
    | 1 => some 1
    | _ => none

/-- `is_hid_set_protocol_request`. -/
def isHidSetProtocolRequest (packet : SetupPacket) : Bool :=
  packet.bmRequestType == 0x21 && packet.request == 0x0b && decide (packet.value ≤ 1) &&
    (packet.index == 0 || packet.index == 1) && packet.length == 0

/-- `is_clear_endpoint_halt_request`. -/
def isClearEndpointHaltRequest (packet : SetupPacket) : Bool :=
  packet.bmRequestType == 0x02 && packet.request == 0x01 && packet.value == 0 &&
    (packet.index == 0x81 || packet.index == 0x82) && packet.length == 0

/-- `is_hid_set_idle_request`. -/
def isHidSetIdleRequest (packet : SetupPacket) : Bool :=
  packet.bmRequestType == 0x21 && packet.request == 0x0a && (packet.index == 0 || packet.index == 1) &&
    packet.length == 0

/-- `is_hid_set_report_request`. -/
def isHidSetReportRequest (packet : SetupPacket) : Bool :=
  packet.bmRequestType == 0x21 && packet.request == 0x09 && packet.value == 0x0200 &&
    (packet.index == 0 || packet.index == 1) && packet.length == 1

end BridgeVm.Xhci
