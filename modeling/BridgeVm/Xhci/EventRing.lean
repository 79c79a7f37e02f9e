import BridgeVm.GuestMemory
import BridgeVm.Lib.EventLog
import BridgeVm.Lib.Ring
import BridgeVm.Lib.Splice

/-!
# xHCI interrupters and event rings (`xhci/event.rs`, `xhci/registers.rs`, `xhci/ports.rs`, `xhci.rs`)

The registers of the controller, its ports and its interrupters, and the posting of events into the event ring of an
interrupter. Commands and transfers reach the rings through `postEventToInterrupter` alone; what else they write is
guest memory. The controller carries a log of what happened to its rings, newest first, which no function reads.
-/

namespace BridgeVm.Xhci

open Lib

/-- `XHCI_INTERRUPTER_COUNT`. -/
abbrev interrupterCount : Nat := 16

/-- `XHCI_PORT_COUNT`. -/
abbrev portCount : Nat := 8

def usbCmdRs : UInt32 := 1

def usbCmdHcrst : UInt32 := 2

def usbStsHch : UInt32 := 1

def usbStsEint : UInt32 := 8

def imanInterruptPending : UInt32 := 1

def imanInterruptEnable : UInt32 := 2

def erdpEhb : UInt32 := 8

def trbCycle : UInt32 := 1

/-- The cycle bit of an event. -/
def cycleBit (cycle : Bool) : UInt32 := if cycle then trbCycle else 0

def trbSizeBytes : Nat := 16

/-- `PORT_STATUS_CHANGE_EVENT_PORT_ID`. -/
def portStatusChangeEventPortId : UInt64 := 0x1000000

/-- `TRB_TYPE_PORT_STATUS_CHANGE_EVENT << 10`. -/
def portStatusChangeControl : UInt32 := 34 * 1024

/-- `TRB_TYPE_TRANSFER_EVENT << 10` and `TRB_TYPE_COMMAND_COMPLETION_EVENT << 10`. -/
def transferControl : UInt32 := 32 * 1024

def commandCompletionControl : UInt32 := 33 * 1024

/-- `TRANSFER_EVENT_ED`. -/
def transferEventEd : UInt32 := 4

/-! ## Ports -/

def portscCcs : UInt32 := 0x1

def portscPed : UInt32 := 0x2

def portscPr : UInt32 := 0x10

def portscPlsRxDetect : UInt32 := 0xa0

def portscPlsPolling : UInt32 := 0xe0

def portscPp : UInt32 := 0x200

def portscSpeedHigh : UInt32 := 0xc00

def portscCsc : UInt32 := 0x20000

def portscPrc : UInt32 := 0x200000

structure PortState where
  connected : Bool
  enabled : Bool
  connectChange : Bool
  resetChange : Bool
  speed : UInt32

namespace PortState

def disconnected : PortState := ⟨false, false, false, false, 0⟩

def highSpeedHidCandidate : PortState := ⟨true, true, true, false, portscSpeedHigh⟩

/-- `post_hcrst`: an attached device is detected again. -/
def postHcrst (p : PortState) : PortState :=
  { p with enabled := false, connectChange := p.connected, resetChange := false }

def portLinkState (p : PortState) : UInt32 :=
  if !p.connected then portscPlsRxDetect else if p.enabled then 0 else portscPlsPolling

def portsc (p : PortState) : UInt32 :=
  let value := portscPp ||| p.portLinkState
  let value := if p.connected then value ||| (portscCcs ||| p.speed) else value
  let value := if p.enabled then value ||| portscPed else value
  let value := if p.connectChange then value ||| portscCsc else value
  if p.resetChange then value ||| portscPrc else value

def hasChange (p : PortState) : Bool := p.connectChange || p.resetChange

def changeAcknowledgedBy (p : PortState) (value : UInt32) : Bool :=
  (value &&& portscCsc != 0 && p.connectChange) || (value &&& portscPrc != 0 && p.resetChange)

/-- `write_portsc`: whether a status change was generated. -/
def writePortsc (p : PortState) (value : UInt32) : PortState × Bool :=
  let p := if value &&& portscCsc != 0 then { p with connectChange := false } else p
  let p := if value &&& portscPrc != 0 then { p with resetChange := false } else p
  if value &&& portscPr != 0 && p.connected then ({ p with enabled := true, resetChange := true }, true)
  else (p, false)

end PortState

/-! ## The controller -/

structure Interrupter where
  iman : UInt32
  imod : UInt32
  erstsz : UInt32
  erstba : UInt64
  erdp : UInt64
  eventHandlerBusy : Bool
  eventEnqueue : Nat
  eventCycle : Bool

def Interrupter.new : Interrupter := ⟨0, 0, 0, 0, 0, false, 0, true⟩

/-- `EventPostTrace`: an event that was posted, and where. -/
structure EventPostTrace where
  segmentBase : Nat
  segmentTrbs : Nat
  enqueue : Nat
  cycle : Bool
  interrupter : Fin interrupterCount
  parameter : UInt64
  status : UInt32
  control : UInt32
  eventGpa : Nat
deriving DecidableEq

/-- `SLOT_ID`: transfers are those of the one device. -/
def slot1 : UInt32 := 1

/-- The events the controller posts. -/
inductive EventKind
  | portStatusChange
  | commandCompletion (slotId : UInt32)
  | transfer (endpointId : UInt32) (eventData : Bool)

/-- The control word before its cycle bit (`event_control`, `transfer_event_control`). -/
def EventKind.control : EventKind → UInt32
  | .portStatusChange => portStatusChangeControl
  | .commandCompletion slotId => (slotId <<< 24) ||| commandCompletionControl
  | .transfer endpointId eventData =>
    ((slot1 <<< 24) ||| (endpointId <<< 16) ||| transferControl) ||| (if eventData then transferEventEd else 0)

/-- What happens to event rings. -/
inductive RingEvent
  | programmed (index : Fin interrupterCount)
  | reset
  | erdp (index : Fin interrupterCount) (erdp : UInt64)
  | posted (trace : EventPostTrace)
deriving DecidableEq

structure XhciController where
  ports : Vector PortState portCount
  usbCommand : UInt32
  dnctrl : UInt32
  crcr : UInt64
  commandDequeue : UInt64
  commandCycle : Bool
  dcbaap : UInt64
  config : UInt32
  interrupters : Vector Interrupter interrupterCount
  pendingInterrupterBits : UInt32
  pendingEnabledInterrupterBits : UInt32
  portStatusChangePending : Bool
  log : List RingEvent

namespace XhciController

/-- `XhciController::new`: a device is attached to the first port. -/
def new : XhciController where
  ports := (Vector.replicate portCount PortState.disconnected).set 0 PortState.highSpeedHidCandidate
  usbCommand := 0
  dnctrl := 0
  crcr := 0
  commandDequeue := 0
  commandCycle := false
  dcbaap := 0
  config := 0
  interrupters := Vector.replicate interrupterCount Interrupter.new
  pendingInterrupterBits := 0
  pendingEnabledInterrupterBits := 0
  portStatusChangePending := false
  log := []

/-- One interrupter changed. -/
def setInterrupter (c : XhciController) (index : Fin interrupterCount) (f : Interrupter → Interrupter) :
    XhciController :=
  { c with interrupters := c.interrupters.set index (f c.interrupters[index]) }

/-- `refresh_interrupter_pending_bits`. -/
def refreshInterrupterPendingBits (c : XhciController) (index : Fin interrupterCount) : XhciController :=
  let bit : UInt32 := 1 <<< UInt32.ofNat index
  let iman := c.interrupters[index].iman
  let pendingAndEnabled := imanInterruptPending ||| imanInterruptEnable
  { c with
    pendingInterrupterBits :=
      if iman &&& imanInterruptPending != 0 then c.pendingInterrupterBits ||| bit
      else c.pendingInterrupterBits &&& ~~~bit
    pendingEnabledInterrupterBits :=
      if iman &&& pendingAndEnabled == pendingAndEnabled then c.pendingEnabledInterrupterBits ||| bit
      else c.pendingEnabledInterrupterBits &&& ~~~bit }

/-- `set_interrupter_pending`. -/
def setInterrupterPending (c : XhciController) (index : Fin interrupterCount) : XhciController :=
  (c.setInterrupter index fun i => { i with iman := i.iman ||| imanInterruptPending }).refreshInterrupterPendingBits
    index

/-- `clear_interrupter_pending`. -/
def clearInterrupterPending (c : XhciController) (index : Fin interrupterCount) : XhciController :=
  (c.setInterrupter index fun i => { i with iman := i.iman &&& ~~~imanInterruptPending }).refreshInterrupterPendingBits
    index

/-- `write_iman`. -/
def writeIman (c : XhciController) (index : Fin interrupterCount) (value : UInt32) : XhciController :=
  let oldIman := c.interrupters[index].iman
  let pending := if value &&& imanInterruptPending != 0 then 0 else oldIman &&& imanInterruptPending
  (c.setInterrupter index fun i =>
    { i with iman := pending ||| (value &&& imanInterruptEnable) }).refreshInterrupterPendingBits
    index

/-- `usb_status`. -/
def usbStatus (c : XhciController) : UInt32 :=
  let eventInterrupt := if c.pendingInterrupterBits != 0 then usbStsEint else 0
  if c.usbCommand &&& usbCmdRs == 0 then usbStsHch ||| eventInterrupt else eventInterrupt

/-- `reset_event_ring`, after the registers of the ring were written. -/
def resetEventRing (c : XhciController) (index : Fin interrupterCount) : XhciController :=
  { c.setInterrupter index fun i => { i with eventEnqueue := 0, eventHandlerBusy := false, eventCycle := true } with
    log := .programmed index :: c.log }

/-- `erdp_low`. -/
def erdpLow (c : XhciController) (index : Fin interrupterCount) : UInt32 :=
  let i := c.interrupters[index]
  (i.erdp.toUInt32 &&& ~~~erdpEhb) ||| (if i.eventHandlerBusy then erdpEhb else 0)

/-- The ERDP of an interrupter is stored. -/
def storeErdp (c : XhciController) (index : Fin interrupterCount) (nextErdp : UInt64) : XhciController :=
  { c.setInterrupter index fun i => { i with erdp := nextErdp } with log := .erdp index nextErdp :: c.log }

/-- The low or high half of a 64-bit register written. -/
def withLow (old : UInt64) (value : UInt32) : UInt64 := (old &&& ~~~0xffffffff) ||| value.toUInt64

def withHigh (old : UInt64) (value : UInt32) : UInt64 := (old &&& (0xffffffff : UInt64)) ||| (value.toUInt64 <<< 32)

/-- `write_erdp_low`. -/
def writeErdpLow (c : XhciController) (index : Fin interrupterCount) (value : UInt32) : XhciController :=
  let nextErdp := withLow c.interrupters[index].erdp (value &&& ~~~erdpEhb)
  let c :=
    if value &&& erdpEhb != 0 then
      (c.setInterrupter index fun i => { i with eventHandlerBusy := false }).clearInterrupterPending index
    else c
  c.storeErdp index nextErdp

/-- `write_erdp_high`. -/
def writeErdpHigh (c : XhciController) (index : Fin interrupterCount) (value : UInt32) : XhciController :=
  c.storeErdp index (withHigh c.interrupters[index].erdp value)

/-! ## Posting events -/

/-- The sixteen bytes of an event. -/
def eventTrb (parameter : UInt64) (status control : UInt32) : List UInt8 :=
  toLeBytes 8 parameter.toNat ++ toLeBytes 4 status.toNat ++ toLeBytes 4 control.toNat

/-- A target beyond the modelled interrupters falls back to the primary one. -/
def eventTarget (index : Nat) : Fin interrupterCount := if h : index < interrupterCount then ⟨index, h⟩ else 0

/-- The interrupter after an event was written: the next TRB, the other cycle after the last, and an interrupt. -/
def eventWritten (c : XhciController) (index : Fin interrupterCount) (segmentTrbs : Nat) : XhciController :=
  (c.setInterrupter index fun i =>
    { i with
      eventEnqueue := if i.eventEnqueue + 1 = segmentTrbs then 0 else i.eventEnqueue + 1
      eventCycle := if i.eventEnqueue + 1 = segmentTrbs then !i.eventCycle else i.eventCycle
      eventHandlerBusy := true }).setInterrupterPending index

/-- The controller after an event was posted. -/
def eventPosted (c : XhciController) (trace : EventPostTrace) : XhciController :=
  { c.eventWritten trace.interrupter trace.segmentTrbs with log := .posted trace :: c.log }

/-- `post_event_to_interrupter`: the event that was posted, when it was. -/
def postEventToInterrupter (c : XhciController) (mem : GuestMemory) (index : Nat) (parameter : UInt64)
    (status controlWithoutCycle : UInt32) : XhciController × GuestMemory × Option EventPostTrace :=
  let index := eventTarget index
  let interrupter := getElem c.interrupters index index.isLt
  if interrupter.erstsz = 0 then (c, mem, none)
  else
    match mem.readBytes interrupter.erstba.toNat 16 with
    | none => (c, mem, none)
    | some rawErst =>
      let segmentBase := ofLeBytes (slice rawErst 0 8)
      let segmentTrbs := ofLeBytes (slice rawErst 8 4)
      match checkedAdd segmentBase (interrupter.eventEnqueue * trbSizeBytes) with
      | none => (c, mem, none)
      | some eventGpa =>
        if segmentBase = 0 ∨ segmentTrbs = 0 ∨ segmentTrbs ≤ interrupter.eventEnqueue then (c, mem, none)
        else
          let control := controlWithoutCycle ||| cycleBit interrupter.eventCycle
          let trace : EventPostTrace :=
            { segmentBase
              segmentTrbs
              enqueue := interrupter.eventEnqueue
              cycle := interrupter.eventCycle
              interrupter := index
              parameter
              status
              control
              eventGpa }
          let (mem', written) := mem.writeBytes eventGpa (eventTrb parameter status control)
          if !written then (c, mem, none)
          else (c.eventPosted trace, mem', some trace)

/-- `post_event`. -/
def postEvent (c : XhciController) (mem : GuestMemory) (parameter : UInt64) (status controlWithoutCycle : UInt32) :
    XhciController × GuestMemory × Option EventPostTrace :=
  c.postEventToInterrupter mem 0 parameter status controlWithoutCycle

/-- `post_pending_port_status_change_event`. -/
def postPendingPortStatusChangeEvent (c : XhciController) (mem : GuestMemory) : XhciController × GuestMemory :=
  if !c.portStatusChangePending then (c, mem)
  else
    let (c, mem, posted) := c.postEvent mem portStatusChangeEventPortId 0 EventKind.portStatusChange.control
    (if posted.isSome then { c with portStatusChangePending := false } else c, mem)

/-! ## Registers -/

/-- The index and the register at an offset into a block of equal register sets. -/
def registerAt (base stride count offset : Nat) : Option (Fin count × Nat) :=
  if offset < base then none
  else
    let relative := offset - base
    if h : relative / stride < count then some (⟨relative / stride, h⟩, relative % stride) else none

/-- `port_reg`. -/
def portReg (offset : Nat) : Option (Fin portCount × Nat) := registerAt 0x440 0x10 portCount offset

/-- `interrupter_reg`. -/
def interrupterReg (offset : Nat) : Option (Fin interrupterCount × Nat) :=
  registerAt 0x1020 0x20 interrupterCount offset

/-- `read_dword`. -/
def readDword (c : XhciController) (offset : Nat) : UInt32 :=
  match portReg offset with
  | some (port, reg) => if reg = 0x0 then c.ports[port].portsc else 0
  | none =>
    match interrupterReg offset with
    | some (index, reg) =>
      let i := c.interrupters[index]
      match reg with
      | 0x00 => i.iman
      | 0x04 => i.imod
      | 0x08 => i.erstsz
      | 0x10 => i.erstba.toUInt32
      | 0x14 => (i.erstba >>> 32).toUInt32
      | 0x18 => c.erdpLow index
      | 0x1c => (i.erdp >>> 32).toUInt32
      | _ => 0
    | none =>
      match offset with
      | 0x00 => 0x01000040
      | 0x04 => 0x08001040
      | 0x08 => 0x0000000f
      | 0x10 => 0x00087001
      | 0x14 => 0x00002000
      | 0x18 => 0x00001000
      | 0x20 => 0x02000402
      | 0x24 => 0x20425355
      | 0x28 => 0x00000401
      | 0x30 => 0x03000002
      | 0x34 => 0x20425355
      | 0x38 => 0x00000405
      | 0x40 => c.usbCommand
      | 0x44 => c.usbStatus
      | 0x48 => 0x00000001
      | 0x54 => c.dnctrl
      | 0x58 => c.crcr.toUInt32
      | 0x5c => (c.crcr >>> 32).toUInt32
      | 0x70 => c.dcbaap.toUInt32
      | 0x74 => (c.dcbaap >>> 32).toUInt32
      | 0x78 => c.config
      | 0x1000 => 0x00000003
      | _ => 0

/-- `reset_programmed_state`. -/
def resetProgrammedState (c : XhciController) : XhciController :=
  { c with
    dnctrl := 0
    crcr := 0
    commandDequeue := 0
    commandCycle := false
    dcbaap := 0
    config := 0
    portStatusChangePending := false
    interrupters := Vector.replicate interrupterCount Interrupter.new
    pendingInterrupterBits := 0
    pendingEnabledInterrupterBits := 0
    log := .reset :: c.log }

/-- `write_crcr_low`, `write_crcr_high`. -/
def writeCrcr (c : XhciController) (crcr : UInt64) : XhciController :=
  { c with crcr, commandDequeue := crcr &&& ~~~0x3f, commandCycle := crcr &&& 1 != 0 }

/-- The register of a port is written. -/
def writePort (c : XhciController) (port : Fin portCount) (value : UInt32) : XhciController × Bool :=
  let acknowledgedChange := c.ports[port].changeAcknowledgedBy value
  let (written, generatedChange) := c.ports[port].writePortsc value
  let c := { c with ports := c.ports.set port written }
  if acknowledgedChange && !c.ports.any PortState.hasChange then
    ({ c with portStatusChangePending := false }, generatedChange)
  else (c, generatedChange)

/-- A register of an interrupter is written; ERSTSZ and ERSTBA program its ring. -/
def writeInterrupter (c : XhciController) (index : Fin interrupterCount) (reg : Nat) (value : UInt32) :
    XhciController :=
  match reg with
  | 0x00 => c.writeIman index value
  | 0x04 => c.setInterrupter index fun i => { i with imod := value }
  | 0x08 => (c.setInterrupter index fun i => { i with erstsz := value }).resetEventRing index
  | 0x10 => (c.setInterrupter index fun i => { i with erstba := withLow i.erstba value }).resetEventRing index
  | 0x14 => (c.setInterrupter index fun i => { i with erstba := withHigh i.erstba value }).resetEventRing index
  | 0x18 => c.writeErdpLow index value
  | 0x1c => c.writeErdpHigh index value
  | _ => c

/-- USBCMD is written; HCRST resets the controller and detects its ports again. -/
def writeUsbCommand (c : XhciController) (value : UInt32) : XhciController :=
  let c :=
    if value &&& usbCmdHcrst != 0 then
      let c := { c with ports := c.ports.map PortState.postHcrst }.resetProgrammedState
      if c.ports.any PortState.hasChange then { c with portStatusChangePending := true } else c
    else c
  { c with usbCommand := value &&& ~~~usbCmdHcrst }

/-- `write_dword`: whether a port status change was generated. -/
def writeDword (c : XhciController) (offset : Nat) (value : UInt32) : XhciController × Bool :=
  match portReg offset with
  | some (port, reg) => if reg = 0x0 then c.writePort port value else (c, false)
  | none =>
    match interrupterReg offset with
    | some (index, reg) => (c.writeInterrupter index reg value, false)
    | none =>
      match offset with
      | 0x40 => (c.writeUsbCommand value, false)
      | 0x54 => ({ c with dnctrl := value }, false)
      | 0x58 => (c.writeCrcr (withLow c.crcr value), false)
      | 0x5c => (c.writeCrcr (withHigh c.crcr value), false)
      | 0x70 => ({ c with dcbaap := withLow c.dcbaap value }, false)
      | 0x74 => ({ c with dcbaap := withHigh c.dcbaap value }, false)
      | 0x78 => ({ c with config := value }, false)
      | _ => (c, false)

/-- `merge_dword`: `size` bytes of a register replaced, from the byte of an offset on. -/
def mergeDword (old : UInt32) (offset size : Nat) (value : UInt64) : UInt32 :=
  let shift := UInt32.ofNat (offset % 4 * 8)
  let widthMask : UInt32 :=
    match size with
    | 1 => 0xff
    | 2 => 0xffff
    | 3 => 0x00ffffff
    | _ => 0xffffffff
  let fieldMask := widthMask <<< shift
  let placed := (value.toUInt32 &&& widthMask) <<< shift
  (old &&& ~~~fieldMask) ||| placed

/-- The loop of `mmio_write`: the register of each aligned offset in turn. A round takes at least a byte, so `bytes`
rounds take all. -/
def writeRegisters (offset bytes : Nat) (value : UInt64) : Nat → Nat → XhciController → XhciController × Bool
  | 0, _, c => (c, false)
  | rounds + 1, consumed, c =>
    if bytes ≤ consumed then (c, false)
    else
      let current := offset + consumed
      let aligned := current / 4 * 4
      let chunk := min (4 - current % 4) (bytes - consumed)
      let old := c.readDword aligned
      let part := value >>> UInt64.ofNat (consumed * 8)
      let (c, generated) := c.writeDword aligned (mergeDword old current chunk part)
      let (c, rest) := writeRegisters offset bytes value rounds (consumed + chunk) c
      (c, generated || rest)

/-- `mmio_write`; the MSI-X windows hold nothing of the rings. -/
def mmioWrite (c : XhciController) (offset size : Nat) (value : UInt64) : XhciController × Bool :=
  if (0x3000 ≤ offset ∧ offset < 0x3000 + 16 * 16) ∨ (0x3800 ≤ offset ∧ offset < 0x3800 + 8) then (c, false)
  else writeRegisters offset (min size 8) value (min size 8) 0 c

/-- `is_event_ring_programming_write`. -/
def isEventRingProgrammingWrite (offset size : Nat) : Bool :=
  decide (offset < 0x1038) && decide (0x1028 < offset + min size 8)

/-- `mmio_write_with_mem` up to its doorbells. -/
def mmioWriteWithMem (c : XhciController) (mem : GuestMemory) (offset size : Nat) (value : UInt64) :
    XhciController × GuestMemory :=
  let programming := isEventRingProgrammingWrite offset size
  let (c, generated) := c.mmioWrite offset size value
  let c := if generated then { c with portStatusChangePending := true } else c
  if programming || generated then c.postPendingPortStatusChangeEvent mem else (c, mem)

end XhciController

/-! ## Runs -/

/-- What happens to a controller: a register write, an event of a doorbell's command or transfer, guest memory written
by the guest or by the rest of a doorbell, and the interrupt of a vector sent. -/
inductive Action
  | mmioWrite (offset size : Nat) (value : UInt64)
  | post (interrupter : Nat) (parameter : UInt64) (status : UInt32) (kind : EventKind)
  | memory (mem : GuestMemory)
  | messageSent (vector : Nat)

structure Machine where
  xhci : XhciController
  mem : GuestMemory

namespace Machine

def step (m : Machine) : Action → Machine
  | .mmioWrite offset size value =>
    let written := m.xhci.mmioWriteWithMem m.mem offset size value
    ⟨written.1, written.2⟩
  | .post interrupter parameter status kind =>
    let posted := m.xhci.postEventToInterrupter m.mem interrupter parameter status kind.control
    ⟨posted.1, posted.2.1⟩
  | .memory mem => ⟨m.xhci, mem⟩
  | .messageSent vector =>
    if h : vector < interrupterCount then ⟨m.xhci.clearInterrupterPending ⟨vector, h⟩, m.mem⟩ else m

def run (m : Machine) (actions : List Action) : Machine := actions.foldl step m

end Machine

end BridgeVm.Xhci
