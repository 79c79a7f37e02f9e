import BridgeVm.Xhci.EventRing
import BridgeVm.Xhci.Usb

/-!
# Control transfers on EP0 (`xhci/transfers/`, `xhci/device_context.rs`, `xhci/device_context_mem.rs`)

What a doorbell of EP0 does: the control TD at the dequeue pointer is read and checked (`controlTransfer`), and one that
is accepted is executed (`execute`): the data of an IN stage, the completion events, and then the dequeue pointer and
the configuration. Nothing is written before all checks were made. The cycle bits of the TRBs are read by no function
here, and the cycle state of the endpoint is kept as it was captured. Results carry the TRBs of the TD, which no
function reads either.
-/

namespace BridgeVm.Xhci

open Lib

/-- TRB types. -/
def trbTypeSetupStage : UInt32 := 2

def trbTypeDataStage : UInt32 := 3

def trbTypeStatusStage : UInt32 := 4

def trbTypeLink : UInt32 := 6

def trbTypeEventData : UInt32 := 7

/-- `TRB_LINK_TOGGLE_CYCLE`. -/
def trbToggleCycle : UInt32 := 0x2

def trbChain : UInt32 := 0x10

def trbIoc : UInt32 := 0x20

/-- `TRB_IMMEDIATE_DATA`. -/
def trbImmediateData : UInt32 := 0x40

/-- `TRB_DATA_STAGE_DIRECTION_IN`. -/
def trbDataStageDirectionIn : UInt32 := 0x10000

def completionCodeSuccess : UInt32 := 1

def completionCodeShortPacket : UInt32 := 13

def endpointIdEp0 : UInt32 := 1

/-! ## Transfer TRBs (`trb.rs`) -/

structure TransferTrb where
  gpa : Nat
  parameter : UInt64
  status : UInt32
  control : UInt32
deriving DecidableEq, Repr

namespace TransferTrb

/-- `trb_type`. -/
def trbType (trb : TransferTrb) : UInt32 := (trb.control >>> 10) &&& 0x3f

/-- `trb_transfer_length`. -/
def transferLength (trb : TransferTrb) : UInt32 := trb.status &&& 0x1fffff

/-- `trb_interrupter_target`. -/
def interrupterTarget (trb : TransferTrb) : Nat := (trb.status >>> 22).toNat

/-- Where a Link TRB points. -/
def linkPointer (trb : TransferTrb) : Nat := (trb.parameter &&& ~~~0xf).toNat

/-- The cycle bit, and whether a Link TRB toggles the cycle state. -/
def cycle (trb : TransferTrb) : Bool := trb.control &&& trbCycle != 0

def togglesCycle (trb : TransferTrb) : Bool := trb.trbType == trbTypeLink && trb.control &&& trbToggleCycle != 0

end TransferTrb

/-- `read_transfer_trb`. -/
def readTransferTrb (mem : GuestMemory) (gpa : Nat) : Option TransferTrb :=
  (mem.readBytes gpa 16).map fun raw =>
    { gpa
      parameter := UInt64.ofNat (ofLeBytes (slice raw 0 8))
      status := UInt32.ofNat (ofLeBytes (slice raw 8 4))
      control := UInt32.ofNat (ofLeBytes (slice raw 12 4)) }

/-- A TRB of a TD, and the Link TRB it was reached through. -/
structure TdTrb where
  link : Option TransferTrb
  trb : TransferTrb

def TdTrb.trbs (t : TdTrb) : List TransferTrb := t.link.toList ++ [t.trb]

/-- `read_td_trb`: the TRB at an address, or the one the Link TRB there points to. -/
def readTdTrb (mem : GuestMemory) (gpa : Nat) : Option TdTrb :=
  match readTransferTrb mem gpa with
  | none => none
  | some trb =>
    if trb.trbType ≠ trbTypeLink then some ⟨none, trb⟩
    else (readTransferTrb mem trb.linkPointer).map fun target => ⟨some trb, target⟩

/-- `control_setup_start`, and the Setup Stage TRB read there. -/
def controlSetup (mem : GuestMemory) (currentDequeue : Nat) : Option TdTrb := readTdTrb mem currentDequeue

/-! ## Completions (`completion.rs`) -/

structure ControlCompletion where
  statusStage : TransferTrb
  eventData : Option TransferTrb
  trailingEventData : Option TransferTrb
  trbs : List TransferTrb

/-- A TRB when it asks for an event. -/
def requested (trb : TransferTrb) : Option TransferTrb := if trb.control &&& trbIoc != 0 then some trb else none

/-- `find_trailing_event_data`, when the Status Stage chains one. -/
def findTrailingEventData (mem : GuestMemory) (statusStage : TransferTrb) : Option TdTrb :=
  match checkedAdd statusStage.gpa trbSizeBytes with
  | none => none
  | some trailingGpa =>
    match readTdTrb mem trailingGpa with
    | none => none
    | some trailing => if trailing.trb.trbType ≠ trbTypeEventData then none else some trailing

/-- The completion from its Status Stage on. -/
def statusCompletion (mem : GuestMemory) (before : List TransferTrb) (eventData : Option TransferTrb)
    (status : TdTrb) : Option ControlCompletion :=
  if status.trb.control &&& trbChain == 0 then some ⟨status.trb, eventData, none, before ++ status.trbs⟩
  else
    (findTrailingEventData mem status.trb).map fun trailing =>
      ⟨status.trb, eventData, requested trailing.trb, before ++ status.trbs ++ trailing.trbs⟩

/-- `find_control_completion`: the Status Stage, after an Event Data TRB or at once. -/
def findControlCompletion (mem : GuestMemory) (firstGpa : Nat) : Option ControlCompletion :=
  match readTdTrb mem firstGpa with
  | none => none
  | some first =>
    if first.trb.trbType = trbTypeStatusStage then statusCompletion mem [] none first
    else if first.trb.trbType = trbTypeEventData then
      match checkedAdd first.trb.gpa trbSizeBytes with
      | none => none
      | some secondGpa =>
        match readTdTrb mem secondGpa with
        | none => none
        | some second =>
          if second.trb.trbType = trbTypeStatusStage then
            statusCompletion mem first.trbs (requested first.trb) second
          else none
    else none

/-- `next_control_dequeue`: behind the last TRB, or where the Link TRB there points. -/
def nextControlDequeue (mem : GuestMemory) (lastTdTrbGpa : Nat) : Option Nat :=
  match checkedAdd lastTdTrbGpa trbSizeBytes with
  | none => none
  | some nextGpa =>
    match readTransferTrb mem nextGpa with
    | none => some nextGpa
    | some nextTrb => if nextTrb.trbType = trbTypeLink then some nextTrb.linkPointer else some nextGpa

structure ControlEventRequest where
  setup : TransferTrb
  dataStage : Option TransferTrb
  completion : ControlCompletion
  residualLength : UInt32
  transferredLength : UInt32

/-- An event as `post_completion_event` is called for it. -/
structure CompletionEvent where
  parameter : UInt64
  code : UInt32
  transferLength : UInt32
  eventData : Bool
  interrupter : Nat
deriving DecidableEq

namespace CompletionEvent

def status (e : CompletionEvent) : UInt32 := (e.code <<< 24) ||| e.transferLength

/-- `transfer_event_control`. -/
def control (e : CompletionEvent) : UInt32 := (EventKind.transfer endpointIdEp0 e.eventData).control

end CompletionEvent

/-- The TRB whose end is the end of the TD. -/
def ControlCompletion.lastTdTrbGpa (c : ControlCompletion) : Nat :=
  match c.trailingEventData with
  | some trailing => trailing.gpa
  | none => c.statusStage.gpa

namespace ControlEventRequest

def dataTdCompletionCode (r : ControlEventRequest) : UInt32 :=
  if r.residualLength > 0 then completionCodeShortPacket else completionCodeSuccess

/-- The event of a TRB that ends without an Event Data TRB. -/
def stageEvent (trb : TransferTrb) (code transferLength : UInt32) : CompletionEvent :=
  ⟨UInt64.ofNat trb.gpa, code, transferLength, false, trb.interrupterTarget⟩

def eventDataEvent (trb : TransferTrb) (code transferLength : UInt32) : CompletionEvent :=
  ⟨trb.parameter, code, transferLength, true, trb.interrupterTarget⟩

/-- The events of `post_control_completion_events`, in the order they are posted. -/
def events (r : ControlEventRequest) : List CompletionEvent :=
  (match r.completion.eventData with
    | some eventData => [eventDataEvent eventData r.dataTdCompletionCode r.transferredLength]
    | none =>
      [stageEvent r.setup completionCodeSuccess 0] ++
        (r.dataStage.toList.map fun data => stageEvent data r.dataTdCompletionCode r.residualLength) ++
        [stageEvent r.completion.statusStage completionCodeSuccess 0]) ++
    r.completion.trailingEventData.toList.map fun trailing => eventDataEvent trailing completionCodeSuccess 0

end ControlEventRequest

/-! ## The stages (`control.rs`, `control_data.rs`) -/

/-- A control transfer that passed all checks: its events, the data of an IN stage with its address, the configuration
it sets, and the TRBs of its TD with the Link TRBs crossed. -/
structure ControlTransfer where
  request : ControlEventRequest
  dataIn : Option (Nat × List UInt8)
  configuration : Option UInt8
  trbs : List TransferTrb

/-- `guest_range_readable`, 256 bytes a round; a round takes at least a byte, so `len` rounds take all. -/
def guestRangeReadableIn (mem : GuestMemory) : (rounds gpa len : Nat) → Bool
  | 0, _, len => len == 0
  | rounds + 1, gpa, len =>
    if len = 0 then true
    else
      let chunk := min len 256
      if (mem.readBytes gpa chunk).isNone then false
      else
        match checkedAdd gpa chunk with
        | none => false
        | some nextGpa => guestRangeReadableIn mem rounds nextGpa (len - chunk)

def guestRangeReadable (mem : GuestMemory) (gpa len : Nat) : Bool := guestRangeReadableIn mem len gpa len

/-- The Data Stage TRB behind the Setup Stage, and the completion behind it. -/
def dataStages (mem : GuestMemory) (setup : TransferTrb) : Option (TdTrb × ControlCompletion) :=
  match checkedAdd setup.gpa trbSizeBytes with
  | none => none
  | some dataGpa =>
    match readTdTrb mem dataGpa with
    | none => none
    | some data =>
      match checkedAdd data.trb.gpa trbSizeBytes with
      | none => none
      | some completionGpa => (findControlCompletion mem completionGpa).map fun completion => (data, completion)

/-- `process_ep0_data_out_control_transfer` up to its events. -/
def dataOutControlTransfer (mem : GuestMemory) (setup : TdTrb) : Option ControlTransfer :=
  match dataStages mem setup.trb with
  | none => none
  | some (data, completion) =>
    let setupPacket := parseSetupPacket setup.trb.parameter
    let dataLength := data.trb.transferLength
    if data.trb.trbType ≠ trbTypeDataStage then none
    else if data.trb.control &&& trbDataStageDirectionIn != 0 then none
    else if dataLength ≠ setupPacket.length.toUInt32 then none
    else
      let immediate := data.trb.control &&& trbImmediateData != 0 && decide (dataLength ≤ 8)
      if !immediate && !guestRangeReadable mem data.trb.parameter.toNat dataLength.toNat then none
      else
        some
          { request := ⟨setup.trb, some data.trb, completion, 0, dataLength⟩
            dataIn := none
            configuration := none
            trbs := setup.trbs ++ data.trbs ++ completion.trbs }

/-- `process_ep0_data_in_control_transfer` up to its data. -/
def dataInControlTransfer (mem : GuestMemory) (setup : TdTrb) (usbConfiguration : UInt8) : Option ControlTransfer :=
  match dataStages mem setup.trb with
  | none => none
  | some (data, completion) =>
    let setupPacket := parseSetupPacket setup.trb.parameter
    match dataInForSetupPacket setupPacket usbConfiguration with
    | none => none
    | some dataIn =>
      let dataLength := data.trb.transferLength
      if data.trb.trbType ≠ trbTypeDataStage then none
      else if data.trb.control &&& trbDataStageDirectionIn == 0 then none
      else if dataLength = 0 then none
      else if setupPacket.length.toUInt32 ≠ dataLength then none
      else
        let transferLength := min dataLength.toNat dataIn.length
        some
          { request :=
              ⟨setup.trb, some data.trb, completion, UInt32.ofNat (dataLength.toNat - transferLength),
                UInt32.ofNat transferLength⟩
            dataIn := some (data.trb.parameter.toNat, dataIn.take transferLength)
            configuration := none
            trbs := setup.trbs ++ data.trbs ++ completion.trbs }

/-- A request without a data stage. -/
def noDataControlTransfer (mem : GuestMemory) (setup : TdTrb) : Option ControlTransfer :=
  match checkedAdd setup.trb.gpa trbSizeBytes with
  | none => none
  | some completionGpa =>
    (findControlCompletion mem completionGpa).map fun completion =>
      { request := ⟨setup.trb, none, completion, 0, 0⟩
        dataIn := none
        configuration := setConfigurationValue (parseSetupPacket setup.trb.parameter)
        trbs := setup.trbs ++ completion.trbs }

/-- `process_ep0_control_transfer` up to its first effect: the control transfer at the dequeue pointer. -/
def controlTransfer (mem : GuestMemory) (currentDequeue : Nat) (usbConfiguration : UInt8) : Option ControlTransfer :=
  if currentDequeue = 0 then none
  else
    match controlSetup mem currentDequeue with
    | none => none
    | some setup =>
      let setupPacket := parseSetupPacket setup.trb.parameter
      if setup.trb.trbType ≠ trbTypeSetupStage then none
      else if (setConfigurationValue setupPacket).isSome || isHidSetProtocolRequest setupPacket ||
          isHidSetIdleRequest setupPacket || isClearEndpointHaltRequest setupPacket then
        noDataControlTransfer mem setup
      else if isHidSetReportRequest setupPacket then dataOutControlTransfer mem setup
      else dataInControlTransfer mem setup usbConfiguration

/-! ## Output contexts -/

/-- `read_mem_u32`. -/
def readMemU32 (mem : GuestMemory) (gpa : Nat) : Option UInt32 :=
  (mem.readBytes gpa 4).map fun raw => UInt32.ofNat (ofLeBytes raw)

/-- `output_context_for_slot`, of the one slot. -/
def outputContextForSlot (mem : GuestMemory) (dcbaap : UInt64) : Option Nat :=
  match checkedAdd (dcbaap &&& ~~~0x3f).toNat (slot1.toNat * 8) with
  | none => none
  | some dcbaaEntry =>
    match mem.readBytes dcbaaEntry 8 with
    | none => none
    | some raw =>
      let outputContext := (UInt64.ofNat (ofLeBytes raw) &&& ~~~0x3f).toNat
      if outputContext ≠ 0 then some outputContext else none

/-- The EP0 context of the slot. -/
def ep0OutputContext (mem : GuestMemory) (dcbaap : UInt64) : Option Nat :=
  (outputContextForSlot mem dcbaap).bind fun outputContext => checkedAdd outputContext 0x20

/-- `write_ep_context_state`. -/
def writeEpContextState (mem : GuestMemory) (epContextGpa : Nat) (state : UInt32) : GuestMemory × Bool :=
  match readMemU32 mem epContextGpa with
  | none => (mem, false)
  | some dword0 => mem.writeBytes epContextGpa (toLeBytes 4 ((dword0 &&& ~~~0x7) ||| state).toNat)

/-! ## The endpoint -/

/-- EP0 as the controller keeps it. -/
structure Ep0 where
  xhci : XhciController
  slot1Ep0Dequeue : Nat
  slot1Ep0Dcs : Bool
  usbConfiguration : UInt8

/-- `write_slot1_ep0_output_dequeue`. -/
def Ep0.writeOutputDequeue (e : Ep0) (mem : GuestMemory) : GuestMemory :=
  match ep0OutputContext mem e.xhci.dcbaap with
  | none => mem
  | some ep0OutputGpa =>
    match checkedAdd ep0OutputGpa 8 with
    | none => mem
    | some ep0DequeueGpa =>
      if (mem.readBytes ep0OutputGpa 32).isNone then mem
      else (mem.writeBytes ep0DequeueGpa (toLeBytes 8 (e.slot1Ep0Dequeue ||| e.slot1Ep0Dcs.toNat))).1

/-- The events posted one after the other, up to the first that is refused: those posted. -/
def postEvents (c : XhciController) (mem : GuestMemory) :
    List CompletionEvent → XhciController × GuestMemory × List EventPostTrace
  | [] => (c, mem, [])
  | event :: events =>
    match c.postEventToInterrupter mem event.interrupter event.parameter event.status event.control with
    | (c, mem, none) => (c, mem, [])
    | (c, mem, some trace) =>
      let (c, mem, posted) := postEvents c mem events
      (c, mem, trace :: posted)

/-- What a doorbell did for the TD it found. -/
structure Effects where
  wrote : Bool
  posted : List EventPostTrace
  done : Bool

/-- `post_control_completion_events`, and the configuration set once everything was posted. -/
def Ep0.postControlCompletionEvents (e : Ep0) (mem : GuestMemory) (wrote : Bool) (t : ControlTransfer) :
    Ep0 × GuestMemory × Effects :=
  match nextControlDequeue mem t.request.completion.lastTdTrbGpa with
  | none => (e, mem, ⟨wrote, [], false⟩)
  | some nextDequeue =>
    let (xhci, mem, posted) := postEvents e.xhci mem t.request.events
    if posted.length = t.request.events.length then
      let e := { e with xhci, slot1Ep0Dequeue := nextDequeue }
      let mem := e.writeOutputDequeue mem
      ({ e with usbConfiguration := t.configuration.getD e.usbConfiguration }, mem, ⟨wrote, posted, true⟩)
    else ({ e with xhci }, mem, ⟨wrote, posted, false⟩)

/-- A transfer that passed the checks: the data of an IN stage (`write_control_in_data`), then the events. -/
def Ep0.execute (e : Ep0) (mem : GuestMemory) (t : ControlTransfer) : Ep0 × GuestMemory × Effects :=
  match t.dataIn with
  | none => e.postControlCompletionEvents mem false t
  | some (gpa, bytes) =>
    let (mem, written) := mem.writeBytes gpa bytes
    if !written then (e, mem, ⟨false, [], false⟩)
    else e.postControlCompletionEvents mem true t

/-- `process_ep0_control_transfer`: the transfer that was found and what was done for it. -/
def Ep0.processControlTransfer (e : Ep0) (mem : GuestMemory) :
    Ep0 × GuestMemory × Option (ControlTransfer × Effects) :=
  match controlTransfer mem e.slot1Ep0Dequeue e.usbConfiguration with
  | none => (e, mem, none)
  | some t =>
    let (e, mem, effects) := e.execute mem t
    (e, mem, some (t, effects))

/-- `process_ep0_doorbell` before the transfer: a stopped endpoint runs again; `none` when its context cannot be
written. -/
def Ep0.resume (e : Ep0) (mem : GuestMemory) : Option GuestMemory :=
  match ep0OutputContext mem e.xhci.dcbaap with
  | none => some mem
  | some context =>
    match readMemU32 mem context with
    | none => some mem
    | some state =>
      if state &&& 0x7 = 3 then
        let (mem, written) := writeEpContextState mem context 1
        if written then some mem else none
      else some mem

/-- `process_ep0_doorbell`. -/
def Ep0.processDoorbell (e : Ep0) (mem : GuestMemory) : Ep0 × GuestMemory × Option (ControlTransfer × Effects) :=
  match e.resume mem with
  | none => (e, mem, none)
  | some mem => e.processControlTransfer mem

end BridgeVm.Xhci
