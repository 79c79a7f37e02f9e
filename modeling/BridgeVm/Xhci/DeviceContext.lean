import BridgeVm.Xhci.ControlTransfer

/-!
# The slot and its contexts (`device_context.rs`, `device_context_drop_context.rs`, `device_context_mem.rs`,
`dci3_endpoint_state.rs`, `dci5_endpoint_state.rs`)

What commands do to the one slot: they read input contexts and write output contexts in guest memory, and they capture,
move and drop the transfer rings of EP0, of the keyboard (DCI 3) and of the pointer (DCI 5).
-/

namespace BridgeVm.Xhci

open Lib

def ep0OutputContextOffset : Nat := 0x20

def dci3OutputContextOffset : Nat := 0x60

def dci5OutputContextOffset : Nat := 0xa0

def slotInputContextOffset : Nat := 0x20

def ep0InputContextOffset : Nat := 0x40

def dci3InputContextOffset : Nat := 0x80

def dci5InputContextOffset : Nat := 0xc0

/-- `EP_CONTEXT_BYTES`. -/
def epContextBytes : Nat := 32

def epStateDisabled : UInt32 := 0

def epStateRunning : UInt32 := 1

def epStateStopped : UInt32 := 3

/-- `SLOT_STATE_DEFAULT`, `SLOT_STATE_ADDRESSED`. -/
def slotStateDefault : UInt32 := 0x10000000

def slotStateAddressed : UInt32 := 0x18000000

/-! ## The slot -/

/-- The interrupt-IN endpoint of the keyboard. -/
structure Dci3 where
  dequeue : Nat
  ringBase : Nat
  dcs : Bool
  twoEntryQueueRearm : Bool
  lastDequeue : Nat
  lastDcs : Bool
  lastRingBase : Nat
  lastRingDcs : Bool
  lastReusable : Bool
deriving DecidableEq

/-- The interrupt-IN endpoint of the pointer. -/
structure Dci5 where
  dequeue : Nat
  ringBase : Nat
  dcs : Bool
deriving DecidableEq

structure Slot1 where
  ep0Dequeue : Nat
  ep0Dcs : Bool
  dci3 : Dci3
  dci5 : Dci5
  usbConfiguration : UInt8
deriving DecidableEq

/-- `invalidate_slot1_dci3_endpoint_state`. -/
def Dci3.invalid : Dci3 := ⟨0, 0, false, false, 0, false, 0, false, false⟩

/-- `invalidate_slot1_dci5_endpoint_state`. -/
def Dci5.invalid : Dci5 := ⟨0, 0, false⟩

def Slot1.new : Slot1 := ⟨0, false, .invalid, .invalid, 0⟩

/-- `remember_slot1_dci3_endpoint_state`. -/
def Dci3.remember (e : Dci3) : Dci3 :=
  if e.dequeue ≠ 0 ∧ e.ringBase ≠ 0 then
    { e with
      lastDequeue := e.dequeue
      lastDcs := e.dcs
      lastRingBase := e.ringBase
      lastRingDcs := e.dcs
      lastReusable := true }
  else e

/-- The ring of the endpoint starts at a raw dequeue pointer. -/
def Dci3.capture (e : Dci3) (rawDequeue : UInt64) : Dci3 :=
  { e with
    dequeue := (rawDequeue &&& ~~~0xf).toNat
    ringBase := (rawDequeue &&& ~~~0xf).toNat
    dcs := rawDequeue &&& 1 != 0
    twoEntryQueueRearm := false }

def Dci5.capture (rawDequeue : UInt64) : Dci5 where
  dequeue := (rawDequeue &&& ~~~0xf).toNat
  ringBase := (rawDequeue &&& ~~~0xf).toNat
  dcs := rawDequeue &&& 1 != 0

/-! ## Contexts in guest memory -/

/-- A context of the slot's output contexts. -/
def outputContextAt (mem : GuestMemory) (dcbaap : UInt64) (offset : Nat) : Option Nat :=
  (outputContextForSlot mem dcbaap).bind fun outputContext => checkedAdd outputContext offset

/-- The dequeue pointer in an endpoint context. -/
def rawDequeueOf (context : List UInt8) : UInt64 := UInt64.ofNat (ofLeBytes (slice context 8 8))

/-- The output dequeue pointer of an interrupt-IN endpoint is written. -/
def writeOutputDequeueAt (mem : GuestMemory) (dcbaap : UInt64) (offset dequeue : Nat) (dcs : Bool) : GuestMemory :=
  match (outputContextAt mem dcbaap offset).bind fun gpa => checkedAdd gpa 8 with
  | none => mem
  | some dequeueGpa => (mem.writeBytes dequeueGpa (toLeBytes 8 (dequeue ||| dcs.toNat))).1

/-- The input context of an endpoint, when the endpoint is to be added. -/
def addedInputContext (mem : GuestMemory) (inputContext dci offset : Nat) : Option (List UInt8) :=
  ((checkedAdd inputContext 4).bind fun gpa => readMemU32 mem gpa).bind fun addContext =>
    if addContext &&& (1 <<< UInt32.ofNat dci) != 0 then
      (checkedAdd inputContext offset).bind fun gpa => mem.readBytes gpa epContextBytes
    else none

/-- The input context of an endpoint becomes its output context. -/
def publishContext (mem : GuestMemory) (dcbaap : UInt64) (offset : Nat) (context : List UInt8) : GuestMemory :=
  match outputContextAt mem dcbaap offset with
  | none => mem
  | some gpa => (mem.writeBytes gpa context).1

namespace Slot1

/-- `write_slot1_dci3_output_dequeue`. -/
def writeDci3OutputDequeue (s : Slot1) (dcbaap : UInt64) (mem : GuestMemory) : Slot1 × GuestMemory :=
  let s := { s with dci3 := s.dci3.remember }
  (s, writeOutputDequeueAt mem dcbaap dci3OutputContextOffset s.dci3.dequeue s.dci3.dcs)

/-- `write_slot1_dci5_output_dequeue`. -/
def writeDci5OutputDequeue (s : Slot1) (dcbaap : UInt64) (mem : GuestMemory) : GuestMemory :=
  writeOutputDequeueAt mem dcbaap dci5OutputContextOffset s.dci5.dequeue s.dci5.dcs

/-- `write_slot1_ep0_output_dequeue`. -/
def writeEp0OutputDequeue (s : Slot1) (dcbaap : UInt64) (mem : GuestMemory) : GuestMemory :=
  match ep0OutputContext mem dcbaap with
  | none => mem
  | some ep0OutputGpa =>
    match checkedAdd ep0OutputGpa 8 with
    | none => mem
    | some ep0DequeueGpa =>
      if (mem.readBytes ep0OutputGpa epContextBytes).isNone then mem
      else (mem.writeBytes ep0DequeueGpa (toLeBytes 8 (s.ep0Dequeue ||| s.ep0Dcs.toNat))).1

/-- `write_slot1_ep0_output_stopped`. -/
def writeEp0OutputStopped (s : Slot1) (dcbaap : UInt64) (mem : GuestMemory) : GuestMemory :=
  match ep0OutputContext mem dcbaap with
  | none => mem
  | some ep0OutputGpa =>
    if (mem.readBytes ep0OutputGpa epContextBytes).isNone then mem
    else
      let (mem, written) := writeEpContextState mem ep0OutputGpa epStateStopped
      if written then s.writeEp0OutputDequeue dcbaap mem else mem

/-- `capture_slot1_dci3_input_context`: whether the endpoint was added. -/
def captureDci3InputContext (s : Slot1) (dcbaap : UInt64) (mem : GuestMemory) (inputContext : Nat) :
    Slot1 × GuestMemory × Bool :=
  match addedInputContext mem inputContext 3 dci3InputContextOffset with
  | none => (s, mem, false)
  | some context =>
    ({ s with dci3 := (s.dci3.capture (rawDequeueOf context)).remember },
      publishContext mem dcbaap dci3OutputContextOffset context, true)

/-- `capture_slot1_dci5_input_context`. -/
def captureDci5InputContext (s : Slot1) (dcbaap : UInt64) (mem : GuestMemory) (inputContext : Nat) :
    Slot1 × GuestMemory :=
  match addedInputContext mem inputContext 5 dci5InputContextOffset with
  | none => (s, mem)
  | some context =>
    ({ s with dci5 := .capture (rawDequeueOf context) }, publishContext mem dcbaap dci5OutputContextOffset context)

/-! ## Endpoints are disabled -/

/-- One endpoint context of the output contexts is disabled: `none` when a write fails, which ends the loop over the
endpoints. -/
def disableEndpointAt (mem : GuestMemory) (outputContext offset : Nat) : GuestMemory × Bool :=
  match (checkedAdd outputContext offset).bind fun gpa => (checkedAdd gpa 8).map fun dequeueGpa =>
    (gpa, dequeueGpa) with
  | none => (mem, true)
  | some (endpointGpa, dequeueGpa) =>
    if (mem.readBytes endpointGpa epContextBytes).isNone then (mem, true)
    else
      let (mem, written) := writeEpContextState mem endpointGpa epStateDisabled
      if !written then (mem, false) else mem.writeBytes dequeueGpa (toLeBytes 8 0)

def disableEndpointsAt (mem : GuestMemory) (outputContext : Nat) : List Nat → GuestMemory
  | [] => mem
  | offset :: offsets =>
    let (mem, goOn) := disableEndpointAt mem outputContext offset
    if goOn then disableEndpointsAt mem outputContext offsets else mem

/-- `disable_slot1_context`. -/
def disableContext (s : Slot1) (dcbaap : UInt64) (mem : GuestMemory) : Slot1 × GuestMemory :=
  ({ s with ep0Dequeue := 0, ep0Dcs := false, dci3 := .invalid, dci5 := .invalid },
    match outputContextForSlot mem dcbaap with
    | none => mem
    | some outputContext =>
      disableEndpointsAt mem outputContext [ep0OutputContextOffset, dci3OutputContextOffset, dci5OutputContextOffset])

/-- `disable_slot1_endpoint_output_context`. -/
def disableEndpointOutputContext (mem : GuestMemory) (dcbaap : UInt64) (offset : Nat) : GuestMemory :=
  match outputContextForSlot mem dcbaap with
  | none => mem
  | some outputContext => (disableEndpointAt mem outputContext offset).1

/-- `apply_slot1_configure_endpoint_drop_context`. -/
def applyDropContext (s : Slot1) (dcbaap : UInt64) (mem : GuestMemory) (inputContext : Nat) : Slot1 × GuestMemory :=
  match readMemU32 mem inputContext with
  | none => (s, mem)
  | some dropContext =>
    let (s, mem) :=
      if dropContext &&& ((1 : UInt32) <<< 3) != 0 then
        ({ s with dci3 := .invalid }, disableEndpointOutputContext mem dcbaap dci3OutputContextOffset)
      else (s, mem)
    if dropContext &&& ((1 : UInt32) <<< 5) != 0 then
      ({ s with dci5 := .invalid }, disableEndpointOutputContext mem dcbaap dci5OutputContextOffset)
    else (s, mem)

/-- `capture_configure_endpoint_input_context`. -/
def captureConfigureEndpoint (s : Slot1) (dcbaap : UInt64) (mem : GuestMemory) (inputContext : UInt64)
    (slotId : UInt32) : Slot1 × GuestMemory :=
  if slotId ≠ slot1 then (s, mem)
  else
    let inputContext := (inputContext &&& ~~~0x3f).toNat
    let (s, mem) := s.applyDropContext dcbaap mem inputContext
    let (s, mem, _) := s.captureDci3InputContext dcbaap mem inputContext
    s.captureDci5InputContext dcbaap mem inputContext

/-! ## The device is addressed -/

/-- Writes one after the other, up to the first that fails. -/
def writeAll (mem : GuestMemory) : List (Nat × List UInt8) → GuestMemory × Bool
  | [] => (mem, true)
  | (gpa, bytes) :: writes =>
    let (mem, written) := mem.writeBytes gpa bytes
    if written then writeAll mem writes else (mem, false)

/-- What is written to the output contexts of the slot and of EP0, up to the state of EP0. -/
def addressWrites (outputContext slotDword3Gpa ep0OutputGpa : Nat) (slotInput : Option (List UInt8))
    (slotState : UInt32) (ep0Input : List UInt8) : List (Nat × List UInt8) :=
  (slotInput.map fun bytes => (outputContext, bytes)).toList ++
    [(slotDword3Gpa, toLeBytes 4 (slotState ||| (slot1 &&& 0xff)).toNat), (ep0OutputGpa, ep0Input)]

/-- The places of the output contexts, when they can be read. -/
def addressTargets (mem : GuestMemory) (dcbaap : UInt64) : Option (Nat × Nat × Nat × Nat) :=
  (outputContextForSlot mem dcbaap).bind fun outputContext =>
    (checkedAdd outputContext 0x0c).bind fun slotDword3Gpa =>
      (checkedAdd outputContext ep0OutputContextOffset).bind fun ep0OutputGpa =>
        (checkedAdd ep0OutputGpa 8).bind fun ep0DequeueGpa =>
          if (mem.readBytes slotDword3Gpa 4).isNone || (mem.readBytes ep0OutputGpa epContextBytes).isNone then none
          else some (outputContext, slotDword3Gpa, ep0OutputGpa, ep0DequeueGpa)

/-- `capture_address_device_input_context` once EP0 is captured. -/
def publishAddress (s : Slot1) (dcbaap : UInt64) (mem : GuestMemory) (inputContext : Nat)
    (slotInput : Option (List UInt8)) (ep0Input : List UInt8) (blockSetAddressRequest : Bool) : Slot1 × GuestMemory :=
  match addressTargets mem dcbaap with
  | none => (s, mem)
  | some (outputContext, slotDword3Gpa, ep0OutputGpa, ep0DequeueGpa) =>
    let rawDequeue := toLeBytes 8 (rawDequeueOf ep0Input).toNat
    if blockSetAddressRequest then
      let (mem, written) := writeAll mem
        (addressWrites outputContext slotDword3Gpa ep0OutputGpa slotInput slotStateDefault ep0Input ++
          [(ep0DequeueGpa, rawDequeue)])
      if !written then (s, mem)
      else
        let (s, mem, _) := s.captureDci3InputContext dcbaap mem inputContext
        s.captureDci5InputContext dcbaap mem inputContext
    else
      let (mem, written) := writeAll mem
        (addressWrites outputContext slotDword3Gpa ep0OutputGpa slotInput slotStateAddressed ep0Input)
      if !written then (s, mem)
      else
        let (mem, written) := writeEpContextState mem ep0OutputGpa epStateRunning
        if !written then (s, mem)
        else
          let (mem, written) := mem.writeBytes ep0DequeueGpa rawDequeue
          if !written then (s, mem)
          else
            let (s, mem, added) := s.captureDci3InputContext dcbaap mem inputContext
            let (s, mem) :=
              if !added && s.dci3.dequeue ≠ 0 && s.dci3.ringBase ≠ 0 then s.writeDci3OutputDequeue dcbaap mem
              else (s, mem)
            s.captureDci5InputContext dcbaap mem inputContext

/-- `capture_address_device_input_context`. -/
def captureAddressDevice (s : Slot1) (dcbaap : UInt64) (mem : GuestMemory) (inputContext : UInt64) (slotId : UInt32)
    (blockSetAddressRequest : Bool) : Slot1 × GuestMemory :=
  if slotId ≠ slot1 then (s, mem)
  else
    let inputContext := (inputContext &&& ~~~0x3f).toNat
    let slotInput := (checkedAdd inputContext slotInputContextOffset).bind fun gpa => mem.readBytes gpa 12
    match (checkedAdd inputContext ep0InputContextOffset).bind fun gpa => mem.readBytes gpa epContextBytes with
    | none => (s, mem)
    | some ep0Input =>
      let rawDequeue := rawDequeueOf ep0Input
      let s := { s with ep0Dequeue := (rawDequeue &&& ~~~0xf).toNat, ep0Dcs := rawDequeue &&& 1 != 0 }
      s.publishAddress dcbaap mem inputContext slotInput ep0Input blockSetAddressRequest

end Slot1

end BridgeVm.Xhci
