import BridgeVm.Lib.Threads
import BridgeVm.Lib.Transition
import Mathlib.Tactic.Linarith

/-!
# Pause and resume of the whole guest

`pause_gate.rs` and the loop of `run_secondary_until_parked`: the gate, the threads of the vCPUs and the calls of vCPU0,
one step for each access to shared state. The atomics are accessed outside the mutex, so a call of vCPU0 that holds it
takes several steps; what a secondary does under the mutex is one step, taken while vCPU0 does not hold it.
-/

namespace BridgeVm.Pause

/-! ## The gate -/

/-- `GateState`: what the mutex guards. -/
structure GateState where
  inLoop : Nat
  parked : Nat
  /-- Both host counters when the last vCPU stopped. -/
  pausedAt : Option (Nat × Nat)
  input : Bool
deriving DecidableEq

structure PauseGate where
  requested : Bool
  offset : Nat
  version : Nat
  state : GateState
deriving DecidableEq

def PauseGate.new : PauseGate := ⟨false, 0, 0, ⟨0, 0, none, false⟩⟩

/-- The guest's count for a host mach time: `mach.wrapping_sub(offset)`. -/
def PauseGate.guestCount (gate : PauseGate) (mach : Nat) : Nat := (mach + 2 ^ 64 - gate.offset) % 2 ^ 64

/-- What a resume did, in host counter ticks. -/
structure Resumed where
  paused : Nat
  offset : Nat
  /-- Raw-counter ticks beyond the mach ticks: the host slept this long. -/
  slept : Nat
deriving DecidableEq

/-- What `resume` makes of the host's counters: the paused mach ticks are added to the offset. -/
def PauseGate.resumed (gate : PauseGate) (mach raw : Nat) : Option Resumed :=
  gate.state.pausedAt.map fun (machAt, rawAt) =>
    let paused := mach - machAt
    { paused, offset := (gate.offset + paused) % 2 ^ 64, slept := raw - rawAt - paused }

/-! ## The threads of the vCPUs -/

/-- Where a vCPU's thread stands. -/
inductive Place
  /-- Not in the run loop. -/
  | outside
  /-- In the run loop, before `before_run`. -/
  | top
  /-- It loaded `requested` as true, and does not have the mutex yet. -/
  | requestSeen
  /-- In the wait. -/
  | waiting
  /-- Woken in the wait, and does not have the mutex again yet. -/
  | woken
  /-- In `take_offset`, before it loads the version. -/
  | takeOffset
  /-- It loaded another version than the one it applied. -/
  | loadOffset (version : Nat)
  /-- It loaded the offset too. -/
  | setOffset (version offset : Nat)
  /-- Between a return of `before_run` and its next call. -/
  | running
deriving DecidableEq

/-- In the run loop: from `enter_run_loop` to the drop of `InRunLoop`. -/
def Place.inLoop : Place → Bool
  | .outside => false
  | _ => true

/-- Counted as parked. -/
def Place.parked : Place → Bool
  | .waiting | .woken => true
  | _ => false

/-- Stopped at the gate, or before it. -/
def Place.stopped : Place → Bool
  | .outside | .top | .requestSeen | .waiting | .woken => true
  | _ => false

structure Vcpu where
  place : Place
  /-- The vCPU exists (`hv_vcpu_create`). -/
  created : Bool
  /-- `offset_version`: the version this thread applied. -/
  applied : Nat
  /-- The vTimer offset that the hypervisor holds for this vCPU. -/
  vtimer : Nat
deriving DecidableEq

/-- The guest's CNTVCT on this vCPU. -/
def Vcpu.cntvct (v : Vcpu) (mach : Nat) : Nat := (mach + 2 ^ 64 - v.vtimer) % 2 ^ 64

/-- A thread that is in the wait when `notify_all` is called. -/
def Vcpu.notified (v : Vcpu) : Vcpu := if v.place = .waiting then { v with place := .woken } else v

/-- What a step of one thread leaves behind, and whether it called `notify_all`. -/
structure Moved where
  gate : PauseGate
  vcpu : Vcpu
  notify : Bool

section Steps

variable (gate : PauseGate) (v : Vcpu)

/-- `enter_run_loop`, and `let mut offset_version = 0`. -/
def enterRunLoop : Moved :=
  ⟨{ gate with state.inLoop := gate.state.inLoop + 1 }, { v with place := .top, applied := 0 }, false⟩

/-- The drop of `InRunLoop`. -/
def leaveRunLoop : Moved :=
  ⟨{ gate with state.inLoop := gate.state.inLoop - 1 }, { v with place := .outside }, true⟩

/-- The load of `requested` in `before_run`. -/
def loadRequested : Vcpu := { v with place := if gate.requested then .requestSeen else .takeOffset }

/-- `before_run` from `lock` to the wait, or past it where the request is gone. -/
def park : Moved :=
  if gate.requested then
    ⟨{ gate with state.parked := gate.state.parked + 1 }, { v with place := .waiting }, true⟩
  else ⟨gate, { v with place := .takeOffset }, true⟩

/-- A woken thread has the mutex again: it waits on, or is parked no more. -/
def reacquire : Moved :=
  if gate.requested then ⟨gate, { v with place := .waiting }, false⟩
  else ⟨{ gate with state.parked := gate.state.parked - 1 }, { v with place := .takeOffset }, false⟩

/-! `take_offset`, load by load. -/

def loadVersion : Vcpu := { v with place := if gate.version = v.applied then .running else .loadOffset gate.version }

def loadOffset (version : Nat) : Vcpu := { v with place := .setOffset version gate.offset }

def applyOffset (version offset : Nat) : Vcpu := { v with place := .running, applied := version, vtimer := offset }

/-- The step of `take_offset` that a thread is at. -/
def takeOffsetStep : Option Vcpu :=
  match v.place with
  | .takeOffset => some (loadVersion gate v)
  | .loadOffset version => some (loadOffset gate v version)
  | .setOffset version offset => some (applyOffset v version offset)
  | _ => none

end Steps

inductive SecondaryAct
  /-- `create_secondary_hvf_vcpu`: a new vCPU starts at offset 0. -/
  | create
  /-- The thread ends, and its vCPU with it. -/
  | destroy
  | enterRunLoop
  | loadRequested
  | park
  /-- The wait ends without a notification. -/
  | wake
  | reacquire
  | takeOffset
  /-- The loop is at its top again. -/
  | next
  | leaveRunLoop
deriving DecidableEq

/-- A step of a secondary's thread. `locked`: vCPU0 holds the mutex. -/
def secondaryStep (locked : Bool) (gate : PauseGate) (v : Vcpu) : SecondaryAct → Option Moved
  | .create =>
    if v.place = .outside ∧ v.created = false then some ⟨gate, { v with created := true, vtimer := 0 }, false⟩
      else none
  | .destroy =>
    if v.place = .outside ∧ v.created = true then some ⟨gate, { v with created := false }, false⟩ else none
  | .enterRunLoop =>
    if v.place = .outside ∧ v.created = true ∧ locked = false then some (enterRunLoop gate v) else none
  | .loadRequested => if v.place = .top then some ⟨gate, loadRequested gate v, false⟩ else none
  | .park => if v.place = .requestSeen ∧ locked = false then some (park gate v) else none
  | .wake => if v.place = .waiting then some ⟨gate, { v with place := .woken }, false⟩ else none
  | .reacquire => if v.place = .woken ∧ locked = false then some (reacquire gate v) else none
  | .takeOffset => (takeOffsetStep gate v).map fun v => ⟨gate, v, false⟩
  | .next => if v.place = .running then some ⟨gate, { v with place := .top }, false⟩ else none
  | .leaveRunLoop =>
    if (v.place = .top ∨ v.place = .running) ∧ locked = false then some (leaveRunLoop gate v) else none

/-! ## The calls of vCPU0 -/

/-- The call vCPU0 is in, and where. -/
inductive Call
  | none
  /-- `pause` has set the request, and waits for the secondaries. -/
  | pausing
  /-- `pause` has returned `Paused`: the paused wait. -/
  | paused
  /-- `resume` before it stores the new offset, with the mutex. -/
  | storeOffset (offset : Nat)
  | bumpVersion
  | clearRequest
  /-- The request is cleared; `notify_all` and the end of the call are next, still with the mutex. -/
  | release
deriving DecidableEq

/-- vCPU0 holds the mutex across steps. -/
def Call.locked : Call → Bool
  | .none | .pausing | .paused => false
  | _ => true

/-- `requested` is set. -/
def Call.requesting : Call → Bool
  | .none | .release => false
  | _ => true

/-- The last vCPU has stopped, and `requested` is still set. -/
def Call.stops : Call → Bool
  | .paused | .storeOffset _ | .bumpVersion | .clearRequest => true
  | _ => false

structure Vm where
  gate : PauseGate
  /-- vCPU0, which never parks. -/
  primary : Vcpu
  call : Call
  secondaries : List Vcpu
  /-- The host's two counters. -/
  mach : Nat
  raw : Nat
deriving DecidableEq

/-- A VM with `n` secondaries, none of them created. -/
def Vm.start (n mach raw : Nat) : Vm :=
  { gate := .new, primary := ⟨.top, true, 0, 0⟩, call := .none
    secondaries := List.replicate n ⟨.outside, false, 0, 0⟩, mach, raw }

/-- `notify_all` of `changed`. -/
def Vm.notifyAll (s : Vm) : Vm := { s with secondaries := s.secondaries.map Vcpu.notified }

/-- One secondary has moved. -/
def Vm.put (s : Vm) (i : Nat) (m : Moved) : Vm :=
  let s := if m.notify then s.notifyAll else s
  { s with gate := m.gate, secondaries := s.secondaries.set i m.vcpu }

section Put

variable (s : Vm) (i : Nat) (m : Moved)

@[simp] theorem put_gate : (s.put i m).gate = m.gate := rfl

@[simp] theorem put_call : (s.put i m).call = s.call := by
  unfold Vm.put
  cases m.notify <;> rfl

@[simp] theorem put_mach : (s.put i m).mach = s.mach := by
  unfold Vm.put
  cases m.notify <;> rfl

end Put

/-- `pause` up to the wait for the secondaries. -/
def Vm.pause (s : Vm) : Vm :=
  if s.gate.state.pausedAt.isSome then s else { s with gate.requested := true, call := .pausing }

/-- The wait of `pause` sees `parked < in_loop` no more. -/
def Vm.paused (s : Vm) : Vm :=
  { s with gate.state.pausedAt := some (s.mach, s.raw), gate.state.input := false, call := .paused }

/-- `resume` up to its first store. -/
def Vm.resume (s : Vm) : Vm :=
  match s.gate.resumed s.mach s.raw with
  | none => s
  | some resumed => { s with gate.state.pausedAt := none, call := .storeOffset resumed.offset }

/-- The next step of the call vCPU0 is in. -/
def Vm.proceed (s : Vm) : Option Vm :=
  match s.call with
  | .pausing => if s.gate.state.parked < s.gate.state.inLoop then none else some s.paused
  | .storeOffset offset => some { s with gate.offset := offset, call := .bumpVersion }
  | .bumpVersion => some { s with gate.version := (s.gate.version + 1) % 2 ^ 64, call := .clearRequest }
  | .clearRequest => some { s with gate.requested := false, call := .release }
  | .release => some { s.notifyAll with call := .none }
  | .none | .paused => none

/-- A restored checkpoint: the vCPUs that exist get the offset, and `seed_offset` stores it. -/
def Vm.restore (s : Vm) (offset : Nat) : Vm :=
  { s with
    gate.offset := offset
    primary.vtimer := offset
    secondaries := s.secondaries.map fun v => if v.created then { v with vtimer := offset } else v }

inductive Act
  | secondary (i : Nat) (a : SecondaryAct)
  | pause
  | proceed
  /-- `PARK_TIMEOUT` passes: the pause is abandoned. -/
  | timeout
  | resume
  | waitForInput
  | notifyInput
  /-- vCPU0 starts `take_offset`, is at one of its steps, or has left `hv_vcpu_run`. -/
  | primaryTop
  | primaryTakeOffset
  | primaryExit
  /-- The next boot generation's `let mut cpu0_offset_version = 0`. -/
  | reboot
  | restore (offset : Nat)
  /-- Host time passes. -/
  | tick (mach raw : Nat)
deriving DecidableEq

/-- vCPU0 is outside `hv_vcpu_run` and in no call that lasts. -/
def Vm.idle (s : Vm) : Bool := s.primary.place = .top && s.call = .none

/-- A restore is done before any vCPU that gets the offset is in `before_run` or runs. -/
def Vm.restorable (s : Vm) : Bool :=
  s.idle && s.secondaries.all fun v => v.place = .outside || v.place = .top

def step (s : Vm) : Act → Option Vm
  | .secondary i a =>
    match s.secondaries[i]? with
    | none => none
    | some v => (secondaryStep s.call.locked s.gate v a).map (s.put i)
  | .pause => if s.idle || s.call = .paused then some s.pause else none
  | .proceed => s.proceed
  | .timeout =>
    if s.call = .pausing ∧ s.gate.state.parked < s.gate.state.inLoop then
      some { s with gate.requested := false, call := .release }
    else none
  | .resume => if s.idle || s.call = .paused then some s.resume else none
  | .waitForInput => if s.call = .paused then some { s with gate.state.input := false } else none
  | .notifyInput =>
    if s.call.locked then none
    else if s.gate.state.pausedAt.isSome then some { s.notifyAll with gate.state.input := true }
    else some s
  | .primaryTop => if s.idle then some { s with primary.place := .takeOffset } else none
  | .primaryTakeOffset => (takeOffsetStep s.gate s.primary).map fun v => { s with primary := v }
  | .primaryExit => if s.primary.place = .running then some { s with primary.place := .top } else none
  | .reboot => if s.idle then some { s with primary.applied := 0 } else none
  | .restore offset => if s.restorable ∧ offset < 2 ^ 64 then some (s.restore offset) else none
  | .tick mach raw => if s.mach + mach < 2 ^ 64 then some { s with mach := s.mach + mach, raw := s.raw + raw } else none

end BridgeVm.Pause
