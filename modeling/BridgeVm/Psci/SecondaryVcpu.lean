import Mathlib.Logic.Function.Basic
import BridgeVm.Lib.Transition
import BridgeVm.Psci.CpuOn

/-!
# The threads of the secondary vCPUs

`secondary_vcpu.rs`: the loop of `secondary_vcpu_thread`, and the PSCI calls of the vCPUs that run. What happens under a
target's lock is one step; `AFFINITY_INFO` takes one lock after the other, and `CPU_ON` notifies its target after it has
released the lock. `events` records the calls that have returned and the starts.
-/

namespace BridgeVm.Psci

open Lib

/-! ## Threads -/

/-- Where a vCPU that runs stands. -/
inductive Call
  | guest
  /-- In `CPU_ON`, before `notify_one`. -/
  | notifying (target : Nat)
  /-- In `AFFINITY_INFO`, with the states it has read. -/
  | affinity (target level : Nat) (states : List CpuState)
deriving DecidableEq

/-- Where the thread of a secondary vCPU stands. -/
inductive Place
  /-- At the top of its loop, about to take its lock. -/
  | locking
  | waiting (notified : Bool)
  /-- It has read its entry point and context under the lock, and released it. -/
  | loaded (entry context : Nat)
  /-- `apply_secondary_cpu_on_reset` has set its registers. -/
  | reset
  | running (call : Call)
  /-- `run_secondary_until_parked` has returned true. -/
  | stopped
  | ended
deriving DecidableEq

structure Thread where
  place : Place
  pc : Nat
  x0 : Nat
deriving DecidableEq

/-- A `CPU_ON` that has returned, with the state of the CPU it named and what `AFFINITY_INFO` at level 0 would have
answered, both when it was called. -/
structure CpuOnCall where
  target : Nat
  entry : Nat
  context : Nat
  status : Nat
  named : Option CpuState
  answer : Nat
deriving DecidableEq

inductive Event
  | cpuOn (call : CpuOnCall)
  | affinityInfo (target level answer : Nat)
  /-- A secondary vCPU runs, with these registers. -/
  | start (cpu pc x0 : Nat)
deriving DecidableEq

structure Machine where
  controls : List VcpuControl
  threads : Nat → Thread
  /-- Where CPU0 stands. -/
  primary : Call
  shutdown : Bool
  events : List Event

/-- `SecondaryVcpuSet::spawn`: the vCPUs from 1 on, all off. -/
def init (cpuCount : Nat) : Machine :=
  { controls := (List.range (cpuCount - 1)).map fun i => VcpuControl.new (i + 1)
    threads := fun _ => ⟨.locking, 0, 0⟩, primary := .guest, shutdown := false, events := [] }

/-- The state of the CPU that a target names, CPU0 included. -/
def named (controls : List VcpuControl) (target : Nat) : Option CpuState :=
  if normalizedMpidr target = cpuMpidr 0 then some .on
  else (psciTargetIndex target controls).bind fun i => controls[i]?.map VcpuControl.state

/-- Where a caller stands, if it runs: CPU0, or the thread of a secondary vCPU. -/
def Machine.call (m : Machine) : Option Nat → Option Call
  | none => some m.primary
  | some i =>
    match (m.threads i).place with
    | .running call => if i < m.controls.length then some call else none
    | _ => none

def Machine.setThread (m : Machine) (i : Nat) (thread : Thread) : Machine :=
  { m with threads := Function.update m.threads i thread }

def Machine.setCall (m : Machine) : Option Nat → Call → Machine
  | none, call => { m with primary := call }
  | some i, call => m.setThread i { m.threads i with place := .running call }

def Machine.record (m : Machine) (event : Event) : Machine := { m with events := m.events ++ [event] }

/-! ## Steps -/

inductive Action
  | cpuOn (caller : Option Nat) (target entry context : Nat)
  /-- `notify_one`, at the end of a `CPU_ON` that starts its target. -/
  | notify (caller : Option Nat)
  | affinityInfo (caller : Option Nat) (target level : Nat)
  /-- `AFFINITY_INFO` reads the next state, or answers. -/
  | readState (caller : Option Nat)
  | cpuOff (caller : Option Nat)
  /-- The run loop of a secondary vCPU returns true. -/
  | stop (i : Nat)
  /-- The thread of a secondary vCPU goes on. -/
  | advance (i : Nat)
  | wake (i : Nat)
  /-- The wait ends without a notification. -/
  | wakeSpuriously (i : Nat)
  | shutdown
deriving DecidableEq

/-- The result of a `CPU_ON`; without secondary vCPUs, CPU0 has no set of them to ask. -/
def cpuOnResult (controls : List VcpuControl) (target entry context : Nat) : CpuOn :=
  if controls = [] then ⟨NOT_SUPPORTED, controls, none⟩ else psciCpuOn controls target entry context

def Machine.cpuOn (m : Machine) (caller : Option Nat) (target entry context : Nat) : Machine :=
  let result := cpuOnResult m.controls target entry context
  let call : CpuOnCall :=
    { target, entry, context, status := result.status, named := named m.controls target
      answer := psciAffinityInfo m.controls target 0 }
  ({ m with controls := result.controls }.record (.cpuOn call)).setCall caller (result.notify.elim .guest .notifying)

def Machine.notify (m : Machine) (target : Nat) : Machine :=
  match (m.threads target).place with
  | .waiting _ => m.setThread target { m.threads target with place := .waiting true }
  | _ => m

def Machine.readState (m : Machine) (caller : Option Nat) (target level : Nat) (states : List CpuState) : Machine :=
  match m.controls[states.length]? with
  | some control => m.setCall caller (.affinity target level (states ++ [control.state]))
  | none =>
    (m.record (.affinityInfo target level
      (affinityInfo (topology m.controls states) target level))).setCall caller .guest

def Machine.setControl (m : Machine) (i : Nat) (control : VcpuControl) : Machine :=
  { m with controls := m.controls.set i control }

/-- What the thread of a secondary vCPU does under its lock, or between two locks. -/
def Machine.advance (m : Machine) (i : Nat) (control : VcpuControl) : Option Machine :=
  let thread := m.threads i
  match thread.place with
  | .locking =>
    if m.shutdown then some (m.setThread i { thread with place := .ended })
    else
      match control.state with
      | .off => some (m.setThread i { thread with place := .waiting false })
      | .onPending => some (m.setThread i { thread with place := .loaded control.entry control.context })
      | .on => some (m.setThread i { thread with place := .running .guest })
  | .loaded entry context => some (m.setThread i ⟨.reset, entry, context⟩)
  | .reset =>
    some (((m.setControl i { control with state := .on }).record (.start i thread.pc thread.x0)).setThread i
      { thread with place := .running .guest })
  | .stopped => some (m.setThread i { thread with place := .ended })
  | _ => none

def step (m : Machine) : Action → Option Machine
  | .cpuOn caller target entry context =>
    match m.call caller with
    | some .guest => some (m.cpuOn caller target entry context)
    | _ => none
  | .notify caller =>
    match m.call caller with
    | some (.notifying target) => some ((m.notify target).setCall caller .guest)
    | _ => none
  | .affinityInfo caller target level =>
    match m.call caller with
    | some .guest => some (m.setCall caller (.affinity target level []))
    | _ => none
  | .readState caller =>
    match m.call caller with
    | some (.affinity target level states) => some (m.readState caller target level states)
    | _ => none
  | .cpuOff caller =>
    match m.call caller, caller with
    | some .guest, some i => m.controls[i]?.map fun control =>
      (m.setControl i { control with state := .off }).setThread i { m.threads i with place := .locking }
    | some .guest, none => some m
    | _, _ => none
  | .stop i =>
    match m.call (some i) with
    | some .guest => some (m.setThread i { m.threads i with place := .stopped })
    | _ => none
  | .advance i => m.controls[i]?.bind fun control => m.advance i control
  | .wake i =>
    match (m.threads i).place with
    | .waiting true => some (m.setThread i { m.threads i with place := .locking })
    | _ => none
  | .wakeSpuriously i =>
    match (m.threads i).place with
    | .waiting _ => some (m.setThread i { m.threads i with place := .locking })
    | _ => none
  | .shutdown => some { m with shutdown := true }

end BridgeVm.Psci
