import BridgeVm.Psci.SecondaryVcpu

/-!
# A CPU boots once for each CPU_ON

`CpuOk` is what every step keeps of each secondary vCPU: its requests and starts alternate (`boots`), a start is pending
exactly while it is in state `onPending`, its thread stands where its state says, and a thread that waits with a start
pending is about to be notified (`Inv.step`). The calls answer by the states of their CPUs, CPU0 aside (`right_iff`).
-/

namespace BridgeVm.Psci

open Lib

/-! ## What is claimed of a run -/

/-- A request that was accepted, or a start. -/
inductive Boot
  | asked (entry context : Nat)
  | started (pc x0 : Nat)
deriving DecidableEq

def Event.boot (i : Nat) : Event → Option Boot
  | .cpuOn call =>
    if call.status = SUCCESS ∧ normalizedMpidr call.target = cpuMpidr (i + 1) then
      some (.asked call.entry call.context)
    else none
  | .start cpu pc x0 => if cpu = i then some (.started pc x0) else none
  | .affinityInfo .. => none

/-- The accepted requests for a secondary vCPU and its starts, in order. -/
def boots (i : Nat) (events : List Event) : List Boot := events.filterMap (Event.boot i)

/-- A request and the start it asked for. -/
def once (request : Nat × Nat) : List Boot := [.asked request.1 request.2, .started request.1 request.2]

/-- The request whose start is pending. -/
def VcpuControl.pending (control : VcpuControl) : List Boot :=
  if control.state = .onPending then [.asked control.entry control.context] else []

/-- **Each accepted `CPU_ON` is followed by one start, with its entry point and context, before the next is
accepted.** -/
structure BootsOnce (m : Machine) : Prop where
  alternate : ∀ (i : Nat) (control : VcpuControl), m.controls[i]? = some control →
    ∃ done : List (Nat × Nat), boots i m.events = done.flatMap once ++ control.pending
  /-- Nothing else is started. -/
  known : ∀ i pc x0, Event.start i pc x0 ∈ m.events → i < m.controls.length
  /-- A rejected call changes nothing. -/
  rejected : ∀ a m' call, step m a = some m' → m'.events = m.events ++ [.cpuOn call] → call.status ≠ SUCCESS →
    m' = m.record (.cpuOn call)

/-- `CPU_ON`'s answer for one CPU. -/
def cpuOnStatus : CpuState → Nat
  | .on => ALREADY_ON
  | .onPending => ON_PENDING
  | .off => SUCCESS

/-- A call for a CPU of the topology answers by its state, as `AFFINITY_INFO` does. -/
def CpuOnCall.Right (call : CpuOnCall) : Prop :=
  ∀ state, call.named = some state → call.status = cpuOnStatus state ∧ call.answer = affinityOf state

def Event.call : Event → Option CpuOnCall
  | .cpuOn call => some call
  | _ => none

/-- The calls of `CPU_ON` so far. -/
def Machine.calls (m : Machine) : List CpuOnCall := m.events.filterMap Event.call

/-! ## The invariant -/

/-- A thread stands where the state of its vCPU says. -/
def Place.Ok (shutdown : Bool) (control : VcpuControl) (pc x0 : Nat) : Place → Prop
  | .locking | .waiting _ => control.state ≠ .on
  | .loaded entry context => control.state = .onPending ∧ entry = control.entry ∧ context = control.context
  | .reset => control.state = .onPending ∧ pc = control.entry ∧ x0 = control.context
  | .running _ | .stopped => control.state = .on
  | .ended => control.state = .on ∨ shutdown = true

/-- What every step keeps of one secondary vCPU. -/
structure CpuOk (shutdown : Bool) (control : VcpuControl) (thread : Thread) (boots : List Boot) (notifier : Prop) :
    Prop where
  alternate : ∃ done : List (Nat × Nat), boots = done.flatMap once ++ control.pending
  place : thread.place.Ok shutdown control thread.pc thread.x0
  /-- No wakeup is lost. -/
  notified : control.state = .onPending → thread.place = .waiting false → notifier

/-- A caller is about to notify a target. -/
def Machine.notifies (m : Machine) (i : Nat) : Prop := ∃ caller, m.call caller = some (.notifying i)

/-- What every step keeps. -/
structure Inv (m : Machine) : Prop where
  controls : Controls m.controls
  cpus : ∀ (i : Nat) (control : VcpuControl), m.controls[i]? = some control →
    CpuOk m.shutdown control (m.threads i) (boots i m.events) (m.notifies i)
  known : ∀ i pc x0, Event.start i pc x0 ∈ m.events → i < m.controls.length

section Machine

variable {m m' : Machine} {i j : Nat} {control : VcpuControl} {caller other : Option Nat} {call : Call}
  {thread : Thread}

theorem call_setThread_of_ne (h : other ≠ some i) : (m.setThread i thread).call other = m.call other := by
  cases other with
  | none => rfl
  | some j =>
    have hne : j ≠ i := fun heq => h (congrArg some heq)
    rw [Machine.call, Machine.call, Machine.setThread]
    dsimp only
    rw [Function.update_of_ne hne]

theorem call_setCall_of_ne (h : other ≠ caller) : (m.setCall caller call).call other = m.call other := by
  cases caller with
  | none =>
    cases other with
    | none => exact absurd rfl h
    | some j => rfl
  | some i => exact call_setThread_of_ne h

theorem call_some (h : m.call (some i) = some call) : i < m.controls.length ∧
    (m.threads i).place = .running call := by
  rw [Machine.call] at h
  split at h
  · split at h
    · cases h
      exact ⟨‹_›, ‹_›⟩
    · cases h
  · cases h

theorem setThread_self (m : Machine) (i : Nat) (thread : Thread) : (m.setThread i thread).threads i = thread :=
  Function.update_self ..

theorem setThread_of_ne (h : j ≠ i) : (m.setThread i thread).threads j = m.threads j := Function.update_of_ne h ..

theorem call_setCall_self {old : Call} (h : m.call caller = some old) :
    (m.setCall caller call).call caller = some call := by
  cases caller with
  | none => rfl
  | some i =>
    obtain ⟨hlt, _⟩ := call_some h
    rw [Machine.call, Machine.setCall, Machine.setThread]
    dsimp only
    rw [Function.update_self]
    exact if_pos hlt

@[simp] theorem call_record (m : Machine) (event : Event) (caller : Option Nat) :
  (m.record event).call caller = m.call caller := by
  cases caller <;> rfl

@[simp] theorem call_setControl (m : Machine) (i : Nat) (control : VcpuControl) (caller : Option Nat) :
    (m.setControl i control).call caller = m.call caller := by
  cases caller with
  | none => rfl
  | some k =>
    rw [Machine.call, Machine.call, Machine.setControl]
    dsimp only
    rw [List.length_set]

theorem call_notify (m : Machine) (i : Nat) (caller : Option Nat) : (m.notify i).call caller = m.call caller := by
  unfold Machine.notify
  split
  · rename_i notified hwaits
    by_cases hcaller : caller = some i
    · have hbefore : m.call (some i) = none := by
        rw [Machine.call, hwaits]
      rw [hcaller, hbefore, Machine.call, setThread_self]
    · exact call_setThread_of_ne hcaller
  · rfl

theorem controls_notify (m : Machine) (i : Nat) : (m.notify i).controls = m.controls := by
  unfold Machine.notify
  split <;> rfl

theorem events_notify (m : Machine) (i : Nat) : (m.notify i).events = m.events := by
  unfold Machine.notify
  split <;> rfl

theorem shutdown_notify (m : Machine) (i : Nat) : (m.notify i).shutdown = m.shutdown := by
  unfold Machine.notify
  split <;> rfl

theorem notify_place (m : Machine) (i : Nat) : ((m.notify i).threads i).place ≠ .waiting false := by
  unfold Machine.notify
  split
  · rw [setThread_self]
    simp
  · rename_i hwaits
    exact hwaits false

theorem call_eq_none (h : ∀ call, (m.threads i).place ≠ .running call) : m.call (some i) = none := by
  rw [Machine.call]
  split
  · exact absurd ‹_› (h _)
  · rfl

theorem notifies_of_same (hsame : ∀ other, other ≠ caller → m'.call other = m.call other)
    (hcaller : m.call caller ≠ some (.notifying i)) (h : m.notifies i) : m'.notifies i := by
  obtain ⟨other, hother⟩ := h
  have hne : other ≠ caller := fun heq => hcaller (heq ▸ hother)
  exact ⟨other, (hsame other hne).trans hother⟩

@[simp] theorem controls_setCall (m : Machine) (caller : Option Nat) (call : Call) :
  (m.setCall caller call).controls = m.controls := by
  cases caller <;> rfl

@[simp] theorem shutdown_setCall (m : Machine) (caller : Option Nat) (call : Call) :
  (m.setCall caller call).shutdown = m.shutdown := by
  cases caller <;> rfl

@[simp] theorem events_setCall (m : Machine) (caller : Option Nat) (call : Call) :
  (m.setCall caller call).events = m.events := by
  cases caller <;> rfl

theorem threads_setCall {old : Call} (h : m.call caller = some old) (call : Call) (j : Nat) :
    (m.setCall caller call).threads j = m.threads j ∨
      caller = some j ∧ (m.threads j).place = .running old ∧
        (m.setCall caller call).threads j = { m.threads j with place := .running call } := by
  cases caller with
  | none => exact .inl rfl
  | some i =>
    obtain ⟨_, hplace⟩ := call_some h
    by_cases hj : j = i
    · subst hj
      exact .inr ⟨rfl, hplace, setThread_self ..⟩
    · exact .inl (setThread_of_ne hj)

end Machine

namespace Inv

variable {m m' : Machine} {i j : Nat} {control : VcpuControl} {caller : Option Nat} {old call : Call} {event : Event}

theorem boots_record (hboot : event.boot i = none) : boots i (m.events ++ [event]) = boots i m.events := by
  rw [boots, List.filterMap_append, List.filterMap_cons_none hboot, List.filterMap_nil, List.append_nil, boots]

theorem record (h : Inv m) (hboot : ∀ i, event.boot i = none) : Inv (m.record event) where
  controls := h.controls
  cpus := by
    intro i control hi
    have hcpu := h.cpus i control hi
    have hsame : boots i (m.record event).events = boots i m.events := boots_record (hboot i)
    rw [hsame]
    exact ⟨hcpu.alternate, hcpu.place, hcpu.notified⟩
  known := by
    intro i pc x0 hstart
    rcases List.mem_append.mp hstart with hstart | hstart
    · exact h.known i pc x0 hstart
    · have hnone := hboot i
      rw [← List.mem_singleton.mp hstart, Event.boot, if_pos rfl] at hnone
      cases hnone

/-- A caller that does not notify goes on. -/
theorem setCall (h : Inv m) (hcall : m.call caller = some old) (hold : ∀ i, old ≠ .notifying i) (call : Call) :
    Inv (m.setCall caller call) where
  controls := by
    rw [controls_setCall]
    exact h.controls
  cpus := by
    intro i control hi
    rw [controls_setCall] at hi
    rw [shutdown_setCall, events_setCall]
    have hcpu := h.cpus i control hi
    have hnotifies : m.notifies i → (m.setCall caller call).notifies i :=
      notifies_of_same (fun other hother => call_setCall_of_ne hother) fun heq => by
        rw [hcall] at heq
        exact hold i (Option.some.inj heq)
    rcases threads_setCall hcall call i with hsame | ⟨_, hplace, hthread⟩
    · rw [hsame]
      exact ⟨hcpu.alternate, hcpu.place, fun hp hw => hnotifies (hcpu.notified hp hw)⟩
    · have hok := hcpu.place
      rw [hplace] at hok
      rw [hthread]
      refine ⟨hcpu.alternate, hok, fun _ hw => ?_⟩
      cases hw
  known := by
    intro i pc x0 hstart
    rw [events_setCall] at hstart
    rw [controls_setCall]
    exact h.known i pc x0 hstart

theorem setThread (h : Inv m) (hi : m.controls[i]? = some control)
    (hquiet : ∀ j, m.call (some i) ≠ some (.notifying j))
    (thread : Thread) (hplace : thread.place.Ok m.shutdown control thread.pc thread.x0)
    (hwaits : thread.place = .waiting false → control.state ≠ .onPending) : Inv (m.setThread i thread) where
  controls := h.controls
  cpus := by
    intro j other hj
    have hcpu := h.cpus j other hj
    have hnotifies : m.notifies j → (m.setThread i thread).notifies j :=
      notifies_of_same (fun caller hcaller => call_setThread_of_ne hcaller) (hquiet j)
    by_cases hji : j = i
    · subst hji
      obtain rfl : control = other := Option.some.inj (hi.symm.trans hj)
      rw [setThread_self]
      exact ⟨hcpu.alternate, hplace, fun hp hw => absurd hp (hwaits hw)⟩
    · rw [setThread_of_ne hji]
      exact ⟨hcpu.alternate, hcpu.place, fun hp hw => hnotifies (hcpu.notified hp hw)⟩
  known := h.known

theorem init (cpuCount : Nat) (hcount : cpuCount ≤ MAX_CPUS) : Inv (Psci.init cpuCount) where
  controls := by
    have hmax : MAX_CPUS = 123 := rfl
    refine ⟨?_, fun i control hi => ?_⟩
    · rw [Psci.init, List.length_map, List.length_range]
      omega
    · rw [Psci.init, List.getElem?_map] at hi
      obtain ⟨k, hk, rfl⟩ := Option.map_eq_some_iff.mp hi
      obtain ⟨hlt, rfl⟩ := List.getElem?_eq_some_iff.mp hk
      rw [List.getElem_range]
      rfl
  cpus := by
    intro i control hi
    rw [Psci.init, List.getElem?_map] at hi
    obtain ⟨k, _, rfl⟩ := Option.map_eq_some_iff.mp hi
    exact ⟨⟨[], rfl⟩, fun hon => (nomatch hon), fun hpending => (nomatch hpending)⟩
  known := fun i pc x0 hstart => by cases hstart

/-! ### Steps that change a state -/

theorem controls_set (h : Controls m.controls) (hi : m.controls[i]? = some control) {control' : VcpuControl}
    (hindex : control'.index = control.index) : Controls (m.setControl i control').controls where
  count := by
    rw [Machine.setControl, List.length_set]
    exact h.count
  index := by
    intro j other hj
    rw [Machine.setControl] at hj
    by_cases hji : j = i
    · subst hji
      obtain rfl : control' = other := by
        rw [List.getElem?_set_self (List.getElem?_eq_some_iff.mp hi).1] at hj
        exact Option.some.inj hj
      rw [hindex]
      exact h.index j control hi
    · rw [List.getElem?_set_ne (Ne.symm hji)] at hj
      exact h.index j other hj

/-- The state of one secondary vCPU changes, in a step of its thread or of a caller. -/
theorem changed (h : Inv m) (hi : m.controls[i]? = some control) (control' : VcpuControl)
    (hindex : control'.index = control.index) (hcontrols : m'.controls = (m.setControl i control').controls)
    (hshutdown : m'.shutdown = m.shutdown)
    (hself : CpuOk m.shutdown control' (m'.threads i) (boots i m'.events) (m'.notifies i))
    (hother : ∀ (j : Nat) (other : VcpuControl), j ≠ i → m.controls[j]? = some other →
      CpuOk m.shutdown other (m'.threads j) (boots j m'.events) (m'.notifies j))
    (hknown : ∀ j pc x0, Event.start j pc x0 ∈ m'.events → j = i ∨ Event.start j pc x0 ∈ m.events) :
      Inv m' where
  controls := by
    rw [hcontrols]
    exact controls_set h.controls hi hindex
  cpus := by
    intro j other hj
    rw [hcontrols, Machine.setControl] at hj
    rw [hshutdown]
    by_cases hji : j = i
    · subst hji
      rw [List.getElem?_set_self (List.getElem?_eq_some_iff.mp hi).1] at hj
      obtain rfl := Option.some.inj hj
      exact hself
    · rw [List.getElem?_set_ne (Ne.symm hji)] at hj
      exact hother j other hji hj
  known := by
    intro j pc x0 hstart
    rw [hcontrols, Machine.setControl, List.length_set]
    rcases hknown j pc x0 hstart with rfl | hold
    · exact (List.getElem?_eq_some_iff.mp hi).1
    · exact h.known j pc x0 hold

/-- A `CPU_ON` that starts its target. -/
theorem asked (h : Inv m) (hcall : m.call caller = some .guest) (hi : m.controls[i]? = some control)
    (hoff : control.state = .off) (request : CpuOnCall) (hstatus : request.status = SUCCESS)
    (htarget : normalizedMpidr request.target = cpuMpidr (i + 1)) :
    Inv (((m.setControl i ⟨control.index, .onPending, request.entry, request.context⟩).record
      (.cpuOn request)).setCall
      caller (.notifying i)) := by
  have hself := h.cpus i control hi
  have hcaller : ((m.setControl i ⟨control.index, .onPending, request.entry, request.context⟩).record
      (.cpuOn request)).call caller = some .guest := by
    rw [call_record, call_setControl]
    exact hcall
  have hnotifies : ∀ j, m.notifies j → Machine.notifies (((m.setControl i
      ⟨control.index, .onPending, request.entry, request.context⟩).record (.cpuOn request)).setCall caller
        (.notifying i)) j := fun j =>
    notifies_of_same (fun other hother => by rw [call_setCall_of_ne hother, call_record, call_setControl])
      (by rw [hcall]; simp)
  have hboot : ∀ j, (Event.cpuOn request).boot j = if j = i then some
    (.asked request.entry request.context) else none := by
    intro j
    rw [Event.boot, htarget]
    by_cases hji : j = i
    · rw [if_pos ⟨hstatus, by rw [hji]⟩, if_pos hji]
    · rw [if_neg fun hboth => hji (by have := cpuMpidr_injective hboth.2; omega), if_neg hji]
  refine h.changed hi ⟨control.index, .onPending, request.entry, request.context⟩ rfl (controls_setCall ..)
    (shutdown_setCall ..) ?_ (fun j other hji hj => ?_) fun j pc x0 hstart => ?_
  · -- the target is off: its thread waits, or will look at the state before it waits
    rcases threads_setCall hcaller (.notifying i) i with hsame | ⟨_, hplace, _⟩
    · rw [hsame, events_setCall]
      refine ⟨?_, ?_, fun _ _ => ⟨caller, call_setCall_self hcaller⟩⟩
      · obtain ⟨done, hdone⟩ := hself.alternate
        rw [VcpuControl.pending, if_neg (by rw [hoff]; simp), List.append_nil] at hdone
        refine ⟨done, ?_⟩
        rw [Machine.record, boots, List.filterMap_append, List.filterMap_cons, hboot i, if_pos rfl]
        exact congrArg (· ++ _) hdone
      · have hplace := hself.place
        change (m.threads i).place.Ok _ _ (m.threads i).pc (m.threads i).x0
        cases hp : (m.threads i).place with
        | locking | waiting => exact fun hon => (nomatch hon)
        | loaded | reset =>
          rw [hp] at hplace
          exact nomatch hoff.symm.trans hplace.1
        | running | stopped =>
          rw [hp] at hplace
          exact nomatch hoff.symm.trans hplace
        | ended =>
          rw [hp] at hplace
          exact .inr (hplace.resolve_left (by rw [hoff]; simp))
    · have hon := hself.place
      rw [show (m.threads i).place = _ from hplace] at hon
      exact nomatch hoff.symm.trans hon
  · have hcpu := h.cpus j other hj
    have hsame : boots j (m.record (.cpuOn request)).events = boots j m.events :=
      boots_record ((hboot j).trans (if_neg hji))
    rw [events_setCall]
    rcases threads_setCall hcaller (.notifying i) j with hthread | ⟨_, hplace, hthread⟩
    · rw [hthread]
      exact ⟨hsame ▸ hcpu.alternate, hcpu.place, fun hp hw => hnotifies j (hcpu.notified hp hw)⟩
    · have hok := hcpu.place
      rw [show (m.threads j).place = _ from hplace] at hok
      rw [hthread]
      exact ⟨hsame ▸ hcpu.alternate, hok, fun _ hw => (nomatch hw)⟩
  · rw [events_setCall] at hstart
    rcases List.mem_append.mp hstart with hstart | hstart
    · exact .inr hstart
    · exact absurd (List.mem_singleton.mp hstart) (by simp)

theorem off (h : Inv m) (hcall : m.call (some i) = some .guest) (hi : m.controls[i]? = some control) :
    Inv ((m.setControl i { control with state := .off }).setThread i { m.threads i with place := .locking }) := by
  have hself := h.cpus i control hi
  obtain ⟨_, hplace⟩ := call_some hcall
  have hon : control.state = .on := by
    have hok := hself.place
    rw [hplace] at hok
    exact hok
  have hnotifies : ∀ j, m.notifies j → Machine.notifies ((m.setControl i { control with state := .off }).setThread i
      { m.threads i with place := .locking }) j := fun j =>
    notifies_of_same (fun other hother => by rw [call_setThread_of_ne hother, call_setControl]) (by rw [hcall]; simp)
  refine h.changed hi { control with state := .off } rfl rfl rfl ?_ (fun j other hji hj => ?_)
    fun j pc x0 hstart => .inr hstart
  · rw [setThread_self]
    refine ⟨?_, fun hoff => (nomatch hoff), fun hpending => (nomatch hpending)⟩
    obtain ⟨done, hdone⟩ := hself.alternate
    exact ⟨done, hdone.trans (by rw [VcpuControl.pending, VcpuControl.pending, hon]; rfl)⟩
  · have hcpu := h.cpus j other hj
    rw [setThread_of_ne hji]
    exact ⟨hcpu.alternate, hcpu.place, fun hp hw => hnotifies j (hcpu.notified hp hw)⟩

/-- A secondary vCPU starts: with the entry point and context of the request that is pending. -/
theorem on (h : Inv m) (hi : m.controls[i]? = some control) (hplace : (m.threads i).place = .reset) :
    Inv (((m.setControl i { control with state := .on }).record (.start i (m.threads i).pc
      (m.threads i).x0)).setThread i
      { m.threads i with place := .running .guest }) := by
  have hself := h.cpus i control hi
  have hok := hself.place
  rw [hplace] at hok
  obtain ⟨hpending, hpc, hx0⟩ := hok
  have hquiet : m.call (some i) = none := call_eq_none fun call => by rw [hplace]; simp
  have hnotifies : ∀ j, m.notifies j → Machine.notifies (((m.setControl i { control with state := .on }).record
      (.start i (m.threads i).pc (m.threads i).x0)).setThread i { m.threads i with place := .running .guest }) j :=
        fun j =>
    notifies_of_same (fun other hother => by rw [call_setThread_of_ne hother, call_record, call_setControl])
      (by rw [hquiet]; simp)
  refine h.changed hi { control with state := .on } rfl rfl rfl ?_ (fun j other hji hj => ?_) fun j pc x0 hstart => ?_
  · rw [setThread_self]
    refine ⟨?_, rfl, fun hpending => (nomatch hpending)⟩
    obtain ⟨done, hdone⟩ := hself.alternate
    refine ⟨done ++ [(control.entry, control.context)], ?_⟩
    have hboot : (Event.start i (m.threads i).pc (m.threads i).x0).boot i =
        some (.started (m.threads i).pc (m.threads i).x0) := if_pos rfl
    rw [VcpuControl.pending, if_pos hpending] at hdone
    change (m.events ++ [_]).filterMap _ = _
    rw [List.filterMap_append, List.filterMap_cons, hboot, hpc, hx0, List.flatMap_append]
    exact (congrArg (· ++ _) hdone).trans (by simp [once, VcpuControl.pending])
  · have hcpu := h.cpus j other hj
    have hsame : boots j (m.record (.start i (m.threads i).pc (m.threads i).x0)).events = boots j m.events :=
      boots_record (if_neg (Ne.symm hji))
    rw [setThread_of_ne hji]
    exact ⟨hsame ▸ hcpu.alternate, hcpu.place, fun hp hw => hnotifies j (hcpu.notified hp hw)⟩
  · rcases List.mem_append.mp hstart with hstart | hstart
    · exact .inr hstart
    · exact .inl (Event.start.inj (List.mem_singleton.mp hstart)).1

/-- A target is notified. -/
theorem notify (h : Inv m) (hcall : m.call caller = some (.notifying i)) : Inv ((m.notify i).setCall caller .guest) :=
    by
  have hcaller : (m.notify i).call caller = some (.notifying i) := by
    rw [call_notify]
    exact hcall
  have hcpu : ∀ (j : Nat) (other : VcpuControl), m.controls[j]? = some other →
      CpuOk m.shutdown other (((m.notify i).setCall caller .guest).threads j) (boots j m.events)
        (Machine.notifies ((m.notify i).setCall caller .guest) j) := by
    intro j other hj
    have hold := h.cpus j other hj
    have hplace : ((m.notify i).threads j).place.Ok m.shutdown other ((m.notify i).threads j).pc
      ((m.notify i).threads j).x0 := by
      unfold Machine.notify
      split
      · rename_i notified hwaits
        by_cases hji : j = i
        · subst hji
          have hok := hold.place
          rw [hwaits] at hok
          rw [setThread_self]
          exact hok
        · rw [setThread_of_ne hji]
          exact hold.place
      · exact hold.place
    have hnotified : other.state = .onPending → ((m.notify i).threads j).place = .waiting false →
        Machine.notifies ((m.notify i).setCall caller .guest) j := by
      intro hpending hwaits
      have hji : j ≠ i := by
        rintro rfl
        exact notify_place m j hwaits
      have hsame : (m.notify i).threads j = m.threads j := by
        unfold Machine.notify
        split
        · exact setThread_of_ne hji
        · rfl
      rw [hsame] at hwaits
      refine notifies_of_same (fun caller hcaller => by rw [call_setCall_of_ne hcaller, call_notify]) ?_
        (hold.notified hpending hwaits)
      rw [hcall]
      simpa using Ne.symm hji
    rcases threads_setCall hcaller .guest j with hthread | ⟨_, hrunning, hthread⟩
    · rw [hthread]
      exact ⟨hold.alternate, hplace, hnotified⟩
    · rw [hrunning] at hplace
      rw [hthread]
      exact ⟨hold.alternate, hplace, fun _ hw => (nomatch hw)⟩
  have hcontrols : ((m.notify i).setCall caller .guest).controls = m.controls := by
    rw [controls_setCall, controls_notify]
  have hevents : ((m.notify i).setCall caller .guest).events = m.events := by rw [events_setCall, events_notify]
  have hshutdown : ((m.notify i).setCall caller .guest).shutdown = m.shutdown := by
    rw [shutdown_setCall, shutdown_notify]
  refine ⟨by rw [hcontrols]; exact h.controls, fun j other hj => ?_, fun j pc x0 hstart => ?_⟩
  · rw [hcontrols] at hj
    rw [hshutdown, hevents]
    exact hcpu j other hj
  · rw [hevents] at hstart
    rw [hcontrols]
    exact h.known j pc x0 hstart

theorem shutdown (h : Inv m) : Inv { m with shutdown := true } where
  controls := h.controls
  cpus := by
    intro i control hi
    have hcpu := h.cpus i control hi
    refine ⟨hcpu.alternate, ?_, fun hp hw => ?_⟩
    · have hok := hcpu.place
      change (m.threads i).place.Ok _ _ _ _
      cases hplace : (m.threads i).place <;> rw [hplace] at hok
      case ended => exact .inr rfl
      all_goals exact hok
    · obtain ⟨caller, hcall⟩ := hcpu.notified hp hw
      exact ⟨caller, by cases caller <;> exact hcall⟩
  known := h.known

theorem woken (h : Inv m) {notified : Bool} (hwaits : (m.threads i).place = .waiting notified) :
    Inv (m.setThread i { m.threads i with place := .locking }) := by
  have hquiet : m.call (some i) = none := call_eq_none fun call => by rw [hwaits]; simp
  cases hi : m.controls[i]? with
  | some control =>
    have hok := (h.cpus i control hi).place
    rw [hwaits] at hok
    exact h.setThread hi (by rw [hquiet]; simp) _ hok (by simp)
  | none =>
    refine ⟨h.controls, fun j other hj => ?_, h.known⟩
    have hji : j ≠ i := by
      rintro rfl
      rw [show m.controls[j]? = _ from hj] at hi
      cases hi
    have hcpu := h.cpus j other hj
    rw [setThread_of_ne hji]
    exact ⟨hcpu.alternate, hcpu.place, fun hp hw =>
      notifies_of_same (fun _ hother => call_setThread_of_ne hother) (by rw [hquiet]; simp) (hcpu.notified hp hw)⟩

/-- The thread of a secondary vCPU goes on. -/
theorem advance (h : Inv m) (hi : m.controls[i]? = some control) (hadvance : m.advance i control = some m') :
    Inv m' := by
  have hok := (h.cpus i control hi).place
  have hquiet : (∀ call, (m.threads i).place ≠ .running call) → ∀ j, m.call (some i) ≠ some (.notifying j) :=
    fun hplace j => by
    rw [call_eq_none hplace]
    simp
  unfold Machine.advance at hadvance
  dsimp only at hadvance
  cases hplace : (m.threads i).place with
  | locking =>
    rw [hplace] at hok hadvance
    have hquiet := hquiet (by rw [hplace]; simp)
    dsimp only at hadvance
    by_cases hdown : m.shutdown = true
    · rw [if_pos hdown] at hadvance
      cases hadvance
      exact h.setThread hi hquiet _ (.inr hdown) (by simp)
    · rw [if_neg hdown] at hadvance
      cases hstate : control.state with
      | off =>
        rw [hstate] at hadvance
        cases hadvance
        exact h.setThread hi hquiet _ hok (fun _ hpending => nomatch hstate.symm.trans hpending)
      | onPending =>
        rw [hstate] at hadvance
        cases hadvance
        exact h.setThread hi hquiet _ ⟨hstate, rfl, rfl⟩ (by simp)
      | on => exact absurd hstate hok
  | loaded entry context =>
    rw [hplace] at hok hadvance
    cases hadvance
    exact h.setThread hi (hquiet (by rw [hplace]; simp)) _ hok (by simp)
  | reset =>
    rw [hplace] at hadvance
    cases hadvance
    exact h.on hi hplace
  | stopped =>
    rw [hplace] at hok hadvance
    cases hadvance
    exact h.setThread hi (hquiet (by rw [hplace]; simp)) _ (.inl hok) (by simp)
  | waiting | running | ended =>
    rw [hplace] at hadvance
    cases hadvance

/-- What a `CPU_ON` answers, and what it leaves. -/
theorem cpuOnResult_cases (h : Controls m.controls) (target entry context : Nat) :
    (∃ i control, m.controls[i]? = some control ∧ normalizedMpidr target = cpuMpidr (i + 1) ∧
      control.state = .off ∧
      cpuOnResult m.controls target entry context =
        ⟨SUCCESS, m.controls.set i ⟨control.index, .onPending, entry, context⟩, some i⟩) ∨
    ∃ status, status ≠ SUCCESS ∧
    cpuOnResult m.controls target entry context = ⟨status, m.controls, none⟩ := by
  unfold cpuOnResult
  by_cases hnone : m.controls = []
  · rw [if_pos hnone]
    exact .inr ⟨NOT_SUPPORTED, by decide, rfl⟩
  · rw [if_neg hnone]
    cases hindex : psciTargetIndex target m.controls with
    | none =>
      rw [psciCpuOn_none hindex]
      exact .inr ⟨INVALID_PARAMS, by decide, rfl⟩
    | some i =>
      obtain ⟨hlt, htarget⟩ := (psciTargetIndex_eq_some_iff h).mp hindex
      have hi := List.getElem?_eq_getElem hlt
      rw [psciCpuOn_eq h hi htarget]
      cases hstate : m.controls[i].state with
      | off => exact .inl ⟨i, _, hi, htarget, hstate, rfl⟩
      | onPending => exact .inr ⟨ON_PENDING, by decide, rfl⟩
      | on => exact .inr ⟨ALREADY_ON, by decide, rfl⟩

theorem cpuOn (h : Inv m) (hcall : m.call caller = some .guest) (target entry context : Nat) :
    Inv (m.cpuOn caller target entry context) := by
  unfold Machine.cpuOn
  rcases cpuOnResult_cases h.controls target entry context with
    ⟨i, control, hi, htarget, hoff, heq⟩ | ⟨status, hstatus, heq⟩
  · rw [heq]
    exact h.asked hcall hi hoff ⟨target, entry, context, SUCCESS, _, _⟩ rfl htarget
  · rw [heq]
    have hboot : ∀ i, (Event.cpuOn ⟨target, entry, context, status, named m.controls target,
        psciAffinityInfo m.controls target 0⟩).boot i = none := fun i => if_neg fun hboth => hstatus hboth.1
    exact (h.record hboot).setCall ((call_record ..).trans hcall) (by simp) .guest

/-- Every step keeps the invariant. -/
theorem step (h : Inv m) {a : Action} (hstep : Psci.step m a = some m') : Inv m' := by
  cases a with
  | cpuOn caller target entry context =>
    rw [Psci.step] at hstep
    split at hstep
    · cases hstep
      exact h.cpuOn ‹_› target entry context
    · cases hstep
  | notify caller =>
    rw [Psci.step] at hstep
    split at hstep
    · cases hstep
      exact h.notify ‹_›
    · cases hstep
  | affinityInfo caller target level =>
    rw [Psci.step] at hstep
    split at hstep
    · rename_i hcall
      cases hstep
      exact h.setCall hcall (by simp) _
    · cases hstep
  | readState caller =>
    rw [Psci.step] at hstep
    split at hstep
    · rename_i target level states hcall
      cases hstep
      unfold Machine.readState
      split
      · exact h.setCall hcall (by simp) _
      · exact (h.record fun _ => rfl).setCall ((call_record ..).trans hcall) (by simp) _
    · cases hstep
  | cpuOff caller =>
    unfold Psci.step at hstep
    dsimp only at hstep
    split at hstep
    · rename_i i hcall
      obtain ⟨control, hi, rfl⟩ := Option.map_eq_some_iff.mp hstep
      exact h.off hcall hi
    · cases hstep
      exact h
    · cases hstep
  | stop i =>
    rw [Psci.step] at hstep
    split at hstep
    · rename_i hcall
      cases hstep
      obtain ⟨hlt, hplace⟩ := call_some hcall
      have hok := (h.cpus i _ (List.getElem?_eq_getElem hlt)).place
      rw [hplace] at hok
      exact h.setThread (List.getElem?_eq_getElem hlt) (by rw [hcall]; simp) _ hok (by simp)
    · cases hstep
  | advance i =>
    rw [Psci.step] at hstep
    obtain ⟨control, hi, hadvance⟩ := Option.bind_eq_some_iff.mp hstep
    exact h.advance hi hadvance
  | wake i =>
    rw [Psci.step] at hstep
    split at hstep
    · cases hstep
      exact h.woken ‹_›
    · cases hstep
  | wakeSpuriously i =>
    rw [Psci.step] at hstep
    split at hstep
    · cases hstep
      exact h.woken ‹_›
    · cases hstep
  | shutdown =>
    cases hstep
    exact h.shutdown

end Inv

/-! ## Answers -/

section Answers

variable {m m' : Machine} {a : Action} {i : Nat} {control : VcpuControl} {caller : Option Nat} {call : Call}

theorem setCall_eq_self (h : m.call caller = some call) : m.setCall caller call = m := by
  cases caller with
  | none =>
    obtain rfl : m.primary = call := Option.some.inj h
    rfl
  | some i =>
    obtain ⟨_, hplace⟩ := call_some h
    have hthread : { m.threads i with place := .running call } = m.threads i := by rw [← hplace]
    rw [Machine.setCall, Machine.setThread, hthread, Function.update_eq_self]

theorem events_cpuOn (m : Machine) (caller : Option Nat) (target entry context : Nat) :
    (m.cpuOn caller target entry context).events = m.events ++ [.cpuOn
      ⟨target, entry, context, (cpuOnResult m.controls target entry context).status, named m.controls target,
        psciAffinityInfo m.controls target 0⟩] := by
  rw [Machine.cpuOn, events_setCall]
  rfl

/-- Only a `CPU_ON` records one. -/
theorem step_events (hstep : step m a = some m') :
    (∃ caller target entry context, m.call caller = some .guest ∧ m' = m.cpuOn caller target entry context) ∨
      m'.events = m.events ∨ ∃ event, (∀ call, event ≠ .cpuOn call) ∧ m'.events = m.events ++ [event] := by
  cases a with
  | cpuOn caller target entry context =>
    rw [step] at hstep
    split at hstep
    · cases hstep
      exact .inl ⟨caller, target, entry, context, ‹_›, rfl⟩
    · cases hstep
  | notify caller =>
    rw [step] at hstep
    split at hstep
    · cases hstep
      exact .inr (.inl (by rw [events_setCall, events_notify]))
    · cases hstep
  | affinityInfo caller target level =>
    rw [step] at hstep
    split at hstep
    · cases hstep
      exact .inr (.inl (events_setCall ..))
    · cases hstep
  | readState caller =>
    rw [step] at hstep
    split at hstep
    · cases hstep
      unfold Machine.readState
      split
      · exact .inr (.inl (events_setCall ..))
      · exact .inr (.inr ⟨_, by simp, events_setCall ..⟩)
    · cases hstep
  | cpuOff caller =>
    unfold step at hstep
    dsimp only at hstep
    split at hstep
    · obtain ⟨control, _, rfl⟩ := Option.map_eq_some_iff.mp hstep
      exact .inr (.inl rfl)
    · cases hstep
      exact .inr (.inl rfl)
    · cases hstep
  | stop i =>
    rw [step] at hstep
    split at hstep
    · cases hstep
      exact .inr (.inl rfl)
    · cases hstep
  | advance i =>
    rw [step] at hstep
    obtain ⟨control, _, hadvance⟩ := Option.bind_eq_some_iff.mp hstep
    unfold Machine.advance at hadvance
    dsimp only at hadvance
    split at hadvance
    · split at hadvance
      · cases hadvance
        exact .inr (.inl rfl)
      · split at hadvance <;> cases hadvance <;> exact .inr (.inl rfl)
    · cases hadvance
      exact .inr (.inl rfl)
    · cases hadvance
      exact .inr (.inr ⟨.start i (m.threads i).pc (m.threads i).x0, by simp, rfl⟩)
    · cases hadvance
      exact .inr (.inl rfl)
    · cases hadvance
  | wake i | wakeSpuriously i =>
    rw [step] at hstep
    split at hstep
    · cases hstep
      exact .inr (.inl rfl)
    · cases hstep
  | shutdown =>
    cases hstep
    exact .inr (.inl rfl)

theorem rejected (h : Controls m.controls) {request : CpuOnCall} (hstep : step m a = some m')
    (hevents : m'.events = m.events ++ [.cpuOn request]) (hstatus : request.status ≠ SUCCESS) :
    m' = m.record (.cpuOn request) := by
  rcases step_events hstep with ⟨caller, target, entry, context, hcall, rfl⟩ | hsame | ⟨event, hevent, hother⟩
  · rw [events_cpuOn] at hevents
    obtain rfl := Event.cpuOn.inj (List.singleton_inj.mp (List.append_cancel_left hevents))
    rcases Inv.cpuOnResult_cases h target entry context with ⟨_, _, _, _, _, heq⟩ | ⟨status, _, heq⟩
    · exact absurd (by rw [heq]) hstatus
    · rw [Machine.cpuOn, heq]
      exact setCall_eq_self ((call_record ..).trans hcall)
  · rw [hsame] at hevents
    exact absurd (congrArg List.length hevents) (by simp)
  · rw [hother] at hevents
    exact absurd (List.singleton_inj.mp (List.append_cancel_left hevents)) (hevent _)

/-- A call answers by its CPU's state, unless it names CPU0. -/
theorem right_iff (h : Controls m.controls) (target entry context : Nat) :
    CpuOnCall.Right ⟨target, entry, context, (cpuOnResult m.controls target entry context).status,
      named m.controls target, psciAffinityInfo m.controls target 0⟩ ↔ normalizedMpidr target ≠ cpuMpidr 0 := by
  constructor
  · intro hright hzero
    have hnamed : named m.controls target = some .on := if_pos hzero
    have hstatus := (hright .on hnamed).1
    have hindex : psciTargetIndex target m.controls = none := by
      cases hindex : psciTargetIndex target m.controls with
      | none => rfl
      | some i =>
        have hcpu := ((psciTargetIndex_eq_some_iff h).mp hindex).2
        exact absurd (cpuMpidr_injective (hzero.symm.trans hcpu)) (by omega)
    dsimp only at hstatus
    unfold cpuOnResult at hstatus
    by_cases hnone : m.controls = []
    · rw [if_pos hnone] at hstatus
      exact absurd (show NOT_SUPPORTED = ALREADY_ON from hstatus) (by decide)
    · rw [if_neg hnone, psciCpuOn_none hindex] at hstatus
      exact absurd (show INVALID_PARAMS = ALREADY_ON from hstatus) (by decide)
  · intro hzero state hnamed
    dsimp only at hnamed ⊢
    rw [named, if_neg hzero] at hnamed
    obtain ⟨i, hindex, hstate⟩ := Option.bind_eq_some_iff.mp hnamed
    obtain ⟨control, hi, rfl⟩ := Option.map_eq_some_iff.mp hstate
    obtain ⟨_, htarget⟩ := (psciTargetIndex_eq_some_iff h).mp hindex
    have hsome : m.controls ≠ [] := by
      intro hnil
      rw [hnil] at hi
      cases hi
    refine ⟨?_, psciAffinityInfo_secondary h hi htarget⟩
    rw [cpuOnResult, if_neg hsome, psciCpuOn_eq h hi htarget]
    cases control.state <;> rfl

theorem calls_step (h : Inv m) (hcalls : ∀ c ∈ m.calls, c.Right ↔ normalizedMpidr c.target ≠ cpuMpidr 0)
    (hstep : step m a = some m') : ∀ c ∈ m'.calls, c.Right ↔ normalizedMpidr c.target ≠ cpuMpidr 0 := by
  rcases step_events hstep with ⟨caller, target, entry, context, _, rfl⟩ | hsame | ⟨event, hevent, hother⟩
  · intro c hc
    rw [Machine.calls, events_cpuOn, List.filterMap_append] at hc
    rcases List.mem_append.mp hc with hc | hc
    · exact hcalls c hc
    · obtain rfl := List.mem_singleton.mp hc
      exact right_iff h.controls target entry context
  · rw [Machine.calls, hsame]
    exact hcalls
  · have hnone : event.call = none := by
      cases event with
      | cpuOn call => exact absurd rfl (hevent call)
      | affinityInfo | start => rfl
    rw [Machine.calls, hother, List.filterMap_append, List.filterMap_cons_none hnone, List.filterMap_nil,
      List.append_nil]
    exact hcalls

theorem Inv.bootsOnce (h : Inv m) : BootsOnce m where
  alternate := fun i control hi => (h.cpus i control hi).alternate
  known := h.known
  rejected := fun _ _ _ hstep hevents hstatus => Psci.rejected h.controls hstep hevents hstatus

end Answers

end BridgeVm.Psci
