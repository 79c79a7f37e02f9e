import BridgeVm.Psci.BootsOnce

/-!
# A pending start is carried out

The thread of a secondary vCPU whose start is pending comes nearer to it (`Place.rank`) with each step of its own and
with its notification, and no other step takes it further away (`step_pending`). So it starts when the threads are
scheduled fairly, and `cpuOn_boots` has the whole of what a run keeps.
-/

namespace BridgeVm.Psci

open Lib

/-- A start is pending for a secondary vCPU. -/
def Machine.Pending (m : Machine) (i : Nat) (control : VcpuControl) : Prop :=
  m.controls[i]? = some control ∧ control.state = .onPending

/-- Every thread is scheduled again and again while it can go on, and a notified wait ends. -/
structure Fair (e : Execution step) : Prop where
  notify : ∀ caller, e.WeaklyFair (.notify caller)
  advance : ∀ i, e.WeaklyFair (.advance i)
  wake : ∀ i, e.WeaklyFair (.wake i)

/-- The steps before a pending start. -/
def Place.rank : Place → Nat
  | .waiting false => 4
  | .waiting true => 3
  | .locking => 2
  | .loaded .. => 1
  | _ => 0

theorem two_lt_rank_waiting (notified : Bool) : 2 < (Place.waiting notified).rank := by cases notified <;> decide

/-- The steps that bring a pending start nearer. -/
def Helps (m : Machine) (i : Nat) (a : Action) : Prop :=
  a = .advance i ∨ a = .wake i ∨
    ∃ caller, a = .notify caller ∧ m.call caller = some (.notifying i) ∧ (m.threads i).place = .waiting false

/-- A start stays pending and gets no further away. -/
def Approaches (m : Machine) (i : Nat) (control : VcpuControl) (a : Action) (m' : Machine) : Prop :=
  m'.Pending i control ∧ (m'.threads i).place.rank ≤ (m.threads i).place.rank ∧
    (Helps m i a → (m'.threads i).place.rank < (m.threads i).place.rank)

/-- The vCPU that takes a step. -/
def Action.actor : Action → Option (Option Nat)
  | .cpuOn caller .. | .notify caller | .affinityInfo caller .. | .readState caller | .cpuOff caller => some caller
  | .stop j | .advance j | .wake j | .wakeSpuriously j => some (some j)
  | .shutdown => none

section Pending

variable {m m' : Machine} {a : Action} {i j : Nat} {control other : VcpuControl} {caller actor : Option Nat}
  {call : Call}

theorem Inv.not_running (h : Inv m) (hp : m.Pending i control) (hcall : m.call caller = some call) :
    caller ≠ some i := by
  rintro rfl
  have hok := (h.cpus i control hp.1).place
  rw [(call_some hcall).2] at hok
  exact nomatch hp.2.symm.trans hok

theorem threads_setCall_of_ne (hne : caller ≠ some i) (call : Call) :
    (m.setCall caller call).threads i = m.threads i := by
  cases caller with
  | none => rfl
  | some j => exact setThread_of_ne fun heq => hne (congrArg some heq.symm)

theorem kept (hp : m.Pending i control) (hcontrol : m'.controls[i]? = some control)
    (hthread : m'.threads i = m.threads i) (hhelps : ¬Helps m i a) : Approaches m i control a m' :=
  ⟨⟨hcontrol, hp.2⟩, Nat.le_of_eq (by rw [hthread]), fun h => absurd h hhelps⟩

theorem nearer (hp : m.Pending i control) {thread : Thread} (hlt : thread.place.rank < (m.threads i).place.rank) :
    Approaches m i control a (m.setThread i thread) := by
  rw [Approaches, setThread_self]
  exact ⟨hp, Nat.le_of_lt hlt, fun _ => hlt⟩

/-- The steps of the pending vCPU's thread lead to the start. -/
theorem advance_pending (h : Inv m) (hp : m.Pending i control) (hup : m.shutdown = false)
    (hadvance : m.advance i control = some m') :
    m'.events = m.events ++ [.start i control.entry control.context] ∨ Approaches m i control a m' := by
  have hok := (h.cpus i control hp.1).place
  unfold Machine.advance at hadvance
  dsimp only at hadvance
  cases hplace : (m.threads i).place with
  | locking =>
    rw [hplace, if_neg (by rw [hup]; simp), hp.2] at hadvance
    cases hadvance
    exact .inr (nearer hp (by rw [hplace]; exact Nat.one_lt_two))
  | loaded entry context =>
    rw [hplace] at hadvance
    cases hadvance
    exact .inr (nearer hp (by rw [hplace]; exact Nat.one_pos))
  | reset =>
    rw [hplace] at hok hadvance
    cases hadvance
    obtain ⟨_, hpc, hx0⟩ := hok
    rw [← hpc, ← hx0]
    exact .inl rfl
  | stopped =>
    rw [hplace] at hok
    exact nomatch hp.2.symm.trans hok
  | waiting | running | ended =>
    rw [hplace] at hadvance
    cases hadvance

theorem advance_other (hne : i ≠ j) (hadvance : m.advance j other = some m') :
    m'.threads i = m.threads i ∧ m'.controls[i]? = m.controls[i]? := by
  unfold Machine.advance at hadvance
  dsimp only at hadvance
  split at hadvance
  · split at hadvance
    · cases hadvance
      exact ⟨setThread_of_ne hne, rfl⟩
    · split at hadvance <;> cases hadvance <;> exact ⟨setThread_of_ne hne, rfl⟩
  · cases hadvance
    exact ⟨setThread_of_ne hne, rfl⟩
  · cases hadvance
    exact ⟨setThread_of_ne hne, List.getElem?_set_ne (Ne.symm hne)⟩
  · cases hadvance
    exact ⟨setThread_of_ne hne, rfl⟩
  · cases hadvance

theorem notify_threads (m : Machine) (target i : Nat) :
    (m.notify target).threads i = m.threads i ∧ (target = i → (m.threads i).place ≠ .waiting false) ∨
      target = i ∧ (∃ notified, (m.threads i).place = .waiting notified) ∧
        ((m.notify target).threads i).place = .waiting true := by
  unfold Machine.notify
  split
  · rename_i notified hwaits
    by_cases hi : target = i
    · subst hi
      rw [setThread_self]
      exact .inr ⟨rfl, ⟨notified, hwaits⟩, rfl⟩
    · exact .inl ⟨setThread_of_ne (Ne.symm hi), fun heq => absurd heq hi⟩
  · rename_i hwaits
    exact .inl ⟨rfl, fun heq => heq ▸ hwaits false⟩

theorem cpuOn_pending (h : Inv m) (hp : m.Pending i control) {target entry context : Nat} (hne : caller ≠ some i) :
    Approaches m i control (.cpuOn caller target entry context) (m.cpuOn caller target entry context) := by
  refine kept hp ?_ (threads_setCall_of_ne hne _) (by simp [Helps])
  rw [Machine.cpuOn, controls_setCall]
  change (cpuOnResult m.controls target entry context).controls[i]? = _
  rcases Inv.cpuOnResult_cases h.controls target entry context with ⟨j, other, hj, _, hoff, heq⟩ | ⟨_, _, heq⟩
  · have hji : j ≠ i := by
      rintro rfl
      obtain rfl : control = other := Option.some.inj (hp.1.symm.trans hj)
      cases hoff.symm.trans hp.2
    rw [heq]
    dsimp only
    rw [List.getElem?_set_ne hji]
    exact hp.1
  · rw [heq]
    exact hp.1

/-- A notification of the pending vCPU's thread brings the start nearer, any other one leaves it. -/
theorem notify_pending {target : Nat} (hp : m.Pending i control) (hne : caller ≠ some i)
    (hcall : m.call caller = some (.notifying target)) :
    Approaches m i control (.notify caller) ((m.notify target).setCall caller .guest) := by
  have hpending : ((m.notify target).setCall caller .guest).controls[i]? = some control := by
    rw [controls_setCall, controls_notify]
    exact hp.1
  have hthread : ((m.notify target).setCall caller .guest).threads i = (m.notify target).threads i :=
    threads_setCall_of_ne hne .guest
  rcases notify_threads m target i with ⟨hsame, hwaits⟩ | ⟨rfl, ⟨notified, hwaits⟩, hnotified⟩
  · refine kept hp hpending (hthread.trans hsame) ?_
    rintro (hadvance | hwake | ⟨other, hother, hcalls, hplace⟩)
    · cases hadvance
    · cases hwake
    · cases hother
      obtain rfl : target = i := Call.notifying.inj (Option.some.inj (hcall.symm.trans hcalls))
      exact hwaits rfl hplace
  · rw [Approaches, hthread, hnotified, hwaits]
    refine ⟨⟨hpending, hp.2⟩, two_lt_rank_waiting notified, ?_⟩
    rintro (hadvance | hwake | ⟨_, _, _, hplace⟩)
    · cases hadvance
    · cases hwake
    · rw [hwaits] at hplace
      rw [hplace]
      exact Nat.lt_add_one 3

/-- What a step does for a pending start: it is the start, or leaves it pending and no further away. -/
theorem step_pending (h : Inv m) (hp : m.Pending i control) (hup : m.shutdown = false) (hstep : step m a = some m') :
    m'.events = m.events ++ [.start i control.entry control.context] ∨ Approaches m i control a m' := by
  cases a with
  | cpuOn caller target entry context =>
    rw [step] at hstep
    split at hstep
    · rename_i hcall
      cases hstep
      exact .inr (cpuOn_pending h hp (h.not_running hp hcall))
    · cases hstep
  | notify caller =>
    rw [step] at hstep
    split at hstep
    · rename_i target hcall
      cases hstep
      exact .inr (notify_pending hp (h.not_running hp hcall) hcall)
    · cases hstep
  | affinityInfo caller target level =>
    rw [step] at hstep
    split at hstep
    · rename_i hcall
      cases hstep
      exact .inr (kept hp (by rw [controls_setCall]; exact hp.1) (threads_setCall_of_ne (h.not_running hp hcall) _)
        (by simp [Helps]))
    · cases hstep
  | readState caller =>
    rw [step] at hstep
    split at hstep
    · rename_i hcall
      cases hstep
      have hne := h.not_running hp hcall
      unfold Machine.readState
      split
      · exact .inr (kept hp (by rw [controls_setCall]; exact hp.1) (threads_setCall_of_ne hne _) (by simp [Helps]))
      · exact .inr (kept hp (by rw [controls_setCall]; exact hp.1) (threads_setCall_of_ne hne _) (by simp [Helps]))
    · cases hstep
  | cpuOff caller =>
    unfold step at hstep
    dsimp only at hstep
    split at hstep
    · rename_i j hcall
      obtain ⟨other, hj, rfl⟩ := Option.map_eq_some_iff.mp hstep
      have hji : j ≠ i := fun heq => h.not_running hp hcall (congrArg some heq)
      refine .inr (kept hp ?_ (setThread_of_ne (Ne.symm hji)) (by simp [Helps]))
      change (m.controls.set j _)[i]? = _
      rw [List.getElem?_set_ne hji]
      exact hp.1
    · cases hstep
      exact .inr (kept hp hp.1 rfl (by simp [Helps]))
    · cases hstep
  | stop j =>
    rw [step] at hstep
    split at hstep
    · rename_i hcall
      cases hstep
      have hji : j ≠ i := fun heq => h.not_running hp hcall (congrArg some heq)
      exact .inr (kept hp hp.1 (setThread_of_ne (Ne.symm hji)) (by simp [Helps]))
    · cases hstep
  | advance j =>
    rw [step] at hstep
    obtain ⟨other, hj, hadvance⟩ := Option.bind_eq_some_iff.mp hstep
    by_cases hji : j = i
    · subst hji
      obtain rfl : control = other := Option.some.inj (hp.1.symm.trans hj)
      exact advance_pending h hp hup hadvance
    · obtain ⟨hthread, hcontrol⟩ := advance_other (Ne.symm hji) hadvance
      exact .inr (kept hp (hcontrol.trans hp.1) hthread (by simpa [Helps] using hji))
  | wake j =>
    rw [step] at hstep
    split at hstep
    · rename_i hwaits
      cases hstep
      by_cases hji : j = i
      · subst hji
        exact .inr (nearer hp (by rw [hwaits]; exact Nat.lt_add_one 2))
      · exact .inr (kept hp hp.1 (setThread_of_ne (Ne.symm hji)) (by simpa [Helps] using hji))
    · cases hstep
  | wakeSpuriously j =>
    rw [step] at hstep
    split at hstep
    · rename_i notified hwaits
      cases hstep
      by_cases hji : j = i
      · subst hji
        exact .inr (nearer hp (by rw [hwaits]; exact two_lt_rank_waiting notified))
      · exact .inr (kept hp hp.1 (setThread_of_ne (Ne.symm hji)) (by simp [Helps]))
    · cases hstep
  | shutdown =>
    cases hstep
    exact .inr (kept hp hp.1 rfl (by simp [Helps]))

theorem call_advance (hne : caller ≠ some j) (hadvance : m.advance j other = some m') :
    m'.call caller = m.call caller := by
  unfold Machine.advance at hadvance
  dsimp only at hadvance
  split at hadvance
  · split at hadvance
    · cases hadvance
      exact call_setThread_of_ne hne
    · split at hadvance <;> cases hadvance <;> exact call_setThread_of_ne hne
  · cases hadvance
    exact call_setThread_of_ne hne
  · cases hadvance
    rw [call_setThread_of_ne hne, call_record, call_setControl]
  · cases hadvance
    exact call_setThread_of_ne hne
  · cases hadvance

theorem call_cpuOn (h : Inv m) (hne : caller ≠ actor) (target entry context : Nat) :
    (m.cpuOn actor target entry context).call caller = m.call caller := by
  rw [Machine.cpuOn, call_setCall_of_ne hne, call_record]
  rcases Inv.cpuOnResult_cases h.controls target entry context with ⟨k, control, _, _, _, heq⟩ | ⟨_, _, heq⟩
  · rw [heq]
    exact call_setControl m k _ caller
  · rw [heq]

/-- A step leaves the calls of the other vCPUs alone. -/
theorem call_step (h : Inv m) (hstep : step m a = some m') (hother : a.actor ≠ some caller) :
    m'.call caller = m.call caller := by
  have hne : ∀ {acts : Option Nat}, a.actor = some acts → caller ≠ acts := by
    rintro acts hacts rfl
    exact hother hacts
  cases a with
  | cpuOn acts target entry context =>
    rw [step] at hstep
    split at hstep <;> cases hstep
    exact call_cpuOn h (hne rfl) target entry context
  | notify acts =>
    rw [step] at hstep
    split at hstep <;> cases hstep
    rw [call_setCall_of_ne (hne rfl), call_notify]
  | affinityInfo acts target level =>
    rw [step] at hstep
    split at hstep <;> cases hstep
    exact call_setCall_of_ne (hne rfl)
  | readState acts =>
    rw [step] at hstep
    split at hstep <;> cases hstep
    unfold Machine.readState
    split
    · exact call_setCall_of_ne (hne rfl)
    · rw [call_setCall_of_ne (hne rfl), call_record]
  | cpuOff acts =>
    unfold step at hstep
    dsimp only at hstep
    split at hstep
    · obtain ⟨control, _, rfl⟩ := Option.map_eq_some_iff.mp hstep
      rw [call_setThread_of_ne (hne rfl), call_setControl]
    · cases hstep
      rfl
    · cases hstep
  | advance j =>
    rw [step] at hstep
    obtain ⟨other, _, hadvance⟩ := Option.bind_eq_some_iff.mp hstep
    exact call_advance (hne rfl) hadvance
  | stop j | wake j | wakeSpuriously j =>
    rw [step] at hstep
    split at hstep <;> cases hstep
    exact call_setThread_of_ne (hne rfl)
  | shutdown =>
    cases hstep
    cases caller <;> rfl

/-- A vCPU that is about to notify takes no other step. -/
theorem actor_notifying (hcall : m.call caller = some (.notifying i)) (hstep : step m a = some m')
    (hacts : a.actor = some caller) : a = .notify caller := by
  cases a with
  | notify acts => exact congrArg Action.notify (Option.some.inj hacts)
  | cpuOn | affinityInfo | readState | stop =>
    cases hacts
    rw [step, hcall] at hstep
    cases hstep
  | cpuOff acts =>
    cases hacts
    unfold step at hstep
    dsimp only at hstep
    rw [hcall] at hstep
    cases caller <;> cases hstep
  | advance j =>
    cases hacts
    obtain ⟨other, _, hadvance⟩ := Option.bind_eq_some_iff.mp hstep
    unfold Machine.advance at hadvance
    dsimp only at hadvance
    rw [(call_some hcall).2] at hadvance
    cases hadvance
  | wake j | wakeSpuriously j =>
    cases hacts
    rw [step, (call_some hcall).2] at hstep
    cases hstep
  | shutdown => cases hacts

theorem notifying_kept (h : Inv m) (hcall : m.call caller = some (.notifying i)) (hstep : step m a = some m')
    (ha : a ≠ .notify caller) :
    m'.call caller = some (.notifying i) :=
  (call_step h hstep fun hacts => ha (actor_notifying hcall hstep hacts)).trans hcall

/-- The thread of a pending vCPU goes on, unless it waits. -/
theorem advance_isSome (h : Inv m) (hp : m.Pending i control) (hup : m.shutdown = false)
    (hwaits : ∀ notified, (m.threads i).place ≠ .waiting notified) : (step m (.advance i)).isSome = true := by
  have hok := (h.cpus i control hp.1).place
  rw [step, hp.1, Option.bind_some]
  unfold Machine.advance
  dsimp only
  cases hplace : (m.threads i).place with
  | locking =>
    dsimp only
    rw [if_neg (by rw [hup]; simp), hp.2]
    rfl
  | waiting notified => exact absurd hplace (hwaits notified)
  | loaded | reset => rfl
  | running | stopped =>
    rw [hplace] at hok
    cases hp.2.symm.trans hok
  | ended =>
    rw [hplace] at hok
    rcases hok with hon | hdown
    · cases hp.2.symm.trans hon
    · cases hup.symm.trans hdown

theorem wake_isSome (hwaits : (m.threads i).place = .waiting true) : (step m (.wake i)).isSome = true := by
  rw [step, hwaits]
  rfl

theorem notify_isSome (hcall : m.call caller = some (.notifying i)) : (step m (.notify caller)).isSome = true := by
  rw [step, hcall]
  rfl

end Pending

theorem eq_waiting_false {place : Place} (h : place.rank = 4) : place = .waiting false := by
  cases place with
  | waiting notified =>
    cases notified with
    | false => rfl
    | true => exact absurd h (by decide)
  | _ => exact nomatch h

theorem eq_waiting_true {place : Place} (h : place.rank = 3) : place = .waiting true := by
  cases place with
  | waiting notified =>
    cases notified with
    | false => exact absurd h (by decide)
    | true => rfl
  | _ => exact nomatch h

/-! ## Executions -/

section Executions

variable {e : Execution step} {n i : Nat} {control : VcpuControl}

/-- From a time on the start stays pending, no nearer, and nothing helps it. -/
structure Stuck (e : Execution step) (n i : Nat) (control : VcpuControl) (rank : Nat) : Prop where
  inv : ∀ k, n ≤ k → Inv (e.state k)
  up : ∀ k, n ≤ k → (e.state k).shutdown = false
  pending : ∀ k, n ≤ k → (e.state k).Pending i control
  rank : ∀ k, n ≤ k → ((e.state k).threads i).place.rank = rank
  helps : ∀ k, n ≤ k → ¬Helps (e.state k) i (e.act k)

/-- A step that helps is possible, and lasts: a fair execution takes it. -/
theorem Stuck.false {rank : Nat} (hfair : Fair e) (h : Stuck e n i control rank) : False := by
  have hrank := h.rank n (Nat.le_refl n)
  cases hplace : ((e.state n).threads i).place with
  | waiting notified =>
    rw [hplace] at hrank
    cases notified with
    | false =>
      obtain ⟨caller, hcall⟩ := ((h.inv n (Nat.le_refl n)).cpus i control (h.pending n (Nat.le_refl n)).1).notified
        (h.pending n (Nat.le_refl n)).2 hplace
      obtain ⟨k, hk, hcall, hact⟩ := (hfair.notify caller).taken
        (P := fun k => (e.state k).call caller = some (.notifying i)) (fun _ _ => notify_isSome)
        (fun k hk hcall ha => notifying_kept (h.inv k hk) hcall (e.next k) ha) hcall
      exact h.helps k hk (.inr (.inr ⟨caller, hact, hcall, eq_waiting_false ((h.rank k hk).trans hrank.symm)⟩))
    | true =>
      obtain ⟨k, hk, hact⟩ := hfair.wake i n fun k hk =>
        wake_isSome (eq_waiting_true ((h.rank k hk).trans hrank.symm))
      exact h.helps k hk (.inr (.inl hact))
  | locking | loaded | reset | running | stopped | ended =>
    rw [hplace] at hrank
    have hwaits : ∀ k, n ≤ k → ∀ notified, ((e.state k).threads i).place ≠ .waiting notified := by
      intro k hk notified hwaits
      have hlt := two_lt_rank_waiting notified
      rw [← hwaits, h.rank k hk, ← hrank] at hlt
      exact absurd hlt (by simp [Place.rank])
    obtain ⟨k, hk, hact⟩ := hfair.advance i n fun k hk => advance_isSome (h.inv k hk) (h.pending k hk) (h.up k hk)
      (hwaits k hk)
    exact h.helps k hk (.inl hact)

/-- **A pending start is carried out**, in a fair execution that is not shut down. -/
theorem eventually_started (hfair : Fair e) (hinv : ∀ k, Inv (e.state k)) (hup : ∀ k, (e.state k).shutdown = false)
    (hp : (e.state n).Pending i control) :
    ∃ k, n ≤ k ∧ (e.state (k + 1)).events = (e.state k).events ++ [.start i control.entry control.context] := by
  induction hr : ((e.state n).threads i).place.rank using Nat.strongRecOn generalizing n with
  | ind rank ih =>
    by_contra hnever
    push Not at hnever
    have hstep : ∀ k, n ≤ k → (e.state k).Pending i control → _ := fun k hk hpk =>
      (step_pending (hinv k) hpk (hup k) (e.next k)).resolve_left (hnever k hk)
    have hpending : ∀ k, n ≤ k → (e.state k).Pending i control :=
      e.from_then_on (P := fun m => m.Pending i control) (fun k hk hpk => (hstep k hk hpk).1) hp
    have hstays : ∀ k, n ≤ k → ¬((e.state k).threads i).place.rank < rank := by
      intro k hk hlt
      obtain ⟨later, hlater, hstart⟩ := ih _ hlt (hpending k hk) rfl
      exact hnever later (Nat.le_trans hk hlater) hstart
    have hrank : ∀ k, n ≤ k → ((e.state k).threads i).place.rank = rank := by
      intro k hk
      induction hk with
      | refl => exact hr
      | @step k hk ihk =>
        have hle := (hstep k hk (hpending k hk)).2.1
        rw [ihk] at hle
        exact Nat.le_antisymm hle (Nat.le_of_not_lt (hstays (k + 1) (Nat.le_succ_of_le hk)))
    refine Stuck.false hfair ⟨fun k _ => hinv k, fun k _ => hup k, hpending, hrank, fun k hk hhelps => ?_⟩
    have hlt := (hstep k hk (hpending k hk)).2.2 hhelps
    rw [hrank k hk] at hlt
    exact hstays (k + 1) (Nat.le_succ_of_le hk) hlt

end Executions

/-! ## All runs -/

section Runs

variable {m m' : Machine} {a : Action} {request : CpuOnCall}

theorem pending_of_accepted (h : Controls m.controls) (hstep : step m a = some m')
    (hevents : m'.events = m.events ++ [.cpuOn request]) (hstatus : request.status = SUCCESS) :
    ∃ i control, normalizedMpidr request.target = cpuMpidr (i + 1) ∧ m'.Pending i control ∧
      control.entry = request.entry ∧ control.context = request.context := by
  rcases step_events hstep with ⟨caller, target, entry, context, _, rfl⟩ | hsame | ⟨event, hevent, hother⟩
  · rw [events_cpuOn] at hevents
    obtain rfl := Event.cpuOn.inj (List.singleton_inj.mp (List.append_cancel_left hevents))
    dsimp only at hstatus ⊢
    rcases Inv.cpuOnResult_cases h target entry context with ⟨i, control, hi, htarget, _, heq⟩ |
      ⟨status, hrejected,
      heq⟩
    · refine ⟨i, ⟨control.index, .onPending, entry, context⟩, htarget, ⟨?_, rfl⟩, rfl, rfl⟩
      rw [Machine.cpuOn, controls_setCall, heq]
      exact List.getElem?_set_self (List.getElem?_eq_some_iff.mp hi).1
    · rw [heq] at hstatus
      exact absurd hstatus hrejected
  · rw [hsame] at hevents
    exact absurd (congrArg List.length hevents) (by simp)
  · rw [hother] at hevents
    exact absurd (List.singleton_inj.mp (List.append_cancel_left hevents)) (hevent _)

/-- In every state reached, the invariant holds and the calls so far answered by the states of their CPUs, those for
CPU0 aside. -/
theorem reached {cpuCount : Nat} (hcount : cpuCount ≤ MAX_CPUS)
    (hreach : Reaches step (fun _ _ => True) (init cpuCount) m) :
    Inv m ∧ ∀ c ∈ m.calls, c.Right ↔ normalizedMpidr c.target ≠ cpuMpidr 0 := by
  refine hreach.invariant (P := fun m => Inv m ∧ ∀ c ∈ m.calls, c.Right ↔
    normalizedMpidr c.target ≠ cpuMpidr 0)
    ⟨Inv.init cpuCount hcount, nofun⟩ ?_
  rintro s s' a ⟨h, hcalls⟩ _ hstep
  exact ⟨h.step hstep, calls_step h hcalls hstep⟩

end Runs

/-- **`CPU_ON` boots a CPU exactly once**: in every run the accepted calls and the starts alternate and a rejected call
changes nothing, and a call answers by its CPU's state if and only if it does not name CPU0; in a fair execution without
a shutdown every accepted call is followed by its start. -/
theorem cpuOn_boots (cpuCount : Nat) (hcount : cpuCount ≤ MAX_CPUS) :
    (∀ m, Reaches step (fun _ _ => True) (init cpuCount) m →
      BootsOnce m ∧ ∀ c ∈ m.calls, c.Right ↔ normalizedMpidr c.target ≠ cpuMpidr 0) ∧
    ∀ e : Execution step, e.state 0 = init cpuCount → Fair e → (∀ k, (e.state k).shutdown = false) →
      ∀ n request, (e.state (n + 1)).events = (e.state n).events ++ [.cpuOn request] → request.status = SUCCESS →
        ∃ i k, normalizedMpidr request.target = cpuMpidr (i + 1) ∧ n < k ∧
          (e.state (k + 1)).events = (e.state k).events ++ [.start i request.entry request.context] := by
  constructor
  · intro m hreach
    obtain ⟨h, hcalls⟩ := reached hcount hreach
    exact ⟨h.bootsOnce, hcalls⟩
  · intro e hstart hfair hup n request hevents hstatus
    have hinv : ∀ k, Inv (e.state k) := fun k => (reached hcount (e.reaches (by rw [hstart]; exact .start) k)).1
    obtain ⟨i, control, htarget, hpending, hentry, hcontext⟩ :=
      pending_of_accepted (hinv n).controls (e.next n) hevents hstatus
    obtain ⟨k, hk, hstarted⟩ := eventually_started hfair hinv hup hpending
    rw [hentry, hcontext] at hstarted
    exact ⟨i, k, htarget, hk, hstarted⟩

/-- CPU0 starts CPU1, whose thread was waiting. -/
theorem cpuOn_boots_secondary : ∃ m : Machine,
    runs step (init 2) [.advance 0, .cpuOn none (cpuMpidr 1) 0x8000 7, .notify none, .wake 0, .advance 0, .advance 0,
      .advance 0] = some m ∧
    m.events = [.cpuOn ⟨cpuMpidr 1, 0x8000, 7, SUCCESS, some .off, Affinity.OFF⟩, .start 0 0x8000 7] ∧
    BootsOnce m := by
  have hevents : (runs (guarded step fun _ _ => True) (init 2) [.advance 0, .cpuOn none (cpuMpidr 1) 0x8000 7,
      .notify none, .wake 0, .advance 0, .advance 0, .advance 0]).map Machine.events =
        some [.cpuOn ⟨cpuMpidr 1, 0x8000, 7, SUCCESS, some .off, Affinity.OFF⟩, .start 0 0x8000 7] := by decide
  obtain ⟨m, hrun, hm⟩ := Option.map_eq_some_iff.mp hevents
  exact ⟨m, hrun, hm, ((cpuOn_boots 2 (by decide)).1 m (.of_runs .start hrun)).1⟩

/-- CPU0 is running, and `CPU_ON` for it answers that there is no such CPU. -/
theorem not_right_of_primary : ¬∀ cpuCount ≤ MAX_CPUS, ∀ m : Machine,
    Reaches step (fun _ _ => True) (init cpuCount) m → BootsOnce m ∧ ∀ c ∈ m.calls, c.Right := by
  intro hall
  have hreach : Reaches step (fun _ _ => True) (init 2) ((init 2).cpuOn none (cpuMpidr 0) 0x8000 7) :=
    .next (.cpuOn none (cpuMpidr 0) 0x8000 7) .start trivial rfl
  have hcalls : ((init 2).cpuOn none (cpuMpidr 0) 0x8000 7).calls =
      [⟨cpuMpidr 0, 0x8000, 7, INVALID_PARAMS, some .on, Affinity.ON⟩] := by decide
  have hright := (hall 2 (by decide) _ hreach).2 _ (by rw [hcalls]; exact List.mem_singleton_self _)
  exact absurd (hright .on rfl).1 (by decide)

end BridgeVm.Psci
