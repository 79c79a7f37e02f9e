import Mathlib.Order.Interval.Finset.Nat
import Mathlib.Data.Nat.Count
import BridgeVm.Lib.Transition

/-!
# The VM's clock

`vm_clock.rs`: host time with the pauses left out. Any number of threads ask for the VM's time while one thread pauses
and resumes. A call reads the host's clock and only then takes the lock, so other calls may take it in between.
-/

namespace BridgeVm.VmClock

open Lib

/-! ## The state behind the lock -/

/-- `Instant::checked_sub`. Instants are in nanoseconds from the earliest one there is, durations in nanoseconds. -/
def checkedSub (instant d : Nat) : Option Nat := if d ≤ instant then some (instant - d) else none

def saturatingDurationSince (later earlier : Nat) : Nat := later - earlier

structure State where
  pausedTotal : Nat
  pausedSince : Option Nat
deriving Repr, DecidableEq

/-- Host time, held at the start of the current pause. -/
def State.heldAt (s : State) (now : Nat) : Nat := s.pausedSince.elim now fun since => min since now

def State.activeAt (s : State) (now : Nat) : Nat :=
  (checkedSub (s.heldAt now) s.pausedTotal).getD (s.heldAt now)

def State.hostAt (s : State) (now instant : Nat) : Nat :=
  instant + s.pausedTotal + s.pausedSince.elim 0 (saturatingDurationSince now)

def State.pause (s : State) (now : Nat) : State := { s with pausedSince := some (s.pausedSince.getD now) }

def State.resume (s : State) (now : Nat) : State × Nat :=
  match s.pausedSince with
  | none => (s, 0)
  | some since =>
    let paused := saturatingDurationSince now since
    ({ pausedTotal := s.pausedTotal + paused, pausedSince := none }, paused)

/-! ## The threads -/

/-- Where a thread that asks for times stands. -/
inductive Place
  | outside
  /-- In `active_now`, with the host time it has read; `returned` calls had returned when it began. -/
  | activeNow (now : Nat) (returned : Nat)
  | hostAt (instant now : Nat)
deriving DecidableEq

/-- Where the thread that pauses and resumes stands. -/
inductive Pauser
  | outside
  | pause (now : Nat)
  | resume (now : Nat)
deriving DecidableEq

/-- A call of `active_now` that has returned: the host time it read and what it returned. -/
structure Call where
  now : Nat
  result : Nat
  /-- The calls that had returned when this one began. -/
  returned : Nat
deriving DecidableEq

/-- A pause that is over, with the host times its two calls read. -/
structure Pause where
  start : Nat
  stop : Nat
deriving DecidableEq

structure Clock where
  host : Nat
  state : State
  threads : Nat → Place
  pauser : Pauser
  /-- The calls of `active_now`, in the order in which they returned. -/
  calls : List Call
  /-- The pauses that are over, the last one first. -/
  pauses : List Pause
  /-- The subtractions so far that would have gone below zero. -/
  underflows : Nat

inductive Action
  /-- Host time goes on. -/
  | tick (d : Nat)
  | readNow (thread : Nat)
  | mapNow (thread : Nat)
  | mapAt (now : Nat)
  | readHostAt (thread instant : Nat)
  | mapHostAt (thread : Nat)
  | readPause
  | lockPause
  | readResume
  | lockResume
deriving DecidableEq

def init (host : Nat) : Clock :=
  { host, state := ⟨0, none⟩, threads := fun _ => .outside, pauser := .outside, calls := [], pauses :=
    [], underflows := 0 }

/-- One for a subtraction that would have gone below zero. -/
def underflow (whole part : Nat) : Nat := if part ≤ whole then 0 else 1

def Clock.mapped (c : Clock) (now : Nat) : Clock :=
  { c with underflows := c.underflows + underflow (c.state.heldAt now) c.state.pausedTotal }

def Clock.mapNow (c : Clock) (thread now returned : Nat) : Clock :=
  { c.mapped now with
    threads := Function.update c.threads thread .outside
    calls := c.calls ++ [⟨now, c.state.activeAt now, returned⟩] }

def Clock.mapHostAt (c : Clock) (thread now : Nat) : Clock :=
  { c with
    threads := Function.update c.threads thread .outside
    underflows := c.underflows + c.state.pausedSince.elim 0 (underflow now) }

def Clock.lockPause (c : Clock) (now : Nat) : Clock := { c with state := c.state.pause now, pauser := .outside }

def Clock.lockResume (c : Clock) (now : Nat) : Clock :=
  { c with
    state := (c.state.resume now).1
    pauser := .outside
    pauses := c.state.pausedSince.elim c.pauses fun since => ⟨since, now⟩ :: c.pauses
    underflows := c.underflows + c.state.pausedSince.elim 0 (underflow now) }

/-- A step of the host's clock or of one of the threads. -/
def step (c : Clock) : Action → Option Clock
  | .tick d => some { c with host := c.host + d }
  | .readNow thread =>
    match c.threads thread with
    | .outside =>
      some { c with threads := Function.update c.threads thread (.activeNow c.host c.calls.length) }
    | _ => none
  | .mapNow thread =>
    match c.threads thread with
    | .activeNow now returned => some (c.mapNow thread now returned)
    | _ => none
  | .mapAt now => some (c.mapped now)
  | .readHostAt thread instant =>
    match c.threads thread with
    | .outside => some { c with threads := Function.update c.threads thread (.hostAt instant c.host) }
    | _ => none
  | .mapHostAt thread =>
    match c.threads thread with
    | .hostAt _ now => some (c.mapHostAt thread now)
    | _ => none
  | .readPause =>
    match c.pauser with
    | .outside => some { c with pauser := .pause c.host }
    | _ => none
  | .lockPause =>
    match c.pauser with
    | .pause now => some (c.lockPause now)
    | _ => none
  | .readResume =>
    match c.pauser with
    | .outside => some { c with pauser := .resume c.host }
    | _ => none
  | .lockResume =>
    match c.pauser with
    | .resume now => some (c.lockResume now)
    | _ => none

/-! ## VM time -/

/-- The host time at which the last pause that is over ended. -/
def Clock.lastResume (c : Clock) : Nat := c.pauses.head?.elim 0 Pause.stop

/-- No pause holds the VM at this host time. -/
def Clock.running (c : Clock) (instant : Nat) : Prop :=
  (∀ p ∈ c.pauses, instant < p.start ∨ p.stop ≤ instant) ∧ ∀ since ∈ c.state.pausedSince, instant < since

instance (c : Clock) : DecidablePred c.running := fun _ => inferInstanceAs (Decidable (_ ∧ _))

/-- The host time outside pauses between two host times. -/
def Clock.timeOutsidePauses (c : Clock) (a b : Nat) : Nat := ((Finset.Ico a b).filter c.running).card

/-- **What the VM's time keeps.** -/
structure VmTime (c : Clock) : Prop where
  /-- It does not go back: a call that begins after another has returned returns no earlier time. -/
  monotone : ∀ (i j : Nat) (a b : Call), c.calls[i]? = some a → c.calls[j]? = some b → i < b.returned →
    a.result ≤ b.result
  /-- Between two calls it advances by the host time outside pauses. -/
  advances : ∀ a ∈ c.calls, ∀ b ∈ c.calls, a.now ≤ b.now →
    b.result = a.result + c.timeOutsidePauses a.now b.now
  /-- It is constant while paused. -/
  held : ∀ a ∈ c.calls, ∀ b ∈ c.calls, a.now ≤ b.now →
    (∀ n, a.now ≤ n → n < b.now → ¬c.running n) → a.result = b.result
  /-- `active_at` advances in the same way from the end of the last pause on. -/
  activeAt : ∀ a b, c.lastResume ≤ a → a ≤ b →
    c.state.activeAt b = c.state.activeAt a + c.timeOutsidePauses a b
  /-- While running, `host_at` is the inverse of `active_at`. -/
  hostAt_activeAt : c.state.pausedSince = none → ∀ now instant, c.lastResume ≤ instant →
    c.state.hostAt now (c.state.activeAt instant) = instant
  /-- No subtraction went below zero. -/
  underflows : c.underflows = 0

/-! ## Counting the running instants -/

section Count

variable {p q : Nat → Prop} [DecidablePred p] [DecidablePred q] {a b n : Nat}

theorem count_congr (h : ∀ k < n, p k ↔ q k) : Nat.count p n = Nat.count q n :=
  le_antisymm (Nat.count_mono_left fun k hk => (h k hk).mp) (Nat.count_mono_left fun k hk => (h k hk).mpr)

theorem count_of_forall_between (hab : a ≤ b) (h : ∀ k, a ≤ k → k < b → p k) : Nat.count p b = Nat.count p a +
    (b - a) := by
  obtain ⟨d, rfl⟩ := Nat.exists_eq_add_of_le hab
  rw [Nat.count_add, Nat.count_iff_forall.mpr fun k hk => h _ (Nat.le_add_right _ _) (Nat.add_lt_add_left hk _),
    Nat.add_sub_cancel_left]

theorem count_of_forall_not_between (hab : a ≤ b) (h : ∀ k, a ≤ k → k < b → ¬p k) :
    Nat.count p b = Nat.count p a := by
  obtain ⟨d, rfl⟩ := Nat.exists_eq_add_of_le hab
  rw [Nat.count_add, Nat.count_iff_forall_not.mpr fun k hk => h _ (Nat.le_add_right _ _) (Nat.add_lt_add_left hk _),
    Nat.add_zero]

theorem count_add_card_filter_Ico (hab : a ≤ b) :
    Nat.count p a + ((Finset.Ico a b).filter p).card = Nat.count p b := by
  have hsplit : Finset.range b = Finset.range a ∪ Finset.Ico a b := by
    rw [Finset.range_eq_Ico, Finset.range_eq_Ico, Finset.Ico_union_Ico_eq_Ico (Nat.zero_le a) hab]
  have hdisjoint : Disjoint ((Finset.range a).filter p) ((Finset.Ico a b).filter p) := by
    refine Finset.disjoint_filter_filter ?_
    rw [Finset.range_eq_Ico]
    exact Finset.Ico_disjoint_Ico_consecutive 0 a b
  rw [Nat.count_eq_card_filter_range, Nat.count_eq_card_filter_range, hsplit, Finset.filter_union,
    Finset.card_union_of_disjoint hdisjoint]

end Count

/-! ## The invariant -/

/-- The host times the calls under way have read. -/
def Place.Ok (c : Clock) : Place → Prop
  | .outside => True
  | .activeNow now returned => now ≤ c.host ∧ returned ≤ c.calls.length ∧ ∀ a ∈ c.calls.take returned,
    a.now ≤ now
  | .hostAt _ now => now ≤ c.host

def Pauser.Ok (c : Clock) : Pauser → Prop
  | .outside => True
  | .pause now | .resume now => now ≤ c.host ∧ c.lastResume ≤ now ∧ ∀ since ∈ c.state.pausedSince,
    since ≤ now

/-- What every step keeps. -/
structure Inv (c : Clock) : Prop where
  /-- VM time from the end of the last pause on. -/
  exact : ∀ r, c.lastResume ≤ r → Nat.count c.running r + c.state.pausedTotal = c.state.heldAt r
  lastResume : c.lastResume ≤ c.host
  stops : ∀ p ∈ c.pauses, p.stop ≤ c.lastResume
  since : ∀ since ∈ c.state.pausedSince, c.lastResume ≤ since ∧ since ≤ c.host
  threads : ∀ thread, (c.threads thread).Ok c
  pauser : c.pauser.Ok c
  /-- VM time at the host time each call has read. -/
  calls : ∀ a ∈ c.calls, a.now ≤ c.host ∧ a.result = Nat.count c.running a.now
  /-- A call reads the host's clock no earlier than those that returned before it. -/
  order : ∀ (i j : Nat) (a b : Call), c.calls[i]? = some a → c.calls[j]? = some b → i < b.returned →
    a.now ≤ b.now
  returned : ∀ (j : Nat) (b : Call), c.calls[j]? = some b → b.returned ≤ j
  underflows : c.underflows = 0

section Inv

variable {c : Clock} {now r since thread returned : Nat}

theorem Place.Ok.mono {c' : Clock} {place : Place} (h : place.Ok c) (hhost : c.host ≤ c'.host) (hcalls :
    c.calls <+: c'.calls) :
    place.Ok c' := by
  cases place with
  | outside => trivial
  | hostAt instant now => exact le_trans h hhost
  | activeNow now returned =>
    obtain ⟨hnow, hle, hbefore⟩ := h
    refine ⟨le_trans hnow hhost, hle.trans hcalls.length_le, ?_⟩
    obtain ⟨extra, hextra⟩ := hcalls
    rwa [← hextra, List.take_append_of_le_length hle]

theorem running_lockPause (hs : c.state.pausedSince = none) (n : Nat) :
    (c.lockPause now).running n ↔ c.running n ∧ n < now := by
  rw [Clock.running, Clock.running, Clock.lockPause, State.pause, hs, Option.getD_none]
  simp

theorem running_paused (hs : c.state.pausedSince = some since) (n : Nat) :
    c.running n ↔ (∀ p ∈ c.pauses, n < p.start ∨ p.stop ≤ n) ∧ n < since := by
  rw [Clock.running, hs]
  simp

theorem running_lockResume (hs : c.state.pausedSince = some since) (n : Nat) :
    (c.lockResume now).running n ↔ (∀ p ∈ c.pauses, n < p.start ∨ p.stop ≤ n) ∧
    (n < since ∨ now ≤ n) := by
  rw [Clock.running, Clock.lockResume, State.resume, hs, Option.elim_some]
  simp [and_comm]

namespace Inv

theorem pausedTotal_le (h : Inv c) (hr : c.lastResume ≤ r) : c.state.pausedTotal ≤ c.state.heldAt r :=
  (Nat.le_add_left _ _).trans_eq (h.exact r hr)

theorem activeAt_eq (h : Inv c) (hr : c.lastResume ≤ r) : c.state.activeAt r = Nat.count c.running r := by
  have hexact := h.exact r hr
  rw [State.activeAt, checkedSub, if_pos (h.pausedTotal_le hr), Option.getD_some]
  omega

theorem underflow_eq (h : Inv c) (hr : c.lastResume ≤ r) : underflow (c.state.heldAt r) c.state.pausedTotal = 0 :=
  if_pos (h.pausedTotal_le hr)

/-- What holds of VM time in a state that meets the invariant. -/
theorem vmTime (h : Inv c) : VmTime c where
  monotone := by
    intro i j a b ha hb hlt
    rw [(h.calls a (List.mem_of_getElem? ha)).2, (h.calls b (List.mem_of_getElem? hb)).2]
    exact Nat.count_monotone _ (h.order i j a b ha hb hlt)
  advances := by
    intro a ha b hb hab
    rw [(h.calls a ha).2, (h.calls b hb).2]
    exact (count_add_card_filter_Ico hab).symm
  held := by
    intro a ha b hb hab hnone
    rw [(h.calls a ha).2, (h.calls b hb).2]
    exact (count_of_forall_not_between hab hnone).symm
  activeAt := by
    intro a b ha hab
    rw [h.activeAt_eq ha, h.activeAt_eq (ha.trans hab)]
    exact (count_add_card_filter_Ico hab).symm
  hostAt_activeAt := by
    intro hrunning now instant hinstant
    have htotal := h.pausedTotal_le hinstant
    have hheld : c.state.heldAt instant = instant := by rw [State.heldAt, hrunning, Option.elim_none]
    rw [hheld] at htotal
    rw [State.hostAt, State.activeAt, hrunning, hheld, checkedSub, if_pos htotal, Option.getD_some, Option.elim_none]
    omega
  underflows := h.underflows

/-! ### One step -/

theorem init (host : Nat) : Inv (VmClock.init host) where
  exact := fun r _ => by
    refine Nat.count_iff_forall.mpr fun k _ => ⟨fun p hp => ?_, fun since hs => ?_⟩
    · cases hp
    · cases hs
  lastResume := Nat.zero_le _
  stops := fun p hp => by cases hp
  since := fun since hs => by cases hs
  threads := fun _ => trivial
  pauser := trivial
  calls := fun a ha => by cases ha
  order := fun i j a b ha => by cases ha
  returned := fun j b hb => by cases hb
  underflows := rfl

theorem tick (h : Inv c) (d : Nat) : Inv { c with host := c.host + d } where
  exact := h.exact
  lastResume := h.lastResume.trans (Nat.le_add_right _ _)
  stops := h.stops
  since := fun since hs => ⟨(h.since since hs).1, (h.since since hs).2.trans (Nat.le_add_right _ _)⟩
  threads := fun thread => (h.threads thread).mono (Nat.le_add_right _ _) (List.prefix_refl _)
  pauser := by
    have hold := h.pauser
    cases hp : c.pauser with
    | outside => trivial
    | pause now | resume now =>
      rw [hp] at hold
      exact ⟨hold.1.trans (Nat.le_add_right _ _), hold.2⟩
  calls := fun a ha => ⟨(h.calls a ha).1.trans (Nat.le_add_right _ _), (h.calls a ha).2⟩
  order := h.order
  returned := h.returned
  underflows := h.underflows

theorem moved (h : Inv c) (thread : Nat) (place : Place) (hplace : place.Ok c) :
    Inv { c with threads := Function.update c.threads thread place } where
  exact := h.exact
  lastResume := h.lastResume
  stops := h.stops
  since := h.since
  threads := fun other => by
    by_cases hother : other = thread
    · subst hother
      dsimp only
      rw [Function.update_self]
      exact hplace.mono le_rfl (List.prefix_refl _)
    · dsimp only
      rw [Function.update_of_ne hother]
      exact (h.threads other).mono le_rfl (List.prefix_refl _)
  pauser := h.pauser
  calls := h.calls
  order := h.order
  returned := h.returned
  underflows := h.underflows

theorem pauserMoved (h : Inv c) {pauser : Pauser} (hpauser : pauser.Ok c) : Inv { c with pauser := pauser } where
  exact := h.exact
  lastResume := h.lastResume
  stops := h.stops
  since := h.since
  threads := fun thread => (h.threads thread).mono le_rfl (List.prefix_refl _)
  pauser := by cases pauser <;> exact hpauser
  calls := h.calls
  order := h.order
  returned := h.returned
  underflows := h.underflows

theorem subtracted (h : Inv c) {n : Nat} (hn : n = 0) : Inv { c with underflows := c.underflows + n } where
  exact := h.exact
  lastResume := h.lastResume
  stops := h.stops
  since := h.since
  threads := fun thread => (h.threads thread).mono le_rfl (List.prefix_refl _)
  pauser := h.pauser
  calls := h.calls
  order := h.order
  returned := h.returned
  underflows := by
    dsimp only
    rw [h.underflows, hn]

/-- A call of `active_now` returns. -/
theorem called (h : Inv c) (hplace : (Place.activeNow now returned).Ok c) (hr : c.lastResume ≤ now) :
    Inv { c with calls := c.calls ++ [⟨now, c.state.activeAt now, returned⟩] } where
  exact := h.exact
  lastResume := h.lastResume
  stops := h.stops
  since := h.since
  threads := fun thread => (h.threads thread).mono le_rfl (List.prefix_append _ _)
  pauser := h.pauser
  calls := by
    intro a ha
    rcases List.mem_append.mp ha with ha | ha
    · exact h.calls a ha
    · rw [List.mem_singleton.mp ha]
      exact ⟨hplace.1, h.activeAt_eq hr⟩
  order := by
    intro i j a b ha hb hlt
    obtain ⟨_, hle, hbefore⟩ := hplace
    rcases Nat.lt_or_ge j c.calls.length with hj | hj
    · rw [List.getElem?_append_left hj] at hb
      have hi : i < c.calls.length := (hlt.trans_le (h.returned j b hb)).trans hj
      rw [List.getElem?_append_left hi] at ha
      exact h.order i j a b ha hb hlt
    · -- the call that returns
      rw [List.getElem?_append_right hj, List.getElem?_singleton] at hb
      split at hb
      · cases hb
        rw [List.getElem?_append_left (hlt.trans_le hle)] at ha
        have htake : (c.calls.take returned)[i]? = some a := by rw [List.getElem?_take_of_lt hlt, ha]
        exact hbefore a (List.mem_of_getElem? htake)
      · cases hb
  returned := by
    intro j b hb
    rcases Nat.lt_or_ge j c.calls.length with hj | hj
    · rw [List.getElem?_append_left hj] at hb
      exact h.returned j b hb
    · rw [List.getElem?_append_right hj, List.getElem?_singleton] at hb
      split at hb
      · cases hb
        exact hplace.2.1.trans hj
      · cases hb
  underflows := h.underflows

/-- A pause begins, at a host time that no call has mapped beyond. -/
theorem pause (h : Inv c) (hnow : (Pauser.pause now).Ok c)
    (htimely : c.state.pausedSince = none → ∀ a ∈ c.calls, a.now ≤ now) : Inv (c.lockPause now) := by
  obtain ⟨hhost, hlast, _⟩ := hnow
  cases hs : c.state.pausedSince with
  | some since =>
    -- paused already: the first pause goes on
    have hsame : c.lockPause now = { c with pauser := .outside } := by
      have hstate : c.state.pause now = c.state := by rw [State.pause, hs, Option.getD_some, ← hs]
      rw [Clock.lockPause, hstate]
    rw [hsame]
    exact h.pauserMoved trivial
  | none =>
    have hrunning : ∀ n, (c.lockPause now).running n ↔ c.running n ∧ n < now := fun n => running_lockPause hs n
    have hsame : ∀ r ≤ now, Nat.count (c.lockPause now).running r = Nat.count c.running r := fun r hr =>
      count_congr fun k hk => (hrunning k).trans (and_iff_left (hk.trans_le hr))
    have hheld : ∀ r, (c.lockPause now).state.heldAt r = min now r := fun r => by
      rw [Clock.lockPause, State.pause, State.heldAt, hs, Option.getD_none, Option.elim_some]
    have hexact : ∀ r, c.lastResume ≤ r → Nat.count c.running r + c.state.pausedTotal = r := fun r hr => by
      rw [h.exact r hr, State.heldAt, hs, Option.elim_none]
    exact {
      exact := by
        intro r hr
        rw [hheld r]
        rcases Nat.le_total r now with hle | hle
        · rw [hsame r hle, min_eq_right hle]
          exact hexact r hr
        · have hnone : ∀ k, now ≤ k → k < r → ¬(c.lockPause now).running k := fun k hk _ hrun =>
            absurd ((hrunning k).mp hrun).2 (not_lt_of_ge hk)
          rw [count_of_forall_not_between hle hnone, hsame now le_rfl, min_eq_left hle]
          exact hexact now hlast
      lastResume := h.lastResume
      stops := h.stops
      since := by
        intro since hsince
        rw [Clock.lockPause, State.pause, hs, Option.getD_none, Option.mem_some] at hsince
        subst hsince
        exact ⟨hlast, hhost⟩
      threads := fun thread => (h.threads thread).mono le_rfl (List.prefix_refl _)
      pauser := trivial
      calls := fun a ha => ⟨(h.calls a ha).1, (h.calls a ha).2.trans (hsame a.now (htimely hs a ha)).symm⟩
      order := h.order
      returned := h.returned
      underflows := h.underflows }

/-- A pause ends, at a host time that no call has mapped beyond. -/
theorem resume (h : Inv c) (hnow : (Pauser.resume now).Ok c)
    (htimely : c.state.pausedSince ≠ none → ∀ a ∈ c.calls, a.now ≤ now) : Inv (c.lockResume now) := by
  obtain ⟨hhost, hlast, hsince⟩ := hnow
  cases hs : c.state.pausedSince with
  | none =>
    have hsame : c.lockResume now = { c with pauser := .outside } := by
      rw [Clock.lockResume, State.resume, hs]
      rfl
    rw [hsame]
    exact h.pauserMoved trivial
  | some since =>
    have hle : since ≤ now := hsince since hs
    obtain ⟨hbegan, _⟩ := h.since since hs
    have hrunning : ∀ n, (c.lockResume now).running n ↔ (∀ p ∈ c.pauses, n < p.start ∨ p.stop ≤ n) ∧
      (n < since ∨ now ≤ n) :=
      fun n => running_lockResume hs n
    have hlastResume : (c.lockResume now).lastResume = now := by
      rw [Clock.lockResume, Clock.lastResume, hs]
      rfl
    have hstate : (c.lockResume now).state = ⟨c.state.pausedTotal + (now - since), none⟩ := by
      rw [Clock.lockResume, State.resume, hs]
      rfl
    have hsame : ∀ r ≤ now, Nat.count (c.lockResume now).running r = Nat.count c.running r := fun r hr =>
      count_congr fun k hk => by
        rw [hrunning k, running_paused hs k]
        exact and_congr_right fun _ => or_iff_left (not_le_of_gt (hk.trans_le hr))
    exact {
      exact := by
        intro r hr
        rw [hlastResume] at hr
        have hall : ∀ k, now ≤ k → k < r → (c.lockResume now).running k := fun k hk _ =>
          (hrunning k).mpr ⟨fun p hp => .inr ((h.stops p hp).trans (hlast.trans hk)), .inr hk⟩
        have hnow := h.exact now hlast
        rw [State.heldAt, hs, Option.elim_some, min_eq_left hle] at hnow
        rw [count_of_forall_between hr hall, hsame now le_rfl, hstate, State.heldAt, Option.elim_none]
        dsimp only
        omega
      lastResume := by
        rw [hlastResume]
        exact hhost
      stops := by
        intro p hp
        rw [hlastResume]
        rw [Clock.lockResume, hs, Option.elim_some] at hp
        rcases List.mem_cons.mp hp with rfl | hp
        · exact le_rfl
        · exact (h.stops p hp).trans hlast
      since := by
        intro since hsome
        rw [hstate] at hsome
        cases hsome
      threads := fun thread => (h.threads thread).mono le_rfl (List.prefix_refl _)
      pauser := trivial
      calls := fun a ha => ⟨(h.calls a ha).1,
        (h.calls a ha).2.trans (hsame a.now (htimely (by rw [hs]; exact Option.some_ne_none since) a ha)).symm⟩
      order := h.order
      returned := h.returned
      underflows := by
        have hzero : underflow now since = 0 := if_pos hle
        rw [Clock.lockResume, hs]
        exact (congrArg (c.underflows + ·) hzero).trans h.underflows }

end Inv

end Inv

/-! ## Runs -/

/-- The steps that take the lock in time: a call maps no host time from before the end of the last pause, and a pause
begins and ends at a host time that no call has mapped beyond. -/
def Timely (c : Clock) : Action → Prop
  | .mapNow thread =>
    match c.threads thread with
    | .activeNow now _ => c.lastResume ≤ now
    | _ => True
  | .mapAt now => c.lastResume ≤ now
  | .mapHostAt thread =>
    match c.threads thread with
    | .hostAt _ now => ∀ since ∈ c.state.pausedSince, since ≤ now
    | _ => True
  | .lockPause =>
    match c.pauser with
    | .pause now => c.state.pausedSince = none → ∀ a ∈ c.calls, a.now ≤ now
    | _ => True
  | .lockResume =>
    match c.pauser with
    | .resume now => c.state.pausedSince ≠ none → ∀ a ∈ c.calls, a.now ≤ now
    | _ => True
  | _ => True

instance (c : Clock) (a : Action) : Decidable (Timely c a) := by
  unfold Timely
  split <;> (try split) <;> infer_instance

/-- A timely step keeps the invariant. -/
theorem Inv.step {c c' : Clock} {a : Action} (h : Inv c) (hok : Timely c a) (hstep : step c a = some c') : Inv c' := by
  cases a with
  | tick d =>
    cases hstep
    exact h.tick d
  | mapAt now =>
    cases hstep
    exact h.subtracted (h.underflow_eq hok)
  | readNow thread =>
    rw [VmClock.step] at hstep
    cases hplace : c.threads thread with
    | outside =>
      rw [hplace] at hstep
      cases hstep
      exact h.moved thread (.activeNow c.host c.calls.length) ⟨le_rfl, le_rfl, fun a ha =>
        (h.calls a (List.mem_of_mem_take ha)).1⟩
    | activeNow | hostAt => rw [hplace] at hstep; cases hstep
  | readHostAt thread instant =>
    rw [VmClock.step] at hstep
    cases hplace : c.threads thread with
    | outside =>
      rw [hplace] at hstep
      cases hstep
      exact h.moved thread (.hostAt instant c.host) le_rfl
    | activeNow | hostAt => rw [hplace] at hstep; cases hstep
  | mapNow thread =>
    rw [VmClock.step] at hstep
    cases hplace : c.threads thread with
    | activeNow now returned =>
      rw [hplace] at hstep
      cases hstep
      have hlast : c.lastResume ≤ now := by rwa [Timely, hplace] at hok
      have hthread : (Place.activeNow now returned).Ok c := hplace ▸ h.threads thread
      exact ((h.called hthread hlast).moved thread .outside trivial).subtracted (h.underflow_eq hlast)
    | outside | hostAt => rw [hplace] at hstep; cases hstep
  | mapHostAt thread =>
    rw [VmClock.step] at hstep
    cases hplace : c.threads thread with
    | hostAt instant now =>
      rw [hplace] at hstep
      cases hstep
      have hsince : ∀ since ∈ c.state.pausedSince, since ≤ now := by rwa [Timely, hplace] at hok
      have hzero : c.state.pausedSince.elim 0 (underflow now) = 0 := by
        cases hs : c.state.pausedSince with
        | none => rfl
        | some since => exact if_pos (hsince since hs)
      exact (h.moved thread .outside trivial).subtracted hzero
    | outside | activeNow => rw [hplace] at hstep; cases hstep
  | readPause =>
    rw [VmClock.step] at hstep
    cases hplace : c.pauser with
    | outside =>
      rw [hplace] at hstep
      cases hstep
      exact h.pauserMoved ⟨le_rfl, h.lastResume, fun since hs => (h.since since hs).2⟩
    | pause | resume => rw [hplace] at hstep; cases hstep
  | readResume =>
    rw [VmClock.step] at hstep
    cases hplace : c.pauser with
    | outside =>
      rw [hplace] at hstep
      cases hstep
      exact h.pauserMoved ⟨le_rfl, h.lastResume, fun since hs => (h.since since hs).2⟩
    | pause | resume => rw [hplace] at hstep; cases hstep
  | lockPause =>
    rw [VmClock.step] at hstep
    cases hplace : c.pauser with
    | pause now =>
      rw [hplace] at hstep
      cases hstep
      exact h.pause (hplace ▸ h.pauser) (by rwa [Timely, hplace] at hok)
    | outside | resume => rw [hplace] at hstep; cases hstep
  | lockResume =>
    rw [VmClock.step] at hstep
    cases hplace : c.pauser with
    | resume now =>
      rw [hplace] at hstep
      cases hstep
      exact h.resume (hplace ▸ h.pauser) (by rwa [Timely, hplace] at hok)
    | outside | pause => rw [hplace] at hstep; cases hstep

/-- **VM time never goes back in a run of timely steps.** -/
theorem vmTime_of_timely (host : Nat) : ∀ c, Reaches step Timely (init host) c → VmTime c := by
  intro c hreach
  have hinv : Inv c := hreach.invariant (Inv.init host) fun _ _ _ h hok hstep => h.step hok hstep
  exact hinv.vmTime

/-- Two calls of `active_now` with a pause of 10 between them. -/
theorem vmTime_of_timely_pause : ∃ c, VmTime c ∧ c.calls.map Call.result = [5, 6] ∧ c.host = 16 := by
  obtain ⟨c, hrun, hc⟩ : ∃ c, runs (guarded step Timely) (init 0)
      [.tick 5, .readNow 0, .mapNow 0, .readPause, .lockPause, .tick 10, .readResume, .lockResume, .tick 1, .readNow 1,
        .mapNow 1] = some c ∧ c.calls.map Call.result = [5, 6] ∧ c.host = 16 :=
    ⟨_, rfl, by decide⟩
  exact ⟨c, vmTime_of_timely 0 c (Reaches.start.of_runs hrun), hc⟩

/-- A call that reads the host's clock before a pause and maps it after the pause returns a time before the one that an
earlier call has returned. -/
theorem not_vmTime_of_late_map : ¬∀ c, Reaches step (fun _ _ => True) (init 0) c → VmTime c := by
  intro hall
  obtain ⟨c, hrun, hc⟩ : ∃ c, runs (guarded step fun _ _ => True) (init 0)
      [.tick 5, .readNow 0, .mapNow 0, .readNow 1, .readPause, .lockPause, .tick 4, .readResume, .lockResume,
        .mapNow 1] =
        some c ∧ c.calls = [⟨5, 5, 0⟩, ⟨5, 1, 1⟩] :=
    ⟨_, rfl, by decide⟩
  have hmonotone := (hall c (Reaches.start.of_runs hrun)).monotone 0 1 ⟨5, 5, 0⟩ ⟨5, 1, 1⟩
  rw [hc] at hmonotone
  exact absurd (hmonotone rfl rfl (by decide)) (by decide)

end BridgeVm.VmClock
