import Mathlib.Data.List.Basic
import Mathlib.Tactic.Push

/-!
# Runs of a step function

A step function gives the state after an action, or nothing where the action is not enabled. The states its runs reach
when each step meets a condition, finite runs, and infinite executions with weak fairness.
-/

namespace BridgeVm.Lib

universe u v

variable {σ : Type u} {α : Type v} {step : σ → α → Option σ} {ok : σ → α → Prop} {init s s' : σ}

/-- The states reached from `init` by enabled steps that meet `ok`. -/
inductive Reaches (step : σ → α → Option σ) (ok : σ → α → Prop) (init : σ) : σ → Prop
  | start : Reaches step ok init init
  | next {s s' : σ} (a : α) (hreach : Reaches step ok init s) (hok : ok s a) (hstep : step s a = some s') :
      Reaches step ok init s'

/-- What holds at the start and is kept by each step holds in every state reached. -/
theorem Reaches.invariant {P : σ → Prop} (h : Reaches step ok init s) (hinit : P init)
    (hnext : ∀ s s' a, P s → ok s a → step s a = some s' → P s') : P s := by
  induction h with
  | start => exact hinit
  | next a _ hok hstep ih => exact hnext _ _ a ih hok hstep

/-- A run of actions, all of them enabled. -/
def runs (step : σ → α → Option σ) (s : σ) : List α → Option σ
  | [] => some s
  | a :: as => (step s a).bind fun s' => runs step s' as

theorem runs_cons {a : α} {as : List α} (h : runs step s (a :: as) = some s') :
    ∃ mid, step s a = some mid ∧ runs step mid as = some s' := by
  simpa [runs, Option.bind_eq_some_iff] using h

theorem runs_append (as bs : List α) : runs step s (as ++ bs) = (runs step s as).bind fun s' => runs step s' bs := by
  induction as generalizing s with
  | nil => rfl
  | cons a as ih => simp [runs, ih, Option.bind_assoc]

/-- The last step of a run. -/
theorem runs_concat {a : α} {as : List α} (h : runs step s (as ++ [a]) = some s') :
    ∃ mid, runs step s as = some mid ∧ step mid a = some s' := by
  simpa [runs_append, runs, Option.bind_eq_some_iff] using h

/-- A run whose actions all meet `ok` ends in a state reached. -/
theorem Reaches.run {as : List α} (h : Reaches step ok init s) (hok : ∀ s, ∀ a ∈ as, ok s a)
    (hrun : runs step s as = some s') : Reaches step ok init s' := by
  induction as generalizing s with
  | nil =>
    cases hrun
    exact h
  | cons a as ih =>
    obtain ⟨mid, hstep, hrest⟩ := runs_cons hrun
    exact ih (.next a h (hok s a List.mem_cons_self) hstep) (fun s a ha => hok s a (List.mem_cons_of_mem _ ha)) hrest

/-- The steps that meet `ok`. -/
def guarded (step : σ → α → Option σ) (ok : σ → α → Prop) [∀ s a, Decidable (ok s a)] (s : σ) (a : α) :
    Option σ :=
  if ok s a then step s a else none

/-- A run whose steps meet `ok` ends in a state reached. -/
theorem Reaches.of_runs [∀ s a, Decidable (ok s a)] {as : List α} (h : Reaches step ok init s)
    (hrun : runs (guarded step ok) s as = some s') : Reaches step ok init s' := by
  induction as generalizing s with
  | nil =>
    cases hrun
    exact h
  | cons a as ih =>
    obtain ⟨mid, hstep, hrest⟩ := runs_cons hrun
    unfold guarded at hstep
    split at hstep
    · exact ih (.next a h ‹_› hstep) hrest
    · cases hstep

/-! ## Infinite executions -/

/-- An infinite execution. -/
structure Execution (step : σ → α → Option σ) where
  state : Nat → σ
  act : Nat → α
  next : ∀ n, step (state n) (act n) = some (state (n + 1))

namespace Execution

variable {e : Execution step} {a : α} {n : Nat}

/-- An action that stays enabled from some time on is taken after it. -/
def WeaklyFair (e : Execution step) (a : α) : Prop :=
  ∀ n, (∀ m, n ≤ m → (step (e.state m) a).isSome = true) → ∃ m, n ≤ m ∧ e.act m = a

/-- A fair action is taken when a condition enables it and lasts until it is taken. -/
theorem WeaklyFair.taken {P : Nat → Prop} (hfair : e.WeaklyFair a)
    (henabled : ∀ m, n ≤ m → P m → (step (e.state m) a).isSome = true)
    (hlasts : ∀ m, n ≤ m → P m → e.act m ≠ a → P (m + 1)) (h : P n) :
    ∃ m, n ≤ m ∧ P m ∧ e.act m = a := by
  by_contra hnever
  push Not at hnever
  have hall : ∀ m, n ≤ m → P m := by
    intro m hm
    induction hm with
    | refl => exact h
    | @step m hm ih => exact hlasts m hm ih (hnever m hm ih)
  obtain ⟨m, hm, ha⟩ := hfair n fun m hm => henabled m hm (hall m hm)
  exact hnever m hm (hall m hm) ha

/-- What holds at a time and is kept by each later step holds from then on. -/
theorem from_then_on (e : Execution step) {P : σ → Prop}
    (hnext : ∀ m, n ≤ m → P (e.state m) → P (e.state (m + 1)))
    (h : P (e.state n)) : ∀ m, n ≤ m → P (e.state m) := by
  intro m hm
  induction hm with
  | refl => exact h
  | @step m hm ih => exact hnext m hm ih

/-- The states of an execution that starts in a reached state are reached. -/
theorem reaches (e : Execution step) (h : Reaches step (fun _ _ => True) init (e.state 0)) (n : Nat) :
    Reaches step (fun _ _ => True) init (e.state n) := by
  induction n with
  | zero => exact h
  | succ n ih => exact .next (e.act n) ih trivial (e.next n)

end Execution

end BridgeVm.Lib
