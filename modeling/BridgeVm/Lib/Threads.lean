import Mathlib.Data.List.Basic

/-!
# Threads as a list

The places of any number of threads, one of which moves at a time, and counters of the threads at some of the places.
-/

namespace BridgeVm.Lib

universe u

variable {τ : Type u} {p q : τ → Bool} {ts : List τ} {i : Nat} {t t' : τ}

/-- One thread moves: a counter loses it where it was counted and gains it where it is counted now. -/
theorem countP_set_add (t' : τ) (p : τ → Bool) (h : ts[i]? = some t) :
    (ts.set i t').countP p + (if p t then 1 else 0) = ts.countP p + if p t' then 1 else 0 := by
  induction ts generalizing i with
  | nil => simp at h
  | cons a ts ih =>
    cases i with
    | zero =>
      obtain rfl : a = t := by simpa using h
      simp only [List.set_cons_zero, List.countP_cons]
      omega
    | succ i =>
      have htail := ih (i := i) (by simpa using h)
      simp only [List.set_cons_succ, List.countP_cons]
      omega

/-- A counted thread is one of those its counter counts. -/
theorem countP_pos_of_getElem? (h : ts[i]? = some t) (ht : p t = true) : 0 < ts.countP p :=
  List.countP_pos_iff.mpr ⟨t, List.mem_of_getElem? h, ht⟩

/-- A counter of places that a change of every thread leaves alone. -/
theorem countP_map_of_same (p : τ → Bool) (f : τ → τ) (hf : ∀ t, p (f t) = p t) :
    (ts.map f).countP p = ts.countP p := by
  rw [List.countP_map]
  exact List.countP_congr fun t _ => by rw [Function.comp, hf]

/-- Counting no fewer at some of the places than at all of them: every thread is at one of those. -/
theorem forall_of_countP_le (p q : τ → Bool) (hpq : ∀ t ∈ ts, q t = true → p t = true)
    (hle : ts.countP p ≤ ts.countP q) :
    ∀ t ∈ ts, p t = true → q t = true := by
  induction ts with
  | nil => simp
  | cons a ts ih =>
    have hsub : ts.countP q ≤ ts.countP p := List.countP_mono_left fun t ht => hpq t (List.mem_cons_of_mem _ ht)
    have hhead := hpq a List.mem_cons_self
    simp only [List.countP_cons] at hle
    have htail : ts.countP p ≤ ts.countP q := by
      by_cases hq : q a = true
      · rw [if_pos hq, if_pos (hhead hq)] at hle
        omega
      · rw [if_neg hq] at hle
        omega
    intro t ht hp
    rcases List.mem_cons.mp ht with rfl | ht
    · by_contra hq
      rw [if_pos hp, if_neg hq] at hle
      omega
    · exact ih (fun t ht => hpq t (List.mem_cons_of_mem _ ht)) htail t ht hp

/-- What every thread meets after one has moved. -/
theorem forall_mem_set {P : τ → Prop} (hall : ∀ t ∈ ts, P t) (ht' : P t') : ∀ t ∈ ts.set i t', P t := by
  intro t ht
  rcases List.mem_or_eq_of_mem_set ht with ht | rfl
  · exact hall t ht
  · exact ht'

end BridgeVm.Lib
