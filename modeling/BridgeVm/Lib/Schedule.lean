import Mathlib.Tactic.Linarith

/-!
# Instants on a schedule

Each instant belongs to an anchor at most one interval before it, and the anchors are an interval or more apart. So few
of the instants fall in a window.
-/

namespace BridgeVm.Lib

/-- Instants with their anchors after the anchor `last`, if there is one. -/
def Paced (interval : Nat) : (last : Option Nat) → List Nat → Prop
  | _, [] => True
  | last, instant :: instants =>
    ∃ anchor, anchor ≤ instant ∧ instant ≤ anchor + interval ∧
      (∀ l, last = some l → l + interval ≤ anchor) ∧
      Paced interval (some anchor) instants

variable {interval last : Nat} {instants : List Nat}

/-- The instants up to a time, by the anchor before them. -/
theorem Paced.upTo (h : Paced interval (some last) instants) (time : Nat)
    (hsome : 0 < instants.countP fun t => decide (t ≤ time)) :
    last + (instants.countP fun t => decide (t ≤ time)) * interval ≤ time := by
  induction instants generalizing last with
  | nil => simp at hsome
  | cons instant instants ih =>
    obtain ⟨anchor, hlow, _, hapart, hrest⟩ := h
    have hstep : last + interval ≤ anchor := hapart last rfl
    rw [List.countP_cons] at hsome ⊢
    by_cases hin : instant ≤ time
    · simp only [hin, decide_true, if_true]
      rw [Nat.add_one_mul]
      by_cases hmore : 0 < instants.countP fun t => decide (t ≤ time)
      · have hih := ih hrest hmore
        omega
      · have hzero : (instants.countP fun t => decide (t ≤ time)) = 0 := by omega
        rw [hzero]
        omega
    · simp only [hin, decide_false, Bool.false_eq_true, if_false, Nat.add_zero] at hsome ⊢
      have hih := ih hrest hsome
      omega

/-- **A window of length `width` sees at most `width / interval + 2` of the instants.** -/
theorem Paced.window {last : Option Nat} (h : Paced interval last instants) (hpos : 0 < interval) (start width : Nat) :
    (instants.countP fun t => decide (start ≤ t ∧ t ≤ start + width)) ≤ width / interval + 2 := by
  induction instants generalizing last with
  | nil => simp
  | cons instant instants ih =>
    obtain ⟨anchor, _, hhigh, _, hrest⟩ := h
    rw [List.countP_cons]
    by_cases hin : start ≤ instant ∧ instant ≤ start + width
    · have hle : (instants.countP fun t => decide (start ≤ t ∧ t ≤ start + width)) ≤
          instants.countP fun t => decide (t ≤ start + width) := by
        apply List.countP_mono_left
        intro t _ ht
        simp only [decide_eq_true_eq] at ht ⊢
        exact ht.2
      have hbound : (instants.countP fun t => decide (t ≤ start + width)) ≤ width / interval + 1 := by
        by_cases hmore : 0 < instants.countP fun t => decide (t ≤ start + width)
        · have hupTo := hrest.upTo (start + width) hmore
          rw [← Nat.add_div_right _ hpos, Nat.le_div_iff_mul_le hpos]
          omega
        · rw [Nat.eq_zero_of_not_pos hmore]
          exact Nat.zero_le _
      simp only [hin, and_self, decide_true, if_true]
      omega
    · simp only [hin, decide_false, Bool.false_eq_true, if_false, Nat.add_zero]
      exact ih hrest

end BridgeVm.Lib
