import Mathlib.Data.List.Forall2
import Mathlib.Data.Finset.Card
import Mathlib.Tactic.Linarith

/-!
# Lengths of lists from counts

A list whose elements fall into `n` classes of at most `m` is at most `n * m` long; a strictly decreasing list of
numbers below `n` is at most `n` long; what stays when elements are dropped or replaced by related ones; and the image
of a list whose elements all pass a test.
-/

namespace BridgeVm.Lib

universe u

variable {α : Type u}

/-- Elements below a bound split off. -/
theorem countP_lt_succ (f : α → Nat) (n : Nat) (l : List α) :
    l.countP (fun a => decide (f a < n + 1)) =
      l.countP (fun a => decide (f a < n)) + l.countP fun a => decide (f a = n) := by
  induction l with
  | nil => rfl
  | cons a l ih =>
    simp only [List.countP_cons, ih]
    by_cases h : f a < n
    · have h1 : f a < n + 1 := by omega
      have h2 : f a ≠ n := by omega
      simp only [h, h1, h2, decide_true, decide_false, if_true, Bool.false_eq_true, if_false]
      omega
    · by_cases he : f a = n
      · simp [he]
        omega
      · have h1 : ¬ f a < n + 1 := by omega
        simp [h, h1, he]

theorem countP_lt_le (f : α → Nat) {m : Nat} (l : List α) (h : ∀ i, l.countP (fun a => decide (f a = i)) ≤ m)
    (n : Nat) :
    l.countP (fun a => decide (f a < n)) ≤ n * m := by
  induction n with
  | zero => simp
  | succ n ih =>
    rw [countP_lt_succ, Nat.succ_mul]
    exact Nat.add_le_add ih (h n)

/-- A list of `n` classes, each of at most `m` elements. -/
theorem length_le_mul (f : α → Nat) {n m : Nat} {l : List α} (hn : ∀ a ∈ l, f a < n)
    (hm : ∀ i, l.countP (fun a => decide (f a = i)) ≤ m) : l.length ≤ n * m := by
  have hall : l.countP (fun a => decide (f a < n)) = l.length := by
    rw [List.countP_eq_length]
    intro a ha
    exact decide_eq_true (hn a ha)
  rw [← hall]
  exact countP_lt_le f l hm n

/-- A strictly decreasing list of numbers below `n`. -/
theorem length_le_of_decreasing {n : Nat} {l : List Nat} (hd : l.Pairwise (· > ·)) (hn : ∀ a ∈ l, a < n) :
    l.length ≤ n := by
  have hnodup : l.Nodup := hd.imp fun h => Nat.ne_of_gt h
  have hsub : l ⊆ List.range n := fun a ha => List.mem_range.mpr (hn a ha)
  calc l.length ≤ (List.range n).length := (List.subperm_of_subset hnodup hsub).length_le
    _ = n := List.length_range

/-! ## Lists with elements dropped or replaced -/

open List (SublistForall₂)

variable {R : α → α → Prop} {l l' : List α}

theorem sublistForall₂_of_sublist (hR : ∀ a, R a a) (h : l'.Sublist l) : SublistForall₂ R l' l := by
  induction h with
  | slnil => exact .nil
  | cons a _ ih => exact .cons_right ih
  | cons_cons a _ ih => exact .cons (hR a) ih

theorem sublistForall₂_map (f : α → α) (hf : ∀ a, R (f a) a) : ∀ l : List α, SublistForall₂ R (l.map f) l
  | [] => .nil
  | a :: l => .cons (hf a) (sublistForall₂_map f hf l)

/-- Every element that stays is related to one that was there. -/
theorem exists_of_sublistForall₂ (h : SublistForall₂ R l' l) : ∀ a' ∈ l', ∃ a ∈ l, R a' a := by
  induction h with
  | nil =>
    intro a' ha'
    cases ha'
  | cons hr _ ih =>
    intro a' ha'
    rcases List.mem_cons.mp ha' with rfl | ha'
    · exact ⟨_, List.mem_cons_self, hr⟩
    · obtain ⟨a, ha, hra⟩ := ih a' ha'
      exact ⟨a, List.mem_cons_of_mem _ ha, hra⟩
  | cons_right _ ih =>
    intro a' ha'
    obtain ⟨a, ha, hra⟩ := ih a' ha'
    exact ⟨a, List.mem_cons_of_mem _ ha, hra⟩

/-- What holds of every two elements in order holds of those that remain. -/
theorem pairwise_of_sublistForall₂ {S : α → α → Prop}
    (hS : ∀ a' a b' b, R a' a → R b' b → S a b → S a' b')
    (h : SublistForall₂ R l' l) (hp : l.Pairwise S) : l'.Pairwise S := by
  induction h with
  | nil => exact .nil
  | cons hr hrest ih =>
    obtain ⟨hhead, htail⟩ := List.pairwise_cons.mp hp
    refine .cons (fun b' hb' => ?_) (ih htail)
    obtain ⟨b, hb, hrb⟩ := exists_of_sublistForall₂ hrest b' hb'
    exact hS _ _ _ _ hr hrb (hhead b hb)
  | cons_right _ ih => exact ih (List.pairwise_cons.mp hp).2

/-- What some of the elements map to, when a related element maps to the same or no longer counts. -/
theorem filterMap_sublist {β : Type u} {f : α → Option β} (hf : ∀ a' a, R a' a → f a' = none ∨ f a' = f a)
    (h : SublistForall₂ R l' l) : (l'.filterMap f).Sublist (l.filterMap f) := by
  induction h with
  | nil => exact List.nil_sublist _
  | @cons a' a _ _ hr _ ih =>
    rw [List.filterMap_cons, List.filterMap_cons]
    rcases hf a' a hr with hnone | heq
    · rw [hnone]
      cases f a with
      | none => exact ih
      | some b => exact ih.trans (List.sublist_cons_self _ _)
    · rw [heq]
      cases f a with
      | none => exact ih
      | some b => exact ih.cons_cons b
  | @cons_right a _ _ _ ih =>
    rw [List.filterMap_cons]
    cases f a with
    | none => exact ih
    | some b => exact ih.trans (List.sublist_cons_self _ _)

theorem countP_le_of_sublistForall₂ {p : α → Bool} (hp : ∀ a' a, R a' a → p a' = true → p a = true)
    (h : SublistForall₂ R l' l) : l'.countP p ≤ l.countP p := by
  induction h with
  | nil => exact Nat.zero_le _
  | @cons a' a _ _ hr _ ih =>
    rw [List.countP_cons, List.countP_cons]
    by_cases ha' : p a' = true
    · rw [if_pos ha', if_pos (hp a' a hr ha')]
      omega
    · rw [if_neg ha']
      omega
  | @cons_right a _ _ _ ih =>
    rw [List.countP_cons]
    omega

/-! ## Lists whose elements all pass -/

/-- The images of the elements, when each passes. -/
theorem mapM_ite {β : Type u} (p : α → Prop) [DecidablePred p] (f : α → β) (l : List α) :
    l.mapM (fun a => if p a then some (f a) else none) = if ∀ a ∈ l, p a then some (l.map f) else none := by
  induction l with
  | nil => simp
  | cons a l ih =>
    rw [List.mapM_cons, ih]
    by_cases ha : p a
    · by_cases hl : ∀ a ∈ l, p a
      · rw [if_pos ha, if_pos hl, if_pos (List.forall_mem_cons.2 ⟨ha, hl⟩)]
        rfl
      · rw [if_pos ha, if_neg hl, if_neg fun h => hl (List.forall_mem_cons.1 h).2]
        rfl
    · rw [if_neg ha, if_neg fun h => ha (List.forall_mem_cons.1 h).1]
      rfl

end BridgeVm.Lib
