import Mathlib.Tactic.Linarith

/-!
# Slices and splices of lists

`slice xs a n` reads `n` elements from position `a`; `splice xs a ys` overwrites the elements from position `a` with
`ys`. Both are characterised by their elements.
-/

namespace BridgeVm.Lib

universe u

variable {α : Type u} {xs ys : List α} {a n i : Nat}

/-- The `n` elements from position `a`. -/
def slice (xs : List α) (a n : Nat) : List α := (xs.drop a).take n

/-- `xs` with the elements from position `a` overwritten by `ys`. -/
def splice (xs : List α) (a : Nat) (ys : List α) : List α := xs.take a ++ ys ++ xs.drop (a + ys.length)

theorem length_slice (h : a + n ≤ xs.length) : (slice xs a n).length = n := by
  simp only [slice, List.length_take, List.length_drop]
  omega

theorem getElem?_slice (xs : List α) (a n i : Nat) : (slice xs a n)[i]? = if i < n then xs[a + i]? else none := by
  rw [slice, List.getElem?_take, List.getElem?_drop]

theorem length_splice (h : a + ys.length ≤ xs.length) : (splice xs a ys).length = xs.length := by
  simp only [splice, List.length_append, List.length_take, List.length_drop]
  omega

/-- A splice has the new elements where it wrote and the old ones elsewhere. -/
theorem getElem?_splice (h : a + ys.length ≤ xs.length) (i : Nat) :
    (splice xs a ys)[i]? = if a ≤ i ∧ i < a + ys.length then ys[i - a]? else xs[i]? := by
  have hta : (xs.take a).length = a := by rw [List.length_take]; omega
  unfold splice
  by_cases h1 : i < a
  · rw [List.append_assoc, List.getElem?_append_left (by omega), List.getElem?_take_of_lt h1, if_neg (by omega)]
  · by_cases h2 : i < a + ys.length
    · rw [List.getElem?_append_left (by rw [List.length_append]; omega), List.getElem?_append_right (by omega), hta,
        if_pos ⟨by omega, h2⟩]
    · rw [List.getElem?_append_right (by rw [List.length_append]; omega), List.getElem?_drop, if_neg (by omega),
        List.length_append, hta]
      congr 1
      omega

/-- Two splices next to each other are one. -/
theorem splice_splice {zs : List α} (h : a + ys.length + zs.length ≤ xs.length) :
    splice (splice xs a ys) (a + ys.length) zs = splice xs a (ys ++ zs) := by
  have hlen : (splice xs a ys).length = xs.length := length_splice (by omega)
  refine List.ext_getElem? fun i => ?_
  rw [getElem?_splice (by omega), getElem?_splice (by omega), getElem?_splice (by rw [List.length_append]; omega),
    List.length_append]
  by_cases hzs : a + ys.length ≤ i ∧ i < a + ys.length + zs.length
  · rw [if_pos hzs, if_pos (by omega), List.getElem?_append_right (by omega), Nat.sub_sub]
  · rw [if_neg hzs]
    by_cases hys : a ≤ i ∧ i < a + ys.length
    · rw [if_pos hys, if_pos (by omega), List.getElem?_append_left (by omega)]
    · rw [if_neg hys, if_neg (by omega)]

theorem splice_nil (xs : List α) (a : Nat) : splice xs a [] = xs := by simp [splice]

/-! ## Slices and splices of concatenations -/

theorem slice_skip (h : xs.length ≤ a) : slice (xs ++ ys) a n = slice ys (a - xs.length) n := by
  rw [slice, slice, List.drop_append, List.drop_of_length_le h, List.nil_append]

theorem slice_head (h : xs.length = n) : slice (xs ++ ys) 0 n = xs := by
  rw [slice, List.drop_zero, List.take_left' h]

theorem slice_all (h : xs.length = n) : slice xs 0 n = xs := by
  rw [slice, List.drop_zero, List.take_of_length_le (Nat.le_of_eq h)]

theorem splice_skip {zs : List α} (h : xs.length ≤ a) :
    splice (xs ++ ys) a zs = xs ++ splice ys (a - xs.length) zs := by
  have hrest : a + zs.length - xs.length = a - xs.length + zs.length := by omega
  rw [splice, splice, List.take_append, List.take_of_length_le h, List.drop_append,
    List.drop_of_length_le (by omega : xs.length ≤ a + zs.length), hrest]
  simp only [List.append_assoc, List.nil_append]

theorem splice_head {zs : List α} (h : zs.length = xs.length) : splice (xs ++ ys) 0 zs = zs ++ ys := by
  rw [splice, List.take_zero, Nat.zero_add, List.drop_left' h.symm, List.nil_append]

theorem splice_all {zs : List α} (h : zs.length = xs.length) : splice xs 0 zs = zs := by
  rw [splice, List.take_zero, Nat.zero_add, List.drop_of_length_le (Nat.le_of_eq h.symm), List.append_nil,
    List.nil_append]

theorem take_append_slice (xs : List α) (a n : Nat) : xs.take a ++ slice xs a n = xs.take (a + n) := by
  rw [slice, List.take_add]

/-- What is written past the first part is written into the second. -/
theorem splice_add (h : xs.length = n) (a : Nat) (zs : List α) :
    splice (xs ++ ys) (n + a) zs = xs ++ splice ys a zs := by
  rw [splice_skip (by omega), h, Nat.add_sub_cancel_left]

/-- A slice is determined by its elements. -/
theorem eq_slice_of_getElem? {zs : List α} (hlen : zs.length = n) (h : ∀ i < n, zs[i]? = xs[a + i]?) :
    zs = slice xs a n := by
  refine List.ext_getElem? fun i => ?_
  rw [getElem?_slice]
  by_cases hi : i < n
  · rw [if_pos hi, h i hi]
  · rw [if_neg hi, List.getElem?_eq_none (by omega)]

end BridgeVm.Lib
