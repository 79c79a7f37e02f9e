import Mathlib.Data.List.Basic
import Mathlib.Order.Basic

/-!
# Pieces of a list

A list cut into pieces of `n` elements, of which only the last may be shorter; `chunkInduction` is induction on the
pieces.
-/

namespace BridgeVm.Lib

variable {α : Type}

/-- The pieces of `n` elements, the last one what is left. -/
def chunks (n : Nat) (xs : List α) : List (List α) :=
  if _h : 0 < n ∧ xs ≠ [] then xs.take n :: chunks n (xs.drop n) else []
termination_by xs.length
decreasing_by
  rw [List.length_drop]
  have := List.length_pos_iff.2 _h.2
  omega

@[simp] theorem chunks_nil (n : Nat) : chunks n ([] : List α) = [] := by
  rw [chunks, dif_neg fun h => h.2 rfl]

/-- A whole piece is cut off the front. -/
theorem chunks_append {n : Nat} (hn : 0 < n) {piece : List α} (hpiece : piece.length = n) (rest : List α) :
    chunks n (piece ++ rest) = piece :: chunks n rest := by
  have hne : piece ++ rest ≠ [] := by
    rintro hnil
    rw [(List.append_eq_nil_iff.1 hnil).1] at hpiece
    exact absurd hpiece (Nat.ne_of_lt hn)
  rw [chunks, dif_pos ⟨hn, hne⟩, ← hpiece, List.take_left, List.drop_left]

/-- What is no longer than a piece is one piece. -/
theorem chunks_short {n : Nat} {xs : List α} (hne : xs ≠ []) (hlen : xs.length ≤ n) : chunks n xs = [xs] := by
  have hn : 0 < n := Nat.lt_of_lt_of_le (List.length_pos_iff.2 hne) hlen
  rw [chunks, dif_pos ⟨hn, hne⟩, List.take_of_length_le hlen, List.drop_of_length_le hlen, chunks_nil]

/-- Induction on the pieces of a list. -/
theorem chunkInduction {n : Nat} (hn : 0 < n) {motive : List α → Prop} (nil : motive [])
    (short : ∀ xs, xs ≠ [] → xs.length < n → motive xs)
    (append : ∀ piece rest, piece.length = n → motive rest → motive (piece ++ rest)) (xs : List α) :
      motive xs := by
  induction hlen : xs.length using Nat.strongRecOn generalizing xs with
  | _ len ih =>
    by_cases hnil : xs = []
    · rw [hnil]
      exact nil
    · by_cases hshort : xs.length < n
      · exact short xs hnil hshort
      · have hdrop : (xs.drop n).length < len := by
          rw [List.length_drop, ← hlen]
          have := List.length_pos_iff.2 hnil
          omega
        rw [← List.take_append_drop n xs]
        exact append _ _ (List.length_take_of_le (by omega)) (ih _ hdrop _ rfl)

theorem length_chunks {n : Nat} (hn : 0 < n) (xs : List α) : (chunks n xs).length = (xs.length + (n - 1)) / n := by
  induction xs using chunkInduction hn with
  | nil =>
    rw [chunks_nil, List.length_nil, List.length_nil, Nat.zero_add, Nat.div_eq_of_lt (by omega)]
  | short xs hne hlt =>
    have hpos := List.length_pos_iff.2 hne
    rw [chunks_short hne (Nat.le_of_lt hlt), List.length_singleton,
      Nat.div_eq_of_lt_le (show 1 * n ≤ xs.length + (n - 1) by omega)
        (show xs.length + (n - 1) < (1 + 1) * n by omega)]
  | append piece rest hpiece ih =>
    rw [chunks_append hn hpiece, List.length_cons, ih, List.length_append, hpiece,
      show n + rest.length + (n - 1) = rest.length + (n - 1) + n by omega, Nat.add_div_right _ hn]

end BridgeVm.Lib
