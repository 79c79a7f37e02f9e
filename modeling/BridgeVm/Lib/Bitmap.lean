import BridgeVm.Lib.Bits
import BridgeVm.Lib.Slots

/-!
# Bitmaps of 64-bit words

Bit `i` of a list of words, and what setting and clearing one bit does to it: inside the table (`bitAt_set`), growing
it (`bitAt_mark`), and for any index (`bitAt_clear`); the set bits of a word in ascending order (`setBits`).
-/

namespace BridgeVm.Lib

variable {ws : List (BitVec 64)} {i j : Nat}

/-- Bit `i` of a list of words; a word past the end is zero. -/
def bitAt (ws : List (BitVec 64)) (i : Nat) : Bool := (entry 0 ws (i / 64)).getLsbD (i % 64)

/-- The word of bit `i` and the others, after one word changed. -/
theorem bitAt_word {f : BitVec 64 → BitVec 64} {ws' : List (BitVec 64)}
    (h : ∀ k, entry 0 ws' k = if k = i / 64 then f (entry 0 ws (i / 64)) else entry 0 ws k) (j : Nat) :
    bitAt ws' j = if j / 64 = i / 64 then (f (entry 0 ws (i / 64))).getLsbD (j % 64) else bitAt ws j := by
  unfold bitAt
  rw [h]
  split <;> rfl

theorem eq_of_word (hdiv : j / 64 = i / 64) : j % 64 = i % 64 ↔ j = i := by omega

/-- One bit of one word was set. -/
theorem bitAt_or {ws' : List (BitVec 64)}
    (h : ∀ k, entry 0 ws' k = if k = i / 64 then entry 0 ws (i / 64) ||| (1#64 <<< (i % 64)) else entry 0 ws k)
    (j : Nat) : bitAt ws' j = (bitAt ws j || decide (j = i)) := by
  rw [bitAt_word (f := fun word => word ||| (1#64 <<< (i % 64))) h]
  by_cases hdiv : j / 64 = i / 64
  · rw [if_pos hdiv, getLsbD_or_shiftLeft_one _ (Nat.mod_lt i (by decide)), bitAt, hdiv]
    simp only [eq_of_word hdiv]
  · have hne : j ≠ i := fun he => hdiv (by rw [he])
    simp [hdiv, hne]

/-- Setting a bit of the table. -/
theorem bitAt_set (hi : i / 64 < ws.length) (j : Nat) :
    bitAt (ws.modify (i / 64) fun word => word ||| (1#64 <<< (i % 64))) j = (bitAt ws j || decide (j = i)) :=
  bitAt_or (fun _ => entry_modify (Or.inr hi)) j

/-- Setting a bit, growing the table to it. -/
theorem bitAt_mark (i j : Nat) :
    bitAt (updateEntry 0 ws (i / 64) fun word => word ||| (1#64 <<< (i % 64))) j = (bitAt ws j || decide (j = i)) :=
  bitAt_or (fun _ => entry_updateEntry 0 ws _ _ _) j

/-- Clearing a bit. -/
theorem bitAt_clear (i j : Nat) :
    bitAt (ws.modify (i / 64) fun word => word &&& ~~~(1#64 <<< (i % 64))) j = (bitAt ws j && !decide (j = i)) := by
  have hzero : (0 : BitVec 64) &&& ~~~(1#64 <<< (i % 64)) = 0 := BitVec.zero_and
  rw [bitAt_word (f := fun word => word &&& ~~~(1#64 <<< (i % 64))) (i := i) fun _ => entry_modify (Or.inl hzero)]
  by_cases hdiv : j / 64 = i / 64
  · rw [if_pos hdiv, getLsbD_and_not_shiftLeft_one _ (Nat.mod_lt i (by decide)), bitAt, hdiv]
    simp only [eq_of_word hdiv]
  · have hne : j ≠ i := fun he => hdiv (by rw [he])
    simp [hdiv, hne]

/-- The indices of the bits of a word that are set, ascending. -/
def setBits (word : BitVec 64) : List Nat := (List.range 64).filter fun b => word.getLsbD b

theorem mem_setBits {word : BitVec 64} {b : Nat} : b ∈ setBits word ↔ word.getLsbD b = true := by
  simp only [setBits, List.mem_filter, List.mem_range]
  refine ⟨fun h => h.2, fun h => ⟨?_, h⟩⟩
  by_contra hb
  rw [BitVec.getLsbD_of_ge word b (by omega)] at h
  cases h

theorem pairwise_setBits (word : BitVec 64) : (setBits word).Pairwise (· < ·) := List.pairwise_lt_range.filter _

end BridgeVm.Lib
