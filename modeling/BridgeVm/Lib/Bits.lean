import Mathlib.Data.Nat.Bitwise

/-!
# Single bits of machine words

A word masked with `1 <<< n` is a test of bit `n`; setting and clearing such a mask changes bit `n` alone; the low
`n` ones and the masks of single indices as sets of indices.
-/

namespace BridgeVm.Lib

variable {w n i : Nat}

/-- The mask of one bit. -/
theorem getLsbD_one_shiftLeft (h : n < w) : (1#w <<< n).getLsbD i = decide (i = n) := by
  simp only [BitVec.getLsbD_shiftLeft, BitVec.getLsbD_one]
  by_cases hi : i = n
  · subst hi
    simp [h]
    omega
  · by_cases hlt : i < n
    · simp [hlt, hi]
    · have : i - n ≠ 0 := by omega
      simp [this, hi]

/-- Testing a word with the mask of one bit reads that bit. -/
theorem and_shiftLeft_one_bne_zero (x : BitVec w) (h : n < w) : ((x &&& (1#w <<< n)) != 0) = x.getLsbD n := by
  cases hx : x.getLsbD n with
  | true =>
    have hne : x &&& (1#w <<< n) ≠ 0 := by
      intro h0
      have := congrArg (fun y => BitVec.getLsbD y n) h0
      simp [BitVec.getLsbD_and, hx, getLsbD_one_shiftLeft h] at this
    simpa using hne
  | false =>
    have h0 : x &&& (1#w <<< n) = 0 := by
      apply BitVec.eq_of_getLsbD_eq
      intro i _
      rw [BitVec.getLsbD_and, getLsbD_one_shiftLeft h]
      by_cases hi : i = n
      · subst hi; simp [hx]
      · simp [hi]
    simp [h0]

/-- Setting one bit. -/
theorem getLsbD_or_shiftLeft_one (x : BitVec w) (h : n < w) :
    (x ||| (1#w <<< n)).getLsbD i = (x.getLsbD i || decide (i = n)) := by
  rw [BitVec.getLsbD_or, getLsbD_one_shiftLeft h]

/-- Clearing one bit. -/
theorem getLsbD_and_not_shiftLeft_one (x : BitVec w) (h : n < w) :
    (x &&& ~~~(1#w <<< n)).getLsbD i = (x.getLsbD i && !decide (i = n)) := by
  rw [BitVec.getLsbD_and, BitVec.getLsbD_not, getLsbD_one_shiftLeft h]
  by_cases hw : i < w
  · simp [hw]
  · simp [BitVec.getLsbD_of_ge x i (by omega)]

/-- The lowest `n` ones. -/
theorem getLsbD_low_ones (h : n < w) : ((1#w <<< n) - 1#w).getLsbD i = decide (i < n) := by
  have hp : 2 ^ n < 2 ^ w := Nat.pow_lt_pow_right (by omega) h
  have h1 : 1 < 2 ^ w := Nat.one_lt_two_pow (by omega)
  have hpos : 0 < 2 ^ n := Nat.two_pow_pos n
  have hv : ((1#w <<< n) - 1#w).toNat = 2 ^ n - 1 := by
    rw [BitVec.toNat_sub, BitVec.toNat_shiftLeft, BitVec.toNat_ofNat, Nat.mod_eq_of_lt h1, Nat.one_shiftLeft,
      Nat.mod_eq_of_lt hp, show 2 ^ w - 1 + 2 ^ n = (2 ^ n - 1) + 2 ^ w by omega, Nat.add_mod_right]
    exact Nat.mod_eq_of_lt (by omega)
  rw [BitVec.getLsbD, hv, Nat.testBit_two_pow_sub_one]

/-- Bits that were set are up. -/
theorem or_and_self (a b : UInt8) : (a ||| b) &&& b = b := by
  apply UInt8.toBitVec_inj.mp
  rw [UInt8.toBitVec_and, UInt8.toBitVec_or]
  ext i hi
  simp only [BitVec.getElem_and, BitVec.getElem_or]
  cases a.toBitVec[i] <;> cases b.toBitVec[i] <;> rfl

end BridgeVm.Lib
