import BridgeVm.Lib.BigEndian
import Mathlib.Data.List.Basic
import Mathlib.Data.Nat.ModEq

/-!
# The ones' complement sum of 16-bit words

The sum of the big-endian words of a list of bytes (`wordSum`, an odd last byte padded with zero), and the sums that
differ by end-around carries only (`SameSum`). Writing the complement of the sum over a word that was zero makes the
sum a nonzero multiple of 65535 (`wordSum_sealed`), which is what a receiver checks.
-/

namespace BridgeVm.Lib

/-- The sum of the big-endian 16-bit words. -/
def wordSum : List UInt8 → Nat
  | [] => 0
  | [a] => 256 * a.toNat
  | a :: b :: rest => 256 * a.toNat + b.toNat + wordSum rest

theorem wordSum_append (xs ys : List UInt8) (h : xs.length % 2 = 0) : wordSum (xs ++ ys) = wordSum xs + wordSum ys := by
  induction xs using wordSum.induct with
  | case1 => simp [wordSum]
  | case2 a => simp at h
  | case3 a b rest ih =>
    have hrest : rest.length % 2 = 0 := by
      simp only [List.length_cons] at h
      omega
    simp only [List.cons_append, wordSum, ih hrest]
    omega

/-! ## Sums up to end-around carries -/

/-- The same ones' complement number: zero or not, and equal modulo 65535. -/
structure SameSum (s t : Nat) : Prop where
  mod : s % 65535 = t % 65535
  zero : s = 0 ↔ t = 0

namespace SameSum

variable {s t r : Nat}

theorem refl (s : Nat) : SameSum s s := ⟨rfl, Iff.rfl⟩

theorem trans (h : SameSum s t) (h' : SameSum t r) : SameSum s r := ⟨h.mod.trans h'.mod, h.zero.trans h'.zero⟩

theorem add (h : SameSum s t) (w : Nat) : SameSum (s + w) (t + w) where
  mod := Nat.ModEq.add_right w h.mod
  zero := by
    have hz := h.zero
    omega

/-- An end-around carry. -/
theorem carry (s : Nat) : SameSum (s % 65536 + s / 65536) s where
  mod := by omega
  zero := by omega

/-- A sum of 16 bits is all ones exactly when the sum is a nonzero multiple of 65535. -/
theorem eq_ones_iff (h : SameSum s t) (hs : s ≤ 65535) : s = 65535 ↔ t ≠ 0 ∧ t % 65535 = 0 := by
  have hm := h.mod
  have hz := h.zero
  omega

end SameSum

/-- A sum plus the complement of its 16 bits, zero or written as all ones, is a nonzero multiple of 65535. -/
theorem sum_add_complement {s t c : Nat} (h : SameSum s t) (hs : s ≤ 65535)
    (hc : c = 65535 - s ∨ (s = 65535 ∧ c = 65535)) : t + c ≠ 0 ∧ (t + c) % 65535 = 0 := by
  have hm := h.mod
  have hz := h.zero
  omega

/-- The complement of the sum, written over a zero word at an even position, seals the bytes. -/
theorem wordSum_sealed {pre word post : List UInt8} {s : Nat} (hpre : pre.length % 2 = 0) (hword : word.length = 2)
    (h : SameSum s (wordSum (pre ++ ([0, 0] ++ post)))) (hs : s ≤ 65535)
    (hc : ofBeBytes word = 65535 - s ∨ (s = 65535 ∧ ofBeBytes word = 65535)) :
    wordSum (pre ++ (word ++ post)) ≠ 0 ∧ wordSum (pre ++ (word ++ post)) % 65535 = 0 := by
  obtain ⟨a, b, rfl⟩ := List.length_eq_two.mp hword
  have hsum : wordSum (pre ++ ([a, b] ++ post)) = wordSum (pre ++ ([0, 0] ++ post)) + ofBeBytes [a, b] := by
    rw [wordSum_append _ _ hpre, wordSum_append _ _ hpre, ofBeBytes_pair]
    simp only [List.cons_append, List.nil_append, wordSum, UInt8.toNat_zero]
    omega
  rw [hsum]
  exact sum_add_complement h hs hc

end BridgeVm.Lib
