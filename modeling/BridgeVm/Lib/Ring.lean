import Mathlib.Tactic.Linarith

/-!
# Positions on a ring

A ring of `size` entries between a head and a tail, both below `size`. `ringDist` entries lie from the head to the tail;
one entry always stays free, so that an empty ring is told from a full one.
-/

namespace BridgeVm.Lib

variable {size head tail k i : Nat}

/-- The number of entries from the head up to the tail. -/
def ringDist (size head tail : Nat) : Nat := (tail + size - head) % size

theorem ringDist_eq (hh : head < size) (ht : tail < size) :
    ringDist size head tail = if head ≤ tail then tail - head else tail + size - head := by
  unfold ringDist
  split
  · rw [show tail + size - head = tail - head + size by omega, Nat.add_mod_right, Nat.mod_eq_of_lt (by omega)]
  · exact Nat.mod_eq_of_lt (by omega)

theorem ringDist_lt (hs : 0 < size) : ringDist size head tail < size := Nat.mod_lt _ hs

theorem ringDist_self (hs : head < size) : ringDist size head head = 0 := by
  rw [ringDist_eq hs hs, if_pos (Nat.le_refl _), Nat.sub_self]

theorem ringDist_eq_zero (hh : head < size) (ht : tail < size) (h : ringDist size head tail = 0) : head = tail := by
  rw [ringDist_eq hh ht] at h
  split at h <;> omega

theorem succ_mod (hi : i < size) : (i + 1) % size = if i + 1 = size then 0 else i + 1 := by
  split
  · rename_i h
    rw [h, Nat.mod_self]
  · exact Nat.mod_eq_of_lt (by omega)

theorem add_mod_of_lt (hi : i < size) (hk : k ≤ size) :
    (i + k) % size = if i + k < size then i + k else i + k - size := by
  split
  · rename_i h
    exact Nat.mod_eq_of_lt h
  · rename_i h
    rw [Nat.mod_eq_sub_mod (by omega), Nat.mod_eq_of_lt (by omega)]

/-! ## Counting passes

The `n`-th of a sequence of entries lies at `n % size`, in pass `n / size`.
-/

/-- The last entry of a pass ends it. -/
theorem pass_last {n : Nat} (h : n % size + 1 = size) : (n + 1) % size = 0 ∧ (n + 1) / size = n / size + 1 := by
  have hn : n + 1 = size * (n / size + 1) := by
    have hsplit := Nat.div_add_mod n size
    rw [Nat.mul_succ]
    omega
  rw [hn]
  exact ⟨Nat.mul_mod_right _ _, Nat.mul_div_cancel_left _ (by omega)⟩

/-- Any other entry stays in its pass. -/
theorem pass_inner {n : Nat} (h : n % size + 1 < size) :
    (n + 1) % size = n % size + 1 ∧ (n + 1) / size = n / size := by
  have hn : n + 1 = (n % size + 1) + size * (n / size) := by
    have hsplit := Nat.div_add_mod n size
    omega
  constructor
  · conv_lhs => rw [hn]
    rw [Nat.add_mul_mod_self_left, Nat.mod_eq_of_lt h]
  · conv_lhs => rw [hn]
    rw [Nat.add_mul_div_left _ _ (by omega), Nat.div_eq_of_lt h, Nat.zero_add]

/-- An entry lies in the place of one of the `n - c` before it exactly when these fill a whole pass. -/
theorem exists_same_place {n c : Nat} (hpos : 0 < size) :
    (∃ k, c ≤ k ∧ k < n ∧ k % size = n % size) ↔ size ≤ n - c := by
  constructor
  · rintro ⟨k, hck, hkn, hmod⟩
    have hdvd : size ∣ n - k := Nat.dvd_of_mod_eq_zero (Nat.sub_mod_eq_zero_of_mod_eq hmod.symm)
    have hle := Nat.le_of_dvd (by omega) hdvd
    omega
  · intro h
    refine ⟨n - size, by omega, by omega, ?_⟩
    rw [← Nat.add_mod_right (n - size) size, Nat.sub_add_cancel (by omega)]

/-! ## Moving head and tail -/

/-- The tail moves on by one, while an entry is left to stay free. -/
theorem ringDist_succ_tail (hh : head < size) (ht : tail < size) (hfree : ringDist size head tail + 1 < size) :
    ringDist size head ((tail + 1) % size) = ringDist size head tail + 1 := by
  have hs : (tail + 1) % size < size := Nat.mod_lt _ (by omega)
  rw [ringDist_eq hh ht] at hfree ⊢
  rw [ringDist_eq hh hs, succ_mod ht]
  split at hfree <;> split <;> split <;> omega

/-- The head moves on by `k` of the entries. -/
theorem ringDist_add_head (hh : head < size) (ht : tail < size) (hk : k ≤ ringDist size head tail) :
    ringDist size ((head + k) % size) tail = ringDist size head tail - k := by
  have hs : (head + k) % size < size := Nat.mod_lt _ (by omega)
  have hks : k ≤ size := hk.trans (ringDist_lt (by omega)).le
  rw [ringDist_eq hh ht] at hk ⊢
  rw [ringDist_eq hs ht, add_mod_of_lt hh hks]
  split at hk <;> split <;> split <;> omega

/-- The distance leads from the head to the tail. -/
theorem ring_add_dist (hh : head < size) (ht : tail < size) : (head + ringDist size head tail) % size = tail := by
  have hle : ringDist size head tail ≤ size := (ringDist_lt (by omega)).le
  rw [add_mod_of_lt hh hle, ringDist_eq hh ht]
  split <;> split <;> omega

/-- The tail is past every entry. -/
theorem ring_slot_ne (hh : head < size) (ht : tail < size) (hi : i < ringDist size head tail) :
    (head + i) % size ≠ tail := by
  have his : i ≤ size := hi.le.trans (ringDist_lt (by omega)).le
  rw [ringDist_eq hh ht] at hi
  rw [add_mod_of_lt hh his]
  split at hi <;> split <;> omega

end BridgeVm.Lib
