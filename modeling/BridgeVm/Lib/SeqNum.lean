import BridgeVm.Lib.Splice

/-!
# Sequence numbers over a byte stream

A stream's position `off` travels as the 32-bit number `seqAt base off`, which wraps. Numbers less than `2 ^ 32`
positions apart are told apart by their difference. `Holds` is what a sender keeps of a stream between the receiver's
position and its own.
-/

namespace BridgeVm.Lib

universe u

/-! ## Wrapping positions -/

/-- The sequence number of position `off` of a stream that starts at `base`. -/
def seqAt (base : UInt32) (off : Nat) : UInt32 := base + UInt32.ofNat off

variable {base : UInt32} {m n off : Nat}

@[simp] theorem seqAt_zero (base : UInt32) : seqAt base 0 = base := by
  simp [seqAt]

theorem seqAt_add (base : UInt32) (m n : Nat) : seqAt base m + UInt32.ofNat n = seqAt base (m + n) := by
  rw [seqAt, seqAt, UInt32.ofNat_add, UInt32.add_assoc]

theorem seqAt_sub (base : UInt32) (m n : Nat) : seqAt base (m + n) - seqAt base m = UInt32.ofNat n := by
  rw [← seqAt_add, UInt32.add_comm, UInt32.add_sub_cancel]

/-- The distance of two positions less than `2 ^ 32` apart. -/
theorem toNat_seqAt_sub (base : UInt32) (m : Nat) (h : n < 2 ^ 32) :
    (seqAt base (m + n) - seqAt base m).toNat = n := by
  rw [seqAt_sub, UInt32.toNat_ofNat', Nat.mod_eq_of_lt h]

theorem ofNat_toNat_sub (a b : UInt32) : b + UInt32.ofNat (a - b).toNat = a := by
  rw [UInt32.ofNat_toNat, UInt32.add_comm, UInt32.sub_add_cancel]

/-- A number that lies `n` after position `m` is position `m + n`. -/
theorem eq_seqAt_of_sub {a : UInt32} (h : (a - seqAt base m).toNat = n) : a = seqAt base (m + n) := by
  rw [← seqAt_add, ← h, ofNat_toNat_sub]

theorem seqAt_inj (h : m < n + 2 ^ 32) (hle : n ≤ m) : seqAt base m = seqAt base n ↔ m = n := by
  constructor
  · intro heq
    obtain ⟨k, rfl⟩ := Nat.exists_eq_add_of_le hle
    have hk := toNat_seqAt_sub base n (show k < 2 ^ 32 by omega)
    rw [heq, UInt32.sub_self] at hk
    have : (0 : UInt32).toNat = 0 := rfl
    omega
  · rintro rfl
    rfl

/-! ## What a sender holds -/

variable {α : Type u} {stream held bytes : List α} {acked taken : Nat}

/-- `held` is the part of the stream from `acked`, up to which the receiver has it, to `taken`. -/
structure Holds (stream : List α) (acked taken : Nat) (held : List α) : Prop where
  held_eq : held = slice stream acked held.length
  taken_eq : taken = acked + held.length
  taken_le : taken ≤ stream.length

theorem Holds.nil (stream : List α) (h : off ≤ stream.length) : Holds stream off off [] :=
  ⟨by simp [slice], by simp, h⟩

/-- The receiver moved on by `n`. -/
theorem Holds.drop (h : Holds stream acked taken held) (hn : n ≤ held.length) :
    Holds stream (acked + n) taken (held.drop n) := by
  have htaken := h.taken_eq
  refine ⟨?_, ?_, h.taken_le⟩
  · calc held.drop n = (slice stream acked held.length).drop n := by rw [← h.held_eq]
      _ = slice stream (acked + n) (held.drop n).length := by
        rw [slice, slice, List.drop_take, List.drop_drop, List.length_drop]
  · rw [List.length_drop]
    omega

/-- The sender took the next bytes. -/
theorem Holds.append (h : Holds stream acked taken held) (hb : bytes = slice stream taken bytes.length)
    (hle : taken + bytes.length ≤ stream.length) :
    Holds stream acked (taken + bytes.length) (held ++ bytes) := by
  have htaken := h.taken_eq
  refine ⟨?_, by rw [List.length_append]; omega, hle⟩
  calc held ++ bytes
      = slice stream acked held.length ++ slice stream taken bytes.length := by rw [← h.held_eq, ← hb]
    _ = slice stream acked (held ++ bytes).length := by
      rw [htaken, slice, slice, slice, List.length_append, List.take_add, List.drop_drop]

/-- The oldest held bytes are those at the receiver's position. -/
theorem Holds.take (h : Holds stream acked taken held) (n : Nat) :
    held.take n = slice stream acked (held.take n).length := by
  calc held.take n = (slice stream acked held.length).take n := by rw [← h.held_eq]
    _ = slice stream acked (held.take n).length := by
      rw [slice, slice, List.take_take, List.length_take]

end BridgeVm.Lib
