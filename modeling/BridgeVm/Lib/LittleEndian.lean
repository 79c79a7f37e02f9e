import Mathlib.Tactic.Linarith

/-!
# Little-endian numbers

A number as bytes, least significant first, and back.
-/

namespace BridgeVm.Lib

/-- The number of a list of bytes. -/
def ofLeBytes : List UInt8 → Nat
  | [] => 0
  | b :: bs => b.toNat + 256 * ofLeBytes bs

/-- The lowest `n` bytes of a number. -/
def toLeBytes : Nat → Nat → List UInt8
  | 0, _ => []
  | n + 1, v => UInt8.ofNat v :: toLeBytes n (v / 256)

@[simp] theorem length_toLeBytes (n v : Nat) : (toLeBytes n v).length = n := by
  induction n generalizing v with
  | zero => rfl
  | succ n ih => rw [toLeBytes, List.length_cons, ih]

/-- Reading back the bytes of a number. -/
theorem ofLeBytes_toLeBytes (n v : Nat) : ofLeBytes (toLeBytes n v) = v % 256 ^ n := by
  induction n generalizing v with
  | zero => simp [toLeBytes, ofLeBytes, Nat.mod_one]
  | succ n ih =>
    have hb : (UInt8.ofNat v).toNat = v % 256 := by simp
    rw [toLeBytes, ofLeBytes, ih, hb, Nat.pow_succ', Nat.mod_mul]

theorem ofLeBytes_lt (bs : List UInt8) : ofLeBytes bs < 256 ^ bs.length := by
  induction bs with
  | nil => decide
  | cons b bs ih =>
    have hb : b.toNat < 256 := b.toNat_lt
    rw [ofLeBytes, List.length_cons, Nat.pow_succ']
    omega

/-- The bytes of the number of `n` bytes. -/
theorem toLeBytes_ofLeBytes (bs : List UInt8) : toLeBytes bs.length (ofLeBytes bs) = bs := by
  induction bs with
  | nil => rfl
  | cons b bs ih =>
    have hb : b.toNat < 256 := b.toNat_lt
    have hdiv : (b.toNat + 256 * ofLeBytes bs) / 256 = ofLeBytes bs := by omega
    have hlow : UInt8.ofNat (b.toNat + 256 * ofLeBytes bs) = b := by
      apply UInt8.toNat_inj.1
      rw [UInt8.toNat_ofNat']
      omega
    rw [List.length_cons, ofLeBytes, toLeBytes, hdiv, ih, hlow]

/-- Bytes in two parts, the lower first. -/
theorem toLeBytes_add (m n v : Nat) : toLeBytes (m + n) v = toLeBytes m v ++ toLeBytes n (v / 256 ^ m) := by
  induction m generalizing v with
  | zero => simp [toLeBytes]
  | succ m ih => rw [Nat.succ_add, toLeBytes, ih, toLeBytes, Nat.div_div_eq_div_mul, ← Nat.pow_succ',
    List.cons_append]

/-- The bytes of a number depend on what fits in them. -/
theorem toLeBytes_mod (n v : Nat) : toLeBytes n (v % 256 ^ n) = toLeBytes n v := by
  have hback := toLeBytes_ofLeBytes (toLeBytes n v)
  rw [length_toLeBytes, ofLeBytes_toLeBytes] at hback
  exact hback

end BridgeVm.Lib
