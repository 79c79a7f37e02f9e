import BridgeVm.Lib.LittleEndian

/-!
# Big-endian numbers

A number as bytes, most significant first, and back.
-/

namespace BridgeVm.Lib

/-- The number of a list of bytes. -/
def ofBeBytes (bs : List UInt8) : Nat := ofLeBytes bs.reverse

/-- The lowest `n` bytes of a number. -/
def toBeBytes (n v : Nat) : List UInt8 := (toLeBytes n v).reverse

@[simp] theorem length_toBeBytes (n v : Nat) : (toBeBytes n v).length = n := by
  rw [toBeBytes, List.length_reverse, length_toLeBytes]

/-- Reading back the bytes of a number. -/
theorem ofBeBytes_toBeBytes (n v : Nat) : ofBeBytes (toBeBytes n v) = v % 256 ^ n := by
  rw [ofBeBytes, toBeBytes, List.reverse_reverse, ofLeBytes_toLeBytes]

/-- Bytes in two parts, the higher first. -/
theorem toBeBytes_add (m n v : Nat) : toBeBytes (m + n) v = toBeBytes m (v / 256 ^ n) ++ toBeBytes n v := by
  rw [toBeBytes, Nat.add_comm, toLeBytes_add, List.reverse_append, toBeBytes, toBeBytes]

theorem toBeBytes_mod (n v : Nat) : toBeBytes n (v % 256 ^ n) = toBeBytes n v := by
  rw [toBeBytes, toLeBytes_mod, toBeBytes]

/-- Two bytes are a number of 16 bits. -/
theorem ofBeBytes_pair (a b : UInt8) : ofBeBytes [a, b] = 256 * a.toNat + b.toNat := by
  simp [ofBeBytes, ofLeBytes]
  omega

end BridgeVm.Lib
