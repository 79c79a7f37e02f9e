import BridgeVm.Lib.InternetChecksum
import BridgeVm.NetNat.FlowTable

/-!
# The checksums of NAT frames (`net_nat/handle_outbound_ipv4.rs`)

The ones' complement checksum of IPv4 headers and ICMP messages, and that of UDP and TCP segments over their
pseudo-header. The running sum of the code stays a sum of 16-bit words up to end-around carries
(`checksumAddBytes_sum`), so a checksum verifies exactly when the words sum to a nonzero multiple of 65535
(`internetChecksum_eq_zero`).
-/

namespace BridgeVm.NetNat

open Lib

/-! ## The code -/

/-- `u16::to_be_bytes`. -/
def u16ToBeBytes (v : UInt16) : List UInt8 := toBeBytes 2 v.toNat

/-- `u16::from_be_bytes`. -/
def u16FromBeBytes (bytes : List UInt8) : UInt16 := UInt16.ofNat (ofBeBytes bytes)

def ipv4ProtocolIcmp : UInt8 := 1

def ipv4ProtocolTcp : UInt8 := 6

def ipv4ProtocolUdp : UInt8 := 17

/-- `(sum & 0xffff) + (sum >> 16)`. -/
def foldCarry (sum : UInt32) : UInt32 := (sum &&& (0xffff : UInt32)) + (sum >>> 16)

/-- `checksum_add_bytes`. -/
def checksumAddBytes (sum : UInt32) : List UInt8 → UInt32
  | [] => sum
  | [byte] => foldCarry (sum + (byte.toUInt32 <<< 8))
  | a :: b :: rest => checksumAddBytes (foldCarry (sum + (u16FromBeBytes [a, b]).toUInt32)) rest

/-- The loop of `checksum_finalize`, at most `rounds` times. -/
def foldCarries : Nat → UInt32 → UInt32
  | 0, sum => sum
  | rounds + 1, sum => if sum >>> 16 ≠ 0 then foldCarries rounds (foldCarry sum) else sum

/-- `checksum_finalize`; two rounds end the loop (`foldCarries_ends`). -/
def checksumFinalize (sum : UInt32) : UInt16 := ~~~(foldCarries 2 sum).toUInt16

/-- `internet_checksum`. -/
def internetChecksum (bytes : List UInt8) : UInt16 := checksumFinalize (checksumAddBytes 0 bytes)

def ipv4HeaderChecksum (header : List UInt8) : UInt16 := internetChecksum header

def icmpChecksum (message : List UInt8) : UInt16 := internetChecksum message

/-- The checksum of a segment of a protocol over its pseudo-header. -/
def segmentChecksum (protocol : UInt8) (srcIp dstIp : Ipv4Addr) (segment : List UInt8) : UInt16 :=
  let sum : UInt32 := 0
  let sum := checksumAddBytes sum srcIp.toList
  let sum := checksumAddBytes sum dstIp.toList
  let sum := checksumAddBytes sum [0, protocol]
  let sum := checksumAddBytes sum (u16ToBeBytes (UInt16.ofNat segment.length))
  let sum := checksumAddBytes sum segment
  checksumFinalize sum

def udpChecksum (srcIp dstIp : Ipv4Addr) (udpSegment : List UInt8) : UInt16 :=
  segmentChecksum ipv4ProtocolUdp srcIp dstIp udpSegment

def tcpChecksum (srcIp dstIp : Ipv4Addr) (tcpSegment : List UInt8) : UInt16 :=
  segmentChecksum ipv4ProtocolTcp srcIp dstIp tcpSegment

/-! ## Numbers of 16 bits as bytes -/

@[simp] theorem length_u16ToBeBytes (v : UInt16) : (u16ToBeBytes v).length = 2 := length_toBeBytes 2 _

theorem ofBeBytes_u16ToBeBytes (v : UInt16) : ofBeBytes (u16ToBeBytes v) = v.toNat := by
  rw [u16ToBeBytes, ofBeBytes_toBeBytes]
  exact Nat.mod_eq_of_lt v.toNat_lt

@[simp] theorem u16FromBeBytes_u16ToBeBytes (v : UInt16) : u16FromBeBytes (u16ToBeBytes v) = v := by
  rw [u16FromBeBytes, ofBeBytes_u16ToBeBytes, UInt16.ofNat_toNat]

/-! ## The running sum -/

theorem toNat_foldCarry (sum : UInt32) : (foldCarry sum).toNat = sum.toNat % 65536 + sum.toNat / 65536 := by
  have hlow : sum.toNat &&& 65535 = sum.toNat % 65536 := Nat.and_two_pow_sub_one_eq_mod sum.toNat 16
  have hlt := sum.toNat_lt
  rw [foldCarry, UInt32.toNat_add, UInt32.toNat_and, UInt32.toNat_shiftRight]
  have h16 : (16 : UInt32).toNat % 32 = 16 := rfl
  have hmask : (0xffff : UInt32).toNat = 65535 := rfl
  rw [h16, hmask, hlow, Nat.shiftRight_eq_div_pow]
  omega

theorem foldCarry_add {sum : UInt32} (word : UInt32) (hsum : sum.toNat < 2 ^ 17) (hword : word.toNat < 2 ^ 16) :
    SameSum (foldCarry (sum + word)).toNat (sum.toNat + word.toNat) ∧ (foldCarry (sum + word)).toNat < 2 ^ 17 := by
  have hadd : (sum + word).toNat = sum.toNat + word.toNat := by
    rw [UInt32.toNat_add]
    exact Nat.mod_eq_of_lt (by omega)
  rw [toNat_foldCarry, hadd]
  exact ⟨SameSum.carry _, by omega⟩

/-- The running sum is the sum of the words, up to carries. -/
theorem checksumAddBytes_sum (sum : UInt32) (bytes : List UInt8) (hsum : sum.toNat < 2 ^ 17) :
    SameSum (checksumAddBytes sum bytes).toNat (sum.toNat + wordSum bytes) ∧
      (checksumAddBytes sum bytes).toNat < 2 ^ 17 := by
  induction bytes using wordSum.induct generalizing sum with
  | case1 => exact ⟨SameSum.refl _, hsum⟩
  | case2 byte =>
    have hbyte : (byte.toUInt32 <<< 8).toNat = 256 * byte.toNat := by
      have hlt := byte.toNat_lt
      have h8 : (8 : UInt32).toNat % 32 = 8 := rfl
      rw [UInt32.toNat_shiftLeft, UInt8.toNat_toUInt32, h8, Nat.shiftLeft_eq]
      omega
    have hlt := byte.toNat_lt
    have hadd := foldCarry_add (byte.toUInt32 <<< 8) hsum (by omega)
    rw [hbyte] at hadd
    exact hadd
  | case3 a b rest ih =>
    have hword : ((u16FromBeBytes [a, b]).toUInt32).toNat = 256 * a.toNat + b.toNat := by
      have ha := a.toNat_lt
      have hb := b.toNat_lt
      rw [UInt16.toNat_toUInt32, u16FromBeBytes, ofBeBytes_pair, UInt16.toNat_ofNat']
      omega
    have ha := a.toNat_lt
    have hb := b.toNat_lt
    obtain ⟨hsame, hlt⟩ := foldCarry_add (u16FromBeBytes [a, b]).toUInt32 hsum (by omega)
    obtain ⟨hrest, hfinal⟩ := ih _ hlt
    refine ⟨hrest.trans ?_, hfinal⟩
    rw [hword] at hsame
    simpa only [wordSum, Nat.add_assoc] using hsame.add (wordSum rest)

theorem checksumAddBytes_append (sum : UInt32) (xs ys : List UInt8) (h : xs.length % 2 = 0) :
    checksumAddBytes sum (xs ++ ys) = checksumAddBytes (checksumAddBytes sum xs) ys := by
  induction xs using wordSum.induct generalizing sum with
  | case1 => rfl
  | case2 a => simp at h
  | case3 a b rest ih =>
    have hrest : rest.length % 2 = 0 := by
      simp only [List.length_cons] at h
      omega
    exact ih _ hrest

/-- The loop of `checksum_finalize` is over: no carry is left, and the sum is the same. -/
theorem foldCarries_ends (sum : UInt32) : (foldCarries 2 sum).toNat < 2 ^ 16 ∧
    SameSum (foldCarries 2 sum).toNat sum.toNat := by
  have hdone : ∀ s : UInt32, s >>> 16 = 0 ↔ s.toNat < 2 ^ 16 := by
    intro s
    have h16 : (16 : UInt32).toNat % 32 = 16 := rfl
    have hlt := s.toNat_lt
    rw [← UInt32.toNat_inj, UInt32.toNat_shiftRight, h16, Nat.shiftRight_eq_div_pow, UInt32.toNat_zero]
    omega
  have hlt := sum.toNat_lt
  have hone := toNat_foldCarry sum
  have htwo := toNat_foldCarry (foldCarry sum)
  have hsame := (SameSum.carry (foldCarry sum).toNat).trans (hone ▸ SameSum.carry sum.toNat)
  unfold foldCarries foldCarries foldCarries
  split
  · rename_i hfirst
    split
    · rename_i hsecond
      refine ⟨?_, htwo ▸ hsame⟩
      rw [htwo, hone]
      omega
    · rename_i hsecond
      exact ⟨(hdone _).mp (not_not.mp hsecond), hone ▸ SameSum.carry sum.toNat⟩
  · rename_i hfirst
    exact ⟨(hdone sum).mp (not_not.mp hfirst), SameSum.refl _⟩

theorem toNat_checksumFinalize (sum : UInt32) : (checksumFinalize sum).toNat = 65535 - (foldCarries 2 sum).toNat := by
  have hlt := (foldCarries_ends sum).1
  rw [checksumFinalize, UInt16.toNat_not, UInt32.toNat_toUInt16, Nat.mod_eq_of_lt hlt]
  rfl

/-! ## Checksums that verify -/

theorem internetChecksum_complement (bytes : List UInt8) : ∃ s, s ≤ 65535 ∧ SameSum s (wordSum bytes) ∧
    (internetChecksum bytes).toNat = 65535 - s := by
  obtain ⟨hlt, hends⟩ := foldCarries_ends (checksumAddBytes 0 bytes)
  obtain ⟨hsum, -⟩ := checksumAddBytes_sum 0 bytes (by decide)
  have hzero : (0 : UInt32).toNat + wordSum bytes = wordSum bytes := Nat.zero_add _
  exact ⟨_, by omega, hends.trans (hzero ▸ hsum), toNat_checksumFinalize _⟩

theorem internetChecksum_eq_zero (bytes : List UInt8) :
    internetChecksum bytes = 0 ↔ wordSum bytes ≠ 0 ∧ wordSum bytes % 65535 = 0 := by
  obtain ⟨s, hs, hsame, hvalue⟩ := internetChecksum_complement bytes
  rw [← UInt16.toNat_inj, hvalue, ← hsame.eq_ones_iff hs, UInt16.toNat_zero]
  omega

theorem internetChecksum_sealed {pre post : List UInt8} {c : UInt16} (hpre : pre.length % 2 = 0)
    (hc : c = internetChecksum (pre ++ ([0, 0] ++ post)) ∨
      (internetChecksum (pre ++ ([0, 0] ++ post)) = 0 ∧ c = 0xffff)) :
    internetChecksum (pre ++ (u16ToBeBytes c ++ post)) = 0 := by
  obtain ⟨s, hs, hsame, hvalue⟩ := internetChecksum_complement (pre ++ ([0, 0] ++ post))
  rw [internetChecksum_eq_zero]
  refine wordSum_sealed hpre (length_u16ToBeBytes c) hsame hs ?_
  rw [ofBeBytes_u16ToBeBytes]
  rcases hc with rfl | ⟨hzero, rfl⟩
  · exact Or.inl hvalue
  · rw [hzero, UInt16.toNat_zero] at hvalue
    exact Or.inr ⟨by omega, rfl⟩

/-- The pseudo-header of a segment. -/
def pseudoHeader (protocol : UInt8) (srcIp dstIp : Ipv4Addr) (length : Nat) : List UInt8 :=
  srcIp.toList ++ (dstIp.toList ++ ([0, protocol] ++ u16ToBeBytes (UInt16.ofNat length)))

theorem length_pseudoHeader (protocol : UInt8) (srcIp dstIp : Ipv4Addr) (length : Nat) :
    (pseudoHeader protocol srcIp dstIp length).length = 12 := by
  simp [pseudoHeader]

theorem segmentChecksum_eq (protocol : UInt8) (srcIp dstIp : Ipv4Addr) (segment : List UInt8) :
    segmentChecksum protocol srcIp dstIp segment =
      internetChecksum (pseudoHeader protocol srcIp dstIp segment.length ++ segment) := by
  have haddr : ∀ ip : Ipv4Addr, ip.toList.length % 2 = 0 := fun ip => by simp
  simp only [segmentChecksum, internetChecksum, pseudoHeader, List.append_assoc]
  rw [checksumAddBytes_append _ _ _ (haddr srcIp), checksumAddBytes_append _ _ _ (haddr dstIp),
    checksumAddBytes_append _ [0, protocol] _ (by simp), checksumAddBytes_append _ _ _ (by simp)]

theorem segmentChecksum_sealed {protocol : UInt8} {srcIp dstIp : Ipv4Addr} {pre post : List UInt8} {c : UInt16}
    (hpre : pre.length % 2 = 0)
    (hc : c = segmentChecksum protocol srcIp dstIp (pre ++ ([0, 0] ++ post)) ∨
      (segmentChecksum protocol srcIp dstIp (pre ++ ([0, 0] ++ post)) = 0 ∧ c = 0xffff)) :
    segmentChecksum protocol srcIp dstIp (pre ++ (u16ToBeBytes c ++ post)) = 0 := by
  have hlen : (pre ++ (u16ToBeBytes c ++ post)).length = (pre ++ ([0, 0] ++ post)).length := by
    simp only [List.length_append, length_u16ToBeBytes, List.length_cons, List.length_nil]
  have heven : (pseudoHeader protocol srcIp dstIp (pre ++ ([0, 0] ++ post)).length ++ pre).length % 2 = 0 := by
    rw [List.length_append, length_pseudoHeader]
    omega
  rw [segmentChecksum_eq, ← List.append_assoc] at hc
  rw [segmentChecksum_eq, hlen, ← List.append_assoc]
  exact internetChecksum_sealed heven hc

end BridgeVm.NetNat
