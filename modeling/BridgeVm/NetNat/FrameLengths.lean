import BridgeVm.NetNat.FrameRoundTrip

/-!
# The lengths of the frames of the NAT (`net_nat/handle_outbound_ipv4.rs`)

A frame has the MTU's room when at most 1500 bytes stand behind its Ethernet header (`FitsMtu`). Every builder's frame
is the 14 bytes of that header, an IPv4 header and its segment, so a UDP reply fits exactly for a datagram of at most
1472 bytes, and a rewritten echo reply for a message of at most 1480.
-/

namespace BridgeVm.NetNat.Wire

open Lib

def ethernetPayloadMtu : Nat := 1500

/-- What stands behind the Ethernet header fits the MTU. -/
def FitsMtu (frame : List UInt8) : Prop := (frame.drop 14).length ≤ ethernetPayloadMtu

/-! ## ARP -/

def ethertypeArp : UInt16 := 0x0806

def arpHardwareEthernet : UInt16 := 1

def arpOpcodeRequest : UInt16 := 1

def arpOpcodeReply : UInt16 := 2

/-- `build_arp_reply_frame`. -/
def buildArpReplyFrame (dstMac srcMac : MacAddr) (senderIp : Ipv4Addr) (targetMac : MacAddr) (targetIp : Ipv4Addr) :
    List UInt8 :=
  dstMac.toList ++ srcMac.toList ++ u16ToBeBytes ethertypeArp ++ u16ToBeBytes arpHardwareEthernet ++
    u16ToBeBytes ethertypeIpv4 ++ [6] ++ [4] ++ u16ToBeBytes arpOpcodeReply ++ srcMac.toList ++ senderIp.toList ++
    targetMac.toList ++ targetIp.toList

structure ArpPacket where
  opcode : UInt16
  senderMac : MacAddr
  senderIp : Ipv4Addr
  targetIp : Ipv4Addr

def ArpPacket.parse (payload : List UInt8) : Option ArpPacket := do
  if (← readU16Be payload 0) ≠ arpHardwareEthernet ∨ (← readU16Be payload 2) ≠ ethertypeIpv4 ∨
      (← payload[4]?) ≠ 6 ∨ (← payload[5]?) ≠ 4 then none
  else
    some
      { opcode := ← readU16Be payload 6
        senderMac := ← readArray 6 payload 8
        senderIp := ← readArray 4 payload 14
        targetIp := ← readArray 4 payload 24 }

/-! ## The frames -/

section Built

variable {dstMac srcMac : MacAddr} {srcIp dstIp : Ipv4Addr} {frame : List UInt8}

theorem fitsMtu_iff : FitsMtu frame ↔ frame.length ≤ 1514 := by
  rw [FitsMtu, List.length_drop, ethernetPayloadMtu]
  omega

theorem length_splice_field {bytes : List UInt8} {n : Nat} (a : Nat) (field : List UInt8) (h : bytes.length = n)
    (hfit : a + field.length ≤ n) : (splice bytes a field).length = n := by
  rw [length_splice (by omega), h]

theorem length_arpReplyFrame (senderIp : Ipv4Addr) (targetMac : MacAddr) (targetIp : Ipv4Addr) :
    (buildArpReplyFrame dstMac srcMac senderIp targetMac targetIp).length = 42 := by
  simp [buildArpReplyFrame]

theorem length_icmpEchoReplyFrame {requestPayload : List UInt8} {identification : UInt16}
    (h : buildIcmpEchoReplyFrame dstMac srcMac srcIp dstIp requestPayload identification = some frame) :
    frame.length = 34 + requestPayload.length := by
  unfold buildIcmpEchoReplyFrame at h
  split at h
  · cases h
  · rename_i hlong
    simp only [Option.bind_eq_bind, Option.bind_eq_some_iff] at h
    obtain ⟨totalLen, -, h⟩ := h
    obtain rfl := Option.some.inj h
    have hstart : ipv4PayloadStart = 34 := rfl
    have hall : (replyFrameHead dstMac srcMac totalLen identification ipv4ProtocolIcmp srcIp dstIp ++
        requestPayload).length = 34 + requestPayload.length := by simp
    have htype := length_splice_field ipv4PayloadStart [0] hall (by rw [List.length_singleton]; omega)
    have hclear := length_splice_field (ipv4PayloadStart + 2) [0, 0] htype
      (by rw [List.length_cons, List.length_singleton]; omega)
    exact length_splice_field _ _ hclear (by rw [length_u16ToBeBytes]; omega)

/-- The message is an echo reply, the whole of what is behind the IPv4 header. -/
theorem length_rewrittenEchoReplyFrame {reply : List UInt8} {guestIdentifier : UInt16}
    (h : buildRewrittenIcmpEchoReplyFrame dstMac srcMac srcIp dstIp reply guestIdentifier = some frame) :
    ∃ offset, icmpReplyPayloadOffset reply = some offset ∧
      ((reply.drop offset)[0]? = some 0 ∧ (reply.drop offset)[1]? = some 0) ∧
      frame.length = 34 + (reply.drop offset).length := by
  simp only [buildRewrittenIcmpEchoReplyFrame, Option.bind_eq_bind, Option.bind_eq_some_iff] at h
  obtain ⟨offset, hoffset, h⟩ := h
  have hlong := icmpReplyPayloadOffset_le hoffset
  refine ⟨offset, hoffset, ?_⟩
  generalize reply.drop offset = icmp at h hlong ⊢
  split at h
  · cases h
  · rename_i hecho
    rw [not_or, not_not, not_not] at hecho
    refine ⟨hecho, ?_⟩
    simp only [Option.bind_eq_some_iff] at h
    obtain ⟨totalLen, -, h⟩ := h
    obtain rfl := Option.some.inj h
    have hstart : ipv4PayloadStart = 34 := rfl
    have hall : (replyFrameHead dstMac srcMac totalLen 0 ipv4ProtocolIcmp srcIp dstIp ++ icmp).length =
        34 + icmp.length := by simp
    have hclear := length_splice_field (ipv4PayloadStart + 2) [0, 0] hall
      (by rw [List.length_cons, List.length_singleton]; omega)
    have hid := length_splice_field (ipv4PayloadStart + 4) (u16ToBeBytes guestIdentifier) hclear
      (by rw [length_u16ToBeBytes]; omega)
    exact length_splice_field _ _ hid (by rw [length_u16ToBeBytes]; omega)

theorem length_udpReplyFrame {srcPort dstPort : UInt16} {payload : List UInt8}
    (h : buildUdpReplyFrame dstMac srcMac srcIp dstIp srcPort dstPort payload = some frame) :
    frame.length = 42 + payload.length := by
  simp only [buildUdpReplyFrame, Option.bind_eq_bind, Option.bind_eq_some_iff] at h
  obtain ⟨udpLen, -, totalLen, -, h⟩ := h
  obtain rfl := Option.some.inj h
  rw [length_splice]
  all_goals simp [ipv4PayloadStart]
  all_goals omega

theorem length_dhcpReplyFrame {request : DhcpRequest} {messageType : UInt8} {identification : UInt16}
    (h : buildDhcpReplyFrame dstMac srcMac dstIp request messageType identification = some frame) :
    frame.length = 316 := by
  simp only [buildDhcpReplyFrame, Option.bind_eq_bind, Option.bind_eq_some_iff] at h
  obtain ⟨udpLen, -, totalLen, -, message, -, h⟩ := h
  split at h
  · cases h
  · rename_i hlen
    have hlen : message.length = 316 := not_not.mp hlen
    obtain rfl := Option.some.inj h
    rw [length_splice, hlen]
    simp [hlen, ipv4PayloadStart]

theorem length_tcpReplyFrame {source destination : EthernetIpv4Endpoint} {seq ack : UInt32} {flags : UInt8}
    {window : UInt16} {options payload : List UInt8}
    (h : buildTcpReplyFrame source destination seq ack flags window options payload = some frame) :
    frame.length = 54 + options.length + payload.length := by
  simp only [buildTcpReplyFrame, Option.bind_eq_bind, Option.bind_eq_some_iff] at h
  obtain ⟨totalLen, -, h⟩ := h
  obtain rfl := Option.some.inj h
  rw [length_splice]
  all_goals simp [ipv4PayloadStart]
  all_goals omega

end Built

/-! ## The guest's packets -/

/-- A packet is no longer than the bytes it was read from. -/
theorem length_ipv4Payload {bytes : List UInt8} {packet : Ipv4Packet} (h : Ipv4Packet.parse bytes = some packet) :
    20 + packet.payload.length ≤ bytes.length ∧ packet.payload.length < 2 ^ 16 := by
  simp only [Ipv4Packet.parse, Option.bind_eq_bind, Option.bind_eq_some_iff] at h
  obtain ⟨first, -, h⟩ := h
  split at h
  · cases h
  split at h
  · cases h
  rename_i hheader
  simp only [Option.bind_eq_some_iff] at h
  obtain ⟨total, -, h⟩ := h
  split at h
  · cases h
  rename_i htotal
  simp only [Option.bind_eq_some_iff] at h
  obtain ⟨id, -, flags, -, ttl, -, protocol, -, src, -, dst, -, h⟩ := h
  obtain rfl := Option.some.inj h
  have hlt := total.toNat_lt
  dsimp only
  rw [length_slice (by omega)]
  omega

theorem length_tcpPayload {bytes : List UInt8} {tcp : TcpSegment} (h : TcpSegment.parse bytes = some tcp) :
    tcp.payload.length ≤ bytes.length := by
  unfold TcpSegment.parse at h
  split at h
  · cases h
  simp only [Option.bind_eq_bind, Option.bind_eq_some_iff] at h
  obtain ⟨offset, -, h⟩ := h
  split at h
  · cases h
  simp only [Option.bind_eq_some_iff] at h
  obtain ⟨srcPort, -, dstPort, -, seq, -, ack, -, flags, -, window, -, h⟩ := h
  obtain rfl := Option.some.inj h
  dsimp only
  rw [List.length_drop]
  omega

end BridgeVm.NetNat.Wire
