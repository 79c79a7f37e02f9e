import BridgeVm.NetNat.Frames

/-!
# Frames read back (`net_nat/handle_outbound_ipv4.rs`)

- every reply frame is a header with its checksum and a segment, and the Ethernet and IPv4 parsers read both back
  (`carriesIpv4_reply`);
- the UDP, TCP, ICMP and DHCP builders write what the parsers read, and their checksums verify
  (`reply_frames_read_back`);
- TCP options of more than 40 bytes do not fit the data offset (`replies_not_read_back`).
-/

namespace BridgeVm.NetNat.Wire

open Lib

/-! ## Fields read back -/

theorem readArray_eq {n : Nat} {bytes : List UInt8} {offset : Nat} {v : Vector UInt8 n}
    (h : slice bytes offset n = v.toList) : readArray n bytes offset = some v := by
  have hlen : (slice bytes offset n).length = n := by rw [h, Vector.length_toList]
  rw [readArray, dif_pos hlen]
  exact congrArg some (Vector.toList_inj.mp h)

theorem readU16Be_eq {bytes : List UInt8} {offset : Nat} {v : UInt16} (h : slice bytes offset 2 = u16ToBeBytes v) :
    readU16Be bytes offset = some v := by
  have hread := readArray_eq (v := ⟨(u16ToBeBytes v).toArray, length_u16ToBeBytes v⟩) h
  rw [readU16Be, hread, Option.map_some]
  exact congrArg some (u16FromBeBytes_u16ToBeBytes v)

@[simp] theorem length_u32ToBeBytes (v : UInt32) : (u32ToBeBytes v).length = 4 := length_toBeBytes 4 _

theorem readU32Be_eq {bytes : List UInt8} {offset : Nat} {v : UInt32} (h : slice bytes offset 4 = u32ToBeBytes v) :
    readU32Be bytes offset = some v := by
  have hread := readArray_eq (v := ⟨(u32ToBeBytes v).toArray, length_u32ToBeBytes v⟩) h
  have hvalue : ofBeBytes (u32ToBeBytes v) = v.toNat := by
    rw [u32ToBeBytes, ofBeBytes_toBeBytes]
    exact Nat.mod_eq_of_lt v.toNat_lt
  rw [readU32Be, hread, Option.map_some]
  refine congrArg some ?_
  show UInt32.ofNat (ofBeBytes (u32ToBeBytes v)) = v
  rw [hvalue, UInt32.ofNat_toNat]

theorem toNat_of_u16TryFrom {n : Nat} {v : UInt16} (h : u16TryFrom n = some v) : v.toNat = n := by
  unfold u16TryFrom at h
  split at h
  · rename_i hlt
    obtain rfl := Option.some.inj h
    rw [UInt16.toNat_ofNat']
    exact Nat.mod_eq_of_lt hlt
  · cases h

/-! ## Headers -/

variable {dstMac srcMac : MacAddr} {srcIp dstIp : Ipv4Addr} {totalLen identification : UInt16} {protocol : UInt8}

/-- An IPv4 header up to its checksum. -/
def ipv4HeaderStart (totalLen identification : UInt16) (protocol : UInt8) : List UInt8 :=
  [0x45, 0] ++ (u16ToBeBytes totalLen ++ (u16ToBeBytes identification ++ (u16ToBeBytes 0 ++ [64, protocol])))

/-- An IPv4 header with a checksum. -/
def ipv4Header (totalLen identification : UInt16) (protocol : UInt8) (checksum : UInt16) (src dst : Ipv4Addr) :
    List UInt8 :=
  ipv4HeaderStart totalLen identification protocol ++ (u16ToBeBytes checksum ++ (src.toList ++ dst.toList))

/-- The checksum the builders write. -/
def builtChecksum (totalLen identification : UInt16) (protocol : UInt8) (src dst : Ipv4Addr) : UInt16 :=
  ipv4HeaderChecksum (ipv4HeaderUnsealed totalLen identification protocol src dst)

@[simp] theorem length_ipv4HeaderStart : (ipv4HeaderStart totalLen identification protocol).length = 10 := by
  simp [ipv4HeaderStart]

@[simp] theorem length_ipv4Header (checksum : UInt16) :
    (ipv4Header totalLen identification protocol checksum srcIp dstIp).length = 20 := by
  simp [ipv4Header]

theorem u16ToBeBytes_zero : u16ToBeBytes 0 = [0, 0] := rfl

theorem ipv4HeaderUnsealed_eq : ipv4HeaderUnsealed totalLen identification protocol srcIp dstIp =
    ipv4HeaderStart totalLen identification protocol ++ ([0, 0] ++ (srcIp.toList ++ dstIp.toList)) := by
  simp only [ipv4HeaderUnsealed, ipv4HeaderStart, u16ToBeBytes_zero, List.append_assoc]

theorem splice_ipv4HeaderUnsealed (checksum : UInt16) (rest : List UInt8) :
    splice (ipv4HeaderUnsealed totalLen identification protocol srcIp dstIp ++ rest) 10 (u16ToBeBytes checksum) =
      ipv4Header totalLen identification protocol checksum srcIp dstIp ++ rest := by
  simp only [ipv4HeaderUnsealed_eq, ipv4Header, List.append_assoc]
  rw [splice_skip (by simp), length_ipv4HeaderStart, Nat.sub_self, splice_head (by simp)]

theorem ipv4HeaderChecksum_built : ipv4HeaderChecksum (ipv4Header totalLen identification protocol
    (builtChecksum totalLen identification protocol srcIp dstIp) srcIp dstIp) = 0 := by
  refine internetChecksum_sealed (by simp) (Or.inl ?_)
  rw [← ipv4HeaderUnsealed_eq]
  rfl

theorem replyFrameHead_eq : replyFrameHead dstMac srcMac totalLen identification protocol srcIp dstIp =
    dstMac.toList ++ (srcMac.toList ++ (u16ToBeBytes ethertypeIpv4 ++ ipv4Header totalLen identification protocol
      (builtChecksum totalLen identification protocol srcIp dstIp) srcIp dstIp)) := by
  have hdrop : (dstMac.toList ++ (srcMac.toList ++ (u16ToBeBytes ethertypeIpv4 ++
      ipv4HeaderUnsealed totalLen identification protocol srcIp dstIp))).drop 14 =
      ipv4HeaderUnsealed totalLen identification protocol srcIp dstIp := by
    rw [← List.append_assoc, ← List.append_assoc]
    exact List.drop_left' (by simp)
  have hsplice : splice (ipv4HeaderUnsealed totalLen identification protocol srcIp dstIp ++ []) 10
      (u16ToBeBytes (builtChecksum totalLen identification protocol srcIp dstIp)) =
      ipv4Header totalLen identification protocol (builtChecksum totalLen identification protocol srcIp dstIp) srcIp
        dstIp ++ [] := splice_ipv4HeaderUnsealed _ []
  simp only [List.append_nil] at hsplice
  simp only [replyFrameHead, List.append_assoc, hdrop]
  rw [splice_skip (by simp), splice_skip (by simp), splice_skip (by simp)]
  simp only [Vector.length_toList, length_u16ToBeBytes, Nat.reduceAdd, Nat.reduceSub]
  rw [← hsplice]
  rfl

@[simp] theorem length_replyFrameHead :
    (replyFrameHead dstMac srcMac totalLen identification protocol srcIp dstIp).length = 34 := by
  simp [replyFrameHead_eq]

/-- A frame whose Ethernet and IPv4 headers are read back: addresses, lengths and a checksum that verifies. -/
structure CarriesIpv4 (frame : List UInt8) (dstMac srcMac : MacAddr) (srcIp dstIp : Ipv4Addr)
    (identification : UInt16) (protocol : UInt8) (segment : List UInt8) : Prop where
  ethernet : EthernetFrame.parse frame =
    some { dst := dstMac, src := srcMac, ethertype := ethertypeIpv4, payload := frame.drop 14 }
  ipv4 : Ipv4Packet.parse (frame.drop 14) =
    some
      { bytes := frame.drop 14
        headerLen := 20
        totalLen := (frame.drop 14).length
        identification
        flagsFragment := 0
        ttl := 64
        protocol
        src := srcIp
        dst := dstIp
        payload := segment }
  length : (frame.drop 14).length = 20 + segment.length
  checksum : ipv4HeaderChecksum ((frame.drop 14).take 20) = 0

/-- An IPv4 packet with one of the headers is read back. -/
theorem parse_ipv4Header {checksum : UInt16} {segment : List UInt8} (htotal : totalLen.toNat = 20 + segment.length) :
    Ipv4Packet.parse (ipv4Header totalLen identification protocol checksum srcIp dstIp ++ segment) =
      some
        { bytes := ipv4Header totalLen identification protocol checksum srcIp dstIp ++ segment
          headerLen := 20
          totalLen := 20 + segment.length
          identification
          flagsFragment := 0
          ttl := 64
          protocol
          src := srcIp
          dst := dstIp
          payload := segment } := by
  have hfields : ipv4Header totalLen identification protocol checksum srcIp dstIp ++ segment =
      [0x45, 0] ++ (u16ToBeBytes totalLen ++ (u16ToBeBytes identification ++ (u16ToBeBytes 0 ++ ([64, protocol] ++
        (u16ToBeBytes checksum ++ (srcIp.toList ++ (dstIp.toList ++ segment))))))) := by
    simp only [ipv4Header, ipv4HeaderStart, List.append_assoc]
  have hlen : (ipv4Header totalLen identification protocol checksum srcIp dstIp ++ segment).length =
      20 + segment.length := by simp
  generalize ipv4Header totalLen identification protocol checksum srcIp dstIp ++ segment = bytes at hfields hlen ⊢
  have hat : ∀ offset n, slice bytes offset n = slice ([0x45, 0] ++ (u16ToBeBytes totalLen ++
      (u16ToBeBytes identification ++ (u16ToBeBytes 0 ++ ([64, protocol] ++ (u16ToBeBytes checksum ++
        (srcIp.toList ++ (dstIp.toList ++ segment)))))))) offset n := fun offset n => by rw [hfields]
  have hversion : bytes[0]? = some 0x45 := by rw [hfields]; rfl
  have htotalAt : readU16Be bytes 2 = some totalLen := by
    refine readU16Be_eq ((hat 2 2).trans ?_)
    simp (disch := simp) only [slice_skip, slice_head, List.length_cons, List.length_nil, Nat.reduceAdd, Nat.reduceSub]
  have hidAt : readU16Be bytes 4 = some identification := by
    refine readU16Be_eq ((hat 4 2).trans ?_)
    simp (disch := simp) only [slice_skip, slice_head, length_u16ToBeBytes, List.length_cons, List.length_nil,
      Nat.reduceAdd, Nat.reduceSub]
  have hflagsAt : readU16Be bytes 6 = some 0 := by
    refine readU16Be_eq ((hat 6 2).trans ?_)
    simp (disch := simp) only [slice_skip, slice_head, length_u16ToBeBytes, List.length_cons, List.length_nil,
      Nat.reduceAdd, Nat.reduceSub]
  have httl : bytes[8]? = some 64 := by
    simp [hfields, List.getElem?_append_right]
  have hprotocol : bytes[9]? = some protocol := by
    simp [hfields, List.getElem?_append_right]
  have hsrcAt : readArray 4 bytes 12 = some srcIp := by
    refine readArray_eq ((hat 12 4).trans ?_)
    simp (disch := simp) only [slice_skip, slice_head, length_u16ToBeBytes, List.length_cons, List.length_nil,
      Nat.reduceAdd, Nat.reduceSub]
  have hdstAt : readArray 4 bytes 16 = some dstIp := by
    refine readArray_eq ((hat 16 4).trans ?_)
    simp (disch := simp) only [slice_skip, slice_head, length_u16ToBeBytes, Vector.length_toList, List.length_cons,
      List.length_nil, Nat.reduceAdd, Nat.reduceSub]
  have hpayload : slice bytes 20 (20 + segment.length - 20) = segment := by
    refine (hat 20 _).trans ?_
    simp (disch := simp) only [slice_skip, slice_all, length_u16ToBeBytes, Vector.length_toList, List.length_cons,
      List.length_nil, Nat.reduceAdd, Nat.reduceSub]
  have hihl : ((0x45 : UInt8) &&& (0x0f : UInt8)).toNat * 4 = 20 := rfl
  have hnibble : ¬ (0x45 : UInt8) >>> 4 ≠ 4 := by decide
  have hshort : ¬ (20 < 20 ∨ bytes.length < 20) := by omega
  have hcut : ¬ (20 + segment.length < 20 ∨ bytes.length < 20 + segment.length) := by omega
  have htake : bytes.take (20 + segment.length) = bytes := List.take_of_length_le (Nat.le_of_eq hlen)
  simp only [Ipv4Packet.parse, hversion, htotalAt, hidAt, hflagsAt, httl, hprotocol, hsrcAt, hdstAt, hihl, htotal,
    Option.bind_eq_bind, Option.bind_some, if_neg hnibble, if_neg hshort, if_neg hcut, htake, hpayload]

/-- A frame of a header and a segment is read back. -/
theorem carriesIpv4_reply {segment : List UInt8} (htotal : totalLen.toNat = 20 + segment.length) :
    CarriesIpv4 (replyFrameHead dstMac srcMac totalLen identification protocol srcIp dstIp ++ segment) dstMac srcMac
      srcIp dstIp identification protocol segment := by
  have hframe : replyFrameHead dstMac srcMac totalLen identification protocol srcIp dstIp ++ segment =
      dstMac.toList ++ (srcMac.toList ++ (u16ToBeBytes ethertypeIpv4 ++ (ipv4Header totalLen identification protocol
        (builtChecksum totalLen identification protocol srcIp dstIp) srcIp dstIp ++ segment))) := by
    simp only [replyFrameHead_eq, List.append_assoc]
  have hdrop : (replyFrameHead dstMac srcMac totalLen identification protocol srcIp dstIp ++ segment).drop 14 =
      ipv4Header totalLen identification protocol (builtChecksum totalLen identification protocol srcIp dstIp) srcIp
        dstIp ++ segment := by
    rw [hframe, ← List.append_assoc, ← List.append_assoc]
    exact List.drop_left' (by simp)
  have hlen : (ipv4Header totalLen identification protocol (builtChecksum totalLen identification protocol srcIp dstIp)
      srcIp dstIp ++ segment).length = 20 + segment.length := by simp
  refine ⟨?_, ?_, ?_, ?_⟩
  · have hlong : ¬ (replyFrameHead dstMac srcMac totalLen identification protocol srcIp dstIp ++ segment).length <
      14 := by
      rw [List.length_append, length_replyFrameHead]
      omega
    have hdst : readArray 6 (replyFrameHead dstMac srcMac totalLen identification protocol srcIp dstIp ++ segment) 0 =
        some dstMac := by
      refine readArray_eq ?_
      rw [hframe]
      exact slice_head (by simp)
    have hsrc : readArray 6 (replyFrameHead dstMac srcMac totalLen identification protocol srcIp dstIp ++ segment) 6 =
        some srcMac := by
      refine readArray_eq ?_
      rw [hframe]
      simp (disch := simp) only [slice_skip, slice_head, Vector.length_toList, Nat.sub_self]
    have htype : readU16Be (replyFrameHead dstMac srcMac totalLen identification protocol srcIp dstIp ++ segment) 12 =
        some ethertypeIpv4 := by
      refine readU16Be_eq ?_
      rw [hframe]
      simp (disch := simp) only [slice_skip, slice_head, Vector.length_toList, Nat.reduceSub]
    simp only [EthernetFrame.parse, hdst, hsrc, htype, Option.bind_eq_bind, Option.bind_some, if_neg hlong]
  · rw [hdrop, hlen]
    exact parse_ipv4Header htotal
  · rw [hdrop, hlen]
  · rw [hdrop, List.take_left' (by simp)]
    exact ipv4HeaderChecksum_built

theorem splice_segment (segment bytes : List UInt8) (offset : Nat) :
    splice (replyFrameHead dstMac srcMac totalLen identification protocol srcIp dstIp ++ segment)
        (ipv4PayloadStart + offset) bytes =
      replyFrameHead dstMac srcMac totalLen identification protocol srcIp dstIp ++ splice segment offset bytes :=
  splice_add length_replyFrameHead offset bytes

theorem splice_segment_start (segment bytes : List UInt8) :
    splice (replyFrameHead dstMac srcMac totalLen identification protocol srcIp dstIp ++
      segment) ipv4PayloadStart bytes =
      replyFrameHead dstMac srcMac totalLen identification protocol srcIp dstIp ++ splice segment 0 bytes :=
  splice_segment segment bytes 0

theorem drop_segment (segment : List UInt8) :
    (replyFrameHead dstMac srcMac totalLen identification protocol srcIp dstIp ++ segment).drop ipv4PayloadStart =
      segment := List.drop_left' length_replyFrameHead

/-! ## UDP -/

/-- The ports and the length of a UDP header. -/
def udpHeaderStart (srcPort dstPort length : UInt16) : List UInt8 :=
  u16ToBeBytes srcPort ++ (u16ToBeBytes dstPort ++ u16ToBeBytes length)

/-- A UDP segment that is read back and verifies. -/
structure CarriesUdp (segment : List UInt8) (srcIp dstIp : Ipv4Addr) (srcPort dstPort : UInt16)
    (payload : List UInt8) : Prop where
  bytes : segment.length = 8 + payload.length
  parse : ∃ length : UInt16, length.toNat = segment.length ∧
    UdpDatagram.parse segment = some { srcPort, dstPort, length, segment, payload }
  checksum : udpChecksum srcIp dstIp segment = 0

variable {srcPort dstPort length : UInt16} {payload : List UInt8}

@[simp] theorem length_udpHeaderStart : (udpHeaderStart srcPort dstPort length).length = 6 := by
  simp [udpHeaderStart]

theorem parse_udp {checksum : UInt16} (hlength : length.toNat = 8 + payload.length) :
    UdpDatagram.parse (udpHeaderStart srcPort dstPort length ++ (u16ToBeBytes checksum ++ payload)) =
      some
        { srcPort
          dstPort
          length
          segment := udpHeaderStart srcPort dstPort length ++ (u16ToBeBytes checksum ++ payload)
          payload } := by
  have hfields : udpHeaderStart srcPort dstPort length ++ (u16ToBeBytes checksum ++ payload) =
      u16ToBeBytes srcPort ++ (u16ToBeBytes dstPort ++
        (u16ToBeBytes length ++ (u16ToBeBytes checksum ++ payload))) := by
    simp only [udpHeaderStart, List.append_assoc]
  have hlen : (udpHeaderStart srcPort dstPort length ++ (u16ToBeBytes checksum ++ payload)).length =
      8 + payload.length := by
    simp
    omega
  generalize udpHeaderStart srcPort dstPort length ++ (u16ToBeBytes checksum ++ payload) = bytes at hfields hlen ⊢
  have hat : ∀ offset n, slice bytes offset n = slice (u16ToBeBytes srcPort ++ (u16ToBeBytes dstPort ++
      (u16ToBeBytes length ++ (u16ToBeBytes checksum ++ payload)))) offset n := fun offset n => by rw [hfields]
  have hsrc : readU16Be bytes 0 = some srcPort := by
    refine readU16Be_eq ((hat 0 2).trans ?_)
    exact slice_head (by simp)
  have hdst : readU16Be bytes 2 = some dstPort := by
    refine readU16Be_eq ((hat 2 2).trans ?_)
    simp (disch := simp) only [slice_skip, slice_head, length_u16ToBeBytes, Nat.reduceSub]
  have hlengthAt : readU16Be bytes 4 = some length := by
    refine readU16Be_eq ((hat 4 2).trans ?_)
    simp (disch := simp) only [slice_skip, slice_head, length_u16ToBeBytes, Nat.reduceSub]
  have hpayload : slice bytes 8 (8 + payload.length - 8) = payload := by
    refine (hat 8 _).trans ?_
    simp (disch := simp) only [slice_skip, slice_all, length_u16ToBeBytes, Nat.reduceSub]
  have hlong : ¬ bytes.length < 8 := by omega
  have hcut : ¬ (8 + payload.length < 8 ∨ bytes.length < 8 + payload.length) := by omega
  have htake : bytes.take (8 + payload.length) = bytes := List.take_of_length_le (Nat.le_of_eq hlen)
  simp only [UdpDatagram.parse, hsrc, hdst, hlengthAt, hlength, Option.bind_eq_bind, Option.bind_some, if_neg hlong,
    if_neg hcut, htake, hpayload]

theorem udpChecksumField_eq (checksum : UInt16) :
    udpChecksumField checksum = checksum ∨ (checksum = 0 ∧ udpChecksumField checksum = 0xffff) := by
  unfold udpChecksumField
  split
  · rename_i hzero
    exact Or.inr ⟨hzero, rfl⟩
  · exact Or.inl rfl

theorem carriesUdp_sealed (srcIp dstIp : Ipv4Addr) (srcPort dstPort : UInt16)
    (hlength : length.toNat = 8 + payload.length) :
    CarriesUdp
      (splice (udpHeaderStart srcPort dstPort length ++ ([0, 0] ++ payload)) 6 (u16ToBeBytes (udpChecksumField
        (udpChecksum srcIp dstIp (udpHeaderStart srcPort dstPort length ++ ([0, 0] ++ payload))))))
      srcIp dstIp srcPort dstPort payload := by
  have hsplice : ∀ c : UInt16,
    splice (udpHeaderStart srcPort dstPort length ++ ([0, 0] ++ payload)) 6 (u16ToBeBytes c) =
      udpHeaderStart srcPort dstPort length ++ (u16ToBeBytes c ++ payload) := by
    intro c
    rw [splice_skip (by simp), length_udpHeaderStart, Nat.sub_self, splice_head (by simp)]
  have hlen : ∀ c : UInt16, (udpHeaderStart srcPort dstPort length ++ (u16ToBeBytes c ++ payload)).length =
      8 + payload.length := by
    intro c
    simp
    omega
  rw [hsplice]
  exact ⟨hlen _, ⟨length, hlength.trans (hlen _).symm, parse_udp hlength⟩,
    segmentChecksum_sealed (by simp) (udpChecksumField_eq _)⟩

theorem udpDatagram_read_back {segment : List UInt8}
    (h : buildUdpDatagram srcIp dstIp srcPort dstPort payload = some segment) :
    CarriesUdp segment srcIp dstIp srcPort dstPort payload := by
  simp only [buildUdpDatagram, Option.bind_eq_bind, Option.bind_eq_some_iff] at h
  obtain ⟨length, hlength, h⟩ := h
  obtain rfl := Option.some.inj h
  have hsealed := carriesUdp_sealed srcIp dstIp srcPort dstPort (toNat_of_u16TryFrom hlength)
  simpa only [udpHeaderStart, u16ToBeBytes_zero, List.append_assoc] using hsealed

theorem udpReply_read_back {frame : List UInt8}
    (h : buildUdpReplyFrame dstMac srcMac srcIp dstIp srcPort dstPort payload = some frame) :
    ∃ segment, CarriesIpv4 frame dstMac srcMac srcIp dstIp 0 ipv4ProtocolUdp segment ∧
      CarriesUdp segment srcIp dstIp srcPort dstPort payload := by
  simp only [buildUdpReplyFrame, Option.bind_eq_bind, Option.bind_eq_some_iff] at h
  obtain ⟨length, hlength, totalLen, htotal, h⟩ := h
  have hlength := toNat_of_u16TryFrom hlength
  have htotal := toNat_of_u16TryFrom htotal
  rw [drop_segment, splice_segment] at h
  obtain rfl := Option.some.inj h
  have hsealed := carriesUdp_sealed srcIp dstIp srcPort dstPort hlength
  have hshape : u16ToBeBytes srcPort ++ u16ToBeBytes dstPort ++ u16ToBeBytes length ++ u16ToBeBytes 0 ++ payload =
      udpHeaderStart srcPort dstPort length ++ ([0, 0] ++ payload) := by
    simp only [udpHeaderStart, u16ToBeBytes_zero, List.append_assoc]
  rw [hshape]
  refine ⟨_, carriesIpv4_reply ?_, hsealed⟩
  rw [htotal, hsealed.bytes]

/-! ## TCP -/

/-- A TCP header up to its checksum. -/
def tcpHeaderStart (srcPort dstPort : UInt16) (seq ack : UInt32) (dataOffset flags : UInt8) (window : UInt16) :
    List UInt8 :=
  u16ToBeBytes srcPort ++ (u16ToBeBytes dstPort ++ (u32ToBeBytes seq ++ (u32ToBeBytes ack ++ ([dataOffset, flags] ++
    u16ToBeBytes window))))

/-- A TCP segment that is read back and verifies. -/
structure CarriesTcp (segment : List UInt8) (source destination : Ipv4Endpoint) (seq ack : UInt32) (flags : UInt8)
    (window : UInt16) (options payload : List UInt8) : Prop where
  bytes : segment.length = 20 + options.length + payload.length
  headerLen : segment[12]?.map (fun byte : UInt8 => (byte >>> 4).toNat * 4) = some (20 + options.length)
  parse : TcpSegment.parse segment =
    some
      { srcPort := source.port
        dstPort := destination.port
        seq
        ack
        flags
        window
        segment
        payload }
  options : slice segment 20 options.length = options
  checksum : tcpChecksum source.address destination.address segment = 0

variable {source destination : Ipv4Endpoint} {seq ack : UInt32} {dataOffset flags : UInt8} {window : UInt16}
variable {options : List UInt8}

@[simp] theorem length_tcpHeaderStart :
    (tcpHeaderStart srcPort dstPort seq ack dataOffset flags window).length = 16 := by
  simp [tcpHeaderStart]

theorem dataOffset_words : ∀ words < 16, ((UInt8.ofNat words <<< 4) >>> 4).toNat = words := by decide

theorem dataOffset_options (hwords : options.length % 4 = 0) (hfit : options.length ≤ 40) :
    ((UInt8.ofNat ((20 + options.length) / 4) <<< 4) >>> 4).toNat * 4 = 20 + options.length := by
  rw [dataOffset_words _ (by omega)]
  omega

/-- A TCP segment with the checksum the builders write. -/
theorem carriesTcp_sealed (source destination : Ipv4Endpoint) (seq ack : UInt32) (flags : UInt8) (window : UInt16)
    (payload : List UInt8) (hoffset : (dataOffset >>> 4).toNat * 4 = 20 + options.length) :
    CarriesTcp
      (splice
        (tcpHeaderStart source.port destination.port seq ack dataOffset flags window ++
          ([0, 0] ++ (u16ToBeBytes 0 ++ (options ++ payload))))
        16
        (u16ToBeBytes (tcpChecksum source.address destination.address
          (tcpHeaderStart source.port destination.port seq ack dataOffset flags window ++
            ([0, 0] ++ (u16ToBeBytes 0 ++ (options ++ payload)))))))
      source destination seq ack flags window options payload := by
  have hsplice : ∀ c : UInt16, splice (tcpHeaderStart source.port destination.port seq ack dataOffset flags window ++
      ([0, 0] ++ (u16ToBeBytes 0 ++ (options ++ payload)))) 16 (u16ToBeBytes c) =
      tcpHeaderStart source.port destination.port seq ack dataOffset flags window ++
        (u16ToBeBytes c ++ (u16ToBeBytes 0 ++ (options ++ payload))) := by
    intro c
    rw [splice_skip (by simp), length_tcpHeaderStart, Nat.sub_self, splice_head (by simp)]
  rw [hsplice]
  generalize hchecksum : tcpChecksum source.address destination.address
    (tcpHeaderStart source.port destination.port seq ack dataOffset flags window ++
      ([0, 0] ++ (u16ToBeBytes 0 ++ (options ++ payload)))) = checksum
  have hsealed : tcpChecksum source.address destination.address
      (tcpHeaderStart source.port destination.port seq ack dataOffset flags window ++
        (u16ToBeBytes checksum ++ (u16ToBeBytes 0 ++ (options ++ payload)))) = 0 := by
    rw [← hchecksum]
    exact segmentChecksum_sealed (by simp) (Or.inl rfl)
  have hfields : tcpHeaderStart source.port destination.port seq ack dataOffset flags window ++
      (u16ToBeBytes checksum ++ (u16ToBeBytes 0 ++ (options ++ payload))) =
      u16ToBeBytes source.port ++ (u16ToBeBytes destination.port ++ (u32ToBeBytes seq ++ (u32ToBeBytes ack ++
        ([dataOffset, flags] ++ (u16ToBeBytes window ++ (u16ToBeBytes checksum ++ (u16ToBeBytes 0 ++
          (options ++ payload)))))))) := by
    simp only [tcpHeaderStart, List.append_assoc]
  have hlen : (tcpHeaderStart source.port destination.port seq ack dataOffset flags window ++
      (u16ToBeBytes checksum ++ (u16ToBeBytes 0 ++ (options ++ payload)))).length =
      20 + options.length + payload.length := by
    simp only [List.length_append, length_tcpHeaderStart, length_u16ToBeBytes]
    omega
  generalize tcpHeaderStart source.port destination.port seq ack dataOffset flags window ++
    (u16ToBeBytes checksum ++ (u16ToBeBytes 0 ++ (options ++ payload))) = bytes at hfields hlen hsealed ⊢
  have hat : ∀ offset n, slice bytes offset n = slice (u16ToBeBytes source.port ++ (u16ToBeBytes destination.port ++
      (u32ToBeBytes seq ++ (u32ToBeBytes ack ++ ([dataOffset, flags] ++ (u16ToBeBytes window ++
        (u16ToBeBytes checksum ++ (u16ToBeBytes 0 ++ (options ++ payload))))))))) offset n :=
    fun offset n => by rw [hfields]
  have hsrc : readU16Be bytes 0 = some source.port := by
    refine readU16Be_eq ((hat 0 2).trans ?_)
    exact slice_head (by simp)
  have hdst : readU16Be bytes 2 = some destination.port := by
    refine readU16Be_eq ((hat 2 2).trans ?_)
    simp (disch := simp) only [slice_skip, slice_head, length_u16ToBeBytes, Nat.reduceSub]
  have hseq : readU32Be bytes 4 = some seq := by
    refine readU32Be_eq ((hat 4 4).trans ?_)
    simp (disch := simp) only [slice_skip, slice_head, length_u16ToBeBytes, Nat.reduceSub]
  have hack : readU32Be bytes 8 = some ack := by
    refine readU32Be_eq ((hat 8 4).trans ?_)
    simp (disch := simp) only [slice_skip, slice_head, length_u16ToBeBytes, length_u32ToBeBytes, Nat.reduceSub]
  have hoffsetAt : bytes[12]? = some dataOffset := by
    simp [hfields, List.getElem?_append_right]
  have hflags : bytes[13]? = some flags := by
    simp [hfields, List.getElem?_append_right]
  have hwindow : readU16Be bytes 14 = some window := by
    refine readU16Be_eq ((hat 14 2).trans ?_)
    simp (disch := simp) only [slice_skip, slice_head, length_u16ToBeBytes, length_u32ToBeBytes, List.length_cons,
      List.length_nil, Nat.reduceAdd, Nat.reduceSub]
  have hoptions : slice bytes 20 options.length = options := by
    refine (hat 20 _).trans ?_
    simp (disch := simp) only [slice_skip, slice_head, length_u16ToBeBytes, length_u32ToBeBytes, List.length_cons,
      List.length_nil, Nat.reduceAdd, Nat.reduceSub]
  have hpayload : bytes.drop (20 + options.length) = payload := by
    have hheader : (u16ToBeBytes source.port ++ (u16ToBeBytes destination.port ++ (u32ToBeBytes seq ++
        (u32ToBeBytes ack ++ ([dataOffset, flags] ++ (u16ToBeBytes window ++ (u16ToBeBytes checksum ++
          (u16ToBeBytes 0 ++ options)))))))).length = 20 + options.length := by
      simp
      omega
    have hsplit : (u16ToBeBytes source.port ++ (u16ToBeBytes destination.port ++ (u32ToBeBytes seq ++
        (u32ToBeBytes ack ++ ([dataOffset, flags] ++ (u16ToBeBytes window ++ (u16ToBeBytes checksum ++
          (u16ToBeBytes 0 ++ options))))))) ++ payload).drop (20 + options.length) = payload := List.drop_left' hheader
    simp only [List.append_assoc] at hsplit
    rw [hfields]
    exact hsplit
  have hlong : ¬ bytes.length < 20 := by omega
  have hcut : ¬ (20 + options.length < 20 ∨ bytes.length < 20 + options.length) := by omega
  refine ⟨hlen, ?_, ?_, hoptions, hsealed⟩
  · rw [hoffsetAt, Option.map_some, hoffset]
  · simp only [TcpSegment.parse, if_neg hlong, hoffsetAt, hsrc, hdst, hseq, hack, hflags, hwindow, hoffset,
      if_neg hcut,
      hpayload, Option.bind_eq_bind, Option.bind_some]

theorem tcpSegment_read_back (source destination : Ipv4Endpoint) (seq ack : UInt32) (flags : UInt8)
    (payload : List UInt8) :
    CarriesTcp (buildTcpSegment source destination seq ack flags payload) source destination seq ack flags 65535 []
      payload := by
  have hsealed := carriesTcp_sealed source destination seq ack flags 65535 payload
    (show ((5 : UInt8) <<< 4 >>> 4).toNat * 4 = 20 + ([] : List UInt8).length from rfl)
  simpa only [buildTcpSegment, tcpHeaderStart, u16ToBeBytes_zero, List.append_assoc, List.nil_append] using hsealed

/-- `build_tcp_reply_frame` is read back when the options are whole words, at most ten. -/
theorem tcpReply_read_back {source destination : EthernetIpv4Endpoint} {frame : List UInt8}
    (hwords : options.length % 4 = 0) (hfit : options.length ≤ 40)
    (h : buildTcpReplyFrame source destination seq ack flags window options payload = some frame) :
    ∃ segment, CarriesIpv4 frame destination.mac source.mac source.network.address destination.network.address 0
        ipv4ProtocolTcp segment ∧
      CarriesTcp segment source.network destination.network seq ack flags window options payload := by
  simp only [buildTcpReplyFrame, Option.bind_eq_bind, Option.bind_eq_some_iff] at h
  obtain ⟨totalLen, htotal, h⟩ := h
  have htotal := toNat_of_u16TryFrom htotal
  rw [drop_segment, splice_segment] at h
  obtain rfl := Option.some.inj h
  have hsealed := carriesTcp_sealed source.network destination.network seq ack flags window payload
    (dataOffset_options hwords hfit)
  have hshape : u16ToBeBytes source.network.port ++ u16ToBeBytes destination.network.port ++ u32ToBeBytes seq ++
      u32ToBeBytes ack ++ [UInt8.ofNat ((20 + options.length) / 4) <<< 4, flags] ++ u16ToBeBytes window ++
      u16ToBeBytes 0 ++ u16ToBeBytes 0 ++ options ++ payload =
      tcpHeaderStart source.network.port destination.network.port seq ack
        (UInt8.ofNat ((20 + options.length) / 4) <<< 4) flags window ++
        ([0, 0] ++ (u16ToBeBytes 0 ++ (options ++ payload))) := by
    simp only [tcpHeaderStart, u16ToBeBytes_zero, List.append_assoc]
  rw [hshape]
  refine ⟨_, carriesIpv4_reply ?_, hsealed⟩
  rw [htotal, hsealed.bytes]

/-! ## ICMP -/

/-- An ICMP echo reply to a message, with an identifier: the rest of the message as it is. -/
structure CarriesEchoReply (segment message : List UInt8) (identifier : Option UInt16) : Prop where
  bytes : segment.length = message.length
  kind : segment[0]? = some 0
  code : segment[1]? = message[1]?
  identifier : readU16Be segment 4 = identifier
  rest : segment.drop 6 = message.drop 6
  checksum : icmpChecksum segment = 0

theorem icmp_header {message : List UInt8} (h : 8 ≤ message.length) :
    ∃ kind code c₁ c₂ i₁ i₂ rest, message = kind :: code :: c₁ :: c₂ :: i₁ :: i₂ :: rest := by
  match message, h with
  | kind :: code :: c₁ :: c₂ :: i₁ :: i₂ :: rest, _ => exact ⟨kind, code, c₁, c₂, i₁, i₂, rest, rfl⟩

theorem icmpChecksum_sealed (kind code : UInt8) (post : List UInt8) :
    icmpChecksum (splice (kind :: code :: 0 :: 0 :: post) 2 (u16ToBeBytes (icmpChecksum
      (kind :: code :: 0 :: 0 :: post)))) = 0 := by
  have hsplice : ∀ c : UInt16, splice (kind :: code :: 0 :: 0 :: post) 2 (u16ToBeBytes c) =
      [kind, code] ++ (u16ToBeBytes c ++ post) := fun c => rfl
  rw [hsplice]
  exact internetChecksum_sealed (by simp) (Or.inl rfl)

theorem carriesEchoReply_sealed (kind code c₁ c₂ m₁ m₂ i₁ i₂ : UInt8) (rest : List UInt8)
    {identifier : Option UInt16}
    (hid : readU16Be (0 :: code :: c₁ :: c₂ :: i₁ :: i₂ :: rest) 4 = identifier) :
    CarriesEchoReply
      (splice (0 :: code :: 0 :: 0 :: i₁ :: i₂ :: rest) 2 (u16ToBeBytes (icmpChecksum
        (0 :: code :: 0 :: 0 :: i₁ :: i₂ :: rest))))
      (kind :: code :: c₁ :: c₂ :: m₁ :: m₂ :: rest) identifier := by
  have hsealed := icmpChecksum_sealed 0 code (i₁ :: i₂ :: rest)
  generalize icmpChecksum (0 :: code :: 0 :: 0 :: i₁ :: i₂ :: rest) = checksum at hsealed ⊢
  refine ⟨?_, rfl, rfl, hid, rfl, hsealed⟩
  rw [length_splice (by simp)]
  rfl

theorem icmpEchoReply_read_back {request frame : List UInt8}
    (h : buildIcmpEchoReplyFrame dstMac srcMac srcIp dstIp request identification = some frame) :
    ∃ segment, CarriesIpv4 frame dstMac srcMac srcIp dstIp identification ipv4ProtocolIcmp segment ∧
      CarriesEchoReply segment request (readU16Be request 4) := by
  unfold buildIcmpEchoReplyFrame at h
  split at h
  · cases h
  · rename_i hlong
    obtain ⟨kind, code, c₁, c₂, i₁, i₂, rest, rfl⟩ := icmp_header (Nat.le_of_not_lt hlong)
    simp only [Option.bind_eq_bind, Option.bind_eq_some_iff] at h
    obtain ⟨totalLen, htotal, h⟩ := h
    have htotal := toNat_of_u16TryFrom htotal
    rw [splice_segment_start, splice_segment, drop_segment, splice_segment] at h
    obtain rfl := Option.some.inj h
    have hreply := carriesEchoReply_sealed kind code c₁ c₂ i₁ i₂ i₁ i₂ rest rfl
    have hclear : splice (splice (kind :: code :: c₁ :: c₂ :: i₁ :: i₂ :: rest) 0 [0]) 2 [0, 0] =
        0 :: code :: 0 :: 0 :: i₁ :: i₂ :: rest := rfl
    rw [hclear]
    refine ⟨_, carriesIpv4_reply ?_, hreply⟩
    rw [htotal, hreply.bytes]

theorem icmpReplyPayloadOffset_le {reply : List UInt8} {offset : Nat} (h : icmpReplyPayloadOffset reply = some offset) :
    8 ≤ (reply.drop offset).length := by
  simp only [icmpReplyPayloadOffset, Option.bind_eq_bind, Option.bind_eq_some_iff] at h
  obtain ⟨first, -, h⟩ := h
  rw [List.length_drop]
  split at h
  · split at h
    · rename_i hlong
      obtain rfl := Option.some.inj h
      exact hlong
    · cases h
  · split at h
    · cases h
    · obtain rfl := Option.some.inj h
      omega

/-- `build_rewritten_icmp_echo_reply_frame` answers with the host's reply under the guest's identifier. -/
theorem rewrittenEchoReply_read_back {reply frame : List UInt8} {guestIdentifier : UInt16}
    (h : buildRewrittenIcmpEchoReplyFrame dstMac srcMac srcIp dstIp reply guestIdentifier = some frame) :
    ∃ offset segment, icmpReplyPayloadOffset reply = some offset ∧
      CarriesIpv4 frame dstMac srcMac srcIp dstIp 0 ipv4ProtocolIcmp segment ∧
      CarriesEchoReply segment (reply.drop offset) (some guestIdentifier) := by
  simp only [buildRewrittenIcmpEchoReplyFrame, Option.bind_eq_bind, Option.bind_eq_some_iff] at h
  obtain ⟨offset, hoffset, h⟩ := h
  obtain ⟨kind, code, c₁, c₂, m₁, m₂, rest, hicmp⟩ := icmp_header (icmpReplyPayloadOffset_le hoffset)
  refine ⟨offset, ?_⟩
  rw [hicmp] at h ⊢
  split at h
  · cases h
  · rename_i htype
    simp only [List.getElem?_cons_zero, List.getElem?_cons_succ, ne_eq, Option.some.injEq, not_or, not_not] at htype
    obtain ⟨rfl, rfl⟩ := htype
    simp only [Option.bind_eq_some_iff] at h
    obtain ⟨totalLen, htotal, h⟩ := h
    have htotal := toNat_of_u16TryFrom htotal
    rw [splice_segment, splice_segment, drop_segment, splice_segment] at h
    obtain rfl := Option.some.inj h
    obtain ⟨i₁, i₂, hid⟩ := List.length_eq_two.mp (length_u16ToBeBytes guestIdentifier)
    have hreply := carriesEchoReply_sealed 0 0 c₁ c₂ m₁ m₂ i₁ i₂ rest
      (readU16Be_eq (v := guestIdentifier) (by rw [hid]; rfl))
    have hclear : splice (splice (0 :: 0 :: c₁ :: c₂ :: m₁ :: m₂ :: rest) 2 [0, 0]) 4
      (u16ToBeBytes guestIdentifier) =
        0 :: 0 :: 0 :: 0 :: i₁ :: i₂ :: rest := by
      rw [hid]
      rfl
    rw [hclear]
    refine ⟨_, hoffset, carriesIpv4_reply ?_, hreply⟩
    rw [htotal, hreply.bytes]

/-! ## DHCP -/

/-- DHCP options as bytes. -/
def encodeDhcpOptions : List (UInt8 × List UInt8) → List UInt8
  | [] => []
  | (code, value) :: rest => [code, UInt8.ofNat value.length] ++ (value ++ encodeDhcpOptions rest)

/-- An option that can be written: its code is neither padding nor the end, and its length fits a byte. -/
def WritableOption (option : UInt8 × List UInt8) : Prop :=
  option.1 ≠ 0 ∧ option.1 ≠ dhcpOptEnd ∧ option.2.length < 256

theorem dhcpOption_end (rest : List UInt8) (code : UInt8) : dhcpOption (dhcpOptEnd :: rest) code = none := by
  rw [dhcpOption.eq_def]
  rfl

theorem dhcpOption_value {option len : UInt8} {value : List UInt8} (h : WritableOption (option, value))
    (hlen : len.toNat = value.length)
    (rest : List UInt8) (code : UInt8) :
    dhcpOption (option :: len :: (value ++ rest)) code = if option = code then some value
      else dhcpOption rest code := by
  obtain ⟨hzero, hend, -⟩ := h
  have hlong : ¬ (value ++ rest).length < len.toNat := by
    rw [List.length_append, hlen]
    omega
  rw [dhcpOption.eq_def]
  split
  · rename_i heq
    cases heq
  · rename_i heq
    exact absurd (List.cons.inj heq).1 hzero
  · rename_i heq
    obtain ⟨rfl, rfl⟩ := List.cons.inj heq
    rw [if_neg hend]
    simp only [if_neg hlong]
    rw [hlen, List.take_left, List.drop_left]

theorem dhcpOption_encoded (options : List (UInt8 × List UInt8)) (h : ∀ option ∈ options, WritableOption option)
    (tail : List UInt8) (code : UInt8) :
    dhcpOption (encodeDhcpOptions options ++ dhcpOptEnd :: tail) code = options.lookup code := by
  induction options with
  | nil => exact dhcpOption_end tail code
  | cons option options ih =>
    obtain ⟨found, value⟩ := option
    have hwritable := h (found, value) (List.mem_cons_self ..)
    have hvalue : (UInt8.ofNat value.length).toNat = value.length := by
      rw [UInt8.toNat_ofNat']
      exact Nat.mod_eq_of_lt hwritable.2.2
    have ih := ih fun option hmem => h option (List.mem_cons_of_mem _ hmem)
    simp only [encodeDhcpOptions, List.cons_append, List.nil_append, List.append_assoc]
    rw [dhcpOption_value hwritable hvalue, List.lookup_cons, ih]
    by_cases heq : found = code
    · simp [heq]
    · have hne : (code == found) = false := by simpa using Ne.symm heq
      rw [if_neg heq, hne]

/-- The options of a DHCP reply. -/
def dhcpReplyOptions (messageType : UInt8) : List (UInt8 × List UInt8) :=
  [(dhcpOptMessageType, [messageType]), (dhcpOptServerId, dhcpServerIp.toList),
    (dhcpOptLeaseTime, u32ToBeBytes dhcpLeaseSeconds), (dhcpOptSubnetMask, subnetMask.toList),
    (dhcpOptRouter, gatewayIp.toList), (dhcpOptDns, dnsIp.toList)]

/-- A DHCP reply to a request, read back field by field. -/
structure CarriesDhcpReply (dhcp : List UInt8) (request : DhcpRequest) (messageType : UInt8) : Prop where
  bytes : dhcp.length = dhcpReplyPayloadLen
  op : dhcp[0]? = some 2
  htype : dhcp[1]? = some request.htype
  hlen : dhcp[2]? = some request.hlen
  xid : readArray 4 dhcp 4 = some request.xid
  flags : readU16Be dhcp 10 = some request.flags
  yiaddr : readArray 4 dhcp 16 = some guestIp
  siaddr : readArray 4 dhcp 20 = some dhcpServerIp
  chaddr : readArray 16 dhcp 28 = some request.chaddr
  cookie : slice dhcp 236 4 = dhcpMagicCookie.toList
  options : ∀ code, dhcpOption (dhcp.drop 240) code = (dhcpReplyOptions messageType).lookup code

/-- The fixed part of a DHCP reply. -/
def dhcpReplyFixed (request : DhcpRequest) : List UInt8 :=
  [2] ++ ([request.htype] ++ ([request.hlen] ++ ([0] ++ (request.xid.toList ++ ([0, 0] ++ (u16ToBeBytes request.flags ++
    ([0, 0, 0, 0] ++ (guestIp.toList ++ (dhcpServerIp.toList ++ ([0, 0, 0, 0] ++ (request.chaddr.toList ++
      (List.replicate 192 0 ++ dhcpMagicCookie.toList))))))))))))

theorem dhcpReplyFixed_eq (request : DhcpRequest) :
    splice (splice (splice (splice (splice (splice (splice (splice (splice (List.replicate dhcpReplyFixedLen 0) 0 [2]) 1
      [request.htype]) 2 [request.hlen]) 4 request.xid.toList) 10 (u16ToBeBytes request.flags)) 16 guestIp.toList) 20
      dhcpServerIp.toList) 28 request.chaddr.toList) 236 dhcpMagicCookie.toList = dhcpReplyFixed request := by
  have hzeros : (List.replicate dhcpReplyFixedLen 0 : List UInt8) =
      List.replicate 1 0 ++ (List.replicate 1 0 ++ (List.replicate 1 0 ++ (List.replicate 1 0 ++ (List.replicate 4 0 ++
        (List.replicate 2 0 ++ (List.replicate 2 0 ++ (List.replicate 4 0 ++ (List.replicate 4 0 ++
          (List.replicate 4 0 ++ (List.replicate 4 0 ++ (List.replicate 16 0 ++ (List.replicate 192 0 ++
            List.replicate 4 0)))))))))))) := by
    simp only [List.replicate_append_replicate, Nat.reduceAdd]
    rfl
  rw [hzeros]
  simp (disch := simp only [List.length_replicate, Vector.length_toList, length_u16ToBeBytes, List.length_cons,
    List.length_nil, Nat.reduceAdd, Nat.reduceSub, Nat.reduceLeDiff, Nat.le_refl, Nat.zero_le]) only [splice_skip,
    splice_head, splice_all,
    List.length_replicate, Vector.length_toList, length_u16ToBeBytes, List.length_cons, List.length_nil, Nat.reduceAdd,
    Nat.reduceSub]
  rfl

theorem length_dhcpReplyFixed (request : DhcpRequest) : (dhcpReplyFixed request).length = 240 := by
  simp only [dhcpReplyFixed, List.length_append, List.length_replicate, Vector.length_toList, length_u16ToBeBytes,
    List.length_cons, List.length_nil, Nat.reduceAdd]

/-- The message of a DHCP reply. -/
def dhcpReply (request : DhcpRequest) (messageType : UInt8) : List UInt8 :=
  dhcpReplyFixed request ++ (encodeDhcpOptions (dhcpReplyOptions messageType) ++ [dhcpOptEnd])

theorem length_dhcpReply (request : DhcpRequest) (messageType : UInt8) :
    (dhcpReply request messageType).length = dhcpReplyPayloadLen := by
  simp only [dhcpReply, List.length_append, length_dhcpReplyFixed]
  rfl

theorem slice_dhcpReply (request : DhcpRequest) (messageType : UInt8) {offset n : Nat} (h : offset + n ≤ 240) :
    slice (dhcpReply request messageType) offset n = slice (dhcpReplyFixed request) offset n := by
  have hlen := length_dhcpReplyFixed request
  rw [slice, dhcpReply, List.drop_append_of_le_length (by omega),
    List.take_append_of_le_length (by rw [List.length_drop]; omega)]
  rfl

theorem carriesDhcpReply (request : DhcpRequest) (messageType : UInt8) :
    CarriesDhcpReply (dhcpReply request messageType) request messageType := by
  have hat : ∀ {offset n : Nat} {field : List UInt8}, offset + n ≤ 240 →
      slice (dhcpReplyFixed request) offset n = field → slice (dhcpReply request messageType) offset n = field :=
    fun h hfield => (slice_dhcpReply request messageType h).trans hfield
  have hbyte : ∀ {offset : Nat} {byte : UInt8}, offset < 240 → (dhcpReplyFixed request)[offset]? = some byte →
      (dhcpReply request messageType)[offset]? = some byte := by
    intro offset byte h hbyte
    rw [dhcpReply, List.getElem?_append_left (by rw [length_dhcpReplyFixed]; exact h), hbyte]
  refine
    { bytes := length_dhcpReply request messageType
      op := hbyte (by decide) rfl
      htype := hbyte (by decide) rfl
      hlen := hbyte (by decide) rfl
      xid := readArray_eq (hat (by decide) ?_)
      flags := readU16Be_eq (hat (by decide) ?_)
      yiaddr := readArray_eq (hat (by decide) ?_)
      siaddr := readArray_eq (hat (by decide) ?_)
      chaddr := readArray_eq (hat (by decide) ?_)
      cookie := hat (by decide) ?_
      options := fun code => ?_ }
  · simp (disch := simp) only [dhcpReplyFixed, slice_skip, slice_head, List.length_cons, List.length_nil,
      Nat.reduceAdd, Nat.reduceSub]
  · simp (disch := simp) only [dhcpReplyFixed, slice_skip, slice_head, Vector.length_toList, List.length_cons,
      List.length_nil, Nat.reduceAdd, Nat.reduceSub]
  · simp (disch := simp) only [dhcpReplyFixed, slice_skip, slice_head, length_u16ToBeBytes, Vector.length_toList,
      List.length_cons, List.length_nil, Nat.reduceAdd, Nat.reduceSub]
  · simp (disch := simp) only [dhcpReplyFixed, slice_skip, slice_head, length_u16ToBeBytes, Vector.length_toList,
      List.length_cons, List.length_nil, Nat.reduceAdd, Nat.reduceSub]
  · simp (disch := simp) only [dhcpReplyFixed, slice_skip, slice_head, length_u16ToBeBytes, Vector.length_toList,
      List.length_cons, List.length_nil, Nat.reduceAdd, Nat.reduceSub]
  · simp (disch := simp only [List.length_replicate, Vector.length_toList, length_u16ToBeBytes, List.length_cons,
      List.length_nil, Nat.reduceAdd, Nat.reduceSub, Nat.reduceLeDiff, Nat.le_refl]) only [dhcpReplyFixed, slice_skip,
      slice_all, List.length_replicate, Vector.length_toList, length_u16ToBeBytes, List.length_cons, List.length_nil,
      Nat.reduceAdd, Nat.reduceSub]
  · rw [dhcpReply, List.drop_left' (length_dhcpReplyFixed request)]
    refine dhcpOption_encoded _ ?_ [] code
    simp only [dhcpReplyOptions, List.mem_cons, List.not_mem_nil, or_false]
    rintro option (rfl | rfl | rfl | rfl | rfl | rfl)
    · exact ⟨show dhcpOptMessageType ≠ 0 by decide, show dhcpOptMessageType ≠ dhcpOptEnd by decide, by simp⟩
    all_goals exact ⟨by decide, by decide, by simp⟩

theorem pushDhcpOption_eq {msg value : List UInt8} {code : UInt8} (h : value.length < 256) :
    pushDhcpOption msg code value = some (msg ++ ([code, UInt8.ofNat value.length] ++ value)) := if_pos h

theorem pushDhcpReply_eq (headers : List UInt8) (request : DhcpRequest) (messageType : UInt8) :
    pushDhcpReply headers request messageType = some (headers ++ dhcpReply request messageType) := by
  have hfirst : splice (headers ++ List.replicate dhcpReplyFixedLen 0) headers.length [2] =
      headers ++ splice (List.replicate dhcpReplyFixedLen 0) 0 [2] := splice_add rfl 0 [2]
  have hsplice : ∀ (body bytes : List UInt8) (offset : Nat),
      splice (headers ++ body) (headers.length + offset) bytes = headers ++ splice body offset bytes :=
    fun body bytes offset => splice_add rfl offset bytes
  have hlen : [messageType].length < 256 ∧ dhcpServerIp.toList.length < 256 ∧
      (u32ToBeBytes dhcpLeaseSeconds).length < 256 ∧ subnetMask.toList.length < 256 ∧
      gatewayIp.toList.length < 256 ∧ dnsIp.toList.length < 256 := by simp
  obtain ⟨h₁, h₂, h₃, h₄, h₅, h₆⟩ := hlen
  simp only [pushDhcpReply, hfirst, hsplice, dhcpReplyFixed_eq, pushDhcpOption_eq h₁, pushDhcpOption_eq h₂,
    pushDhcpOption_eq h₃,
    pushDhcpOption_eq h₄, pushDhcpOption_eq h₅, pushDhcpOption_eq h₆, Option.bind_eq_bind,
    Option.bind_some, dhcpReply,
    dhcpReplyOptions, encodeDhcpOptions, List.append_assoc, List.append_nil]

/-- `build_dhcp_reply_frame` always returns a frame, and it is read back. -/
theorem dhcpReply_read_back (dstMac srcMac : MacAddr) (dstIp : Ipv4Addr) (request : DhcpRequest) (messageType : UInt8)
    (identification : UInt16) :
    ∃ frame segment, buildDhcpReplyFrame dstMac srcMac dstIp request messageType identification = some frame ∧
      CarriesIpv4 frame dstMac srcMac dhcpServerIp dstIp identification ipv4ProtocolUdp segment ∧
      CarriesUdp segment dhcpServerIp dstIp dhcpServerPort dhcpClientPort (dhcpReply request messageType) := by
  have hudp : u16TryFrom (8 + dhcpReplyPayloadLen) = some 282 := rfl
  have htotal : u16TryFrom (20 + (8 + dhcpReplyPayloadLen)) = some 302 := rfl
  have hshape : replyFrameHead dstMac srcMac 302 identification ipv4ProtocolUdp dhcpServerIp dstIp ++
      (u16ToBeBytes dhcpServerPort ++ u16ToBeBytes dhcpClientPort ++ u16ToBeBytes 282 ++ u16ToBeBytes 0) ++
        dhcpReply request messageType =
      replyFrameHead dstMac srcMac 302 identification ipv4ProtocolUdp dhcpServerIp dstIp ++
        (udpHeaderStart dhcpServerPort dhcpClientPort 282 ++ ([0, 0] ++ dhcpReply request messageType)) := by
    simp only [udpHeaderStart, u16ToBeBytes_zero, List.append_assoc]
  have hlen : ¬ (replyFrameHead dstMac srcMac 302 identification ipv4ProtocolUdp dhcpServerIp dstIp ++
      (udpHeaderStart dhcpServerPort dhcpClientPort 282 ++ ([0, 0] ++ dhcpReply request messageType))).length ≠
        14 + (20 + (8 + dhcpReplyPayloadLen)) := by
    simp only [List.length_append, length_replyFrameHead, length_udpHeaderStart, length_dhcpReply, List.length_cons,
      List.length_nil]
    omega
  have hsealed := carriesUdp_sealed dhcpServerIp dstIp dhcpServerPort dhcpClientPort
    (show (282 : UInt16).toNat = 8 + (dhcpReply request messageType).length by rw [length_dhcpReply]; rfl)
  refine ⟨replyFrameHead dstMac srcMac 302 identification ipv4ProtocolUdp dhcpServerIp dstIp ++ _, _, ?_,
    carriesIpv4_reply ?_, hsealed⟩
  · simp only [buildDhcpReplyFrame, hudp, htotal, Option.bind_eq_bind, Option.bind_some, pushDhcpReply_eq, hshape,
      if_neg hlen, drop_segment, splice_segment]
  · rw [hsealed.bytes, length_dhcpReply]
    rfl

/-! ## All reply frames -/

/-- Every frame or segment a builder returns is read back by the parsers with what it was given, and its checksums
verify: UDP and TCP segments, alone and in reply frames, both kinds of ICMP echo replies, and DHCP replies. -/
theorem reply_frames_read_back :
    (∀ srcIp dstIp srcPort dstPort payload segment, buildUdpDatagram srcIp dstIp srcPort dstPort payload =
      some segment →
      CarriesUdp segment srcIp dstIp srcPort dstPort payload) ∧
    (∀ dstMac srcMac srcIp dstIp srcPort dstPort payload frame,
      buildUdpReplyFrame dstMac srcMac srcIp dstIp srcPort dstPort payload = some frame →
      ∃ segment, CarriesIpv4 frame dstMac srcMac srcIp dstIp 0 ipv4ProtocolUdp segment ∧
        CarriesUdp segment srcIp dstIp srcPort dstPort payload) ∧
    (∀ source destination seq ack flags payload,
      CarriesTcp (buildTcpSegment source destination seq ack flags payload) source destination seq ack flags 65535 []
        payload) ∧
    (∀ (source destination : EthernetIpv4Endpoint) seq ack flags window options payload frame,
      options.length % 4 = 0 → options.length ≤ 40 →
      buildTcpReplyFrame source destination seq ack flags window options payload = some frame →
      ∃ segment, CarriesIpv4 frame destination.mac source.mac source.network.address destination.network.address 0
          ipv4ProtocolTcp segment ∧
        CarriesTcp segment source.network destination.network seq ack flags window options payload) ∧
    (∀ dstMac srcMac srcIp dstIp request identification frame,
      buildIcmpEchoReplyFrame dstMac srcMac srcIp dstIp request identification = some frame →
      ∃ segment, CarriesIpv4 frame dstMac srcMac srcIp dstIp identification ipv4ProtocolIcmp segment ∧
        CarriesEchoReply segment request (readU16Be request 4)) ∧
    (∀ dstMac srcMac srcIp dstIp reply guestIdentifier frame,
      buildRewrittenIcmpEchoReplyFrame dstMac srcMac srcIp dstIp reply guestIdentifier = some frame →
      ∃ offset segment, icmpReplyPayloadOffset reply = some offset ∧
        CarriesIpv4 frame dstMac srcMac srcIp dstIp 0 ipv4ProtocolIcmp segment ∧
        CarriesEchoReply segment (reply.drop offset) (some guestIdentifier)) ∧
    (∀ dstMac srcMac dstIp request messageType identification,
      ∃ frame segment dhcp,
        buildDhcpReplyFrame dstMac srcMac dstIp request messageType identification = some frame ∧
        CarriesIpv4 frame dstMac srcMac dhcpServerIp dstIp identification ipv4ProtocolUdp segment ∧
        CarriesUdp segment dhcpServerIp dstIp dhcpServerPort dhcpClientPort dhcp ∧
        CarriesDhcpReply dhcp request messageType) := by
  refine ⟨?_, ?_, ?_, ?_, ?_, ?_, ?_⟩
  · intro srcIp dstIp srcPort dstPort payload segment h
    exact udpDatagram_read_back h
  · intro dstMac srcMac srcIp dstIp srcPort dstPort payload frame h
    exact udpReply_read_back h
  · exact tcpSegment_read_back
  · intro source destination seq ack flags window options payload frame hwords hfit h
    exact tcpReply_read_back hwords hfit h
  · intro dstMac srcMac srcIp dstIp request identification frame h
    exact icmpEchoReply_read_back h
  · intro dstMac srcMac srcIp dstIp reply guestIdentifier frame h
    exact rewrittenEchoReply_read_back h
  · intro dstMac srcMac dstIp request messageType identification
    obtain ⟨frame, segment, h, hip, hudp⟩ :=
      dhcpReply_read_back dstMac srcMac dstIp request messageType identification
    exact ⟨frame, segment, _, h, hip, hudp, carriesDhcpReply request messageType⟩

/-- The two ends of the frames below. -/
def gatewayEnd : EthernetIpv4Endpoint := ⟨gatewayMac, ⟨gatewayIp, 80⟩⟩

def guestEnd : EthernetIpv4Endpoint := ⟨#v[82, 84, 0, 18, 52, 86], ⟨guestIp, 49152⟩⟩

/-- A SYN of the NAT with its maximum segment size and an odd payload. -/
theorem syn_frame_read_back : ∃ frame segment,
    buildTcpReplyFrame gatewayEnd guestEnd 1000 0 2 65535 [2, 4, 5, 180] [104, 105, 33] = some frame ∧
      CarriesTcp segment gatewayEnd.network guestEnd.network 1000 0 2 65535 [2, 4, 5, 180] [104, 105, 33] := by
  obtain ⟨segment, -, htcp⟩ := reply_frames_read_back.2.2.2.1 gatewayEnd guestEnd 1000 0 2 65535 [2, 4, 5, 180]
    [104, 105, 33] _ (by decide) (by decide) rfl
  exact ⟨_, segment, rfl, htcp⟩

/-- Two replies that are not read back as they were given: to a ping, whose type the reply does not keep, and with
eleven words of options, which the data offset cannot count. -/
theorem replies_not_read_back :
    (¬ ∀ dstMac srcMac srcIp dstIp request identification frame,
      buildIcmpEchoReplyFrame dstMac srcMac srcIp dstIp request identification = some frame →
      ∃ ethernet packet, EthernetFrame.parse frame = some ethernet ∧
      Ipv4Packet.parse ethernet.payload = some packet ∧
        packet.payload = request) ∧
    ¬ ∀ (source destination : EthernetIpv4Endpoint) (seq ack : UInt32) (flags : UInt8) (window : UInt16)
      (options payload frame : List UInt8),
      buildTcpReplyFrame source destination seq ack flags window options payload = some frame →
      ∃ ethernet packet segment, EthernetFrame.parse frame = some ethernet ∧
        Ipv4Packet.parse ethernet.payload = some packet ∧ TcpSegment.parse packet.payload = some segment ∧
        segment.payload = payload := by
  refine ⟨fun h => ?_, fun h => ?_⟩
  · obtain ⟨frame, hframe, hread⟩ : ∃ frame,
        buildIcmpEchoReplyFrame guestEnd.mac gatewayMac gatewayIp guestIp [8, 0, 244, 252, 0, 1, 0, 2] 0 =
          some frame ∧
        ((EthernetFrame.parse frame).bind fun ethernet => (Ipv4Packet.parse ethernet.payload).map Ipv4Packet.payload) =
          some [0, 0, 255, 252, 0, 1, 0, 2] := ⟨_, rfl, by decide +kernel⟩
    obtain ⟨ethernet, packet, hethernet, hpacket, hpayload⟩ := h _ _ _ _ _ _ frame hframe
    rw [hethernet, Option.bind_some, hpacket, Option.map_some, hpayload] at hread
    exact absurd hread (by decide)
  · have hread : ((do
        let frame ← buildTcpReplyFrame gatewayEnd guestEnd 0 0 16 65535 (List.replicate 44 1) []
        let ethernet ← EthernetFrame.parse frame
        let packet ← Ipv4Packet.parse ethernet.payload
        TcpSegment.parse packet.payload).isSome) = false := by decide +kernel
    have hbuilt : (buildTcpReplyFrame gatewayEnd guestEnd 0 0 16 65535 (List.replicate 44 1) []).isSome = true := by
      decide +kernel
    obtain ⟨frame, hframe⟩ := Option.isSome_iff_exists.mp hbuilt
    obtain ⟨ethernet, packet, segment, hethernet, hpacket, hsegment, -⟩ := h _ _ _ _ _ _ _ _ frame hframe
    simp only [hframe, hethernet, hpacket, hsegment, Option.bind_eq_bind, Option.bind_some, Option.isSome_some] at hread
    cases hread

end BridgeVm.NetNat.Wire
