import BridgeVm.Lib.Splice
import BridgeVm.NetNat.Checksum

/-!
# Frames of the NAT (`net_nat/handle_outbound_ipv4.rs`)

The parsers of Ethernet frames, IPv4 packets, TCP segments, UDP datagrams and DHCP messages, and the builders of the
frames the guest is sent. A frame is a list of bytes; an array of the code is a vector; a builder that panics or
returns `None` returns `none`.
-/

namespace BridgeVm.NetNat.Wire

open Lib

abbrev MacAddr := Vector UInt8 6

structure Ipv4Endpoint where
  address : Ipv4Addr
  port : UInt16

structure EthernetIpv4Endpoint where
  mac : MacAddr
  network : Ipv4Endpoint

def ethertypeIpv4 : UInt16 := 0x0800

def gatewayMac : MacAddr := #v[0x52, 0x55, 0x0a, 0x00, 0x02, 0x02]

def guestIp : Ipv4Addr := #v[10, 0, 2, 15]

def gatewayIp : Ipv4Addr := #v[10, 0, 2, 2]

def dnsIp : Ipv4Addr := #v[10, 0, 2, 3]

def dhcpServerIp : Ipv4Addr := gatewayIp

def subnetMask : Ipv4Addr := #v[255, 255, 255, 0]

def dhcpClientPort : UInt16 := 68

def dhcpServerPort : UInt16 := 67

def dhcpMagicCookie : Vector UInt8 4 := #v[99, 130, 83, 99]

def dhcpOptSubnetMask : UInt8 := 1

def dhcpOptRouter : UInt8 := 3

def dhcpOptDns : UInt8 := 6

def dhcpOptLeaseTime : UInt8 := 51

def dhcpOptMessageType : UInt8 := 53

def dhcpOptServerId : UInt8 := 54

def dhcpOptEnd : UInt8 := 255

def dhcpLeaseSeconds : UInt32 := 86400

def dhcpReplyFixedLen : Nat := 240

def dhcpReplyOptionsLen : Nat := 3 + 5 * 6 + 1

def dhcpReplyPayloadLen : Nat := dhcpReplyFixedLen + dhcpReplyOptionsLen

/-! ## Reading and writing fields -/

/-- `read_array`. -/
def readArray (n : Nat) (bytes : List UInt8) (offset : Nat) : Option (Vector UInt8 n) :=
  if h : (slice bytes offset n).length = n then some ⟨(slice bytes offset n).toArray, h⟩ else none

/-- `read_u16_be`. -/
def readU16Be (bytes : List UInt8) (offset : Nat) : Option UInt16 :=
  (readArray 2 bytes offset).map fun a => u16FromBeBytes a.toList

/-- `u32::from_be_bytes(read_array(bytes, offset)?)`. -/
def readU32Be (bytes : List UInt8) (offset : Nat) : Option UInt32 :=
  (readArray 4 bytes offset).map fun a => UInt32.ofNat (ofBeBytes a.toList)

/-- `u32::to_be_bytes`. -/
def u32ToBeBytes (v : UInt32) : List UInt8 := toBeBytes 4 v.toNat

/-- `u16::try_from`. -/
def u16TryFrom (n : Nat) : Option UInt16 := if n < 65536 then some (UInt16.ofNat n) else none

/-! ## Parsers -/

structure EthernetFrame where
  dst : MacAddr
  src : MacAddr
  ethertype : UInt16
  payload : List UInt8

def EthernetFrame.parse (frame : List UInt8) : Option EthernetFrame := do
  let dst ← readArray 6 frame 0
  let src ← readArray 6 frame 6
  let ethertype ← readU16Be frame 12
  if frame.length < 14 then none
  else some { dst, src, ethertype, payload := frame.drop 14 }

structure Ipv4Packet where
  bytes : List UInt8
  headerLen : Nat
  totalLen : Nat
  identification : UInt16
  flagsFragment : UInt16
  ttl : UInt8
  protocol : UInt8
  src : Ipv4Addr
  dst : Ipv4Addr
  payload : List UInt8

def Ipv4Packet.parse (bytes : List UInt8) : Option Ipv4Packet := do
  let versionIhl : UInt8 ← bytes[0]?
  if versionIhl >>> 4 ≠ 4 then none
  else
    let headerLen := (versionIhl &&& (0x0f : UInt8)).toNat * 4
    if headerLen < 20 ∨ bytes.length < headerLen then none
    else
      let totalLen := (← readU16Be bytes 2).toNat
      if totalLen < headerLen ∨ bytes.length < totalLen then none
      else
        some
          { bytes := bytes.take totalLen
            headerLen
            totalLen
            identification := ← readU16Be bytes 4
            flagsFragment := ← readU16Be bytes 6
            ttl := ← bytes[8]?
            protocol := ← bytes[9]?
            src := ← readArray 4 bytes 12
            dst := ← readArray 4 bytes 16
            payload := slice bytes headerLen (totalLen - headerLen) }

structure TcpSegment where
  srcPort : UInt16
  dstPort : UInt16
  seq : UInt32
  ack : UInt32
  flags : UInt8
  window : UInt16
  segment : List UInt8
  payload : List UInt8

def TcpSegment.parse (bytes : List UInt8) : Option TcpSegment :=
  if bytes.length < 20 then none
  else do
    let dataOffset := ((← bytes[12]?) >>> 4).toNat * 4
    if dataOffset < 20 ∨ bytes.length < dataOffset then none
    else
      some
        { srcPort := ← readU16Be bytes 0
          dstPort := ← readU16Be bytes 2
          seq := ← readU32Be bytes 4
          ack := ← readU32Be bytes 8
          flags := ← bytes[13]?
          window := ← readU16Be bytes 14
          segment := bytes
          payload := bytes.drop dataOffset }

structure UdpDatagram where
  srcPort : UInt16
  dstPort : UInt16
  length : UInt16
  segment : List UInt8
  payload : List UInt8

def UdpDatagram.parse (bytes : List UInt8) : Option UdpDatagram :=
  if bytes.length < 8 then none
  else do
    let length ← readU16Be bytes 4
    if length.toNat < 8 ∨ bytes.length < length.toNat then none
    else
      some
        { srcPort := ← readU16Be bytes 0
          dstPort := ← readU16Be bytes 2
          length
          segment := bytes.take length.toNat
          payload := slice bytes 8 (length.toNat - 8) }

/-- `dhcp_option`: the value of the first option with a code. -/
def dhcpOption (options : List UInt8) (code : UInt8) : Option (List UInt8) :=
  match options with
  | [] => none
  | 0 :: rest => dhcpOption rest code
  | option :: rest =>
    if option = dhcpOptEnd then none
    else
      match rest with
      | [] => none
      | len :: rest =>
        if rest.length < len.toNat then none
        else if option = code then some (rest.take len.toNat)
        else dhcpOption (rest.drop len.toNat) code
termination_by options.length
decreasing_by
  · exact Nat.lt_succ_self _
  · exact Nat.lt_succ_of_le (Nat.le_succ_of_le (List.length_drop ▸ Nat.sub_le ..))

structure DhcpRequest where
  htype : UInt8
  hlen : UInt8
  xid : Vector UInt8 4
  flags : UInt16
  ciaddr : Ipv4Addr
  chaddr : Vector UInt8 16
  messageType : UInt8

def DhcpRequest.parse (bytes : List UInt8) : Option DhcpRequest :=
  if bytes.length < 240 ∨ bytes[0]? ≠ some 1 ∨ slice bytes 236 4 ≠ dhcpMagicCookie.toList then none
  else do
    let messageType ← (dhcpOption (bytes.drop 240) dhcpOptMessageType).bind fun value => value[0]?
    some
      { htype := ← bytes[1]?
        hlen := ← bytes[2]?
        xid := ← readArray 4 bytes 4
        flags := ← readU16Be bytes 10
        ciaddr := ← readArray 4 bytes 12
        chaddr := ← readArray 16 bytes 28
        messageType }

/-- `icmp_reply_payload_offset`: past an IPv4 header, when the host's socket returns one. -/
def icmpReplyPayloadOffset (buf : List UInt8) : Option Nat := do
  let first : UInt8 ← buf[0]?
  if first >>> 4 ≠ 4 then
    if 8 ≤ buf.length then some 0 else none
  else
    let headerLen := (first &&& (0x0f : UInt8)).toNat * 4
    if headerLen < 20 ∨ buf.length < headerLen + 8 then none else some headerLen

/-! ## Builders -/

/-- An IPv4 header before its checksum. -/
def ipv4HeaderUnsealed (totalLen identification : UInt16) (protocol : UInt8) (src dst : Ipv4Addr) : List UInt8 :=
  [0x45, 0] ++ u16ToBeBytes totalLen ++ u16ToBeBytes identification ++ u16ToBeBytes 0 ++ [64, protocol] ++
    u16ToBeBytes 0 ++ src.toList ++ dst.toList

/-- The start all reply frames have: the Ethernet header and an IPv4 header with its checksum. -/
def replyFrameHead (dstMac srcMac : MacAddr) (totalLen identification : UInt16) (protocol : UInt8)
    (srcIp dstIp : Ipv4Addr) : List UInt8 :=
  let frame := dstMac.toList ++ srcMac.toList ++ u16ToBeBytes ethertypeIpv4 ++
    ipv4HeaderUnsealed totalLen identification protocol srcIp dstIp
  let ipv4HeaderStart := 14
  let checksum := ipv4HeaderChecksum (frame.drop ipv4HeaderStart)
  splice frame (ipv4HeaderStart + 10) (u16ToBeBytes checksum)

/-- `ipv4_payload_start`. -/
def ipv4PayloadStart : Nat := 14 + 20

/-- `build_icmp_echo_reply_frame`. -/
def buildIcmpEchoReplyFrame (dstMac srcMac : MacAddr) (srcIp dstIp : Ipv4Addr) (requestPayload : List UInt8)
    (identification : UInt16) : Option (List UInt8) :=
  if requestPayload.length < 8 then none
  else do
    let totalLen ← u16TryFrom (20 + requestPayload.length)
    let frame := replyFrameHead dstMac srcMac totalLen identification ipv4ProtocolIcmp srcIp dstIp
    let frame := frame ++ requestPayload
    let frame := splice frame ipv4PayloadStart [0]
    let frame := splice frame (ipv4PayloadStart + 2) [0, 0]
    let checksum := icmpChecksum (frame.drop ipv4PayloadStart)
    some (splice frame (ipv4PayloadStart + 2) (u16ToBeBytes checksum))

/-- `build_rewritten_icmp_echo_reply_frame`. -/
def buildRewrittenIcmpEchoReplyFrame (dstMac srcMac : MacAddr) (srcIp dstIp : Ipv4Addr) (reply : List UInt8)
    (guestIdentifier : UInt16) : Option (List UInt8) := do
  let offset ← icmpReplyPayloadOffset reply
  let icmp := reply.drop offset
  if icmp[0]? ≠ some 0 ∨ icmp[1]? ≠ some 0 then none
  else
    let totalLen ← u16TryFrom (20 + icmp.length)
    let frame := replyFrameHead dstMac srcMac totalLen 0 ipv4ProtocolIcmp srcIp dstIp
    let frame := frame ++ icmp
    let frame := splice frame (ipv4PayloadStart + 2) [0, 0]
    let frame := splice frame (ipv4PayloadStart + 4) (u16ToBeBytes guestIdentifier)
    let checksum := icmpChecksum (frame.drop ipv4PayloadStart)
    some (splice frame (ipv4PayloadStart + 2) (u16ToBeBytes checksum))

/-- A UDP checksum of zero is sent as all ones. -/
def udpChecksumField (checksum : UInt16) : UInt16 := if checksum = 0 then 0xffff else checksum

/-- `build_udp_reply_frame`. -/
def buildUdpReplyFrame (dstMac srcMac : MacAddr) (srcIp dstIp : Ipv4Addr) (srcPort dstPort : UInt16)
    (payload : List UInt8) : Option (List UInt8) := do
  let udpLen := 8 + payload.length
  let udpLenU16 ← u16TryFrom udpLen
  let totalLen ← u16TryFrom (20 + udpLen)
  let frame := replyFrameHead dstMac srcMac totalLen 0 ipv4ProtocolUdp srcIp dstIp
  let frame := frame ++ (u16ToBeBytes srcPort ++ u16ToBeBytes dstPort ++ u16ToBeBytes udpLenU16 ++ u16ToBeBytes 0 ++
    payload)
  let checksum := udpChecksumField (udpChecksum srcIp dstIp (frame.drop ipv4PayloadStart))
  some (splice frame (ipv4PayloadStart + 6) (u16ToBeBytes checksum))

/-- `push_dhcp_option`, which panics on a value of more than 255 bytes. -/
def pushDhcpOption (msg : List UInt8) (code : UInt8) (value : List UInt8) : Option (List UInt8) :=
  if value.length < 256 then some (msg ++ ([code, UInt8.ofNat value.length] ++ value)) else none

/-- The message of `build_dhcp_reply_frame`, from `dhcp_start` to the end of its options. -/
def pushDhcpReply (frame : List UInt8) (request : DhcpRequest) (messageType : UInt8) : Option (List UInt8) := do
  let dhcpStart := frame.length
  let frame := frame ++ List.replicate dhcpReplyFixedLen 0
  let frame := splice frame dhcpStart [2]
  let frame := splice frame (dhcpStart + 1) [request.htype]
  let frame := splice frame (dhcpStart + 2) [request.hlen]
  let frame := splice frame (dhcpStart + 4) request.xid.toList
  let frame := splice frame (dhcpStart + 10) (u16ToBeBytes request.flags)
  let frame := splice frame (dhcpStart + 16) guestIp.toList
  let frame := splice frame (dhcpStart + 20) dhcpServerIp.toList
  let frame := splice frame (dhcpStart + 28) request.chaddr.toList
  let frame := splice frame (dhcpStart + 236) dhcpMagicCookie.toList
  let frame ← pushDhcpOption frame dhcpOptMessageType [messageType]
  let frame ← pushDhcpOption frame dhcpOptServerId dhcpServerIp.toList
  let frame ← pushDhcpOption frame dhcpOptLeaseTime (u32ToBeBytes dhcpLeaseSeconds)
  let frame ← pushDhcpOption frame dhcpOptSubnetMask subnetMask.toList
  let frame ← pushDhcpOption frame dhcpOptRouter gatewayIp.toList
  let frame ← pushDhcpOption frame dhcpOptDns dnsIp.toList
  some (frame ++ [dhcpOptEnd])

/-- `build_dhcp_reply_frame`. -/
def buildDhcpReplyFrame (dstMac srcMac : MacAddr) (dstIp : Ipv4Addr) (request : DhcpRequest) (messageType : UInt8)
    (identification : UInt16) : Option (List UInt8) := do
  let udpLen := 8 + dhcpReplyPayloadLen
  let udpLenU16 ← u16TryFrom udpLen
  let ipv4Len := 20 + udpLen
  let totalLen ← u16TryFrom ipv4Len
  let frame := replyFrameHead dstMac srcMac totalLen identification ipv4ProtocolUdp dhcpServerIp dstIp
  let frame := frame ++ (u16ToBeBytes dhcpServerPort ++ u16ToBeBytes dhcpClientPort ++ u16ToBeBytes udpLenU16 ++
    u16ToBeBytes 0)
  let frame ← pushDhcpReply frame request messageType
  -- the assertion that the options fill the length of the IPv4 header
  if frame.length ≠ 14 + ipv4Len then none
  else
    let checksum := udpChecksumField (udpChecksum dhcpServerIp dstIp (frame.drop ipv4PayloadStart))
    some (splice frame (ipv4PayloadStart + 6) (u16ToBeBytes checksum))

/-- `build_tcp_reply_frame`. -/
def buildTcpReplyFrame (source destination : EthernetIpv4Endpoint) (seq ack : UInt32) (flags : UInt8)
    (window : UInt16) (options payload : List UInt8) : Option (List UInt8) := do
  let headerLen := 20 + options.length
  let tcpLen := headerLen + payload.length
  let totalLen ← u16TryFrom (20 + tcpLen)
  let frame := replyFrameHead destination.mac source.mac totalLen 0 ipv4ProtocolTcp source.network.address
    destination.network.address
  let frame := frame ++ (u16ToBeBytes source.network.port ++ u16ToBeBytes destination.network.port ++
    u32ToBeBytes seq ++ u32ToBeBytes ack ++ [UInt8.ofNat (headerLen / 4) <<< 4, flags] ++ u16ToBeBytes window ++
    u16ToBeBytes 0 ++ u16ToBeBytes 0 ++ options ++ payload)
  let checksum := tcpChecksum source.network.address destination.network.address (frame.drop ipv4PayloadStart)
  some (splice frame (ipv4PayloadStart + 16) (u16ToBeBytes checksum))

/-- `build_udp_datagram`. -/
def buildUdpDatagram (srcIp dstIp : Ipv4Addr) (srcPort dstPort : UInt16) (payload : List UInt8) :
    Option (List UInt8) := do
  let length ← u16TryFrom (8 + payload.length)
  let segment := u16ToBeBytes srcPort ++ u16ToBeBytes dstPort ++ u16ToBeBytes length ++ u16ToBeBytes 0 ++ payload
  let checksum := udpChecksumField (udpChecksum srcIp dstIp segment)
  some (splice segment 6 (u16ToBeBytes checksum))

/-- `build_tcp_segment`. -/
def buildTcpSegment (source destination : Ipv4Endpoint) (seq ack : UInt32) (flags : UInt8) (payload : List UInt8) :
    List UInt8 :=
  let segment := u16ToBeBytes source.port ++ u16ToBeBytes destination.port ++ u32ToBeBytes seq ++ u32ToBeBytes ack ++
    [(5 : UInt8) <<< 4, flags] ++ u16ToBeBytes 65535 ++ u16ToBeBytes 0 ++ u16ToBeBytes 0 ++ payload
  let checksum := tcpChecksum source.address destination.address segment
  splice segment 16 (u16ToBeBytes checksum)

end BridgeVm.NetNat.Wire
