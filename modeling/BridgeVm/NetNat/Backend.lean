import BridgeVm.NetNat.FrameLengths
import BridgeVm.NetNat.LruFlows

/-!
# The NAT backend (`net_nat/macaddr.rs`, `handle_outbound_ipv4.rs`, `port_forward.rs`, `reply_queue.rs`)

A guest frame is answered by the gateway or goes to the flows of the host sockets (`transmit`); a sweep of the host
sockets turns what they have into frames (`pollHostSockets`); the guest takes frames from the reply queue one by one
(`pollReceive`). What the host sockets do is the input of an event.
-/

namespace BridgeVm.NetNat

open Lib Wire

/-- An Ethernet frame. -/
abbrev Frame := List UInt8

def ipv4FragmentMask : UInt16 := 0x3fff

def dhcpDiscover : UInt8 := 1

def dhcpOffer : UInt8 := 2

def dhcpRequest : UInt8 := 3

def dhcpAck : UInt8 := 5

def dhcpFlagBroadcast : UInt16 := 0x8000

def hostSocketUdpRecvScratchLen : Nat := 2048

def hostSocketIcmpRecvScratchLen : Nat := 2048

def maxIcmpRecvPerPoll : Nat := 64

/-- Frames that wait for the guest while the host sockets can. -/
def replyBacklogSkipsSweep : Nat := 256

/-- `reply_queue_full`. -/
def replyQueueFull (queue : List Frame) : Bool := maxPendingReplyFrames ≤ queue.length

/-! ## Flows -/

inductive SocketAddr
  | v4 (ip : Ipv4Addr) (port : UInt16)
  | v6 (ip : Vector UInt8 16) (port : UInt16) (flowinfo scopeId : UInt32)
deriving DecidableEq

structure UdpFlowKey where
  guestIp : Ipv4Addr
  guestPort : UInt16
  publicDst : Ipv4Addr
  publicDstPort : UInt16
  /-- The host socket's peer; for 10.0.2.3:53 the resolver at flow creation. -/
  socketDst : SocketAddr
deriving DecidableEq

structure UdpFlow where
  lastActivity : Nat
  /-- The host socket may have data. -/
  readable : Bool
  watched : Bool
deriving DecidableEq

structure IcmpFlowKey where
  guestIdentifier : UInt16
  dstIp : Ipv4Addr
deriving DecidableEq

structure IcmpFlow where
  guestIp : Ipv4Addr
  lastActivity : Nat
deriving DecidableEq

instance : HasLastActivity UdpFlow := ⟨UdpFlow.lastActivity⟩

instance : HasLastActivity IcmpFlow := ⟨IcmpFlow.lastActivity⟩

/-- A connection that was refused at once: the guest is told at the next sweep. -/
structure PendingTcpReset where
  key : TcpFlowKey
  seq : UInt32
  ack : UInt32
deriving DecidableEq

structure ForwardListener where
  guestPort : UInt16
  readable : Bool
  watched : Bool
deriving DecidableEq

structure HostSocketOutboundIpv4Handler where
  udpFlows : AssocMap UdpFlowKey UdpFlow
  tcp : TcpTable
  icmpFlows : AssocMap IcmpFlowKey IcmpFlow
  pendingTcpResets : List PendingTcpReset
  maxIcmpFlows : Nat
  forwards : List ForwardListener
  forwardSourceCursor : UInt16
deriving DecidableEq

/-! ## The host -/

/-- What a host socket does at one receive. -/
inductive HostRecv
  | datagram (bytes : List UInt8)
  | wouldBlock
  | err

/-- What the host does while a guest packet is handled: the clock, the resolver, whether a UDP socket is made (and
watched), whether an ICMP socket is made and takes the message, and what a TCP connection meets. -/
structure HostCalls where
  now : Nat
  dnsServer : SocketAddr
  udpSocket : Option Bool
  icmpSocket : Bool
  icmpSent : Bool
  connected : TcpTable.Connected
  writes : List HostTurn

/-- A connection a listener accepted: whether it could be made nonblocking, and whether the wake thread watches it. -/
structure AcceptedConnection where
  stream : TcpStream
  nonblocking : Bool
  watched : Bool

/-- What a listener does at one accept. -/
inductive HostAccept
  | connection (c : AcceptedConnection)
  | wouldBlock
  | err

/-- What a sweep meets: the clock, the sockets the wake thread saw, and what each socket does; a socket that has nothing
more to say would block. -/
structure Sweep where
  now : Nat
  udpReady : UdpFlowKey → Bool
  tcpReady : TcpFlowKey → Bool
  forwardReady : Nat → Bool
  udp : UdpFlowKey → List HostRecv
  forwardWatched : Nat → Bool
  accepts : Nat → List HostAccept
  tcp : TcpFlowKey → PollEnv
  icmp : IcmpFlowKey → List HostRecv

/-! ## Reply frames -/

/-- The frame of `queue_udp_reply`. -/
def udpReplyFrame (guestMac : MacAddr) (key : UdpFlowKey) (payload : List UInt8) : Option Frame :=
  buildUdpReplyFrame guestMac gatewayMac key.publicDst key.guestIp key.publicDstPort key.guestPort payload

/-- `tcp_reply_endpoints`. -/
def tcpReplyEndpoints (guestMac : MacAddr) (key : TcpFlowKey) : EthernetIpv4Endpoint × EthernetIpv4Endpoint :=
  (⟨gatewayMac, key.dstIp, key.dstPort⟩, ⟨guestMac, key.guestIp, key.guestPort⟩)

/-- The frame of a segment to the guest (`queue_tcp_segment`, `queue_syn`, `queue_syn_ack`). -/
def tcpReplyFrame (guestMac : MacAddr) (key : TcpFlowKey) (r : TcpReply) : Option Frame :=
  let (source, destination) := tcpReplyEndpoints guestMac key
  buildTcpReplyFrame source destination r.seq r.ack r.flags r.window r.options r.payload

/-- The frame of a message an ICMP socket received. -/
def icmpReplyFrame (guestMac : MacAddr) (key : IcmpFlowKey) (flow : IcmpFlow) (recv : List UInt8) : Option Frame :=
  buildRewrittenIcmpEchoReplyFrame guestMac gatewayMac key.dstIp flow.guestIp recv key.guestIdentifier

/-! ## Eviction -/

/-- The entries of a map in their order; another order is a rehash. -/
def inOrder {κ ν : Type} : Iteration κ ν := ⟨AssocMap.entries, fun _ => .refl _⟩

/-- The timed sweep of `evict_idle_flows` is due. -/
def TcpTable.sweepDue (t : TcpTable) (now : Nat) : Bool :=
  t.idleTimeoutMs = 0 ∨ min (max t.idleTimeoutMs 1) maxIdleSweepIntervalMs ≤ now - t.lastIdleSweepMs

namespace HostSocketOutboundIpv4Handler

/-- `evict_idle_flows`. -/
def evictIdleFlows (h : HostSocketOutboundIpv4Handler) (now : Nat) : HostSocketOutboundIpv4Handler :=
  let due := h.tcp.sweepDue now
  let timeout := h.tcp.idleTimeoutMs
  let udpFlows := if due then h.udpFlows.retain fun kf => now - kf.2.lastActivity ≤ timeout else h.udpFlows
  let icmpFlows := if due then h.icmpFlows.retain fun kf => now - kf.2.lastActivity ≤ timeout else h.icmpFlows
  { h with
    udpFlows := evictLru inOrder h.tcp.maxFlows udpFlows.entries.length udpFlows
    tcp := h.tcp.evictIdleFlows now
    icmpFlows := evictLru inOrder h.maxIcmpFlows icmpFlows.entries.length icmpFlows }

/-- A handler as it starts, with its forwards to the guest. -/
def new (guestPorts : List UInt16) : HostSocketOutboundIpv4Handler where
  udpFlows := .empty
  tcp := ⟨.empty, 0x42560000, 300000, 256, 0⟩
  icmpFlows := .empty
  pendingTcpResets := []
  maxIcmpFlows := 32
  forwards := guestPorts.map fun port => ⟨port, true, false⟩
  forwardSourceCursor := 0

/-! ## Guest packets -/

/-- `handle_udp`. -/
def handleUdp (h : HostSocketOutboundIpv4Handler) (packet : Ipv4Packet) (udp : UdpDatagram) (host : HostCalls) :
    HostSocketOutboundIpv4Handler :=
  let socketDst := if packet.dst = dnsIp ∧ udp.dstPort = 53 then host.dnsServer else .v4 packet.dst udp.dstPort
  let key : UdpFlowKey := ⟨packet.src, udp.srcPort, packet.dst, udp.dstPort, socketDst⟩
  match h.udpFlows.get key with
  | some _ =>
    { h with udpFlows := h.udpFlows.modify key fun f => { f with lastActivity := host.now } }.evictIdleFlows host.now
  | none =>
    match host.udpSocket with
    | none => h
    | some watched => { h with udpFlows := h.udpFlows.insert key ⟨host.now, true, watched⟩ }.evictIdleFlows host.now

/-- The guest's SYN opens a flow, or its connection is refused at once. -/
def openFromSyn (h : HostSocketOutboundIpv4Handler) (key : TcpFlowKey) (tcp : TcpSegment) (host : HostCalls)
    (ourSeq : UInt32) : HostSocketOutboundIpv4Handler :=
  match host.connected.stream with
  | none =>
    let resets :=
      if h.pendingTcpResets.length < maxPendingReplyFrames then h.pendingTcpResets ++ [⟨key, ourSeq, tcp.seq + 1⟩]
      else h.pendingTcpResets
    { h with tcp := { h.tcp with tcpIsnCounter := ourSeq }, pendingTcpResets := resets }
  | some stream =>
    let flow := TcpFlow.openFromSyn stream tcp ourSeq host.connected.watched host.now
    let tcp := { h.tcp with tcpIsnCounter := ourSeq, flows := h.tcp.flows.insert key flow }
    { h with tcp := tcp }.evictIdleFlows host.now

/-- `handle_tcp`. -/
def handleTcp (h : HostSocketOutboundIpv4Handler) (key : TcpFlowKey) (tcp : TcpSegment) (host : HostCalls) :
    HostSocketOutboundIpv4Handler :=
  if hasFlag tcp.flags tcpFlagRst then { h with tcp := { h.tcp with flows := h.tcp.flows.remove key } }
  else
    match h.tcp.flows.get key with
    | none =>
      if hasFlag tcp.flags tcpFlagSyn ∧ isNonLocalIpv4Destination key.dstIp then
        h.openFromSyn key tcp host h.tcp.nextTcpIsn
      else h
    | some f =>
      let flows := h.tcp.flows.modify key fun f => (f.handleTcp tcp host.now host.writes).flow
      let h' := { h with tcp := { h.tcp with flows := flows } }
      if f.state = .opening ∨ (!tcp.payload.isEmpty ∧ tcp.seq = f.guestNext ∧
          maxTcpWriteBacklog ≤ f.writeBuf.length) then h'
      else h'.evictIdleFlows host.now

/-- `handle_icmp`; an error leaves the flow that was made or found. -/
def handleIcmp (h : HostSocketOutboundIpv4Handler) (packet : Ipv4Packet) (host : HostCalls) :
    HostSocketOutboundIpv4Handler :=
  match readU16Be packet.payload 4 with
  | none => h
  | some guestIdentifier =>
    let key : IcmpFlowKey := ⟨guestIdentifier, packet.dst⟩
    let create := if host.icmpSocket then .ok ⟨packet.src, host.now⟩ else .error "socket"
    match getOrCreateIcmpFlow inOrder h.icmpFlows key h.maxIcmpFlows create with
    | (icmpFlows, .error _) => { h with icmpFlows := icmpFlows }
    | (icmpFlows, .ok _) =>
      let h' := { h with icmpFlows := icmpFlows.modify key fun _ => ⟨packet.src, host.now⟩ }
      if host.icmpSent then h'.evictIdleFlows host.now else h'

/-- `handle_outbound_ipv4`. -/
def handleOutboundIpv4 (h : HostSocketOutboundIpv4Handler) (packet : Ipv4Packet) (host : HostCalls) :
    HostSocketOutboundIpv4Handler :=
  if packet.protocol = ipv4ProtocolUdp then
    match UdpDatagram.parse packet.payload with
    | none => h
    | some udp => h.handleUdp packet udp host
  else if packet.protocol = ipv4ProtocolTcp then
    match Wire.TcpSegment.parse packet.payload with
    | none => h
    | some tcp =>
      -- the payload of a packet always fits (`parsed_tcp_fits`)
      if fits : tcp.payload.length < 2 ^ 16 then
        h.handleTcp ⟨packet.src, tcp.srcPort, packet.dst, tcp.dstPort⟩
          ⟨tcp.seq, tcp.ack, tcp.flags, tcp.window, tcp.segment, tcp.payload, fits⟩ host
      else h
  else if packet.protocol = ipv4ProtocolIcmp then h.handleIcmp packet host
  else h

theorem parsed_tcp_fits {bytes : List UInt8} {packet : Ipv4Packet} {tcp : Wire.TcpSegment}
    (hpacket : Ipv4Packet.parse bytes = some packet) (htcp : Wire.TcpSegment.parse packet.payload = some tcp) :
    tcp.payload.length < 2 ^ 16 :=
  (length_tcpPayload htcp).trans_lt (length_ipv4Payload hpacket).2

/-- `take_ready_sockets`. -/
def takeReadySockets (h : HostSocketOutboundIpv4Handler) (sweep : Sweep) : HostSocketOutboundIpv4Handler :=
  { h with
    tcp := h.tcp.takeReadySockets sweep.tcpReady
    udpFlows := h.udpFlows.mapValues fun key f => { f with readable := f.readable || sweep.udpReady key }
    forwards := h.forwards.mapIdx fun i f => { f with readable := f.readable || sweep.forwardReady i } }

/-- The source ports of forwarded connections: from `first`, so many. -/
def forwardSourcePorts : UInt16 × UInt16 := (40000, 9152)

/-- `free_forward_source_port`, for at most so many ports: the port, and the cursor behind it. -/
def freeForwardSourcePort (h : HostSocketOutboundIpv4Handler) (guestPort : UInt16) :
    Nat → UInt16 → Option UInt16 × UInt16
  | 0, cursor => (none, cursor)
  | n + 1, cursor =>
    let port := forwardSourcePorts.1 + cursor % forwardSourcePorts.2
    if (h.tcp.flows.get ⟨guestIp, guestPort, gatewayIp, port⟩).isNone then (some port, cursor + 1)
    else freeForwardSourcePort h guestPort n (cursor + 1)

end HostSocketOutboundIpv4Handler

/-! ## Sweeps -/

/-- A sweep under way: the handler, the reply queue, and the flows it opened for forwarded connections. -/
structure Sweeping where
  handler : HostSocketOutboundIpv4Handler
  queue : List Frame
  opened : List TcpFlowKey

/-- The receives of a UDP flow: what it becomes, and the datagrams, cut to the scratch buffer. -/
def UdpFlow.receive (now : Nat) : List HostRecv → UdpFlow → UdpFlow × List (List UInt8)
  | [], f => (if f.readable then { f with readable := !f.watched } else f, [])
  | turn :: turns, f =>
    if !f.readable then (f, [])
    else
      match turn with
      | .datagram bytes =>
        let (f', datagrams) := UdpFlow.receive now turns { f with lastActivity := now }
        (f', bytes.take hostSocketUdpRecvScratchLen :: datagrams)
      | .wouldBlock => ({ f with readable := !f.watched }, [])
      | .err => (f, [])

/-- The receives of an ICMP flow, at most so many. -/
def IcmpFlow.receive (now : Nat) : Nat → List HostRecv → IcmpFlow → IcmpFlow × List (List UInt8)
  | n + 1, .datagram bytes :: turns, f =>
    let (f', messages) := IcmpFlow.receive now n turns { f with lastActivity := now }
    (f', bytes.take hostSocketIcmpRecvScratchLen :: messages)
  | _, _, f => (f, [])

namespace Sweeping

/-- `poll_udp`: each datagram becomes a frame, whatever waits in the queue. -/
def pollUdp (s : Sweeping) (guestMac : MacAddr) (sweep : Sweep) : Sweeping :=
  let frames := s.handler.udpFlows.entries.flatMap fun kf =>
    (kf.2.receive sweep.now (sweep.udp kf.1)).2.filterMap (udpReplyFrame guestMac kf.1)
  let udpFlows := s.handler.udpFlows.mapValues fun key f => (f.receive sweep.now (sweep.udp key)).1
  { s with handler := { s.handler with udpFlows := udpFlows }, queue := s.queue ++ frames }

/-- `open_forwarded`. -/
def openForwarded (s : Sweeping) (guestMac : MacAddr) (now : Nat) (guestPort : UInt16) (c : AcceptedConnection) :
    Sweeping :=
  if !c.nonblocking then s
  else
    match s.handler.freeForwardSourcePort guestPort HostSocketOutboundIpv4Handler.forwardSourcePorts.2.toNat
      s.handler.forwardSourceCursor with
    | (none, cursor) => { s with handler := { s.handler with forwardSourceCursor := cursor } }
    | (some sourcePort, cursor) =>
      let key : TcpFlowKey := ⟨guestIp, guestPort, gatewayIp, sourcePort⟩
      let ourSeq := s.handler.tcp.nextTcpIsn
      let flow := TcpFlow.openForwarded c.stream ourSeq c.watched now
      let syn := (flow.queueSyn ⟨s.queue.length, []⟩).replies.filterMap (tcpReplyFrame guestMac key)
      let tcp := { s.handler.tcp with tcpIsnCounter := ourSeq, flows := s.handler.tcp.flows.insert key flow }
      { handler := { s.handler with tcp := tcp, forwardSourceCursor := cursor }.evictIdleFlows now
        queue := s.queue ++ syn
        opened := s.opened ++ [key] }

/-- The accepts of one listener; true when they ended because it would block. -/
def acceptAll (guestMac : MacAddr) (now : Nat) (guestPort : UInt16) : List HostAccept → Sweeping → Sweeping × Bool
  | [], s => (s, true)
  | .connection c :: turns, s => acceptAll guestMac now guestPort turns (s.openForwarded guestMac now guestPort c)
  | .wouldBlock :: _, s => (s, true)
  | .err :: _, s => (s, false)

/-- The turn of one listener in `accept_forwarded`. -/
def acceptForward (guestMac : MacAddr) (sweep : Sweep) (index : Nat) (forward : ForwardListener) (s : Sweeping) :
    ForwardListener × Sweeping :=
  if forward.watched && !forward.readable then (forward, s)
  else
    let forward := { forward with watched := forward.watched || sweep.forwardWatched index }
    match acceptAll guestMac sweep.now forward.guestPort (sweep.accepts index) s with
    | (s, true) => ({ forward with readable := !forward.watched }, s)
    | (s, false) => (forward, s)

/-- The listeners from an index on. -/
def acceptForwards (guestMac : MacAddr) (sweep : Sweep) :
    Nat → List ForwardListener → Sweeping → List ForwardListener × Sweeping
  | _, [], s => ([], s)
  | index, forward :: rest, s =>
    let (forward, s) := acceptForward guestMac sweep index forward s
    let (rest, s) := acceptForwards guestMac sweep (index + 1) rest s
    (forward :: rest, s)

/-- `accept_forwarded`. -/
def acceptForwarded (s : Sweeping) (guestMac : MacAddr) (sweep : Sweep) : Sweeping :=
  let (forwards, s) := acceptForwards guestMac sweep 0 s.handler.forwards s
  { s with handler := { s.handler with forwards := forwards } }

/-- The resets a sweep sends while the queue is not full, and those that wait on. -/
def sendResets (guestMac : MacAddr) : List PendingTcpReset → List Frame → List PendingTcpReset × List Frame
  | [], queue => ([], queue)
  | r :: resets, queue =>
    if replyQueueFull queue then (r :: resets, queue)
    else
      let reset := (ReplyQueue.queueTcpReply ⟨queue.length, []⟩ r.seq r.ack (tcpFlagRst ||| tcpFlagAck) []).replies
      sendResets guestMac resets (queue ++ reset.filterMap (tcpReplyFrame guestMac r.key))

/-- `poll_tcp`. -/
def pollTcp (s : Sweeping) (guestMac : MacAddr) (sweep : Sweep) : Sweeping :=
  let (resets, queue) := sendResets guestMac s.handler.pendingTcpResets s.queue
  let turns := s.handler.tcp.polled sweep.tcp sweep.now queue.length
  let frames := turns.entries.flatMap fun kt => kt.2.replies.filterMap (tcpReplyFrame guestMac kt.1)
  let tcp := s.handler.tcp.pollTcp sweep.tcp sweep.now queue.length
  { s with
    handler := { s.handler with tcp := tcp, pendingTcpResets := resets }
    queue := queue ++ frames }

/-- `poll_icmp`: each echo reply becomes a frame, whatever waits in the queue. -/
def pollIcmp (s : Sweeping) (guestMac : MacAddr) (sweep : Sweep) : Sweeping :=
  let frames := s.handler.icmpFlows.entries.flatMap fun kf =>
    (kf.2.receive sweep.now maxIcmpRecvPerPoll (sweep.icmp kf.1)).2.filterMap (icmpReplyFrame guestMac kf.1 kf.2)
  let icmpFlows := s.handler.icmpFlows.mapValues fun key f =>
    (f.receive sweep.now maxIcmpRecvPerPoll (sweep.icmp key)).1
  { s with handler := { s.handler with icmpFlows := icmpFlows }, queue := s.queue ++ frames }

/-- `poll_host_sockets` of the handler; nothing is read for a guest whose address is not known. -/
def pollHostSockets (s : Sweeping) (guestMac : Option MacAddr) (sweep : Sweep) : Sweeping :=
  let s := { s with handler := s.handler.takeReadySockets sweep }
  let s :=
    match guestMac with
    | none => s
    | some mac =>
      let s := s.pollUdp mac sweep
      let s := s.acceptForwarded mac sweep
      let s := s.pollTcp mac sweep
      s.pollIcmp mac sweep
  { s with handler := s.handler.evictIdleFlows sweep.now }

end Sweeping

/-! ## The backend -/

structure NatBackend where
  guestMac : Option MacAddr
  replyQueue : List Frame
  outboundIpv4 : HostSocketOutboundIpv4Handler
deriving DecidableEq

/-- `dhcp_reply_destination`. -/
def dhcpReplyDestination (request : DhcpRequest) : Ipv4Addr :=
  if request.ciaddr ≠ ipv4Unspecified then request.ciaddr
  else if request.flags &&& dhcpFlagBroadcast ≠ 0 then ipv4Broadcast
  else guestIp

inductive IcmpEchoRoute
  | gateway
  | external
  | other

/-- `classify_icmp_echo`. -/
def classifyIcmpEcho (dst : Ipv4Addr) (payload : List UInt8) : IcmpEchoRoute :=
  if payload.length < 8 ∨ payload[0]? ≠ some 8 ∨ payload[1]? ≠ some 0 then .other
  else if dst = gatewayIp then .gateway
  else if isNonLocalIpv4Destination dst then .external
  else .other

namespace NatBackend

/-- `with_outbound_handler`. -/
def new (guestPorts : List UInt16) : NatBackend := ⟨none, [], .new guestPorts⟩

/-- `queue_reply`. -/
def queueReply (nat : NatBackend) (frame : Frame) : NatBackend :=
  if replyQueueFull nat.replyQueue then nat else { nat with replyQueue := nat.replyQueue ++ [frame] }

/-- A reply that its builder may refuse. -/
def queueBuilt (nat : NatBackend) : Option Frame → NatBackend
  | none => nat
  | some frame => nat.queueReply frame

/-- `handle_arp`. -/
def handleArp (nat : NatBackend) (eth : EthernetFrame) : NatBackend :=
  match ArpPacket.parse eth.payload with
  | none => nat
  | some request =>
    if request.opcode ≠ arpOpcodeRequest ∨ (request.targetIp ≠ gatewayIp ∧ request.targetIp ≠ dnsIp) then nat
    else
      match nat.guestMac with
      | none => nat
      | some dstMac =>
        nat.queueReply (buildArpReplyFrame dstMac gatewayMac request.targetIp request.senderMac request.senderIp)

/-- `handle_dhcp`. -/
def handleDhcp (nat : NatBackend) (packet : Ipv4Packet) (udp : UdpDatagram) : NatBackend :=
  match DhcpRequest.parse udp.payload with
  | none => nat
  | some request =>
    let replyType :=
      if request.messageType = dhcpDiscover then some dhcpOffer
      else if request.messageType = dhcpRequest then some dhcpAck
      else none
    match replyType, nat.guestMac with
    | some replyType, some dstMac =>
      nat.queueBuilt (buildDhcpReplyFrame dstMac gatewayMac (dhcpReplyDestination request) request replyType
        packet.identification)
    | _, _ => nat

/-- Forward a packet to the host sockets. -/
def outbound (nat : NatBackend) (packet : Ipv4Packet) (host : HostCalls) : NatBackend :=
  { nat with outboundIpv4 := nat.outboundIpv4.handleOutboundIpv4 packet host }

/-- `handle_icmp`, and `queue_gateway_icmp_echo_reply`. -/
def handleIcmp (nat : NatBackend) (packet : Ipv4Packet) (host : HostCalls) : NatBackend :=
  match classifyIcmpEcho packet.dst packet.payload with
  | .gateway =>
    match nat.guestMac with
    | none => nat
    | some dstMac =>
      nat.queueBuilt (buildIcmpEchoReplyFrame dstMac gatewayMac gatewayIp packet.src packet.payload
        packet.identification)
  | .external => nat.outbound packet host
  | .other => nat

/-- `handle_ipv4`. -/
def handleIpv4 (nat : NatBackend) (eth : EthernetFrame) (host : HostCalls) : NatBackend :=
  match Ipv4Packet.parse eth.payload with
  | none => nat
  | some packet =>
    if packet.flagsFragment &&& ipv4FragmentMask ≠ 0 then nat
    else if packet.protocol = ipv4ProtocolUdp then
      match UdpDatagram.parse packet.payload with
      | none => nat
      | some udp =>
        if udp.srcPort = dhcpClientPort ∧ udp.dstPort = dhcpServerPort then nat.handleDhcp packet udp
        else if (packet.dst = dnsIp ∧ udp.dstPort = 53) ∨ isNonLocalIpv4Destination packet.dst then
          nat.outbound packet host
        else nat
    else if packet.protocol = ipv4ProtocolIcmp then nat.handleIcmp packet host
    else if packet.protocol = ipv4ProtocolTcp ∧
        (isNonLocalIpv4Destination packet.dst ∨ packet.dst = gatewayIp) then nat.outbound packet host
    else nat

/-- `transmit`: a frame from the guest, whose address the first one tells. -/
def transmit (nat : NatBackend) (frame : Frame) (host : HostCalls) : NatBackend :=
  match EthernetFrame.parse frame with
  | none => nat
  | some eth =>
    if ethernetPayloadMtu < eth.payload.length then nat
    else
      let nat := { nat with guestMac := some (nat.guestMac.getD eth.src) }
      if eth.ethertype = ethertypeArp then nat.handleArp eth
      else if eth.ethertype = ethertypeIpv4 then nat.handleIpv4 eth host
      else nat

/-- `poll_receive`. -/
def pollReceive (nat : NatBackend) : Option Frame × NatBackend :=
  (nat.replyQueue.head?, { nat with replyQueue := nat.replyQueue.tail })

/-- The sweep of `poll_host_sockets`, when the backlog does not skip it. -/
def sweep (nat : NatBackend) (sweep : Sweep) : Option Sweeping :=
  if replyBacklogSkipsSweep ≤ nat.replyQueue.length then none
  else some (Sweeping.pollHostSockets ⟨nat.outboundIpv4, nat.replyQueue, []⟩ nat.guestMac sweep)

/-- `poll_host_sockets`. -/
def pollHostSockets (nat : NatBackend) (sweep : Sweep) : NatBackend :=
  match nat.sweep sweep with
  | none => nat
  | some s => { nat with replyQueue := s.queue, outboundIpv4 := s.handler }

/-- The flows a sweep serves: those there are, and those it opens. -/
def flowsServed (nat : NatBackend) (s : Sweeping) : Nat :=
  nat.outboundIpv4.udpFlows.entries.length + nat.outboundIpv4.tcp.flows.entries.length +
    nat.outboundIpv4.icmpFlows.entries.length + s.opened.length

end NatBackend

/-! ## Runs -/

inductive NatEvent
  | transmit (frame : Frame) (host : HostCalls)
  | pollReceive
  | pollHostSockets (sweep : Sweep)

namespace NatBackend

def step (nat : NatBackend) : NatEvent → NatBackend
  | .transmit frame host => nat.transmit frame host
  | .pollReceive => nat.pollReceive.2
  | .pollHostSockets sweep => nat.pollHostSockets sweep

/-- The flows the last sweep served, after an event. -/
def lastServed (nat : NatBackend) (served : Nat) : NatEvent → Nat
  | .pollHostSockets sweep => (nat.sweep sweep).elim served nat.flowsServed
  | _ => served

/-- The backends of the runs of allowed events, with the number of flows that the last sweep served; the maps of flows
may iterate in another order after each event. -/
inductive Reached (allowed : NatEvent → Prop) : NatBackend → Nat → Prop
  | new (guestPorts : List UInt16) : Reached allowed (.new guestPorts) 0
  | step {nat : NatBackend} {served : Nat} (e : NatEvent) : Reached allowed nat served → allowed e →
    Reached allowed (nat.step e) (nat.lastServed served e)
  | rehash {nat : NatBackend} {served : Nat} (udpFlows : AssocMap UdpFlowKey UdpFlow)
    (tcpFlows : AssocMap TcpFlowKey TcpFlow) (icmpFlows : AssocMap IcmpFlowKey IcmpFlow) :
    Reached allowed nat served → udpFlows.entries.Perm nat.outboundIpv4.udpFlows.entries →
    tcpFlows.entries.Perm nat.outboundIpv4.tcp.flows.entries →
    icmpFlows.entries.Perm nat.outboundIpv4.icmpFlows.entries →
    Reached allowed
      { nat with outboundIpv4 := { nat.outboundIpv4 with
          udpFlows := udpFlows
          tcp := { nat.outboundIpv4.tcp with flows := tcpFlows }
          icmpFlows := icmpFlows } } served

end NatBackend

end BridgeVm.NetNat
