import BridgeVm.NetNat.Backend
import BridgeVm.NetNat.UnackedBudget

/-!
# The table of TCP flows in the backend

The backend drives its table of TCP flows by the events of the table: a guest packet is at most one segment, a sweep
marks ready sockets, opens forwarded connections, polls and evicts. So a table of the backend is a reached table
(`reached_tcp`), and its unacknowledged bytes stay within their limit (`backend_unacked`).
-/

namespace BridgeVm.NetNat

open Lib Wire

namespace HostSocketOutboundIpv4Handler

variable {h : HostSocketOutboundIpv4Handler}

theorem evictIdleFlows_reached (hr : h.tcp.Reached) (now : Nat) : (h.evictIdleFlows now).tcp.Reached :=
  TcpTable.Reached.step (.evict now) hr

theorem handleTcp_tcp (h : HostSocketOutboundIpv4Handler) (key : TcpFlowKey) (tcp : TcpSegment) (host : HostCalls) :
    (h.handleTcp key tcp host).tcp = h.tcp.handleTcp key tcp host.now host.writes host.connected := by
  unfold handleTcp TcpTable.handleTcp
  split
  · rfl
  · cases h.tcp.flows.get key with
    | none =>
      dsimp only
      split
      · unfold openFromSyn TcpTable.openFromSyn
        cases host.connected.stream with
        | none => rfl
        | some stream => rfl
      · rfl
    | some f =>
      dsimp only
      split
      · rfl
      · rfl

theorem handleUdp_reached (hr : h.tcp.Reached) (packet : Ipv4Packet) (udp : UdpDatagram) (host : HostCalls) :
    (h.handleUdp packet udp host).tcp.Reached := by
  unfold handleUdp
  dsimp only
  split
  · exact evictIdleFlows_reached (h := { h with udpFlows := _ }) hr host.now
  · split
    · exact hr
    · exact evictIdleFlows_reached (h := { h with udpFlows := _ }) hr host.now

theorem handleIcmp_reached (hr : h.tcp.Reached) (packet : Ipv4Packet) (host : HostCalls) :
    (h.handleIcmp packet host).tcp.Reached := by
  unfold handleIcmp
  split
  · exact hr
  · dsimp only
    split
    · exact hr
    · split
      · exact evictIdleFlows_reached (h := { h with icmpFlows := _ }) hr host.now
      · exact hr

theorem handleOutboundIpv4_reached (hr : h.tcp.Reached) (packet : Ipv4Packet) (host : HostCalls) :
    (h.handleOutboundIpv4 packet host).tcp.Reached := by
  unfold handleOutboundIpv4
  split
  · split
    · exact hr
    · exact handleUdp_reached hr packet _ host
  split
  · split
    · exact hr
    · split
      · rw [handleTcp_tcp]
        exact TcpTable.Reached.step (.segment _ _ host.now host.writes host.connected) hr
      · exact hr
  split
  · exact handleIcmp_reached hr packet host
  · exact hr

theorem freeForwardSourcePort_free {guestPort sourcePort cursor cursor' : UInt16} {n : Nat}
    (h' : h.freeForwardSourcePort guestPort n cursor = (some sourcePort, cursor')) :
    h.tcp.flows.get ⟨guestIp, guestPort, gatewayIp, sourcePort⟩ = none := by
  induction n generalizing cursor with
  | zero => cases h'
  | succ n ih =>
    unfold freeForwardSourcePort at h'
    dsimp only at h'
    split at h'
    · rename_i hfree
      obtain ⟨rfl, -⟩ := Prod.mk.inj (Option.some.inj (congrArg (fun r => r.1.map fun port => (port, r.2)) h'))
      exact Option.isNone_iff_eq_none.mp hfree
    · exact ih h'

end HostSocketOutboundIpv4Handler

namespace Sweeping

variable {s : Sweeping} {guestMac : MacAddr}

open HostSocketOutboundIpv4Handler in
theorem openForwarded_reached (hr : s.handler.tcp.Reached) (now : Nat) (guestPort : UInt16) (c : AcceptedConnection) :
    (s.openForwarded guestMac now guestPort c).handler.tcp.Reached := by
  unfold openForwarded
  split
  · exact hr
  · split
    · exact hr
    · rename_i sourcePort cursor hport
      have hfree := freeForwardSourcePort_free hport
      have htable : (s.handler.tcp.openForwarded
        ⟨guestIp, guestPort, gatewayIp, sourcePort⟩ c.stream c.watched now).Reached :=
        TcpTable.Reached.step (.forwarded _ c.stream c.watched now) hr
      unfold TcpTable.openForwarded at htable
      rw [hfree, if_neg (by decide)] at htable
      exact htable

theorem acceptAll_reached (hr : s.handler.tcp.Reached) (now : Nat) (guestPort : UInt16) (turns : List HostAccept) :
    (acceptAll guestMac now guestPort turns s).1.handler.tcp.Reached := by
  induction turns generalizing s with
  | nil => exact hr
  | cons turn turns ih =>
    cases turn with
    | connection c => exact ih (openForwarded_reached hr now guestPort c)
    | wouldBlock => exact hr
    | err => exact hr

theorem acceptForward_reached (hr : s.handler.tcp.Reached) (sweep : Sweep) (index : Nat) (forward : ForwardListener) :
    (acceptForward guestMac sweep index forward s).2.handler.tcp.Reached := by
  unfold acceptForward
  split
  · exact hr
  · have hall : (acceptAll guestMac sweep.now forward.guestPort (sweep.accepts index) s).1.handler.tcp.Reached :=
      acceptAll_reached hr sweep.now forward.guestPort (sweep.accepts index)
    dsimp only
    split
    · rename_i heq
      rw [heq] at hall
      exact hall
    · rename_i heq
      rw [heq] at hall
      exact hall

theorem acceptForwards_reached (hr : s.handler.tcp.Reached) (sweep : Sweep) (index : Nat)
    (forwards : List ForwardListener) : (acceptForwards guestMac sweep index forwards s).2.handler.tcp.Reached := by
  induction forwards generalizing index s with
  | nil => exact hr
  | cons forward forwards ih => exact ih (acceptForward_reached hr sweep index forward) (index + 1)

theorem pollHostSockets_reached (hr : s.handler.tcp.Reached) (mac : Option MacAddr) (sweep : Sweep) :
    (s.pollHostSockets mac sweep).handler.tcp.Reached := by
  have hready : (s.handler.takeReadySockets sweep).tcp.Reached := TcpTable.Reached.step (.ready sweep.tcpReady) hr
  refine HostSocketOutboundIpv4Handler.evictIdleFlows_reached ?_ sweep.now
  dsimp only
  cases mac with
  | none => exact hready
  | some mac =>
    have hudp : (pollUdp { s with handler := s.handler.takeReadySockets sweep } mac sweep).handler.tcp.Reached := hready
    have haccept : ((pollUdp { s with handler := s.handler.takeReadySockets sweep } mac sweep).acceptForwarded mac
        sweep).handler.tcp.Reached := acceptForwards_reached hudp sweep 0 _
    dsimp only
    generalize (pollUdp { s with handler := s.handler.takeReadySockets sweep } mac sweep).acceptForwarded mac sweep = s'
      at haccept ⊢
    exact TcpTable.Reached.step (.poll sweep.tcp sweep.now _) haccept

end Sweeping

namespace NatBackend

variable {nat : NatBackend}

theorem queueBuilt_outbound (nat : NatBackend) (built : Option Frame) :
    (nat.queueBuilt built).outboundIpv4 = nat.outboundIpv4 := by
  cases built with
  | none => rfl
  | some frame =>
    unfold queueBuilt queueReply
    dsimp only
    split <;> rfl

theorem handleArp_outbound (nat : NatBackend) (eth : EthernetFrame) :
    (nat.handleArp eth).outboundIpv4 = nat.outboundIpv4 := by
  unfold handleArp
  split
  · rfl
  · split
    · rfl
    · split
      · rfl
      · exact queueBuilt_outbound nat (some _)

theorem handleDhcp_outbound (nat : NatBackend) (packet : Ipv4Packet) (udp : UdpDatagram) :
    (nat.handleDhcp packet udp).outboundIpv4 = nat.outboundIpv4 := by
  unfold handleDhcp
  split
  · rfl
  · dsimp only
    split
    · exact queueBuilt_outbound nat _
    · rfl

theorem handleIcmp_tcp (hr : nat.outboundIpv4.tcp.Reached) (packet : Ipv4Packet) (host : HostCalls) :
    (nat.handleIcmp packet host).outboundIpv4.tcp.Reached := by
  unfold handleIcmp
  split
  · split
    · exact hr
    · rw [queueBuilt_outbound]
      exact hr
  · exact HostSocketOutboundIpv4Handler.handleOutboundIpv4_reached hr packet host
  · exact hr

theorem handleIpv4_tcp (hr : nat.outboundIpv4.tcp.Reached) (eth : EthernetFrame) (host : HostCalls) :
    (nat.handleIpv4 eth host).outboundIpv4.tcp.Reached := by
  have hout := fun packet => HostSocketOutboundIpv4Handler.handleOutboundIpv4_reached hr packet host
  unfold handleIpv4
  split
  · exact hr
  · rename_i packet _
    split
    · exact hr
    split
    · split
      · exact hr
      · split
        · rw [handleDhcp_outbound]
          exact hr
        · split
          · exact hout packet
          · exact hr
    split
    · exact handleIcmp_tcp hr packet host
    split
    · exact hout packet
    · exact hr

theorem transmit_tcp (hr : nat.outboundIpv4.tcp.Reached) (frame : Frame) (host : HostCalls) :
    (nat.transmit frame host).outboundIpv4.tcp.Reached := by
  unfold transmit
  split
  · exact hr
  · split
    · exact hr
    · dsimp only
      split
      · rw [handleArp_outbound]
        exact hr
      · split
        · refine handleIpv4_tcp ?_ _ host
          exact hr
        · exact hr

theorem reached_tcp {allowed : NatEvent → Prop} {served : Nat} (h : Reached allowed nat served) :
    nat.outboundIpv4.tcp.Reached := by
  induction h with
  | new guestPorts => exact TcpTable.Reached.new rfl
  | @step nat served e _ _ ih =>
    cases e with
    | transmit frame host => exact transmit_tcp ih frame host
    | pollReceive => exact ih
    | pollHostSockets sweep =>
      show (nat.pollHostSockets sweep).outboundIpv4.tcp.Reached
      unfold pollHostSockets NatBackend.sweep
      split
      · exact ih
      · rename_i s hrun
        split at hrun
        · cases hrun
        · obtain rfl := Option.some.inj hrun
          exact Sweeping.pollHostSockets_reached ih nat.guestMac sweep
  | rehash udpFlows tcpFlows icmpFlows _ _ hperm _ ih => exact TcpTable.Reached.rehash tcpFlows ih hperm

/-- **The flows of the backend are those of a run of the flow table, whatever the guest sends and the host does**, and
their unacknowledged bytes stay within the limit. -/
theorem backend_unacked {allowed : NatEvent → Prop} {served : Nat} (h : Reached allowed nat served) :
    nat.outboundIpv4.tcp.Reached ∧ nat.outboundIpv4.tcp.unackedBytes ≤ maxTcpUnackedBytes :=
  ⟨reached_tcp h, TcpTable.reached_unacked (reached_tcp h)⟩

/-- The guest's SYN from 10.0.2.15:5000 to 1.1.1.1:80. -/
def guestSyn : Frame :=
  [0x52, 0x55, 0x0a, 0x00, 0x02, 0x02, 0x52, 0x54, 0x00, 0x12, 0x34, 0x56, 0x08, 0x00,
    0x45, 0x00, 0x00, 0x28, 0x00, 0x01, 0x00, 0x00, 0x40, 0x06, 0x00, 0x00, 10, 0, 2, 15, 1, 1, 1, 1,
    0x13, 0x88, 0x00, 0x50, 0, 0, 0, 100, 0, 0, 0, 0, 0x50, 0x02, 0xff, 0xff, 0, 0, 0, 0]

/-- A host that connects at once and has three bytes for the guest. -/
def tcpHost : HostCalls := ⟨0, .v4 (.replicate 4 8) 53, none, false, false,
    ⟨some ⟨[1, 2, 3], 0, [], false⟩, false⟩, []⟩

/-- A sweep that finds data at every TCP socket. -/
def downloadSweep : Sweep where
  now := 0
  udpReady _ := false
  tcpReady _ := true
  forwardReady _ := false
  udp _ := []
  forwardWatched _ := false
  accepts _ := []
  tcp _ := downloadPoll
  icmp _ := []

/-- A backend whose guest opened a connection that was then swept. -/
def downloadNat : NatBackend :=
  ((NatBackend.new []).step (.transmit guestSyn tcpHost)).step (.pollHostSockets downloadSweep)

theorem backend_unacked_download : downloadNat.outboundIpv4.tcp.unackedBytes = 2 ∧
    downloadNat.outboundIpv4.tcp.Reached ∧ downloadNat.outboundIpv4.tcp.unackedBytes ≤ maxTcpUnackedBytes := by
  have hsyn : Reached (fun _ => True) _ _ := .step (.transmit guestSyn tcpHost) (.new []) trivial
  exact ⟨by decide +kernel, backend_unacked (hsyn.step (.pollHostSockets downloadSweep) trivial)⟩

end NatBackend

end BridgeVm.NetNat
