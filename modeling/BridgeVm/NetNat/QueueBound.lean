import BridgeVm.NetNat.Backend
import BridgeVm.NetNat.PollReplies
import BridgeVm.NetNat.UnackedBudget

/-!
# The bound of the reply queue (`net_nat/macaddr.rs`, `reply_queue.rs`)

Frames to the guest are to fit its MTU, and the reply queue to stay within `maxPendingReplyFrames` and a constant for
each flow. Guest requests, TCP segments and the SYNs of forwarded connections keep both. `poll_udp` reads until the
socket would block, and `poll_udp` and `poll_icmp` take what their scratch buffers hold, so both hold of runs whose
sweeps find few and small datagrams (`frames_fit_and_queue_bounded`), and of no others in general
(`host_datagrams_unbounded`).
-/

namespace BridgeVm.NetNat

open Lib Wire

/-! ## What the host may send -/

def HostRecv.isDatagram : HostRecv → Bool
  | .datagram _ => true
  | _ => false

/-- The echo reply in a received message, if it is one, has room behind an IPv4 header. -/
def EchoReplyFits (recv : List UInt8) : Prop :=
  ∀ offset, icmpReplyPayloadOffset recv = some offset → (recv.drop offset)[0]? = some 0 →
    (recv.drop offset)[1]? = some 0 → (recv.drop offset).length ≤ 1480

/-- A sweep that finds at most `k` datagrams at each UDP socket, and datagrams and echo replies that fit the MTU. -/
structure Sweep.Small (k : Nat) (sweep : Sweep) : Prop where
  udpCount : ∀ key, (sweep.udp key).countP HostRecv.isDatagram ≤ k
  udpFits : ∀ key bytes, .datagram bytes ∈ sweep.udp key → bytes.length ≤ 1472
  icmpFits : ∀ key bytes, .datagram bytes ∈ sweep.icmp key →
    EchoReplyFits (bytes.take hostSocketIcmpRecvScratchLen)

def NatEvent.Small (k : Nat) : NatEvent → Prop
  | .pollHostSockets sweep => sweep.Small k
  | _ => True

/-! ## Frames that fit -/

section Fits

variable {guestMac : MacAddr} {frame : Frame}

theorem udpReplyFrame_fits_iff {key : UdpFlowKey} {payload : List UInt8}
    (h : udpReplyFrame guestMac key payload = some frame) : FitsMtu frame ↔ payload.length ≤ 1472 := by
  rw [fitsMtu_iff, length_udpReplyFrame h]
  omega

theorem udpReplyFrame_built (guestMac : MacAddr) (key : UdpFlowKey) {payload : List UInt8}
    (h : payload.length ≤ hostSocketUdpRecvScratchLen) : (udpReplyFrame guestMac key payload).isSome := by
  have hscratch : hostSocketUdpRecvScratchLen = 2048 := rfl
  have hudp : 8 + payload.length < 65536 := by omega
  have htotal : 20 + (8 + payload.length) < 65536 := by omega
  simp [udpReplyFrame, buildUdpReplyFrame, u16TryFrom, hudp, htotal]

theorem icmpReplyFrame_fits {key : IcmpFlowKey} {flow : IcmpFlow} {recv : List UInt8} (hfits : EchoReplyFits recv)
    (h : icmpReplyFrame guestMac key flow recv = some frame) : FitsMtu frame := by
  obtain ⟨offset, hoffset, hecho, hlen⟩ := length_rewrittenEchoReplyFrame h
  have hle := hfits offset hoffset hecho.1 hecho.2
  rw [fitsMtu_iff, hlen]
  omega

theorem tcpReplyFrame_fits {key : TcpFlowKey} {r : TcpReply} (hr : r.FitsMss)
    (h : tcpReplyFrame guestMac key r = some frame) : FitsMtu frame := by
  have hlen := length_tcpReplyFrame h
  have hmss : tcpMss = 1460 := rfl
  rw [TcpReply.FitsMss] at hr
  rw [fitsMtu_iff, hlen]
  omega

theorem tcpReplyFrames_fit {key : TcpFlowKey} {replies : List TcpReply} (hreplies : ∀ r ∈ replies, r.FitsMss) :
    ∀ frame ∈ replies.filterMap (tcpReplyFrame guestMac key), FitsMtu frame := by
  intro frame hframe
  obtain ⟨r, hr, hbuilt⟩ := List.mem_filterMap.mp hframe
  exact tcpReplyFrame_fits (hreplies r hr) hbuilt

end Fits

/-! ## Receives -/

section Receive

variable {now : Nat}

theorem length_udpReceive (turns : List HostRecv) (f : UdpFlow) :
    (f.receive now turns).2.length ≤ turns.countP HostRecv.isDatagram := by
  induction turns generalizing f with
  | nil => exact Nat.le_refl _
  | cons turn turns ih =>
    unfold UdpFlow.receive
    split
    · exact Nat.zero_le _
    · cases turn with
      | datagram bytes =>
        have hrest := ih { f with lastActivity := now }
        rw [List.countP_cons_of_pos rfl]
        exact Nat.succ_le_succ hrest
      | wouldBlock => exact Nat.zero_le _
      | err => exact Nat.zero_le _

theorem mem_udpReceive {turns : List HostRecv} {f : UdpFlow} {payload : List UInt8}
    (h : payload ∈ (f.receive now turns).2) :
    ∃ bytes, .datagram bytes ∈ turns ∧ payload = bytes.take hostSocketUdpRecvScratchLen := by
  induction turns generalizing f with
  | nil => cases h
  | cons turn turns ih =>
    unfold UdpFlow.receive at h
    split at h
    · cases h
    · cases turn with
      | datagram bytes =>
        rcases List.mem_cons.mp h with rfl | h
        · exact ⟨bytes, List.mem_cons_self, rfl⟩
        · obtain ⟨bytes', hmem, heq⟩ := ih h
          exact ⟨bytes', List.mem_cons_of_mem _ hmem, heq⟩
      | wouldBlock => cases h
      | err => cases h

theorem length_icmpReceive (n : Nat) (turns : List HostRecv) (f : IcmpFlow) :
    (f.receive now n turns).2.length ≤ n := by
  induction n generalizing turns f with
  | zero => exact Nat.le_refl _
  | succ n ih =>
    rcases turns with _ | ⟨bytes | _ | _, turns⟩
    · exact Nat.zero_le _
    · exact Nat.succ_le_succ (ih turns _)
    · exact Nat.zero_le _
    · exact Nat.zero_le _

theorem mem_icmpReceive {n : Nat} {turns : List HostRecv} {f : IcmpFlow} {message : List UInt8}
    (h : message ∈ (f.receive now n turns).2) :
    ∃ bytes, .datagram bytes ∈ turns ∧ message = bytes.take hostSocketIcmpRecvScratchLen := by
  induction n generalizing turns f with
  | zero => cases h
  | succ n ih =>
    rcases turns with _ | ⟨bytes | _ | _, turns⟩
    · cases h
    · rcases List.mem_cons.mp h with rfl | h
      · exact ⟨bytes, List.mem_cons_self, rfl⟩
      · obtain ⟨bytes', hmem, heq⟩ := ih h
        exact ⟨bytes', List.mem_cons_of_mem _ hmem, heq⟩
    · cases h
    · cases h

end Receive

/-! ## The flows of the handler -/

namespace HostSocketOutboundIpv4Handler

theorem length_evictIdleFlows (h : HostSocketOutboundIpv4Handler) (now : Nat) :
    (h.evictIdleFlows now).tcp.flows.entries.length ≤ h.tcp.flows.entries.length ∧
      (h.evictIdleFlows now).icmpFlows.entries.length ≤ h.icmpFlows.entries.length := by
  refine ⟨List.Sublist.length_le ((TcpTable.evictLru_sublist _ _ _).trans ?_),
    List.Sublist.length_le ((evictLru_sublist _ _).trans ?_)⟩
  · split
    · exact List.filter_sublist
    · exact List.Sublist.refl _
  · split
    · exact List.filter_sublist
    · exact List.Sublist.refl _

end HostSocketOutboundIpv4Handler

theorem length_flatMap_le {α β : Type} {f : α → List β} {k : Nat} {xs : List α}
    (h : ∀ x ∈ xs, (f x).length ≤ k) :
    (xs.flatMap f).length ≤ k * xs.length := by
  rw [List.length_flatMap, Nat.mul_comm, ← List.length_map (f := fun x => (f x).length)]
  refine List.sum_le_card_nsmul _ k fun n hn => ?_
  obtain ⟨x, hx, rfl⟩ := List.mem_map.mp hn
  exact h x hx

theorem length_insert_le {κ ν : Type} [DecidableEq κ] (m : AssocMap κ ν) (key : κ) (value : ν) :
    (m.insert key value).entries.length ≤ m.entries.length + 1 := by
  show ((m.remove key).entries ++ [(key, value)]).length ≤ _
  rw [List.length_append, List.length_singleton]
  exact Nat.succ_le_succ List.filter_sublist.length_le

/-! ## The phases of a sweep -/

namespace Sweeping

variable (guestMac : MacAddr) {s s' s'' : Sweeping}

/-- Every frame in the queue fits the MTU. -/
def AllFit (queue : List Frame) : Prop := ∀ frame ∈ queue, FitsMtu frame

theorem AllFit.append {queue frames : List Frame} (hq : AllFit queue) (hf : AllFit frames) :
    AllFit (queue ++ frames) := fun frame h => (List.mem_append.mp h).elim (hq frame) (hf frame)

theorem pollUdp_queue (s : Sweeping) {sweep : Sweep} {k : Nat} (hsmall : sweep.Small k) (hfit : AllFit s.queue) :
    AllFit (s.pollUdp guestMac sweep).queue ∧
      (s.pollUdp guestMac sweep).queue.length ≤ s.queue.length + k * s.handler.udpFlows.entries.length := by
  refine ⟨hfit.append fun frame hframe => ?_, ?_⟩
  · obtain ⟨⟨key, f⟩, -, hframe⟩ := List.mem_flatMap.mp hframe
    obtain ⟨payload, hpayload, hbuilt⟩ := List.mem_filterMap.mp hframe
    obtain ⟨bytes, hbytes, rfl⟩ := mem_udpReceive hpayload
    refine (udpReplyFrame_fits_iff hbuilt).mpr ?_
    have hle := hsmall.udpFits key bytes hbytes
    rw [List.length_take]
    omega
  · rw [pollUdp]
    dsimp only
    rw [List.length_append]
    refine Nat.add_le_add_left (length_flatMap_le fun kf _ => ?_) _
    exact (List.length_filterMap_le _ _).trans ((length_udpReceive _ _).trans (hsmall.udpCount kf.1))

/-- Accepting forwarded connections: the queue grows by at most a SYN for each flow that was opened. -/
structure Accepts (s s' : Sweeping) : Prop where
  fits : AllFit s.queue → AllFit s'.queue
  queue : s'.queue.length + s.opened.length ≤ s.queue.length + s'.opened.length
  tcp : s'.handler.tcp.flows.entries.length + s.opened.length ≤
    s.handler.tcp.flows.entries.length + s'.opened.length
  icmp : s'.handler.icmpFlows.entries.length ≤ s.handler.icmpFlows.entries.length

theorem Accepts.refl (s : Sweeping) : Accepts s s := ⟨id, Nat.le_refl _, Nat.le_refl _, Nat.le_refl _⟩

theorem Accepts.trans (h : Accepts s s') (h' : Accepts s' s'') : Accepts s s'' := by
  obtain ⟨hfits, hqueue, htcp, hicmp⟩ := h
  obtain ⟨hfits', hqueue', htcp', hicmp'⟩ := h'
  exact ⟨hfits' ∘ hfits, by omega, by omega, by omega⟩

theorem openForwarded_accepts (s : Sweeping) (now : Nat) (guestPort : UInt16) (c : AcceptedConnection) :
    Accepts s (s.openForwarded guestMac now guestPort c) := by
  unfold openForwarded
  split
  · exact .refl s
  · split
    · exact ⟨id, Nat.le_refl _, Nat.le_refl _, Nat.le_refl _⟩
    · rename_i sourcePort cursor _
      dsimp only
      generalize s.handler.tcp.nextTcpIsn = ourSeq
      generalize hflow : TcpFlow.openForwarded c.stream ourSeq c.watched now = flow
      have hsyn : ∀ r ∈ (flow.queueSyn ⟨s.queue.length, []⟩).replies, r.FitsMss :=
        fits_push (fun r hr => absurd hr List.not_mem_nil) fitsMss_synOptions
      have hone : (flow.queueSyn ⟨s.queue.length, []⟩).replies.length ≤ 1 := length_push_le _ _
      have hcount := List.length_filterMap_le
        (tcpReplyFrame guestMac ⟨guestIp, guestPort, gatewayIp, sourcePort⟩)
          (flow.queueSyn ⟨s.queue.length, []⟩).replies
      refine ⟨fun hfit => hfit.append (tcpReplyFrames_fit hsyn), ?_, ?_, ?_⟩
      · dsimp only
        rw [List.length_append, List.length_append, List.length_singleton]
        omega
      · have hevict := (HostSocketOutboundIpv4Handler.length_evictIdleFlows
          { s.handler with
            tcp := { s.handler.tcp with
              tcpIsnCounter := ourSeq
              flows := s.handler.tcp.flows.insert ⟨guestIp, guestPort, gatewayIp, sourcePort⟩ flow }
            forwardSourceCursor := cursor } now).1
        have hinsert := length_insert_le s.handler.tcp.flows ⟨guestIp, guestPort, gatewayIp, sourcePort⟩ flow
        dsimp only at hevict ⊢
        rw [List.length_append, List.length_singleton]
        omega
      · exact (HostSocketOutboundIpv4Handler.length_evictIdleFlows _ now).2

theorem acceptAll_accepts (now : Nat) (guestPort : UInt16) (turns : List HostAccept) (s : Sweeping) :
    Accepts s (acceptAll guestMac now guestPort turns s).1 := by
  induction turns generalizing s with
  | nil => exact .refl s
  | cons turn turns ih =>
    cases turn with
    | connection c => exact (openForwarded_accepts guestMac s now guestPort c).trans (ih _)
    | wouldBlock => exact .refl s
    | err => exact .refl s

theorem acceptForward_accepts (sweep : Sweep) (index : Nat) (forward : ForwardListener) (s : Sweeping) :
    Accepts s (acceptForward guestMac sweep index forward s).2 := by
  unfold acceptForward
  split
  · exact .refl s
  · have hall := acceptAll_accepts guestMac sweep.now forward.guestPort (sweep.accepts index) s
    dsimp only
    split
    · rename_i heq
      rw [heq] at hall
      exact hall
    · rename_i heq
      rw [heq] at hall
      exact hall

theorem acceptForwards_accepts (sweep : Sweep) (forwards : List ForwardListener) (index : Nat) (s : Sweeping) :
    Accepts s (acceptForwards guestMac sweep index forwards s).2 := by
  induction forwards generalizing index s with
  | nil => exact .refl s
  | cons forward forwards ih => exact (acceptForward_accepts guestMac sweep index forward s).trans (ih _ _)

theorem acceptForwarded_accepts (s : Sweeping) (sweep : Sweep) : Accepts s (s.acceptForwarded guestMac sweep) := by
  obtain ⟨hfits, hqueue, htcp, hicmp⟩ :=
    acceptForwards_accepts guestMac sweep s.handler.forwards 0 s
  exact ⟨hfits, hqueue, htcp, hicmp⟩

/-- Resets are sent only while the queue has room. -/
theorem sendResets_queue (resets : List PendingTcpReset) (queue : List Frame) (hfit : AllFit queue) :
    AllFit (sendResets guestMac resets queue).2 ∧
      (sendResets guestMac resets queue).2.length ≤ max queue.length maxPendingReplyFrames := by
  induction resets generalizing queue with
  | nil => exact ⟨hfit, Nat.le_max_left _ _⟩
  | cons r resets ih =>
    unfold sendResets
    split
    · exact ⟨hfit, Nat.le_max_left _ _⟩
    · rename_i hroom
      dsimp only
      generalize hreset : (ReplyQueue.queueTcpReply ⟨queue.length, []⟩ r.seq r.ack (tcpFlagRst ||| tcpFlagAck)
        []).replies =
        reset
      have hfits : ∀ r ∈ reset, r.FitsMss := by
        rw [← hreset]
        exact fits_push (fun r hr => absurd hr List.not_mem_nil) (Nat.zero_le _)
      have hone : reset.length ≤ 1 := by
        rw [← hreset]
        exact length_push_le _ _
      have hcount := List.length_filterMap_le (tcpReplyFrame guestMac r.key) reset
      have hlt : queue.length < maxPendingReplyFrames := by simpa [replyQueueFull] using hroom
      obtain ⟨hall, hlen⟩ := ih _ (hfit.append (tcpReplyFrames_fit hfits))
      refine ⟨hall, hlen.trans ?_⟩
      rw [List.length_append]
      omega

/-- `poll_tcp` takes the queue at most five frames for each flow past its limit. -/
theorem pollTcp_queue (s : Sweeping) (sweep : Sweep) (hfit : AllFit s.queue) :
    AllFit (s.pollTcp guestMac sweep).queue ∧ (s.pollTcp guestMac sweep).queue.length ≤
      max s.queue.length maxPendingReplyFrames + 5 * s.handler.tcp.flows.entries.length := by
  obtain ⟨hresets, hlen⟩ := sendResets_queue guestMac s.handler.pendingTcpResets s.queue hfit
  unfold pollTcp
  generalize sendResets guestMac s.handler.pendingTcpResets s.queue = sent at hresets hlen ⊢
  obtain ⟨resets, queue⟩ := sent
  dsimp only at hresets hlen ⊢
  obtain ⟨hfits, hdepth⟩ := TcpTable.pollFlows_bounded sweep.tcp sweep.now s.handler.tcp.flows.entries
    (maxTcpUnackedBytes - s.handler.tcp.unackedBytes) queue.length
  refine ⟨hresets.append fun frame hframe => ?_, ?_⟩
  · obtain ⟨kt, hkt, hframe⟩ := List.mem_flatMap.mp hframe
    exact tcpReplyFrames_fit (hfits kt hkt) frame hframe
  · have hcount : ∀ turns : List (TcpFlowKey × Turn),
        (turns.flatMap fun kt => kt.2.replies.filterMap (tcpReplyFrame guestMac kt.1)).length ≤
          (turns.flatMap fun kt => kt.2.replies).length := by
      intro turns
      induction turns with
      | nil => exact Nat.le_refl _
      | cons kt turns ih =>
        rw [List.flatMap_cons, List.flatMap_cons, List.length_append, List.length_append]
        exact Nat.add_le_add (List.length_filterMap_le _ _) ih
    have hframes := hcount (s.handler.tcp.polled sweep.tcp sweep.now queue.length).entries
    rw [List.length_append]
    refine (Nat.add_le_add_left hframes _).trans (hdepth.trans ?_)
    omega

theorem pollIcmp_queue (s : Sweeping) {sweep : Sweep} {k : Nat} (hsmall : sweep.Small k) (hfit : AllFit s.queue) :
    AllFit (s.pollIcmp guestMac sweep).queue ∧
      (s.pollIcmp guestMac sweep).queue.length ≤ s.queue.length + 64 * s.handler.icmpFlows.entries.length := by
  refine ⟨hfit.append fun frame hframe => ?_, ?_⟩
  · obtain ⟨⟨key, f⟩, -, hframe⟩ := List.mem_flatMap.mp hframe
    obtain ⟨message, hmessage, hbuilt⟩ := List.mem_filterMap.mp hframe
    obtain ⟨bytes, hbytes, rfl⟩ := mem_icmpReceive hmessage
    exact icmpReplyFrame_fits (hsmall.icmpFits key bytes hbytes) hbuilt
  · rw [pollIcmp]
    dsimp only
    rw [List.length_append]
    refine Nat.add_le_add_left (length_flatMap_le fun kf _ => ?_) _
    exact (List.length_filterMap_le _ _).trans (length_icmpReceive _ _ _)

/-- A whole sweep, from a queue that does not skip it. -/
theorem pollHostSockets_queue (s : Sweeping) (mac : Option MacAddr) {sweep : Sweep} {k : Nat} (hsmall : sweep.Small k)
    (hfit : AllFit s.queue) (hshort : s.queue.length ≤ maxPendingReplyFrames) (hopened : s.opened = []) :
    AllFit (s.pollHostSockets mac sweep).queue ∧
    (s.pollHostSockets mac sweep).queue.length ≤ maxPendingReplyFrames +
      max k 64 * (s.handler.udpFlows.entries.length + s.handler.tcp.flows.entries.length +
        s.handler.icmpFlows.entries.length + (s.pollHostSockets mac sweep).opened.length) := by
  unfold pollHostSockets
  dsimp only
  cases mac with
  | none => exact ⟨hfit, hshort.trans (Nat.le_add_right _ _)⟩
  | some mac =>
    dsimp only
    have hready : (s.handler.takeReadySockets sweep).udpFlows.entries.length = s.handler.udpFlows.entries.length ∧
        (s.handler.takeReadySockets sweep).tcp.flows.entries.length = s.handler.tcp.flows.entries.length ∧
        (s.handler.takeReadySockets sweep).icmpFlows = s.handler.icmpFlows :=
      ⟨List.length_map _, List.length_map _, rfl⟩
    generalize s.handler.takeReadySockets sweep = handler at hready ⊢
    obtain ⟨hudp, htcp, hicmp⟩ := hready
    obtain ⟨hfit₁, hlen₁⟩ := pollUdp_queue mac { s with handler := handler } hsmall hfit
    have haccepts := acceptForwarded_accepts mac (pollUdp { s with handler := handler } mac sweep) sweep
    have hstart : (pollUdp { s with handler := handler } mac sweep).opened.length = 0 ∧
        (pollUdp { s with handler := handler } mac sweep).handler.tcp.flows.entries.length =
          s.handler.tcp.flows.entries.length ∧
        (pollUdp { s with handler := handler } mac sweep).handler.icmpFlows.entries.length =
          s.handler.icmpFlows.entries.length := ⟨congrArg List.length hopened, htcp, by rw [← hicmp]; rfl⟩
    generalize pollUdp { s with handler := handler } mac sweep = s₁ at hfit₁ hlen₁ haccepts hstart ⊢
    obtain ⟨hfits₂, hlen₂, htcp₂, hicmp₂⟩ := haccepts
    generalize s₁.acceptForwarded mac sweep = s₂ at hfits₂ hlen₂ htcp₂ hicmp₂ ⊢
    obtain ⟨hfit₃, hlen₃⟩ := pollTcp_queue mac s₂ sweep (hfits₂ hfit₁)
    have hkept : (s₂.pollTcp mac sweep).opened = s₂.opened ∧
        (s₂.pollTcp mac sweep).handler.icmpFlows = s₂.handler.icmpFlows := ⟨rfl, rfl⟩
    generalize s₂.pollTcp mac sweep = s₃ at hfit₃ hlen₃ hkept ⊢
    obtain ⟨hfit₄, hlen₄⟩ := pollIcmp_queue mac s₃ hsmall hfit₃
    refine ⟨hfit₄, hlen₄.trans ?_⟩
    have hopened₄ : (s₃.pollIcmp mac sweep).opened = s₂.opened := hkept.1
    rw [hopened₄, hkept.2]
    dsimp only at hlen₁
    rw [hudp] at hlen₁
    -- each phase's share, at the larger of the two rates
    have hk : k * s.handler.udpFlows.entries.length ≤ max k 64 * s.handler.udpFlows.entries.length :=
      Nat.mul_le_mul_right _ (Nat.le_max_left _ _)
    have ht : 64 * (s.handler.tcp.flows.entries.length + s.handler.icmpFlows.entries.length + s₂.opened.length) ≤
        max k 64 * (s.handler.tcp.flows.entries.length + s.handler.icmpFlows.entries.length + s₂.opened.length) :=
      Nat.mul_le_mul_right _ (Nat.le_max_right _ _)
    have hsum : max k 64 * (s.handler.udpFlows.entries.length + s.handler.tcp.flows.entries.length +
        s.handler.icmpFlows.entries.length + s₂.opened.length) =
        max k 64 * s.handler.udpFlows.entries.length +
          max k 64 * (s.handler.tcp.flows.entries.length + s.handler.icmpFlows.entries.length +
            s₂.opened.length) := by
      rw [← Nat.mul_add]
      congr 1
      omega
    rw [hsum]
    omega

end Sweeping

/-! ## Replies to guest requests -/

namespace NatBackend

/-- A guest frame is answered by at most one frame, which fits, and only while the queue has room. -/
def Answers (nat nat' : NatBackend) : Prop :=
  nat'.replyQueue = nat.replyQueue ∨ ∃ reply, FitsMtu reply ∧ nat.replyQueue.length < maxPendingReplyFrames ∧
    nat'.replyQueue = nat.replyQueue ++ [reply]

variable {nat : NatBackend}

theorem queueReply_answers (nat : NatBackend) {frame : Frame} (hfit : FitsMtu frame) :
    nat.Answers (nat.queueReply frame) := by
  unfold queueReply
  split
  · exact .inl rfl
  · rename_i hroom
    exact .inr ⟨frame, hfit, by simpa [replyQueueFull] using hroom, rfl⟩

theorem queueBuilt_answers (nat : NatBackend) {built : Option Frame}
    (hfit : ∀ frame, built = some frame → FitsMtu frame) :
    nat.Answers (nat.queueBuilt built) := by
  cases built with
  | none => exact .inl rfl
  | some frame => exact queueReply_answers nat (hfit frame rfl)

theorem handleArp_answers (nat : NatBackend) (eth : EthernetFrame) : nat.Answers (nat.handleArp eth) := by
  unfold handleArp
  split
  · exact .inl rfl
  · split
    · exact .inl rfl
    · split
      · exact .inl rfl
      · refine queueReply_answers nat ?_
        rw [fitsMtu_iff, length_arpReplyFrame]
        omega

theorem handleDhcp_answers (nat : NatBackend) (packet : Ipv4Packet) (udp : UdpDatagram) :
    nat.Answers (nat.handleDhcp packet udp) := by
  unfold handleDhcp
  split
  · exact .inl rfl
  · dsimp only
    split
    · refine queueBuilt_answers nat fun frame h => ?_
      rw [fitsMtu_iff, length_dhcpReplyFrame h]
      omega
    · exact .inl rfl

theorem handleIcmp_answers (nat : NatBackend) {packet : Ipv4Packet} (host : HostCalls)
    (hlen : packet.payload.length ≤ 1480) : nat.Answers (nat.handleIcmp packet host) := by
  unfold handleIcmp
  split
  · split
    · exact .inl rfl
    · refine queueBuilt_answers nat fun frame h => ?_
      rw [fitsMtu_iff, length_icmpEchoReplyFrame h]
      omega
  · exact .inl rfl
  · exact .inl rfl

theorem handleIpv4_answers (nat : NatBackend) {eth : EthernetFrame} (host : HostCalls)
    (hlen : eth.payload.length ≤ ethernetPayloadMtu) : nat.Answers (nat.handleIpv4 eth host) := by
  unfold handleIpv4
  cases hparse : Ipv4Packet.parse eth.payload with
  | none => exact .inl rfl
  | some packet =>
    have hpacket := (length_ipv4Payload hparse).1
    have hmtu : ethernetPayloadMtu = 1500 := rfl
    dsimp only
    split
    · exact .inl rfl
    split
    · split
      · exact .inl rfl
      · split
        · exact handleDhcp_answers nat packet _
        · split <;> exact .inl rfl
    split
    · exact handleIcmp_answers nat host (by omega)
    split <;> exact .inl rfl

theorem transmit_answers (nat : NatBackend) (frame : Frame) (host : HostCalls) :
    nat.Answers (nat.transmit frame host) := by
  unfold transmit
  split
  · exact .inl rfl
  · split
    · exact .inl rfl
    · rename_i hmtu
      dsimp only
      split
      · exact handleArp_answers { nat with guestMac := _ } _
      · split
        · exact handleIpv4_answers { nat with guestMac := _ } host (Nat.not_lt.mp hmtu)
        · exact .inl rfl

/-! ## Runs -/

/-- The reply queue of a backend whose last sweep served so many flows: at most `c` frames for each past the limit. -/
structure QueueBounded (c : Nat) (nat : NatBackend) (served : Nat) : Prop where
  fits : ∀ frame ∈ nat.replyQueue, FitsMtu frame
  length : nat.replyQueue.length ≤ maxPendingReplyFrames + c * served

theorem transmit_bounded {c served : Nat} (h : QueueBounded c nat served) (frame : Frame) (host : HostCalls) :
    QueueBounded c (nat.transmit frame host) served := by
  obtain ⟨hfits, hlen⟩ := h
  rcases transmit_answers nat frame host with hsame | ⟨reply, hfit, hroom, hqueue⟩
  · exact ⟨by rw [hsame]; exact hfits, by rw [hsame]; exact hlen⟩
  · refine ⟨fun frame' hframe => ?_, ?_⟩
    · rw [hqueue, List.mem_append, List.mem_singleton] at hframe
      rcases hframe with hframe | rfl
      · exact hfits frame' hframe
      · exact hfit
    · rw [hqueue, List.length_append, List.length_singleton]
      omega

theorem pollReceive_bounded {c served : Nat} (h : QueueBounded c nat served) :
    QueueBounded c nat.pollReceive.2 served where
  fits frame hframe := h.fits frame (List.mem_of_mem_tail hframe)
  length := by
    have hlen := h.length
    rw [pollReceive]
    dsimp only
    rw [List.length_tail]
    omega

theorem sweep_some {sweep : Sweep} {s : Sweeping} (h : nat.sweep sweep = some s) :
    nat.replyQueue.length < replyBacklogSkipsSweep ∧
      s = Sweeping.pollHostSockets ⟨nat.outboundIpv4, nat.replyQueue, []⟩ nat.guestMac sweep := by
  unfold NatBackend.sweep at h
  split at h
  · cases h
  · rename_i hshort
    exact ⟨Nat.not_le.mp hshort, (Option.some.inj h).symm⟩

theorem pollHostSockets_bounded {k served : Nat} (h : QueueBounded (max k 64) nat served) {sweep : Sweep}
    (hsmall : sweep.Small k) :
    QueueBounded (max k 64) (nat.pollHostSockets sweep) (nat.lastServed served (.pollHostSockets sweep)) := by
  unfold pollHostSockets lastServed
  dsimp only
  cases hrun : nat.sweep sweep with
  | none => exact h
  | some s =>
    obtain ⟨hshort, rfl⟩ := sweep_some hrun
    have hbound : replyBacklogSkipsSweep ≤ maxPendingReplyFrames := by decide
    obtain ⟨hfits, hlen⟩ := Sweeping.pollHostSockets_queue ⟨nat.outboundIpv4, nat.replyQueue,
      []⟩ nat.guestMac hsmall
      h.fits (by dsimp only; omega) rfl
    exact ⟨hfits, hlen⟩

/-- **The reply queue**: in every run whose sweeps find at most `k` datagrams at each UDP socket, and datagrams and echo
replies that fit the MTU, each queued frame fits the MTU, and the queue is within its limit and a constant for each flow
the last sweep served. -/
theorem frames_fit_and_queue_bounded (k : Nat) {served : Nat} (h : Reached (NatEvent.Small k) nat served) :
    QueueBounded (max k 64) nat served := by
  induction h with
  | new guestPorts => exact ⟨fun frame hframe => absurd hframe List.not_mem_nil, Nat.zero_le _⟩
  | step e _ hsmall ih =>
    cases e with
    | transmit frame host => exact transmit_bounded ih frame host
    | pollReceive => exact pollReceive_bounded ih
    | pollHostSockets sweep => exact pollHostSockets_bounded ih hsmall
  | rehash udpFlows tcpFlows icmpFlows _ _ _ _ ih => exact ⟨ih.fits, ih.length⟩

/-! ## One peer -/

/-- The guest's datagram from 10.0.2.15:5000 to 1.1.1.1:9. -/
def guestDatagram : Frame :=
  [0x52, 0x55, 0x0a, 0x00, 0x02, 0x02, 0x52, 0x54, 0x00, 0x12, 0x34, 0x56, 0x08, 0x00,
    0x45, 0x00, 0x00, 0x1c, 0x00, 0x01, 0x00, 0x00, 0x40, 0x11, 0x00, 0x00, 10, 0, 2, 15, 1, 1, 1, 1,
    0x13, 0x88, 0x00, 0x09, 0x00, 0x08, 0x00, 0x00]

/-- A host that makes UDP sockets. -/
def udpHost : HostCalls := ⟨0, .v4 #v[8, 8, 8, 8] 53, some false, false, false, ⟨none, false⟩, []⟩

def peerKey : UdpFlowKey := ⟨guestIp, 5000, .replicate 4 1, 9, .v4 (.replicate 4 1) 9⟩

def peerGuestMac : MacAddr := guestEnd.mac

/-- A backend whose guest sent the datagram. -/
def onePeer : NatBackend where
  guestMac := some peerGuestMac
  replyQueue := []
  outboundIpv4 := { HostSocketOutboundIpv4Handler.new [] with
    udpFlows := AssocMap.empty.insert peerKey ⟨0, true, false⟩ }

theorem onePeer_reached (allowed : NatEvent → Prop) (h : allowed (.transmit guestDatagram udpHost)) :
    Reached allowed onePeer 0 := by
  have hrun : Reached allowed _ _ := Reached.step _ (Reached.new []) h
  have hnat : (NatBackend.new []).step (.transmit guestDatagram udpHost) = onePeer := by decide +kernel
  rw [hnat] at hrun
  exact hrun

/-- A sweep that finds datagrams at every UDP socket. -/
def peerSweep (datagrams : List (List UInt8)) : Sweep where
  now := 0
  udpReady _ := false
  tcpReady _ := false
  forwardReady _ := false
  udp _ := datagrams.map .datagram
  forwardWatched _ := false
  accepts _ := []
  tcp _ := ⟨0, 0, 0, .pending, [], [], false, (0, 0)⟩
  icmp _ := []

theorem receive_datagrams (now : Nat) (datagrams : List (List UInt8)) (f : UdpFlow) (hreadable : f.readable = true) :
    (f.receive now (datagrams.map .datagram)).2 = datagrams.map fun bytes =>
      bytes.take hostSocketUdpRecvScratchLen := by
  induction datagrams generalizing f with
  | nil => rfl
  | cons bytes datagrams ih =>
    have hrest := ih { f with lastActivity := now } hreadable
    rw [List.map_cons, List.map_cons, UdpFlow.receive, hreadable, if_neg (by decide)]
    rw [hreadable] at hrest
    exact congrArg (bytes.take hostSocketUdpRecvScratchLen :: ·) hrest

theorem onePeer_swept (datagrams : List (List UInt8)) :
    (onePeer.pollHostSockets (peerSweep datagrams)).replyQueue =
      (datagrams.map fun bytes => bytes.take hostSocketUdpRecvScratchLen).filterMap
        (udpReplyFrame peerGuestMac peerKey) := by
  have hqueue : (onePeer.pollHostSockets (peerSweep datagrams)).replyQueue =
      ([] ++ ((((⟨0, true, false⟩ : UdpFlow).receive 0 (datagrams.map .datagram)).2.filterMap
        (udpReplyFrame peerGuestMac peerKey)) ++ [])) ++ [] ++ [] := rfl
  rw [hqueue, receive_datagrams 0 datagrams _ rfl]
  simp only [List.nil_append, List.append_nil]

theorem onePeer_served (datagrams : List (List UInt8)) :
    onePeer.lastServed 0 (.pollHostSockets (peerSweep datagrams)) = 1 := rfl

theorem swept_reached {allowed : NatEvent → Prop} (datagrams : List (List UInt8))
    (h : allowed (.transmit guestDatagram udpHost)) (hsweep : allowed (.pollHostSockets (peerSweep datagrams))) :
    Reached allowed (onePeer.pollHostSockets (peerSweep datagrams)) 1 := by
  rw [← onePeer_served datagrams]
  exact Reached.step _ (onePeer_reached allowed h) hsweep

/-- A datagram of 1473 bytes becomes a frame that does not fit, and the datagrams of one flow fill the queue past any
constant for a flow. -/
theorem host_datagrams_unbounded :
    (∃ nat served, Reached (fun _ => True) nat served ∧ ∃ frame ∈ nat.replyQueue, ¬ FitsMtu frame) ∧
      ∀ c, ∃ nat served, Reached (fun _ => True) nat served ∧
        maxPendingReplyFrames + c * served < nat.replyQueue.length := by
  constructor
  · refine ⟨_, _, swept_reached [List.replicate 1473 0] trivial trivial, ?_⟩
    have hlen : ((List.replicate 1473 (0 : UInt8)).take hostSocketUdpRecvScratchLen).length = 1473 := by
      rw [List.length_take, List.length_replicate]
      rfl
    obtain ⟨frame, hbuilt⟩ := Option.isSome_iff_exists.mp
      (udpReplyFrame_built peerGuestMac peerKey (hlen.le.trans (by decide)))
    refine ⟨frame, ?_, ?_⟩
    · rw [onePeer_swept]
      exact List.mem_filterMap.mpr ⟨_, List.mem_singleton.mpr rfl, hbuilt⟩
    · rw [udpReplyFrame_fits_iff hbuilt, hlen]
      omega
  · intro c
    refine ⟨_, _, swept_reached (List.replicate (maxPendingReplyFrames + c + 1) []) trivial trivial, ?_⟩
    rw [onePeer_swept, List.map_replicate, List.filterMap_length_eq_length.mpr]
    · rw [List.length_replicate, Nat.mul_one]
      omega
    · intro payload hpayload
      obtain ⟨-, rfl⟩ := List.mem_replicate.mp hpayload
      exact udpReplyFrame_built _ _ (Nat.zero_le _)

theorem frames_fit_and_queue_bounded_reply :
    (onePeer.pollHostSockets (peerSweep [[1, 2, 3]])).replyQueue.length = 1 ∧
      QueueBounded (max 1 64) (onePeer.pollHostSockets (peerSweep [[1, 2, 3]])) 1 := by
  refine ⟨by decide +kernel, frames_fit_and_queue_bounded 1 (swept_reached [[1, 2, 3]] trivial ?_)⟩
  refine ⟨fun _ => Nat.le_refl _, fun _ bytes hbytes => ?_, fun _ _ hbytes => absurd hbytes List.not_mem_nil⟩
  obtain ⟨bytes', hmem, heq⟩ := List.mem_map.mp hbytes
  obtain rfl := HostRecv.datagram.inj heq
  obtain rfl := List.mem_singleton.mp hmem
  decide

end NatBackend

end BridgeVm.NetNat
