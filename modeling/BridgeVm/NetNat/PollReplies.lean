import BridgeVm.NetNat.FlowTable
import BridgeVm.NetNat.HostToGuest

/-!
# What a poll of TCP flows queues (`net_nat/macaddr.rs`, `tcp_send.rs`)

Every segment a flow queues has options and payload within the MSS. The read loop stops when the reply queue is full,
and outside of it the turn of a flow queues at most five segments, so a poll takes the queue at most five segments for
each flow past its limit (`pollFlows_bounded`).
-/

namespace BridgeVm.NetNat

open Lib

/-- Its options and payload leave room for the headers. -/
def TcpReply.FitsMss (r : TcpReply) : Prop := r.options.length + r.payload.length ≤ tcpMss

/-- A turn under way that found `waiting` frames in the queue: its segments fit, and they are at most `extra` more than
the queue's limit allows. -/
structure Bounded (waiting extra : Nat) (s : Sending) : Prop where
  found : s.queue.waiting = waiting
  fits : ∀ r ∈ s.queue.replies, r.FitsMss
  depth : waiting + s.queue.replies.length ≤ max waiting maxPendingReplyFrames + extra

section Turn

variable {waiting extra : Nat} {s s' : Sending} {p : Polling} {f : TcpFlow}

theorem Bounded.same (h : Bounded waiting extra s) (hq : s'.queue = s.queue) : Bounded waiting extra s' :=
  ⟨hq ▸ h.found, hq ▸ h.fits, hq ▸ h.depth⟩

theorem Bounded.mono (h : Bounded waiting extra s) : Bounded waiting (extra + 1) s :=
  ⟨h.found, h.fits, h.depth.trans (Nat.le_succ _)⟩

theorem length_push_le (q : ReplyQueue) (r : TcpReply) : (q.push r).replies.length ≤ q.replies.length + 1 := by
  unfold ReplyQueue.push
  split
  · rw [List.length_append, List.length_singleton]
  · exact Nat.le_succ _

theorem waiting_push (q : ReplyQueue) (r : TcpReply) : (q.push r).waiting = q.waiting := by
  unfold ReplyQueue.push
  split <;> rfl

theorem fits_push {q : ReplyQueue} {x : TcpReply} (h : ∀ r ∈ q.replies, r.FitsMss) (hx : x.FitsMss) :
    ∀ r ∈ (q.push x).replies, r.FitsMss := by
  intro r hr
  rcases mem_push hr with hr | rfl
  · exact h r hr
  · exact hx

theorem Bounded.push (h : Bounded waiting extra s) {x : TcpReply} (hq : s'.queue = s.queue.push x) (hx : x.FitsMss) :
    Bounded waiting (extra + 1) s' := by
  refine ⟨?_, ?_, ?_⟩
  · rw [hq, waiting_push, h.found]
  · rw [hq]
    exact fits_push h.fits hx
  · have hlen := length_push_le s.queue x
    have hdepth := h.depth
    rw [hq]
    omega

theorem Bounded.pushRoom (h : Bounded waiting extra s) {x : TcpReply} (hq : s'.queue = s.queue.push x) (hx : x.FitsMss)
    (hroom : s.queue.full = false) : Bounded waiting extra s' := by
  obtain ⟨hfound', hfits, -⟩ := h.push hq hx
  refine ⟨hfound', hfits, ?_⟩
  have hlen := length_push_le s.queue x
  have hfound := h.found
  have hlt : s.queue.waiting + s.queue.replies.length < maxPendingReplyFrames := by
    simpa [ReplyQueue.full] using hroom
  rw [hq]
  omega

theorem segment_bounded (h : Bounded waiting extra s) (seq : UInt32) (flags : UInt8) (payload : List UInt8)
    (hfit : payload.length ≤ tcpMss) : Bounded waiting (extra + 1) (s.segment seq flags payload) := by
  refine h.push rfl ?_
  show 0 + payload.length ≤ tcpMss
  omega

/-! ## Retransmissions -/

theorem resendOldest_bounded (h : Bounded waiting extra s) (wrap : Nat) :
    Bounded waiting (extra + 1) (s.resendOldest wrap) := by
  unfold Sending.resendOldest
  dsimp only
  rw [asSlices_take]
  refine segment_bounded h _ _ _ ?_
  rw [List.length_take]
  omega

theorem repairLoss_bounded (h : Bounded waiting extra s) (wrap : Nat) :
    Bounded waiting (extra + 1) (s.repairLoss wrap) := by
  have hclear : Bounded waiting extra (s.mapSend fun send => { send with resend := false }) := h.same rfl
  unfold Sending.repairLoss
  dsimp only
  split
  · exact resendOldest_bounded hclear wrap
  · exact hclear.mono

theorem expire_bounded (h : Bounded waiting extra s) (wrap now : Nat) :
    Bounded waiting (extra + 1) (s.expire wrap now) := by
  have hclear : Bounded waiting extra (s.mapSend fun send => { send with deadlineMs := none }) := h.same rfl
  unfold Sending.expire
  split
  · dsimp only
    split
    · exact (resendOldest_bounded hclear wrap).same rfl
    · split
      · exact (segment_bounded hclear (s.flow.send.una - 1) tcpFlagAck [] (Nat.zero_le _)).same rfl
      · exact hclear.mono
  · exact h.mono

/-! ## New data -/

theorem readLen_room {len : Nat} (h : s.readLen = some len) : s.queue.full = false ∧ len ≤ tcpMss := by
  unfold Sending.readLen at h
  split at h
  · cases h
  · rename_i hfull
    dsimp only at h
    split at h
    · cases h
    · have hlen := Option.some.inj h
      rw [not_or] at hfull
      exact ⟨by simpa using hfull.2, by omega⟩

theorem forward_bounded (now : Nat) (reads : List HostTurn) (h : Bounded waiting extra s) :
    Bounded waiting extra (s.forward now reads).1 := by
  refine forward_rule now reads (fun s h => h.same rfl) (fun s len r payload stream h hlen hread => ?_) h
  obtain ⟨hroom, hmss⟩ := readLen_room hlen
  obtain ⟨-, hpayload, -⟩ := read_ok hread
  obtain ⟨-, -, -, -, -, -, -, -, ack, window, hq⟩ := sendRead_spec s stream payload now
  refine h.pushRoom hq ?_ hroom
  show 0 + payload.length ≤ tcpMss
  omega

theorem sendToGuest_bounded (h : Bounded waiting extra s) (env : PollEnv) :
    Bounded waiting (extra + 2) (s.sendToGuest env).1 :=
  sendToGuest_rule env
    (forward_bounded env.now env.reads (expire_bounded (repairLoss_bounded h env.wraps.1) env.wraps.2 env.now))
    fun _ h => armTimer_rule env.now (fun _ => h.same rfl) h

/-! ## The turn of a flow -/

theorem reset_bounded (h : Bounded waiting extra p.toSending) (seq : UInt32) :
    Bounded waiting (extra + 1) (p.reset seq).toSending :=
  h.push (x := ⟨seq, p.flow.guestNext, Polling.resetFlags, 65535, [], []⟩) rfl (Nat.zero_le _)

theorem fitsMss_synOptions {seq ack : UInt32} {flags : UInt8} {window : UInt16} :
    TcpReply.FitsMss ⟨seq, ack, flags, window, TcpFlow.synOptions, []⟩ :=
  show TcpFlow.synOptions.length + 0 ≤ tcpMss by decide

theorem fitsMss_syn (f : TcpFlow) (seq ack : UInt32) (flags : UInt8) (window : UInt16) :
    TcpReply.FitsMss ⟨seq, ack, flags, window,
      if f.send.windowShift.isSome then TcpFlow.synOptions else TcpFlow.synOptions.take 4, []⟩ := by
  unfold TcpReply.FitsMss
  dsimp only
  split <;> decide

theorem connect_bounded (h : Bounded waiting extra p.toSending) (check : ConnectCheck) :
    Bounded waiting (extra + 1) (p.connect check).1.toSending := by
  unfold Polling.connect
  split
  · cases check with
    | connected => exact h.push rfl (fitsMss_syn p.flow _ _ _ _)
    | pending =>
      refine Bounded.mono ?_
      exact h.same rfl
    | failed => exact reset_bounded h _
  · exact h.mono

theorem acknowledge_bounded (h : Bounded waiting extra p.toSending) :
    Bounded waiting (extra + 1) p.acknowledge.toSending := by
  unfold Polling.acknowledge
  split
  · exact (segment_bounded h p.flow.send.next tcpFlagAck [] (Nat.zero_le _)).same rfl
  · exact h.mono

theorem download_bounded (h : Bounded waiting extra p.toSending) (env : PollEnv) :
    Bounded waiting (extra + 3) (p.download env).toSending := by
  have hsent := sendToGuest_bounded h env
  unfold Polling.download
  split
  · rename_i s' heq
    rw [heq] at hsent
    exact hsent.mono
  · rename_i s' heq
    rw [heq] at hsent
    exact hsent.mono
  · rename_i s' heq
    rw [heq] at hsent
    exact reset_bounded (p := { p with toSending := s' }) hsent _

/-- The segments of a turn fit, and are at most five more than the limit allows. -/
structure BoundedTurn (waiting : Nat) (turn : Turn) : Prop where
  fits : ∀ r ∈ turn.replies, r.FitsMss
  depth : waiting + turn.replies.length ≤ max waiting maxPendingReplyFrames + 5

theorem BoundedTurn.quiet (waiting : Nat) (f : TcpFlow) (removed : Bool) : BoundedTurn waiting ⟨f, [], removed⟩ :=
  ⟨fun _ hr => absurd hr List.not_mem_nil, Nat.le_add_right_of_le (Nat.le_max_left _ _)⟩

theorem Bounded.turn (h : Bounded waiting extra s) (hle : extra ≤ 5) (removed : Bool) :
    BoundedTurn waiting ⟨f, s.queue.replies, removed⟩ :=
  ⟨h.fits, h.depth.trans (by omega)⟩

theorem pollTcp_bounded (f : TcpFlow) (env : PollEnv) : BoundedTurn env.waiting (f.pollTcp env) := by
  have hstart : Bounded env.waiting 0 ⟨f, ⟨env.waiting, []⟩, env.budget⟩ :=
    ⟨rfl, fun _ hr => absurd hr List.not_mem_nil, Nat.le_max_left _ _⟩
  unfold TcpFlow.pollTcp
  dsimp only
  split
  · split
    · rename_i f' _
      have hsyn : Bounded env.waiting 1 ⟨f', f'.queueSyn ⟨env.waiting, []⟩, env.budget⟩ :=
        hstart.push (x := ⟨f'.ourSeq, 0, tcpFlagSyn, 65535, TcpFlow.synOptions, []⟩) rfl fitsMss_synOptions
      exact hsyn.turn (by omega) false
    · exact .quiet _ _ _
    · exact .quiet _ _ _
  · have hconn :=
      connect_bounded (p := ⟨⟨f, ⟨env.waiting, []⟩, env.budget⟩, false, false⟩) hstart env.connect
    split
    · rename_i p heq
      rw [heq] at hconn
      exact hconn.turn (by omega) true
    · rename_i p heq
      rw [heq] at hconn
      split
      · exact hconn.turn (by omega) _
      · have hupload : Bounded env.waiting 1 (p.upload env).toSending := hconn.same rfl
        exact (download_bounded (acknowledge_bounded hupload) env).turn (by omega) _

end Turn

/-! ## All flows -/

namespace TcpTable

/-- The loop of a poll, by induction over the flows: each adds at most five segments once the queue is full. -/
theorem pollFlows_bounded (env : TcpFlowKey → PollEnv) (now : Nat) (flows : List (TcpFlowKey × TcpFlow)) :
    ∀ budget waiting, (∀ kt ∈ pollFlows env now flows budget waiting, ∀ r ∈ kt.2.replies, r.FitsMss) ∧
      waiting + ((pollFlows env now flows budget waiting).flatMap fun kt => kt.2.replies).length ≤
        max waiting maxPendingReplyFrames + 5 * flows.length := by
  induction flows with
  | nil => exact fun _ waiting => ⟨fun _ hkt => absurd hkt List.not_mem_nil, by simp [pollFlows]⟩
  | cons kf flows ih =>
    intro budget waiting
    obtain ⟨key, f⟩ := kf
    have hturn := pollTcp_bounded f { env key with now := now, budget := budget, waiting := waiting }
    rw [pollFlows]
    dsimp only at hturn ⊢
    generalize f.pollTcp { env key with now := now, budget := budget, waiting := waiting } = turn at hturn ⊢
    generalize f.budgetLeft { env key with now := now, budget := budget, waiting := waiting } = left
    obtain ⟨hfits, hdepth⟩ := ih left (waiting + turn.replies.length)
    refine ⟨fun kt hkt => ?_, ?_⟩
    · rcases List.mem_cons.mp hkt with rfl | hkt
      · exact hturn.fits
      · exact hfits kt hkt
    · have hone := hturn.depth
      rw [List.flatMap_cons, List.length_append, List.length_cons]
      dsimp only
      omega

end TcpTable

end BridgeVm.NetNat
