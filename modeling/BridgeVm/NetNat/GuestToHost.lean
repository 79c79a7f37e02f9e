import BridgeVm.NetNat.HostToGuest

/-!
# The guest's stream reaches the host

A `Session` follows a flow with the stream the NAT acknowledged to the guest and the positions of its FINs.

- polls only move bytes from the backlog to the host (`Uploads`, `pollTcp_uploads`), and remove a flow only with a reset
  to the guest, when it is closed, or before it opened (`pollTcp_removed`);
- `SessionInv`: the bytes the host took and the backlog are the acknowledged stream (`reached_session`);
- the backlog can be cut off by a FIN that overtakes it, by the guest's reset and by an eviction.
-/

namespace BridgeVm.NetNat

open Lib

/-! ## What a poll does to the guest's stream -/

/-- Bytes move from the backlog to the host, in order; nothing else of the guest-to-host direction changes. -/
structure Uploads (a b : TcpFlow) : Prop where
  data : b.stream.outgoing ++ b.writeBuf = a.stream.outgoing ++ a.writeBuf
  grows : a.stream.outgoing.length ≤ b.stream.outgoing.length
  writeShut : b.stream.writeShut = a.stream.writeShut
  guestNext : b.guestNext = a.guestNext
  guestFin : b.guestFin = a.guestFin
  opening : b.state = .opening ↔ a.state = .opening

section Uploads

variable {a b c f : TcpFlow} {s : Sending} {p : Polling}

theorem Uploads.refl (a : TcpFlow) : Uploads a a := ⟨rfl, Nat.le_refl _, rfl, rfl, rfl, Iff.rfl⟩

theorem Uploads.trans (h : Uploads a b) (h' : Uploads b c) : Uploads a c where
  data := h'.data.trans h.data
  grows := h.grows.trans h'.grows
  writeShut := h'.writeShut.trans h.writeShut
  guestNext := h'.guestNext.trans h.guestNext
  guestFin := h'.guestFin.trans h.guestFin
  opening := h'.opening.trans h.opening

/-- What a write took left the front of the buffer. -/
theorem write_ok {stream stream' : TcpStream} {buf : List UInt8} {w : HostTurn} {len : Nat}
    (h : stream.write buf w = (.ok len, stream')) :
    stream'.outgoing ++ buf.drop len = stream.outgoing ++ buf ∧
      stream.outgoing.length ≤ stream'.outgoing.length ∧ stream'.writeShut = stream.writeShut := by
  cases w with
  | moves n =>
    unfold TcpStream.write at h
    dsimp only at h
    split at h
    · cases h
    · cases h
      refine ⟨?_, ?_, rfl⟩
      · show stream.outgoing ++ buf.take n ++ buf.drop (min n buf.length) = _
        rw [List.append_assoc]
        congr 1
        rcases Nat.le_total n buf.length with hle | hle
        · rw [Nat.min_eq_left hle, List.take_append_drop]
        · rw [Nat.min_eq_right hle, List.drop_length, List.append_nil, List.take_of_length_le hle]
      · show _ ≤ (stream.outgoing ++ buf.take n).length
        rw [List.length_append]
        omega
  | wouldBlock => cases h
  | err => cases h

theorem write_not_ok {stream stream' : TcpStream} {buf : List UInt8} {w : HostTurn} {result : IoResult Nat}
    (h : stream.write buf w = (result, stream')) (hne : ∀ len, result ≠ .ok len) : stream' = stream := by
  cases w with
  | moves n =>
    unfold TcpStream.write at h
    dsimp only at h
    split at h
    · exact (Prod.mk.inj h).2.symm
    · exact absurd (Prod.mk.inj h).1.symm (hne _)
  | wouldBlock => exact (Prod.mk.inj h).2.symm
  | err => exact (Prod.mk.inj h).2.symm

theorem flushHostWrite_uploads (writes : List HostTurn) (f : TcpFlow) : Uploads f (f.flushHostWrite writes) := by
  induction writes generalizing f with
  | nil => exact Uploads.refl f
  | cons w writes ih =>
    unfold TcpFlow.flushHostWrite
    split
    · exact Uploads.refl f
    · split
      · rename_i stream heq
        obtain ⟨hdata, hgrows, hshut⟩ := write_ok heq
        exact ⟨hdata, hgrows, hshut, rfl, rfl, Iff.rfl⟩
      · rename_i len stream _ heq
        obtain ⟨hdata, hgrows, hshut⟩ := write_ok heq
        have hstep : Uploads f { f with stream := stream, writeBuf := f.writeBuf.drop len } :=
          ⟨hdata, hgrows, hshut, rfl, rfl, Iff.rfl⟩
        exact hstep.trans (ih _)
      · rename_i result stream hne heq
        rw [write_not_ok heq hne]
        exact Uploads.refl f

/-! ### Sending to the guest leaves the other direction alone -/

theorem segment_uploads (s : Sending) (seq : UInt32) (flags : UInt8) (payload : List UInt8) :
    Uploads s.flow (s.segment seq flags payload).flow := ⟨rfl, Nat.le_refl _, rfl, rfl, rfl, Iff.rfl⟩

theorem mapSend_uploads (s : Sending) (g : TcpSendState → TcpSendState) : Uploads s.flow (s.mapSend g).flow :=
  ⟨rfl, Nat.le_refl _, rfl, rfl, rfl, Iff.rfl⟩

theorem repairLoss_uploads (s : Sending) (wrap : Nat) : Uploads s.flow (s.repairLoss wrap).flow := by
  unfold Sending.repairLoss
  dsimp only
  split
  · exact (mapSend_uploads s _).trans (segment_uploads _ _ _ _)
  · exact mapSend_uploads s _

theorem expire_uploads (s : Sending) (wrap now : Nat) : Uploads s.flow (s.expire wrap now).flow := by
  unfold Sending.expire
  split
  · dsimp only
    split
    · exact (mapSend_uploads s _).trans ((segment_uploads _ _ _ _).trans
        ((mapSend_uploads _ _).trans (mapSend_uploads _ _)))
    · split
      · exact (mapSend_uploads s _).trans ((segment_uploads _ _ _ _).trans (mapSend_uploads _ _))
      · exact mapSend_uploads s _
  · exact Uploads.refl _

theorem read_outgoing {stream stream' : TcpStream} {len : Nat} {r : HostTurn} {result : IoResult (List UInt8)}
    (h : stream.read len r = (result, stream')) :
    stream'.outgoing = stream.outgoing ∧ stream'.writeShut = stream.writeShut := by
  cases r with
  | moves n => cases h; exact ⟨rfl, rfl⟩
  | wouldBlock => cases h; exact ⟨rfl, rfl⟩
  | err => cases h; exact ⟨rfl, rfl⟩

theorem sendRead_uploads (s : Sending) (payload : List UInt8) (now : Nat) :
    Uploads s.flow (s.sendRead payload now).flow := by
  obtain ⟨rto, deadline, hstart⟩ := startTimer_eq s now
  unfold Sending.sendRead
  dsimp only
  rw [hstart]
  exact ⟨rfl, Nat.le_refl _, rfl, rfl, rfl, Iff.rfl⟩

theorem forward_uploads (now : Nat) (reads : List HostTurn) (s : Sending) :
    Uploads s.flow (s.forward now reads).1.flow := by
  refine forward_rule (P := fun s' => Uploads s.flow s'.flow) now reads (fun s' h => ?_)
    (fun s' len r payload stream h _ hread => ?_) (Uploads.refl s.flow)
  · exact h.trans ⟨rfl, Nat.le_refl _, rfl, rfl, rfl, Iff.rfl⟩
  · obtain ⟨hout, hshut⟩ := read_outgoing hread
    have hset : Uploads s'.flow (s'.setStream stream).flow :=
      ⟨congrArg (· ++ s'.flow.writeBuf) hout, (congrArg List.length hout).ge, hshut, rfl, rfl, Iff.rfl⟩
    exact h.trans (hset.trans (sendRead_uploads _ payload now))

theorem armTimer_uploads (s : Sending) (now : Nat) : Uploads s.flow (s.armTimer now).flow :=
  armTimer_rule (P := fun s' => Uploads s.flow s'.flow) now (fun _ => mapSend_uploads s _) (Uploads.refl s.flow)

theorem sendToGuest_uploads (s : Sending) (env : PollEnv) : Uploads s.flow (s.sendToGuest env).1.flow := by
  have hsent := ((repairLoss_uploads s env.wraps.1).trans (expire_uploads _ env.wraps.2 env.now)).trans
    (forward_uploads env.now env.reads _)
  exact sendToGuest_rule (P := fun s' => Uploads s.flow s'.flow) env hsent fun s' h =>
    h.trans (armTimer_uploads s' env.now)

/-! ### A whole poll -/

theorem connect_uploads (p : Polling) (check : ConnectCheck) : Uploads p.flow (p.connect check).1.flow := by
  unfold Polling.connect
  split
  · rename_i hc
    cases check with
    | connected => exact ⟨rfl, Nat.le_refl _, rfl, rfl, rfl, by simp [hc.1]⟩
    | pending => exact ⟨rfl, Nat.le_refl _, rfl, rfl, rfl, Iff.rfl⟩
    | failed => exact ⟨rfl, Nat.le_refl _, rfl, rfl, rfl, Iff.rfl⟩
  · exact Uploads.refl _

theorem upload_uploads (p : Polling) (env : PollEnv) : Uploads p.flow (p.upload env).flow :=
  (flushHostWrite_uploads env.writes p.flow).trans ⟨rfl, Nat.le_refl _, rfl, rfl, rfl, Iff.rfl⟩

theorem acknowledge_uploads (p : Polling) : Uploads p.flow p.acknowledge.flow := by
  unfold Polling.acknowledge
  split
  · exact ⟨rfl, Nat.le_refl _, rfl, rfl, rfl, Iff.rfl⟩
  · exact Uploads.refl _

theorem download_uploads (p : Polling) (env : PollEnv) : Uploads p.flow (p.download env).flow :=
  download_rule (P := fun s => Uploads p.flow s.flow) env (sendToGuest_uploads p.toSending env) fun _ h _ => h

theorem finish_uploads (p : Polling) (now : Nat) : Uploads p.flow (p.finish now).flow := by
  unfold Polling.finish
  dsimp only
  split
  · exact ⟨rfl, Nat.le_refl _, rfl, rfl, rfl, Iff.rfl⟩
  · exact Uploads.refl _

theorem synDue_uploads (f : TcpFlow) (now : Nat) : Uploads f (f.synDue now).1 := by
  unfold TcpFlow.synDue
  split
  · exact Uploads.refl f
  · split
    · exact Uploads.refl f
    · exact ⟨rfl, Nat.le_refl _, rfl, rfl, rfl, Iff.rfl⟩

theorem pollTcp_uploads (f : TcpFlow) (env : PollEnv) : Uploads f (f.pollTcp env).flow := by
  unfold TcpFlow.pollTcp
  dsimp only
  split
  · have hdue := synDue_uploads f env.now
    split
    · rename_i f' heq
      rw [heq] at hdue
      exact hdue
    · rename_i f' heq
      rw [heq] at hdue
      exact hdue
    · rename_i f' heq
      rw [heq] at hdue
      exact hdue
  · have hconn := connect_uploads ⟨⟨f, ⟨env.waiting, []⟩, env.budget⟩, false, false⟩ env.connect
    split
    · rename_i p' heq
      rw [heq] at hconn
      exact hconn
    · rename_i p' heq
      rw [heq] at hconn
      split
      · exact hconn.trans (finish_uploads p' env.now)
      · exact hconn.trans ((upload_uploads p' env).trans ((acknowledge_uploads _).trans
          ((download_uploads _ env).trans (finish_uploads _ env.now))))

/-! ### How a poll removes a flow -/

/-- A reset is among the segments. -/
def SendsReset (replies : List TcpReply) : Prop := ∃ r ∈ replies, hasFlag r.flags tcpFlagRst = true

theorem reset_sends (p : Polling) (seq : UInt32) : SendsReset (p.reset seq).queue.replies := by
  have hflag : hasFlag Polling.resetFlags tcpFlagRst = true := by decide
  refine ⟨⟨seq, p.flow.guestNext, Polling.resetFlags, 65535, [], []⟩, ?_, hflag⟩
  unfold Polling.reset ReplyQueue.queueTcpReply ReplyQueue.queueTcpSegment ReplyQueue.push
  rw [if_pos (by simp)]
  exact List.mem_append_right _ (List.mem_singleton.mpr rfl)

theorem connect_removed {check : ConnectCheck} {p' : Polling} {ok : Bool} (hp : p.removed = false)
    (h : p.connect check = (p', ok)) : (ok = true → p'.removed = false) ∧
    (ok = false → SendsReset p'.queue.replies) := by
  unfold Polling.connect at h
  split at h
  · cases check with
    | connected => cases h; exact ⟨fun _ => hp, fun hf => absurd hf (by simp)⟩
    | pending => cases h; exact ⟨fun _ => hp, fun hf => absurd hf (by simp)⟩
    | failed => cases h; exact ⟨fun hf => absurd hf (by simp), fun _ => reset_sends _ _⟩
  · cases h
    exact ⟨fun _ => hp, fun hf => absurd hf (by simp)⟩

theorem download_removed (env : PollEnv) (hp : p.removed = false) (h : (p.download env).removed = true) :
    SendsReset (p.download env).queue.replies := by
  unfold Polling.download at h ⊢
  split at h
  · rw [hp] at h; cases h
  · rw [hp] at h; cases h
  · exact reset_sends _ _

theorem acknowledge_removed (p : Polling) : p.acknowledge.removed = p.removed := by
  unfold Polling.acknowledge
  split
  · rfl
  · rfl

/-- A poll removes a flow with a reset to the guest, when both directions are closed, or while it is opening. -/
theorem pollTcp_removed (f : TcpFlow) (env : PollEnv) (h : (f.pollTcp env).removed = true) :
    SendsReset (f.pollTcp env).replies ∨ f.guestFin = true ∨ f.state = .opening := by
  have closed_fin : ∀ {g : TcpFlow}, Uploads f g → g.closed = true → f.guestFin = true := by
    intro g hup hc
    rw [← hup.guestFin]
    exact (Bool.and_eq_true _ _ ▸ hc).1
  have hconn := connect_uploads ⟨⟨f, ⟨env.waiting, []⟩, env.budget⟩, false, false⟩ env.connect
  unfold TcpFlow.pollTcp at h ⊢
  dsimp only at h ⊢
  by_cases hop : f.state = .opening
  · exact Or.inr (Or.inr hop)
  · rw [if_neg hop] at h ⊢
    cases heq : Polling.connect ⟨⟨f, ⟨env.waiting, []⟩, env.budget⟩, false, false⟩ env.connect with
    | mk p' ok =>
      rw [heq] at h hconn
      obtain ⟨hkeep, hreset⟩ :=
        connect_removed (p := ⟨⟨f, ⟨env.waiting, []⟩, env.budget⟩, false, false⟩) rfl heq
      cases ok with
      | false => exact Or.inl (hreset rfl)
      | true =>
        dsimp only at h ⊢
        by_cases hcon : p'.flow.state = .connecting
        · rw [if_pos hcon] at h ⊢
          rcases (Bool.or_eq_true _ _ ▸ h : p'.removed = true ∨ p'.flow.closed = true) with hr | hc
          · rw [hkeep rfl] at hr
            cases hr
          · exact Or.inr (Or.inl (closed_fin hconn hc))
        · rw [if_neg hcon] at h ⊢
          have hup := hconn.trans ((upload_uploads p' env).trans ((acknowledge_uploads _).trans
            (download_uploads _ env)))
          rcases (Bool.or_eq_true _ _ ▸ h : (((p'.upload env).acknowledge).download env).removed = true ∨
            (((p'.upload env).acknowledge).download env).flow.closed = true) with hr | hc
          · refine Or.inl (download_removed env ?_ hr)
            rw [acknowledge_removed]
            exact hkeep rfl
          · exact Or.inr (Or.inl (closed_fin hup hc))

end Uploads

/-! ## Sessions -/

namespace TcpFlow

/-- The flow acknowledges the segment's payload. -/
def accepts (f : TcpFlow) (tcp : TcpSegment) : Bool :=
  !hasFlag tcp.flags tcpFlagRst && decide (f.state ≠ .opening) && !tcp.payload.isEmpty &&
    decide (tcp.seq = f.guestNext) && decide (f.writeBuf.length < maxTcpWriteBacklog)

/-- The flow acknowledges the segment's FIN. -/
def acceptsFin (f : TcpFlow) (tcp : TcpSegment) : Bool :=
  !hasFlag tcp.flags tcpFlagRst && decide (f.state ≠ .opening) && tcp.payload.isEmpty &&
    decide (tcp.seq = f.guestNext) && hasFlag tcp.flags tcpFlagFin

end TcpFlow

/-- A flow, the sequence number of the first byte of the guest's stream, the stream as far as the NAT acknowledged it,
the positions of its FINs, and whether a FIN was acknowledged while bytes before it still waited for the host. -/
structure Session where
  flow : TcpFlow
  first : UInt32
  stream : List UInt8
  fins : List Nat
  overtaken : Bool

namespace Session

/-- The session a flow starts. -/
def start (f : TcpFlow) : Session := ⟨f, f.guestNext, [], [], false⟩

/-- One event. The guest's stream starts where its SYN or SYN-ACK says. -/
def next (s : Session) (e : FlowEvent) : Session :=
  let flow := (s.flow.turn e).flow
  let first := if s.flow.state = .opening then flow.guestNext else s.first
  match e with
  | .segment tcp _ _ =>
    { flow := flow
      first := first
      stream := if s.flow.accepts tcp then s.stream ++ tcp.payload else s.stream
      fins := if s.flow.acceptsFin tcp then s.fins ++ [s.stream.length] else s.fins
      overtaken := s.overtaken || (s.flow.acceptsFin tcp && !s.flow.writeBuf.isEmpty) }
  | _ => { s with flow := flow, first := first }

end Session

/-- The sessions a flow reaches before it is removed. -/
inductive SessionReached : Session → Prop
  | opens {f : TcpFlow} : Opens f → SessionReached (Session.start f)
  | next {s : Session} (e : FlowEvent) :
    SessionReached s → (s.flow.turn e).removed = false → SessionReached (s.next e)

/-- The host has every byte before the guest's first FIN. -/
def Session.Complete (s : Session) : Prop := ∀ n ∈ s.fins.head?, n ≤ s.flow.stream.outgoing.length

structure SessionInv (s : Session) : Prop where
  /-- What the host took and the backlog are the acknowledged stream. -/
  data : s.flow.stream.outgoing ++ s.flow.writeBuf = s.stream
  guestNext : s.flow.guestNext = seqAt s.first (s.stream.length + s.fins.length)
  opening : s.flow.state = .opening → s.stream = [] ∧ s.fins = []
  shut : s.flow.stream.writeShut = true → s.fins ≠ []
  guestFin : s.flow.guestFin = true → s.fins ≠ []
  complete : s.overtaken = false → s.Complete

section Session

variable {s : Session} {f b : TcpFlow}

theorem SessionInv.uploads (h : SessionInv s) (hup : Uploads s.flow b) :
    SessionInv { s with flow := b, first := if s.flow.state = .opening then b.guestNext else s.first } where
  data := hup.data.trans h.data
  guestNext := by
    show b.guestNext = seqAt (if _ then _ else _) _
    rw [hup.guestNext]
    by_cases hop : s.flow.state = .opening
    · obtain ⟨hs, hf⟩ := h.opening hop
      rw [if_pos hop, hs, hf]
      exact (seqAt_zero _).symm
    · rw [if_neg hop]
      exact h.guestNext
  opening hop := h.opening (hup.opening.mp hop)
  shut hs := h.shut (hup.writeShut ▸ hs)
  guestFin hs := h.guestFin (hup.guestFin ▸ hs)
  complete hov n hn := (h.complete hov n hn).trans hup.grows

/-! ### Guest segments -/

theorem accepts_iff {tcp : TcpSegment} :
    f.accepts tcp = true ↔ hasFlag tcp.flags tcpFlagRst = false ∧ f.state ≠ .opening ∧ tcp.payload ≠ [] ∧
      tcp.seq = f.guestNext ∧ f.writeBuf.length < maxTcpWriteBacklog := by
  simp [TcpFlow.accepts, and_assoc]

theorem acceptsFin_iff {tcp : TcpSegment} :
    f.acceptsFin tcp = true ↔ hasFlag tcp.flags tcpFlagRst = false ∧ f.state ≠ .opening ∧ tcp.payload = [] ∧
      tcp.seq = f.guestNext ∧ hasFlag tcp.flags tcpFlagFin = true := by
  simp [TcpFlow.acceptsFin, and_assoc]

theorem takeAck_uploads (f : TcpFlow) (tcp : TcpSegment) : Uploads f (f.takeAck tcp) := by
  unfold TcpFlow.takeAck
  split
  · exact ⟨rfl, Nat.le_refl _, rfl, rfl, rfl, Iff.rfl⟩
  · exact Uploads.refl f

theorem guestNext_add_ne (q : UInt32) {n : Nat} (hpos : 0 < n) (hlt : n < 2 ^ 16) : q ≠ q + UInt32.ofNat n := by
  intro heq
  have hsub := toNat_seqAt_sub q 0 (show n < 2 ^ 32 by omega)
  rw [Nat.zero_add, seqAt_zero, seqAt, ← heq, UInt32.sub_self] at hsub
  have : (0 : UInt32).toNat = 0 := rfl
  omega

/-- What a segment does to the guest's stream in a flow that is open: its payload is taken, or its FIN, or neither. -/
inductive Takes (f : TcpFlow) (tcp : TcpSegment) (b : TcpFlow) : Prop
  | payload (g : TcpFlow) : f.accepts tcp = true → f.acceptsFin tcp = false →
    g = { f with
      guestNext := f.guestNext + UInt32.ofNat tcp.payload.length
      writeBuf := f.writeBuf ++ tcp.payload } → Uploads g b → Takes f tcp b
  | fin (g : TcpFlow) : f.accepts tcp = false → f.acceptsFin tcp = true →
    g = { f with guestNext := f.guestNext + 1, guestFin := true, stream := f.stream.shutdownWrite } →
    Uploads g b → Takes f tcp b
  | nothing : f.accepts tcp = false → f.acceptsFin tcp = false → Uploads f b → Takes f tcp b

theorem takeFin_takes {tcp : TcpSegment} (hrst : hasFlag tcp.flags tcpFlagRst = false) (hop : f.state ≠ .opening)
    (hpay : ¬(tcp.payload ≠ [] ∧ tcp.seq = f.guestNext)) (hup : Uploads f b) : Takes f tcp (b.takeFin tcp) := by
  have hacc : f.accepts tcp = false := by
    refine Bool.eq_false_iff.mpr fun hacc => ?_
    obtain ⟨-, -, hne, hseq, -⟩ := accepts_iff.mp hacc
    exact hpay ⟨hne, hseq⟩
  unfold TcpFlow.takeFin
  by_cases hc : hasFlag tcp.flags tcpFlagFin = true ∧ tcp.seq = b.guestNext
  · rw [if_pos hc]
    have hseq : tcp.seq = f.guestNext := hc.2.trans hup.guestNext
    have hnil : tcp.payload = [] := by
      by_contra hne
      exact hpay ⟨hne, hseq⟩
    refine Takes.fin _ hacc ?_ rfl ?_
    · exact acceptsFin_iff.mpr ⟨hrst, hop, hnil, hseq, hc.1⟩
    · exact ⟨hup.data, hup.grows, rfl, by rw [hup.guestNext], rfl, hup.opening⟩
  · rw [if_neg hc]
    refine Takes.nothing hacc (Bool.eq_false_iff.mpr fun hfin => ?_) hup
    obtain ⟨-, -, -, hseq, hflag⟩ := acceptsFin_iff.mp hfin
    exact hc ⟨hflag, hseq.trans hup.guestNext.symm⟩

/-- A segment of an open flow. -/
theorem handleTcp_takes (tcp : TcpSegment) (now : Nat) (writes : List HostTurn)
    (hrst : hasFlag tcp.flags tcpFlagRst = false) (hop : f.state ≠ .opening) :
    Takes f tcp (f.handleTcp tcp now writes).flow := by
  have hnow : Uploads f { f with lastActivity := now } := ⟨rfl, Nat.le_refl _, rfl, rfl, rfl, Iff.rfl⟩
  have hack := hnow.trans (takeAck_uploads { f with lastActivity := now } tcp)
  unfold TcpFlow.handleTcp
  rw [if_neg (by simp [hrst])]
  dsimp only
  rw [if_neg hop]
  generalize hg : ({ f with lastActivity := now } : TcpFlow).takeAck tcp = g at hack ⊢
  by_cases hpay : tcp.payload ≠ [] ∧ tcp.seq = f.guestNext
  · have hcond : (!tcp.payload.isEmpty) = true ∧ tcp.seq = g.guestNext := by
      refine ⟨?_, hpay.2.trans hack.guestNext.symm⟩
      simp [hpay.1]
    rw [if_pos hcond]
    have hwb : g.writeBuf = f.writeBuf := by
      rw [← hg]
      unfold TcpFlow.takeAck
      split
      · rfl
      · rfl
    have hnofin : f.acceptsFin tcp = false :=
      Bool.eq_false_iff.mpr fun hfin => hpay.1 (acceptsFin_iff.mp hfin).2.2.1
    by_cases hfull : maxTcpWriteBacklog ≤ g.writeBuf.length
    · rw [if_pos hfull]
      refine Takes.nothing (Bool.eq_false_iff.mpr fun hacc => ?_) hnofin
        (hack.trans ⟨rfl, Nat.le_refl _, rfl, rfl, rfl, Iff.rfl⟩)
      rw [hwb] at hfull
      exact Nat.not_lt.mpr hfull (accepts_iff.mp hacc).2.2.2.2
    · rw [if_neg hfull]
      -- The payload moved the position the FIN is compared with.
      have hflush := flushHostWrite_uploads writes { g with
        guestNext := g.guestNext + UInt32.ofNat tcp.payload.length
        writeBuf := g.writeBuf ++ tcp.payload
        pendingAck := true }
      have hnext : (g.takePayload tcp.payload writes).guestNext = f.guestNext + UInt32.ofNat tcp.payload.length := by
        rw [TcpFlow.takePayload, hflush.guestNext]
        show g.guestNext + _ = _
        rw [hack.guestNext]
      have hskip : (g.takePayload tcp.payload writes).takeFin tcp = g.takePayload tcp.payload writes := by
        unfold TcpFlow.takeFin
        rw [if_neg]
        rintro ⟨-, heq⟩
        rw [hnext, hpay.2] at heq
        exact guestNext_add_ne f.guestNext (List.length_pos_iff.mpr hpay.1) tcp.fits heq
      show Takes f tcp ((g.takePayload tcp.payload writes).takeFin tcp)
      rw [hskip]
      refine Takes.payload _ ?_ hnofin rfl (Uploads.trans ?_ hflush)
      · rw [hwb] at hfull
        exact accepts_iff.mpr ⟨hrst, hop, hpay.1, hpay.2, Nat.lt_of_not_le hfull⟩
      · refine ⟨?_, hack.grows, hack.writeShut, ?_, hack.guestFin, hack.opening⟩
        · show g.stream.outgoing ++ (g.writeBuf ++ _) = f.stream.outgoing ++ (f.writeBuf ++ _)
          rw [← List.append_assoc, hack.data, List.append_assoc]
        · show g.guestNext + _ = f.guestNext + _
          rw [hack.guestNext]
  · have hcond : ¬((!tcp.payload.isEmpty) = true ∧ tcp.seq = g.guestNext) := by
      rintro ⟨hne, hseq⟩
      exact hpay ⟨by simpa using hne, hseq.trans hack.guestNext⟩
    rw [if_neg hcond]
    split
    · exact takeFin_takes hrst hop hpay (hack.trans ⟨rfl, Nat.le_refl _, rfl, rfl, rfl, Iff.rfl⟩)
    · exact takeFin_takes hrst hop hpay hack

theorem not_accepts (tcp : TcpSegment) (h : hasFlag tcp.flags tcpFlagRst = true ∨ f.state = .opening) :
    f.accepts tcp = false ∧ f.acceptsFin tcp = false := by
  refine ⟨Bool.eq_false_iff.mpr fun hacc => ?_, Bool.eq_false_iff.mpr fun hfin => ?_⟩
  · obtain ⟨hrst, hop, -⟩ := accepts_iff.mp hacc
    rcases h with h | h
    · rw [hrst] at h
      cases h
    · exact hop h
  · obtain ⟨hrst, hop, -⟩ := acceptsFin_iff.mp hfin
    rcases h with h | h
    · rw [hrst] at h
      cases h
    · exact hop h

theorem handleTcp_opening (tcp : TcpSegment) (now : Nat) (writes : List HostTurn) (hop : f.state = .opening)
    (b : TcpFlow) (hb : b = (f.handleTcp tcp now writes).flow) :
    b.stream = f.stream ∧ b.writeBuf = f.writeBuf ∧ b.guestFin = f.guestFin := by
  unfold TcpFlow.handleTcp at hb
  dsimp only at hb
  split at hb
  · rw [hb]
    exact ⟨rfl, rfl, rfl⟩
  · split at hb
    · rw [hb]
      exact ⟨rfl, rfl, rfl⟩
    · rw [hb]
      exact ⟨rfl, rfl, rfl⟩

theorem segment_inv (h : SessionInv s) (tcp : TcpSegment) (now : Nat) (writes : List HostTurn) :
    SessionInv (s.next (.segment tcp now writes)) := by
  by_cases hrst : hasFlag tcp.flags tcpFlagRst = true
  · obtain ⟨hacc, hfin⟩ := not_accepts tcp (f := s.flow) (Or.inl hrst)
    have hflow : (s.flow.handleTcp tcp now writes).flow = s.flow := by
      unfold TcpFlow.handleTcp
      rw [if_pos hrst]
    have hstep := h.uploads (Uploads.refl s.flow)
    simp only [Session.next, TcpFlow.turn, hflow, hacc, hfin, Bool.false_and, Bool.or_false]
    exact hstep
  · rw [Bool.not_eq_true] at hrst
    by_cases hop : s.flow.state = .opening
    · obtain ⟨hacc, hfin⟩ := not_accepts tcp (Or.inr hop)
      obtain ⟨hstream, hbuf, hgf⟩ := handleTcp_opening tcp now writes hop _ rfl
      obtain ⟨hs, hf⟩ := h.opening hop
      have hnofins : s.flow.stream.writeShut = false ∧ s.flow.guestFin = false :=
        ⟨Bool.eq_false_iff.mpr fun hc => h.shut hc hf, Bool.eq_false_iff.mpr fun hc => h.guestFin hc hf⟩
      simp only [Session.next, TcpFlow.turn, hacc, hfin, Bool.false_and, Bool.or_false]
      refine ⟨?_, ?_, fun _ => ⟨hs, hf⟩, fun hc => ?_, fun hc => ?_, fun hov n hn => ?_⟩
      · show _ ++ _ = s.stream
        rw [hstream, hbuf]
        exact h.data
      · show _ = seqAt (if _ then _ else _) (s.stream.length + s.fins.length)
        rw [if_pos hop, hs, hf]
        exact (seqAt_zero _).symm
      · dsimp only at hc
        rw [hstream, hnofins.1] at hc
        cases hc
      · dsimp only at hc
        rw [hgf, hnofins.2] at hc
        cases hc
      · dsimp only at hn
        rw [hf] at hn
        cases hn
    · simp only [Session.next, TcpFlow.turn, if_neg hop]
      cases handleTcp_takes tcp now writes hrst hop with
      | payload g hacc hfin hg hup =>
        have hbase : SessionInv ⟨g, s.first, s.stream ++ tcp.payload, s.fins, s.overtaken⟩ := by
          subst hg
          refine ⟨?_, ?_, fun hc => absurd hc hop, h.shut, h.guestFin, h.complete⟩
          · show s.flow.stream.outgoing ++ (s.flow.writeBuf ++ tcp.payload) = _
            rw [← List.append_assoc, h.data]
          · show s.flow.guestNext + _ = seqAt s.first ((s.stream ++ tcp.payload).length + s.fins.length)
            rw [h.guestNext, seqAt_add, List.length_append, Nat.add_right_comm]
        have hstate : g.state ≠ .opening := by rw [hg]; exact hop
        have hstep := hbase.uploads hup
        simp only [hacc, hfin, Bool.false_and, Bool.or_false, if_true, if_neg hstate] at hstep ⊢
        exact hstep
      | fin g hacc hfin hg hup =>
        have hbase : SessionInv ⟨g, s.first, s.stream, s.fins ++ [s.stream.length],
            s.overtaken || !s.flow.writeBuf.isEmpty⟩ := by
          subst hg
          refine ⟨h.data, ?_, fun hc => absurd hc hop, fun _ => by simp, fun _ => by simp, fun hov n hn => ?_⟩
          · show s.flow.guestNext + 1 = _
            rw [h.guestNext, List.length_append]
            exact seqAt_add _ _ 1
          · dsimp only at hov hn
            obtain ⟨hov, hbuf⟩ := Bool.or_eq_false_iff.mp hov
            show n ≤ s.flow.stream.outgoing.length
            -- The backlog is empty, so the host has the whole stream.
            have hall : s.flow.stream.outgoing = s.stream := by
              have hnil : s.flow.writeBuf = [] := by simpa using hbuf
              rw [← h.data, hnil, List.append_nil]
            rw [List.head?_append] at hn
            cases hhead : s.fins.head? with
            | none =>
              rw [hhead] at hn
              have : n = s.stream.length := by simpa using hn.symm
              rw [hall, this]
            | some m =>
              rw [hhead] at hn
              have : n = m := by simpa using hn.symm
              subst this
              exact h.complete hov n hhead
        have hstate : g.state ≠ .opening := by rw [hg]; exact hop
        have hstep := hbase.uploads hup
        simp only [hacc, hfin, Bool.true_and, if_true, if_neg hstate] at hstep ⊢
        exact hstep
      | nothing hacc hfin hup =>
        have hstep := h.uploads hup
        simp only [hacc, hfin, Bool.false_and, Bool.or_false, if_neg hop] at hstep ⊢
        exact hstep

theorem next_inv (h : SessionInv s) (e : FlowEvent) : SessionInv (s.next e) := by
  cases e with
  | segment tcp now writes => exact segment_inv h tcp now writes
  | poll env => exact h.uploads (pollTcp_uploads s.flow env)
  | ready => exact h.uploads ⟨rfl, Nat.le_refl _, rfl, rfl, rfl, Iff.rfl⟩
  | evictIdle now timeout => exact h.uploads (Uploads.refl s.flow)
  | evictLru => exact h.uploads (Uploads.refl s.flow)

theorem start_inv (h : Opens f) : SessionInv (Session.start f) := by
  have hfresh : f.stream.outgoing = [] ∧ f.stream.writeShut = false ∧ f.writeBuf = [] ∧ f.guestFin = false := by
    cases h with
    | syn tcp ourSeq watched now hs => exact ⟨hs.2.1, hs.2.2, rfl, rfl⟩
    | forwarded ourSeq watched now hs => exact ⟨hs.2.1, hs.2.2, rfl, rfl⟩
  obtain ⟨hout, hshut, hbuf, hfin⟩ := hfresh
  refine ⟨?_, (seqAt_zero _).symm, fun _ => ⟨rfl, rfl⟩, fun hc => ?_, fun hc => ?_, fun _ n hn => ?_⟩
  · show f.stream.outgoing ++ f.writeBuf = []
    rw [hout, hbuf]
    rfl
  · have hc' : f.stream.writeShut = true := hc
    rw [hshut] at hc'
    cases hc'
  · have hc' : f.guestFin = true := hc
    rw [hfin] at hc'
    cases hc'
  · cases hn

theorem reached_session (h : SessionReached s) : SessionInv s := by
  induction h with
  | opens h => exact start_inv h
  | next e _ _ ih => exact next_inv ih e

/-! ### Removal -/

/-- The guest resets the connection, or the flow is evicted. -/
def FlowEvent.TearsDown : FlowEvent → Prop
  | .segment tcp _ _ => hasFlag tcp.flags tcpFlagRst = true
  | .evictIdle _ _ => True
  | .evictLru => True
  | .poll _ => False
  | .ready => False

theorem handleTcp_removed {tcp : TcpSegment} {now : Nat} {writes : List HostTurn}
    (h : (f.handleTcp tcp now writes).removed = true) : hasFlag tcp.flags tcpFlagRst = true := by
  by_contra hrst
  unfold TcpFlow.handleTcp at h
  rw [if_neg hrst] at h
  dsimp only at h
  split at h
  · split at h <;> cases h
  · split at h
    · split at h <;> cases h
    · split at h <;> cases h

theorem SessionInv.writeBuf_nil (h : SessionInv s) (hcomp : s.Complete) (hend : s.fins.head? = some s.stream.length) :
    s.flow.writeBuf = [] := by
  have hlen := congrArg List.length h.data
  have := hcomp s.stream.length hend
  rw [List.length_append] at hlen
  exact List.eq_nil_of_length_eq_zero (by omega)

end Session

/-- **The guest's stream reaches the host**: in every session the host took a prefix of the acknowledged stream and the
backlog is the rest of it. Unless a FIN overtook the backlog, the write side is shut down only once the host has every
byte before the FIN, and a flow that is neither reset nor evicted goes without a reset to the guest only then, with an
empty backlog if nothing came after the FIN. -/
theorem guest_stream_reaches_host {s : Session} (h : SessionReached s) :
    s.flow.stream.outgoing <+: s.stream ∧ s.flow.stream.outgoing ++ s.flow.writeBuf = s.stream ∧
      s.flow.guestNext = seqAt s.first (s.stream.length + s.fins.length) ∧
      (s.overtaken = false →
        (s.flow.stream.writeShut = true → s.fins ≠ [] ∧ s.Complete) ∧
        ∀ e, (s.flow.turn e).removed = true → ¬SendsReset (s.flow.turn e).replies →
          e.TearsDown ∨ ((s.next e).Complete ∧
            ((∀ n ∈ (s.next e).fins.head?, n = (s.next e).stream.length) → (s.next e).flow.writeBuf = []))) := by
  have hinv := reached_session h
  refine ⟨⟨_, hinv.data⟩, hinv.data, hinv.guestNext,
    fun hov => ⟨fun hshut => ⟨hinv.shut hshut, hinv.complete hov⟩,
    fun e hrem hnr => ?_⟩⟩
  cases e with
  | poll env =>
    have hnext := next_inv hinv (.poll env)
    have hcomp : (s.next (.poll env)).Complete := hnext.complete hov
    refine Or.inr ⟨hcomp, fun hend => ?_⟩
    rcases (pollTcp_removed s.flow env hrem).resolve_left hnr with hfin | hop
    · -- A closed flow saw a FIN.
      cases hhead : s.fins.head? with
      | none => exact absurd (List.head?_eq_none_iff.mp hhead) (hinv.guestFin hfin)
      | some n =>
        have hn : n = (s.next (.poll env)).stream.length := hend n hhead
        exact hnext.writeBuf_nil hcomp (hn ▸ hhead)
    · have hdata := hnext.data
      have hnil : (s.next (.poll env)).stream = [] := (hinv.opening hop).1
      rw [hnil] at hdata
      exact (List.append_eq_nil_iff.mp hdata).2
  | segment tcp now writes => exact Or.inl (handleTcp_removed hrem)
  | ready => cases hrem
  | evictIdle now timeout => exact Or.inl trivial
  | evictLru => exact Or.inl trivial

/-! ## A backlog -/

/-- A guest's SYN to a host that reads slowly. -/
def uploadStart : TcpFlow :=
  TcpFlow.openFromSyn ⟨[], 0, [], false⟩ ⟨0xffffffff, 0, tcpFlagSyn, 65535, [], [],
    TcpSegment.fits_nil⟩ 1 false 0

/-- The host connects. -/
def uploadPoll : PollEnv := ⟨0, 0, maxTcpUnackedBytes, .connected, [], [], false, (0, 0)⟩

theorem fits_two : ([7, 8] : List UInt8).length < 2 ^ 16 := by decide

/-- The guest sends two bytes, of which the host takes one. -/
def uploadSegment : FlowEvent := .segment ⟨0, 2, tcpFlagAck, 65535, [], [7, 8], fits_two⟩ 10 [.moves 1]

def backlogged : Session := ((Session.start uploadStart).next (.poll uploadPoll)).next uploadSegment

theorem backlogged_reached : SessionReached backlogged :=
  SessionReached.next _ (SessionReached.next _ (SessionReached.opens (Opens.syn _ _ _ _ ⟨rfl, rfl, rfl⟩))
    (by decide)) (by decide)

theorem guest_stream_reaches_host_backlog :
    backlogged.flow.writeBuf = [8] ∧ backlogged.flow.stream.outgoing <+: backlogged.stream ∧
      backlogged.flow.stream.outgoing ++ backlogged.flow.writeBuf = backlogged.stream ∧
      backlogged.flow.guestNext = seqAt backlogged.first (2 + 0) :=
  have h := guest_stream_reaches_host backlogged_reached
  ⟨by decide, h.1, h.2.1, h.2.2.1⟩

/-- A backlog is dropped without a reset to the guest by an idle eviction and by the guest's reset, and cut off by the
guest's FIN, which shuts the host's side down before the backlog. -/
theorem backlog_is_dropped :
    SessionReached backlogged ∧ backlogged.stream = [7, 8] ∧ backlogged.flow.writeBuf = [8] ∧
      (∃ e, e = FlowEvent.evictIdle 400000 300000 ∧ (backlogged.flow.turn e).removed = true ∧
        (backlogged.flow.turn e).replies = [] ∧ (backlogged.next e).flow.writeBuf = [8]) ∧
      (∃ e, e = FlowEvent.segment ⟨2, 2, tcpFlagRst, 0, [], [], by decide⟩ 20 [] ∧
        (backlogged.flow.turn e).removed = true ∧ (backlogged.flow.turn e).replies = [] ∧
        (backlogged.next e).flow.writeBuf = [8]) ∧
      (∃ e, e = FlowEvent.segment ⟨2, 2, tcpFlagFin ||| tcpFlagAck, 65535, [], [], TcpSegment.fits_nil⟩ 20
        [.moves 1] ∧
        (backlogged.next e).flow.stream.writeShut = true ∧ (backlogged.next e).flow.stream.outgoing = [7] ∧
        (backlogged.next e).fins = [2]) := by
  refine ⟨backlogged_reached, by decide, by decide, ⟨_, rfl, ?_⟩, ⟨_, rfl, ?_⟩, ⟨_, rfl, ?_⟩⟩
  · decide
  · decide
  · decide

end BridgeVm.NetNat
