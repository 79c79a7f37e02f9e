import BridgeVm.NetNat.GuestToHost

/-!
# The receive window announced to the guest (`net_nat/handle_outbound_ipv4.rs`, `macaddr.rs`)

- every segment to the guest announces at most what the write backlog still takes (`Announces`, `pollTcp_announces`);
- an `Upload` follows a session with the right edges announced so far, as positions of the guest's stream: they stay
  within what the backlog takes (`UploadInv`), for a guest whose payload stays within one of them;
- such a guest's payload is never dropped for the backlog, which never exceeds its limit (`upload_never_dropped`).
-/

namespace BridgeVm.NetNat

open Lib

/-- A segment that acknowledges, and announces a window; a reset ends the connection instead. -/
def TcpReply.announces (r : TcpReply) : Bool := hasFlag r.flags tcpFlagAck && !hasFlag r.flags tcpFlagRst

/-- The window of a segment in bytes; the field of a SYN is never scaled. -/
def TcpReply.windowBytes (shift : Nat) (r : TcpReply) : Nat :=
  if hasFlag r.flags tcpFlagSyn then r.window.toNat else r.window.toNat <<< shift

theorem Uploads.free {a b : TcpFlow} (h : Uploads a b) : a.freeWindow ≤ b.freeWindow := by
  have hlen := congrArg List.length h.data
  have hgrows := h.grows
  rw [List.length_append, List.length_append] at hlen
  unfold TcpFlow.freeWindow
  omega

/-! ## Announced windows -/

/-- A turn of a flow in `state`, with every window announced in it at most what the backlog still takes. -/
structure Announces (shift : Nat) (state : TcpProxyState) (s : Sending) : Prop where
  shift_eq : s.flow.ourShift = shift
  state_eq : s.flow.state = state
  within : ∀ r ∈ s.queue.replies, r.announces = true →
    r.ack = s.flow.guestNext ∧ r.windowBytes shift ≤ s.flow.freeWindow

section Announces

variable {shift : Nat} {state : TcpProxyState} {s s' : Sending} {p : Polling}

theorem Announces.keep (h : Announces shift state s) (hshift : s'.flow.ourShift = s.flow.ourShift)
    (hstate : s'.flow.state = s.flow.state) (hfree : s.flow.freeWindow ≤ s'.flow.freeWindow)
    (hreplies : s'.queue.replies = s.queue.replies) (hnext : s'.flow.guestNext = s.flow.guestNext) :
    Announces shift state s' where
  shift_eq := hshift.trans h.shift_eq
  state_eq := hstate.trans h.state_eq
  within r hr ha := by
    rw [hreplies] at hr
    obtain ⟨hack, hwindow⟩ := h.within r hr ha
    exact ⟨hack.trans hnext.symm, hwindow.trans hfree⟩

theorem Announces.push {state' : TcpProxyState} (h : Announces shift state s)
    (hshift : s'.flow.ourShift = s.flow.ourShift) (hfree : s'.flow.freeWindow = s.flow.freeWindow) {x : TcpReply}
    (hqueue : s'.queue = s.queue.push x)
    (hx : x.announces = true → x.ack = s.flow.guestNext ∧ x.windowBytes shift ≤ s.flow.freeWindow)
    (hstate : s'.flow.state = state') (hnext : s'.flow.guestNext = s.flow.guestNext) :
    Announces shift state' s' where
  shift_eq := hshift.trans h.shift_eq
  state_eq := hstate
  within r hr ha := by
    rw [hqueue] at hr
    rw [hfree, hnext]
    rcases mem_push hr with hr | rfl
    · exact h.within r hr ha
    · exact hx ha

theorem windowField_le (f : TcpFlow) : f.windowField.1.toNat <<< f.ourShift ≤ f.freeWindow := by
  have hfield : f.windowField.1.toNat = min (f.freeWindow >>> f.ourShift) 65535 := by
    show (UInt16.ofNat (min (f.freeWindow >>> f.ourShift) 65535)).toNat = _
    rw [UInt16.toNat_ofNat']
    exact Nat.mod_eq_of_lt (by omega)
  rw [hfield, Nat.shiftLeft_eq, Nat.shiftRight_eq_div_pow]
  have hdiv : f.freeWindow / 2 ^ f.ourShift * 2 ^ f.ourShift ≤ f.freeWindow := Nat.div_mul_le_self _ _
  exact (Nat.mul_le_mul_right _ (Nat.min_le_left _ _)).trans hdiv

theorem windowBytes_le (r : TcpReply) (shift : Nat) : r.windowBytes shift ≤ r.window.toNat <<< shift := by
  unfold TcpReply.windowBytes
  split
  · rw [Nat.shiftLeft_eq]
    exact Nat.le_mul_of_pos_right _ (Nat.two_pow_pos shift)
  · exact Nat.le_refl _

theorem segment_announces (h : Announces shift state s) (seq : UInt32) (flags : UInt8) (payload : List UInt8) :
    Announces shift state (s.segment seq flags payload) := by
  refine h.push rfl rfl (x := ⟨seq, s.flow.guestNext, flags, s.flow.windowField.1, [], payload⟩) rfl
    (fun _ => ⟨rfl, ?_⟩)
    h.state_eq rfl
  refine (windowBytes_le _ shift).trans ?_
  rw [← h.shift_eq]
  exact windowField_le s.flow

theorem mapSend_announces (h : Announces shift state s) {g : TcpSendState → TcpSendState}
    (hg : (g s.flow.send).windowShift = s.flow.send.windowShift) : Announces shift state (s.mapSend g) := by
  refine h.keep ?_ rfl (Nat.le_refl _) rfl rfl
  show (if (g s.flow.send).windowShift.isSome then _ else _) = _
  rw [hg]
  rfl

theorem repairLoss_announces (h : Announces shift state s) (wrap : Nat) :
    Announces shift state (s.repairLoss wrap) := by
  have hclear := mapSend_announces h (g := fun send => { send with resend := false }) rfl
  unfold Sending.repairLoss
  dsimp only
  split
  · exact segment_announces hclear _ _ _
  · exact hclear

theorem expire_announces (h : Announces shift state s) (wrap now : Nat) :
    Announces shift state (s.expire wrap now) := by
  have hclear := mapSend_announces h (g := fun send => { send with deadlineMs := none }) rfl
  unfold Sending.expire
  split
  · dsimp only
    split
    · exact mapSend_announces (mapSend_announces (segment_announces hclear _ _ _) rfl) rfl
    · split
      · exact mapSend_announces (segment_announces hclear _ _ _) rfl
      · exact hclear
  · exact h

theorem sendRead_announces (h : Announces shift state s) (payload : List UInt8) (now : Nat) :
    Announces shift state (s.sendRead payload now) := by
  obtain ⟨rto, deadline, hstart⟩ := startTimer_eq s now
  have htimer : Announces shift state (s.startTimer now) := by
    rw [hstart]
    exact mapSend_announces h rfl
  have hkeep : ∀ {s : Sending}, Announces shift state s → Announces shift state (s.keep payload) :=
    fun h => h.keep rfl rfl (Nat.le_refl _) rfl rfl
  unfold Sending.sendRead
  dsimp only
  split
  · exact mapSend_announces (hkeep (segment_announces htimer _ _ payload)) rfl
  · exact mapSend_announces (hkeep (segment_announces htimer _ _ payload)) rfl

theorem forward_announces (now : Nat) (reads : List HostTurn) (h : Announces shift state s) :
    Announces shift state (s.forward now reads).1 := by
  refine forward_rule now reads (fun _ h => h.keep rfl rfl (Nat.le_refl _) rfl rfl)
    (fun s' len r payload stream h _ _ => ?_) h
  have hset : Announces shift state (s'.setStream stream) := h.keep rfl rfl (Nat.le_refl _) rfl rfl
  exact sendRead_announces hset payload now

theorem armTimer_announces (h : Announces shift state s) (now : Nat) : Announces shift state (s.armTimer now) :=
  armTimer_rule now (fun _ => mapSend_announces h rfl) h

theorem sendToGuest_announces (h : Announces shift state s) (env : PollEnv) :
    Announces shift state (s.sendToGuest env).1 := by
  have hsent := forward_announces env.now env.reads
    (expire_announces (repairLoss_announces h env.wraps.1) env.wraps.2 env.now)
  exact sendToGuest_rule env hsent fun _ h => armTimer_announces h env.now

theorem reset_announces (h : Announces shift state p.toSending) (seq : UInt32) :
    Announces shift state (p.reset seq).toSending := by
  have hrst : hasFlag Polling.resetFlags tcpFlagRst = true := by decide
  refine h.push rfl rfl (x := ⟨seq, p.flow.guestNext, Polling.resetFlags, 65535, [], []⟩) rfl
    (fun ha => ?_) h.state_eq rfl
  rw [TcpReply.announces, hrst, Bool.not_true, Bool.and_false] at ha
  cases ha

theorem connect_announces (h : Announces shift state p.toSending)
    (hempty : state = .connecting → p.flow.writeBuf = [])
    (check : ConnectCheck) :
    Announces shift state (p.connect check).1.toSending ∧
        (p.connect check).1.queue.replies.length = p.queue.replies.length ∨
      Announces shift .established (p.connect check).1.toSending ∨ (p.connect check).2 = false := by
  have hsyn : hasFlag (tcpFlagSyn ||| tcpFlagAck) tcpFlagSyn = true := by decide
  unfold Polling.connect
  split
  · rename_i hc
    cases check with
    | connected =>
      refine Or.inr (Or.inl (h.push rfl rfl rfl (fun _ => ⟨rfl, ?_⟩) rfl rfl))
      rw [TcpReply.windowBytes, if_pos hsyn, TcpFlow.freeWindow, hempty (h.state_eq.symm.trans hc.1)]
      show 65535 ≤ maxTcpWriteBacklog - 0
      decide
    | pending => exact Or.inl ⟨h.keep rfl rfl (Nat.le_refl _) rfl rfl, rfl⟩
    | failed => exact Or.inr (Or.inr rfl)
  · exact Or.inl ⟨h, rfl⟩

theorem flushHostWrite_send (writes : List HostTurn) (f : TcpFlow) :
    (f.flushHostWrite writes).send = f.send ∧ (f.flushHostWrite writes).state = f.state := by
  induction writes generalizing f with
  | nil => exact ⟨rfl, rfl⟩
  | cons w writes ih =>
    unfold TcpFlow.flushHostWrite
    split
    · exact ⟨rfl, rfl⟩
    · split
      · exact ⟨rfl, rfl⟩
      · exact ih _
      · exact ⟨rfl, rfl⟩

theorem upload_announces (h : Announces shift state p.toSending) (env : PollEnv) :
    Announces shift state (p.upload env).toSending := by
  have hshift : (p.flow.flushHostWrite env.writes).ourShift = p.flow.ourShift := by
    rw [TcpFlow.ourShift, (flushHostWrite_send env.writes p.flow).1, TcpFlow.ourShift]
  exact h.keep hshift (flushHostWrite_send env.writes p.flow).2 (flushHostWrite_uploads env.writes p.flow).free rfl
    (flushHostWrite_uploads env.writes p.flow).guestNext

theorem acknowledge_announces (h : Announces shift state p.toSending) : Announces shift state p.acknowledge.toSending :=
  acknowledge_rule h (fun _ h => segment_announces h _ _ _) fun _ h => h.keep rfl rfl (Nat.le_refl _) rfl rfl

theorem download_announces (h : Announces shift state p.toSending) (env : PollEnv) :
    Announces shift state (p.download env).toSending :=
  download_rule env (sendToGuest_announces h env) fun _ h seq => reset_announces h seq

theorem finish_state (p : Polling) (now : Nat) : (p.finish now).flow.state = p.flow.state := by
  unfold Polling.finish
  dsimp only
  split
  · rfl
  · rfl

/-- What a turn that does not remove the flow announces: windows within the backlog from where it stands, and nothing
while connecting. -/
structure AnnouncesTurn (f : TcpFlow) (t : Turn) : Prop where
  within : ∀ r ∈ t.replies, r.announces = true →
    r.ack = f.guestNext ∧ r.windowBytes f.ourShift ≤ t.flow.freeWindow
  connecting : t.flow.state = .connecting → f.state = .connecting ∧ t.replies = []

/-- **A poll announces at most what the backlog takes after it.** -/
theorem pollTcp_announces (f : TcpFlow) (env : PollEnv) (hempty : f.state = .connecting → f.writeBuf = [])
    (hremoved : (f.pollTcp env).removed = false) : AnnouncesTurn f (f.pollTcp env) := by
  have hsyn : hasFlag tcpFlagSyn tcpFlagAck = false := by decide
  have hstart : Announces f.ourShift f.state ⟨f, ⟨env.waiting, []⟩, env.budget⟩ :=
    ⟨rfl, rfl, fun r hr => absurd hr (by simp)⟩
  have hconn :=
    connect_announces (p := ⟨⟨f, ⟨env.waiting, []⟩, env.budget⟩, false, false⟩) hstart hempty env.connect
  have hdue : (f.synDue env.now).1.state = f.state := by
    unfold TcpFlow.synDue
    split
    · rfl
    · split <;> rfl
  have hwithin : ∀ {state : TcpProxyState} {p : Polling}, Announces f.ourShift state p.toSending →
    Uploads f p.flow →
      ∀ r ∈ (p.finish env.now).replies, r.announces = true →
        r.ack = f.guestNext ∧ r.windowBytes f.ourShift ≤ (p.finish env.now).flow.freeWindow := by
    intro state p hp hup r hr ha
    obtain ⟨hack, hwindow⟩ := hp.within r hr ha
    exact ⟨hack.trans hup.guestNext, hwindow.trans (finish_uploads p env.now).free⟩
  have hup := connect_uploads ⟨⟨f, ⟨env.waiting, []⟩, env.budget⟩, false, false⟩ env.connect
  unfold TcpFlow.pollTcp at hremoved ⊢
  dsimp only at hremoved ⊢
  by_cases hop : f.state = .opening
  · rw [if_pos hop]
    split
    · rename_i f' heq
      rw [heq] at hdue
      refine ⟨fun r hr ha => ?_, fun hc => ?_⟩
      · rcases mem_push hr with hr | rfl
        · exact absurd hr (by simp)
        · rw [TcpReply.announces, hsyn, Bool.false_and] at ha
          cases ha
      · exact absurd ((hc.symm.trans hdue).trans hop) (by decide)
    · rename_i f' heq
      rw [heq] at hdue
      exact ⟨fun r hr => absurd hr (by simp), fun hc => absurd ((hc.symm.trans hdue).trans hop) (by decide)⟩
    · rename_i f' heq
      rw [heq] at hdue
      exact ⟨fun r hr => absurd hr (by simp), fun hc => absurd ((hc.symm.trans hdue).trans hop) (by decide)⟩
  · rw [if_neg hop] at hremoved ⊢
    rcases hc : Polling.connect ⟨⟨f, ⟨env.waiting, []⟩, env.budget⟩, false,
      false⟩ env.connect with ⟨p, go⟩
    rw [hc] at hconn hremoved hup
    cases go with
    | false => cases hremoved
    | true =>
      dsimp only at hconn hup ⊢
      have hruns := hup.trans ((upload_uploads p env).trans ((acknowledge_uploads _).trans (download_uploads _ env)))
      have hrun : ∀ {state : TcpProxyState}, Announces f.ourShift state p.toSending →
          Announces f.ourShift state (((p.upload env).acknowledge).download env).toSending :=
        fun hp => download_announces (acknowledge_announces (upload_announces hp env)) env
      rcases hconn with ⟨hp, hreplies⟩ | hp | hgo
      · by_cases hcon : p.flow.state = .connecting
        · rw [if_pos hcon]
          refine ⟨hwithin hp hup, fun _ => ⟨hp.state_eq.symm.trans hcon, ?_⟩⟩
          exact List.length_eq_zero_iff.mp hreplies
        · rw [if_neg hcon]
          refine ⟨hwithin (hrun hp) hruns, fun h => absurd ?_ hcon⟩
          rw [finish_state, (hrun hp).state_eq] at h
          exact hp.state_eq.trans h
      · have hcon : p.flow.state ≠ .connecting := by
          rw [hp.state_eq]
          decide
        rw [if_neg hcon]
        refine ⟨hwithin (hrun hp) hruns, fun h => ?_⟩
        rw [finish_state, (hrun hp).state_eq] at h
        cases h
      · cases hgo

end Announces

/-! ## Runs of a guest that honours the window -/

/-- How much of the guest's stream was acknowledged: its bytes, and its FINs. -/
def Session.taken (s : Session) : Nat := s.stream.length + s.fins.length

/-- A session, and the right edges announced to the guest so far, as positions of its stream. -/
structure Upload where
  session : Session
  edges : List Nat

namespace Upload

def start (f : TcpFlow) : Upload := ⟨Session.start f, []⟩

/-- One event: each segment that announces a window acknowledges what was taken (`AnnouncesTurn`). -/
def next (u : Upload) (e : FlowEvent) : Upload where
  session := u.session.next e
  edges := u.edges ++ ((u.session.flow.turn e).replies.filter TcpReply.announces).map fun r =>
    u.session.taken + r.windowBytes u.session.flow.ourShift

/-- A guest's payload ends within a right edge announced to it. Its sequence number stands for the position nearest to
what was acknowledged. -/
def Within (u : Upload) (tcp : TcpSegment) : Prop :=
  tcp.payload ≠ [] → ∃ pos, tcp.seq = seqAt u.session.first pos ∧ pos < u.session.taken + 2 ^ 31 ∧
    u.session.taken < pos + 2 ^ 31 ∧ ∃ edge ∈ u.edges, pos + tcp.payload.length ≤ edge

def Honours (u : Upload) : FlowEvent → Prop
  | .segment tcp _ _ => u.Within tcp
  | _ => True

/-- The states of a flow whose guest honours the window. -/
inductive Reached : Upload → Prop
  | opens {f : TcpFlow} : Opens f → Reached (start f)
  | next {u : Upload} (e : FlowEvent) :
    Reached u → u.Honours e → (u.session.flow.turn e).removed = false → Reached (u.next e)

end Upload

structure UploadInv (u : Upload) : Prop where
  session : SessionInv u.session
  backlog : u.session.flow.writeBuf.length ≤ maxTcpWriteBacklog
  /-- The backlog takes everything up to a right edge. -/
  edges : ∀ edge ∈ u.edges, edge ≤ u.session.taken + u.session.flow.freeWindow
  connecting : u.session.flow.state = .connecting → u.session.flow.writeBuf = [] ∧ u.edges = []

section Upload

variable {u : Upload} {f b : TcpFlow} {tcp : TcpSegment}

theorem UploadInv.fits (h : UploadInv u) (hw : u.Within tcp) (hpay : tcp.payload ≠ [])
    (hseq : tcp.seq = u.session.flow.guestNext) :
    u.session.flow.writeBuf.length + tcp.payload.length ≤ maxTcpWriteBacklog := by
  obtain ⟨pos, hpos, hlt, hgt, edge, hmem, hedge⟩ := hw hpay
  have hnext : tcp.seq = seqAt u.session.first u.session.taken := hseq.trans h.session.guestNext
  have hat : pos = u.session.taken := by
    rcases Nat.le_total pos u.session.taken with hle | hle
    · exact ((seqAt_inj (by omega) hle).mp (hnext.symm.trans hpos)).symm
    · exact (seqAt_inj (by omega) hle).mp (hpos.symm.trans hnext)
  have hfree := h.edges edge hmem
  have hbacklog := h.backlog
  unfold TcpFlow.freeWindow at hfree
  omega

theorem Uploads.writeBuf_le {a b : TcpFlow} (h : Uploads a b) : b.writeBuf.length ≤ a.writeBuf.length := by
  have hlen := congrArg List.length h.data
  have hgrows := h.grows
  rw [List.length_append, List.length_append] at hlen
  omega

/-! ### Guest segments -/

theorem takeFin_state (f : TcpFlow) (tcp : TcpSegment) : (f.takeFin tcp).state = f.state := by
  unfold TcpFlow.takeFin
  split
  · rfl
  · rfl

theorem handleTcp_state (f : TcpFlow) (tcp : TcpSegment) (now : Nat) (writes : List HostTurn)
    (hop : f.state ≠ .opening) : (f.handleTcp tcp now writes).flow.state = f.state := by
  have hack : (({ f with lastActivity := now } : TcpFlow).takeAck tcp).state = f.state := by
    unfold TcpFlow.takeAck
    split
    · rfl
    · rfl
  unfold TcpFlow.handleTcp
  dsimp only
  split
  · rfl
  · split
    · split
      · exact hack
      · rw [takeFin_state, TcpFlow.takePayload, (flushHostWrite_send _ _).2]
        exact hack
    · split
      · exact (takeFin_state _ tcp).trans hack
      · exact (takeFin_state _ tcp).trans hack

theorem handleTcp_replies (f : TcpFlow) (tcp : TcpSegment) (now : Nat) (writes : List HostTurn) :
    (f.handleTcp tcp now writes).replies = [] := by
  unfold TcpFlow.handleTcp
  dsimp only
  split
  · rfl
  · split
    · split <;> rfl
    · split
      · split <;> rfl
      · split <;> rfl

theorem handleTcp_opening_state (f : TcpFlow) (tcp : TcpSegment) (now : Nat) (writes : List HostTurn)
    (hop : f.state = .opening) : (f.handleTcp tcp now writes).flow.state ≠ .connecting := by
  unfold TcpFlow.handleTcp
  dsimp only
  split
  · rw [hop]
    decide
  · split
    · exact fun h => by cases h
    · exact fun h => by
        rw [hop] at h
        cases h

/-- A segment of a guest that honours the window. -/
theorem segment_upload (h : UploadInv u) (hw : u.Within tcp) (now : Nat) (writes : List HostTurn)
    (hremoved : (u.session.flow.turn (.segment tcp now writes)).removed = false) :
    UploadInv (u.next (.segment tcp now writes)) := by
  have hrst : hasFlag tcp.flags tcpFlagRst = false := by
    refine Bool.eq_false_iff.mpr fun hrst => ?_
    simp only [TcpFlow.turn, TcpFlow.handleTcp, hrst, if_true] at hremoved
    cases hremoved
  have hedges : (u.next (.segment tcp now writes)).edges = u.edges := by
    show u.edges ++ (List.filter _ (u.session.flow.handleTcp tcp now writes).replies).map _ = u.edges
    rw [handleTcp_replies]
    exact List.append_nil _
  have hstep : u.session.taken + u.session.flow.freeWindow ≤
        (u.session.next (.segment tcp now writes)).taken +
          (u.session.flow.handleTcp tcp now writes).flow.freeWindow ∧
      (u.session.flow.handleTcp tcp now writes).flow.writeBuf.length ≤ maxTcpWriteBacklog ∧
      (tcp.payload = [] →
        (u.session.flow.handleTcp tcp now writes).flow.writeBuf.length ≤ u.session.flow.writeBuf.length) := by
    have hbacklog := h.backlog
    by_cases hop : u.session.flow.state = .opening
    · obtain ⟨hacc, hfin⟩ := not_accepts tcp (Or.inr hop)
      obtain ⟨-, hbuf, -⟩ := handleTcp_opening tcp now writes hop _ rfl
      simp only [Session.next, Session.taken, hacc, hfin, TcpFlow.freeWindow, hbuf]
      exact ⟨Nat.le_refl _, hbacklog, fun _ => Nat.le_refl _⟩
    · cases handleTcp_takes tcp now writes hrst hop with
      | payload g hacc hfin hg hup =>
        obtain ⟨-, -, hpay, hseq, -⟩ := accepts_iff.mp hacc
        have hfits := h.fits hw hpay hseq
        have hgrown : g.writeBuf.length = u.session.flow.writeBuf.length + tcp.payload.length := by
          rw [hg]
          exact List.length_append
        have hle := hup.writeBuf_le
        simp only [Session.next, Session.taken, hacc, hfin, TcpFlow.freeWindow, if_true, Bool.false_eq_true, if_false,
          List.length_append]
        exact ⟨by omega, by omega, fun hnil => absurd hnil hpay⟩
      | fin g hacc hfin hg hup =>
        have hsame : g.writeBuf = u.session.flow.writeBuf := by rw [hg]
        have hle := hup.writeBuf_le
        rw [hsame] at hle
        simp only [Session.next, Session.taken, hacc, hfin, TcpFlow.freeWindow, if_true, Bool.false_eq_true, if_false,
          List.length_append]
        exact ⟨by omega, by omega, fun _ => hle⟩
      | nothing hacc hfin hup =>
        have hle := hup.writeBuf_le
        simp only [Session.next, Session.taken, hacc, hfin, TcpFlow.freeWindow, Bool.false_eq_true, if_false]
        exact ⟨by omega, by omega, fun _ => hle⟩
  obtain ⟨hfree, hlimit, hshort⟩ := hstep
  refine ⟨segment_inv h.session tcp now writes, hlimit, fun edge hmem => ?_, fun hconn => ?_⟩
  · rw [hedges] at hmem
    exact (h.edges edge hmem).trans hfree
  · have hbefore : u.session.flow.state = .connecting := by
      by_cases hop : u.session.flow.state = .opening
      · exact absurd hconn (handleTcp_opening_state u.session.flow tcp now writes hop)
      · rw [← handleTcp_state u.session.flow tcp now writes hop]
        exact hconn
    obtain ⟨hbuf, hnone⟩ := h.connecting hbefore
    have hnil : tcp.payload = [] := by
      by_contra hpay
      obtain ⟨pos, -, -, -, edge, hmem, -⟩ := hw hpay
      rw [hnone] at hmem
      cases hmem
    have hlen := hshort hnil
    rw [hbuf] at hlen
    rw [hedges]
    exact ⟨List.length_eq_zero_iff.mp (Nat.le_zero.mp hlen), hnone⟩

/-! ### The other events -/

theorem poll_upload (h : UploadInv u) (env : PollEnv)
    (hremoved : (u.session.flow.turn (.poll env)).removed = false) : UploadInv (u.next (.poll env)) := by
  have hup := pollTcp_uploads u.session.flow env
  have hannounce := pollTcp_announces u.session.flow env (fun hc => (h.connecting hc).1) hremoved
  refine ⟨next_inv h.session (.poll env), hup.writeBuf_le.trans h.backlog, fun edge hmem => ?_, fun hc => ?_⟩
  · show edge ≤ u.session.taken + (u.session.flow.pollTcp env).flow.freeWindow
    rcases List.mem_append.mp hmem with hmem | hmem
    · exact (h.edges edge hmem).trans (Nat.add_le_add_left hup.free _)
    · obtain ⟨r, hr, rfl⟩ := List.mem_map.mp hmem
      obtain ⟨hr, ha⟩ := List.mem_filter.mp hr
      exact Nat.add_le_add_left (hannounce.within r hr ha).2 _
  · obtain ⟨hbefore, hreplies⟩ := hannounce.connecting hc
    obtain ⟨hbuf, hnone⟩ := h.connecting hbefore
    have hlen := hup.writeBuf_le
    rw [hbuf] at hlen
    refine ⟨List.length_eq_zero_iff.mp (Nat.le_zero.mp hlen), ?_⟩
    show u.edges ++ (List.filter _ (u.session.flow.pollTcp env).replies).map _ = []
    rw [hnone, hreplies]
    rfl

theorem UploadInv.idle (h : UploadInv u) {e : FlowEvent} (hreplies : (u.session.flow.turn e).replies = [])
    (htaken : (u.session.next e).taken = u.session.taken)
    (hbuf : (u.session.next e).flow.writeBuf = u.session.flow.writeBuf)
    (hstate : (u.session.next e).flow.state = u.session.flow.state) : UploadInv (u.next e) := by
  have hedges : (u.next e).edges = u.edges := by
    show u.edges ++ (List.filter _ (u.session.flow.turn e).replies).map _ = u.edges
    rw [hreplies]
    exact List.append_nil _
  refine ⟨next_inv h.session e, ?_, fun edge hmem => ?_, fun hc => ?_⟩
  · show (u.session.next e).flow.writeBuf.length ≤ _
    rw [hbuf]
    exact h.backlog
  · rw [hedges] at hmem
    show edge ≤ (u.session.next e).taken + (u.session.next e).flow.freeWindow
    rw [htaken, TcpFlow.freeWindow, hbuf]
    exact h.edges edge hmem
  · have hc' : (u.session.next e).flow.state = .connecting := hc
    rw [hstate] at hc'
    rw [hedges]
    exact ⟨hbuf.trans (h.connecting hc').1, (h.connecting hc').2⟩

theorem next_upload (h : UploadInv u) (e : FlowEvent) (he : u.Honours e)
    (hremoved : (u.session.flow.turn e).removed = false) : UploadInv (u.next e) := by
  cases e with
  | segment tcp now writes => exact segment_upload h he now writes hremoved
  | poll env => exact poll_upload h env hremoved
  | ready => exact h.idle rfl rfl rfl rfl
  | evictIdle now timeout => exact h.idle rfl rfl rfl rfl
  | evictLru => exact h.idle rfl rfl rfl rfl

theorem start_upload (h : Opens f) : UploadInv (Upload.start f) := by
  have hbuf : f.writeBuf = [] := by
    cases h <;> rfl
  refine ⟨start_inv h, ?_, fun edge hmem => absurd hmem List.not_mem_nil, fun _ => ⟨hbuf, rfl⟩⟩
  show f.writeBuf.length ≤ _
  rw [hbuf]
  exact Nat.zero_le _

theorem reached_upload (h : u.Reached) : UploadInv u := by
  induction h with
  | opens h => exact start_upload h
  | next e _ he hremoved ih => exact next_upload ih e he hremoved

/-- **Uploads within the window are never dropped**: the backlog stays within its limit, and payload that is in order
and within an announced right edge is acknowledged and kept for the host. -/
theorem upload_never_dropped (h : u.Reached) :
    u.session.flow.writeBuf.length ≤ maxTcpWriteBacklog ∧
      ∀ (tcp : TcpSegment) (now : Nat) (writes : List HostTurn), u.Within tcp →
        hasFlag tcp.flags tcpFlagRst = false → u.session.flow.state ≠ .opening → tcp.payload ≠ [] →
        tcp.seq = u.session.flow.guestNext →
          let f := u.session.flow
          let f' := (f.handleTcp tcp now writes).flow
          f'.stream.outgoing ++ f'.writeBuf = f.stream.outgoing ++ f.writeBuf ++ tcp.payload ∧
            f'.guestNext = f.guestNext + UInt32.ofNat tcp.payload.length := by
  have hinv := reached_upload h
  refine ⟨hinv.backlog, fun tcp now writes hw hrst hop hpay hseq => ?_⟩
  have hfits := hinv.fits hw hpay hseq
  have hpos : 0 < tcp.payload.length := List.length_pos_iff.mpr hpay
  have hacc : u.session.flow.accepts tcp = true := accepts_iff.mpr ⟨hrst, hop, hpay, hseq, by omega⟩
  cases handleTcp_takes tcp now writes hrst hop with
  | payload g _ _ hg hup =>
    refine ⟨?_, ?_⟩
    · rw [hup.data, hg]
      exact (List.append_assoc _ _ _).symm
    · rw [hup.guestNext, hg]
  | fin g hno => exact absurd (hacc.symm.trans hno) (by decide)
  | nothing hno => exact absurd (hacc.symm.trans hno) (by decide)

end Upload

/-- The connection of `downloadStart` answered by its host: the SYN-ACK announced 65535 bytes. -/
def uploading : Upload := (Upload.start downloadStart).next (.poll downloadPoll)

theorem uploading_reached : uploading.Reached :=
  Upload.Reached.next _ (Upload.Reached.opens (Opens.syn _ _ _ _ ⟨rfl, rfl, rfl⟩)) trivial (by decide)

def firstSegment : TcpSegment := ⟨101, 0, tcpFlagAck, 65535, [], [7, 8], fits_two⟩

theorem firstSegment_within : uploading.Within firstSegment :=
  fun _ => ⟨0, by decide, by decide, by decide, 65535, by decide, by decide⟩

theorem upload_never_dropped_first :
    let f' := (uploading.session.flow.handleTcp firstSegment 0 []).flow
    f'.stream.outgoing ++ f'.writeBuf = [7, 8] ∧ f'.guestNext = 103 :=
  (upload_never_dropped uploading_reached).2 firstSegment 0 [] firstSegment_within (by decide) (by decide) (by decide)
    (by decide)

end BridgeVm.NetNat
