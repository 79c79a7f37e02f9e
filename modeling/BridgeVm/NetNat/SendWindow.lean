import BridgeVm.NetNat.UploadWindow

/-!
# The guest's receive window (`net_nat/tcp_send.rs`)

- `Quiet`: what a poll queues before it reads the host socket carries no byte for the first time;
- `Paced`: what it queues then ends within the window, and none of it while a loss is repaired (`forward_paced`);
- `Repairing`: a loss under repair has data in flight (`turn_repairing`), so its timer is armed (`armTimer_armed`);
- `Offered`: runs with what the guest last advertised, which is what the flow sends by (`offered_eq`);
- `window_respected`: the three together, over every run.
-/

namespace BridgeVm.NetNat

open Lib

/-- The segment carries a byte that was not sent before. -/
def TcpFlow.FirstSent (f : TcpFlow) (r : TcpReply) : Prop :=
  r.payload ≠ [] ∧ f.send.inFlight < (r.seq - f.send.una).toNat + r.payload.length

namespace TcpSendState

/-- Data or a FIN is unacknowledged, or the guest's window is shut with the host's stream still open. -/
def Waiting (s : TcpSendState) : Prop := s.inFlight ≠ 0 ∨ s.window = 0 ∧ s.finSent = false

/-- A loss is repaired up to everything in flight. -/
def Repairing (s : TcpSendState) : Prop := ∀ r, s.recover = some r → r = s.next ∧ s.inFlight ≠ 0

end TcpSendState

section Polls

variable {f : TcpFlow} {s s' : Sending} {wrap now : Nat}

/-! ## Before the host socket is read -/

/-- A poll of `f` under way that sent nothing for the first time. -/
structure Quiet (f : TcpFlow) (s : Sending) : Prop where
  same : SameData f s.flow
  old : ∀ r ∈ s.queue.replies, ¬f.FirstSent r
  recover : s.flow.send.recover = none → f.send.recover = none
  repairing : s.flow.send.Repairing

theorem SameData.inFlight {a b : TcpFlow} (h : SameData a b) : b.send.inFlight = a.send.inFlight := by
  rw [TcpSendState.inFlight, TcpSendState.inFlight, h.next, h.una]

theorem SameData.repairing {a b : TcpFlow} (h : SameData a b) (hr : b.send.recover = a.send.recover)
    (ha : a.send.Repairing) : b.send.Repairing := by
  intro r hb
  rw [h.next, h.inFlight]
  exact ha r (hr ▸ hb)

theorem Quiet.keep (h : Quiet f s) (hd : SameData s.flow s'.flow) (hq : s'.queue = s.queue)
    (hr : s'.flow.send.recover = s.flow.send.recover) : Quiet f s' where
  same := h.same.trans hd
  old := by rw [hq]; exact h.old
  recover := by rw [hr]; exact h.recover
  repairing := hd.repairing hr h.repairing

theorem Quiet.push (h : Quiet f s) (hd : SameData s.flow s'.flow) {x : TcpReply} (hq : s'.queue = s.queue.push x)
    (hx : ¬f.FirstSent x) (hr : s'.flow.send.recover = s.flow.send.recover) : Quiet f s' := by
  have hkeep : Quiet f { s' with queue := s.queue } := h.keep hd rfl hr
  refine ⟨hkeep.same, fun r hmem => ?_, hkeep.recover, hkeep.repairing⟩
  rw [hq] at hmem
  rcases mem_push hmem with hmem | rfl
  · exact h.old r hmem
  · exact hx

theorem Quiet.mark (h : Quiet f s) (hd : SameData s.flow s'.flow) (hq : s'.queue = s.queue)
    (hr : s'.flow.send.recover = some s.flow.send.next) (hflight : s.flow.send.inFlight ≠ 0) : Quiet f s' := by
  refine ⟨h.same.trans hd, by rw [hq]; exact h.old, fun hnone => ?_, fun r hmark => ?_⟩
  · rw [hr] at hnone
    cases hnone
  · rw [hr] at hmark
    cases hmark
    exact ⟨hd.next.symm, by rw [hd.inFlight]; exact hflight⟩

theorem not_firstSent_bare {r : TcpReply} (h : r.payload = []) : ¬f.FirstSent r := fun hf => hf.1 h

theorem segment_quiet (h : Quiet f s) (seq : UInt32) (flags : UInt8) : Quiet f (s.segment seq flags []) :=
  h.push (x := ⟨seq, s.flow.guestNext, flags, s.flow.windowField.1, [], []⟩) (windowField_same s.flow) rfl
    (not_firstSent_bare rfl) rfl

theorem resendOldest_quiet (hinv : f.Inv) (h : Quiet f s) (wrap : Nat) : Quiet f (s.resendOldest wrap) := by
  unfold Sending.resendOldest
  dsimp only
  rw [asSlices_take]
  refine h.push (windowField_same s.flow) rfl ?_ rfl
  rintro ⟨-, hpast⟩
  -- it starts at the oldest byte in flight and ends where what is kept does
  dsimp only at hpast
  rw [h.same.una, h.same.unacked, UInt32.sub_self, hinv.inFlight_eq, List.length_take] at hpast
  change _ < 0 + min (min f.send.unacked.len tcpMss) f.send.unacked.len at hpast
  omega

theorem repairLoss_quiet (hinv : f.Inv) (h : Quiet f s) (wrap : Nat) : Quiet f (s.repairLoss wrap) := by
  have hclear : Quiet f (s.mapSend fun send => { send with resend := false }) := h.keep (by constructor <;> rfl) rfl rfl
  unfold Sending.repairLoss
  dsimp only
  split
  · exact resendOldest_quiet hinv hclear wrap
  · exact hclear

theorem expire_quiet (hinv : f.Inv) (h : Quiet f s) (wrap now : Nat) : Quiet f (s.expire wrap now) := by
  have hclear : Quiet f (s.mapSend fun send => { send with deadlineMs := none }) :=
    h.keep (by constructor <;> rfl) rfl rfl
  unfold Sending.expire
  split
  · dsimp only
    split
    · rename_i hflight
      have hresent := resendOldest_quiet hinv hclear wrap
      generalize Sending.resendOldest _ wrap = resent at hresent ⊢
      have hstill : resent.flow.send.inFlight ≠ 0 := by
        rw [hresent.same.inFlight, ← h.same.inFlight]
        exact hflight
      exact hresent.mark (by constructor <;> rfl) rfl rfl hstill
    · split
      · exact (segment_quiet hclear _ _).keep (by constructor <;> rfl) rfl rfl
      · exact hclear
  · exact h

/-! ## New data -/

/-- A poll of `f` under way: what it sent for the first time ends within the guest's window, and was sent while no loss
was under repair. -/
structure Paced (f : TcpFlow) (s : Sending) : Prop where
  good : Good f s
  window : s.flow.send.window = f.send.window
  within : ∀ r ∈ s.queue.replies, f.FirstSent r →
    (r.seq - f.send.una).toNat + r.payload.length ≤ f.send.window ∧
    f.send.recover = none ∧ s.flow.send.recover = none
  recover : s.flow.send.recover = none → f.send.recover = none
  repairing : s.flow.send.Repairing

theorem Quiet.paced (h : Quiet f s) (hgood : Good f s) : Paced f s where
  good := hgood
  window := h.same.window
  within r hr hfirst := absurd hfirst (h.old r hr)
  recover := h.recover
  repairing := h.repairing

theorem Paced.keep (h : Paced f s) (hd : SameData s.flow s'.flow) (hq : s'.queue = s.queue)
    (hr : s'.flow.send.recover = s.flow.send.recover) : Paced f s' where
  good := h.good.same hd hq
  window := hd.window.trans h.window
  within := by rw [hq, hr]; exact h.within
  recover := by rw [hr]; exact h.recover
  repairing := hd.repairing hr h.repairing

theorem readLen_recover {len : Nat} (h : s.readLen = some len) : s.flow.send.recover = none := by
  unfold Sending.readLen at h
  split at h
  · cases h
  · dsimp only at h
    split at h
    · cases h
    · rename_i hroom
      cases hr : s.flow.send.recover with
      | none => rfl
      | some r =>
        have hshut : s.flow.send.room = 0 := by
          unfold TcpSendState.room
          rw [if_pos (by rw [hr]; rfl)]
        rw [hshut, Nat.zero_min] at hroom
        exact absurd (Or.inl rfl) hroom

theorem sendRead_recover (s : Sending) (payload : List UInt8) (now : Nat) :
    (s.sendRead payload now).flow.send.recover = s.flow.send.recover := by
  obtain ⟨rto, deadline, hstart⟩ := startTimer_eq s now
  unfold Sending.sendRead
  dsimp only
  rw [hstart]
  cases payload with
  | nil => rfl
  | cons b bytes => rfl

/-- A first transmission ends within the guest's window. -/
theorem sendRead_paced (h : Paced f s) {len : Nat} {r : HostTurn} {payload : List UInt8} {stream : TcpStream}
    (hlen : s.readLen = some len) (hread : s.flow.stream.read len r = (.ok payload, stream)) (now : Nat) :
    Paced f ((s.setStream stream).sendRead payload now) := by
  obtain ⟨-, -, hroom⟩ := readLen_some hlen
  obtain ⟨-, hple, -, -⟩ := read_ok hread
  obtain ⟨-, -, -, hwindow, -, -, -, -, ack, window, hq⟩ := sendRead_spec s stream payload now
  have hnone := readLen_recover hlen
  have hrecover : ((s.setStream stream).sendRead payload now).flow.send.recover = none :=
    (sendRead_recover _ payload now).trans hnone
  refine ⟨sendRead_good h.good hlen hread now, hwindow.trans h.window, fun x hx hfirst => ?_,
    fun _ => h.recover hnone, fun mark hmark => ?_⟩
  · rw [hq] at hx
    rcases mem_push hx with hx | rfl
    · exact ⟨(h.within x hx hfirst).1, h.recover hnone, hrecover⟩
    · refine ⟨?_, h.recover hnone, hrecover⟩
      -- the segment starts where what is in flight ends
      have hflight : (s.flow.send.next - f.send.una).toNat = s.flow.send.inFlight := by
        rw [← h.good.una]
        rfl
      dsimp only
      rw [hflight, ← h.window]
      omega
  · rw [hrecover] at hmark
    cases hmark

theorem readAgain_paced (h : Paced f s) : Paced f s.readAgain := h.keep (by constructor <;> rfl) rfl rfl

theorem forward_paced (now : Nat) (reads : List HostTurn) (h : Paced f s) : Paced f (s.forward now reads).1 :=
  forward_rule now reads (fun _ h => readAgain_paced h)
    (fun _ _ _ _ _ h hlen hread => sendRead_paced h hlen hread now) h

theorem armTimer_paced (h : Paced f s) (now : Nat) : Paced f (s.armTimer now) :=
  armTimer_rule now (fun _ => h.keep (by constructor <;> rfl) rfl rfl) h

theorem armTimer_armed (s : Sending) (now : Nat) (h : (s.armTimer now).flow.send.Waiting) :
    (s.armTimer now).flow.send.deadlineMs.isSome = true := by
  unfold Sending.armTimer at h ⊢
  dsimp only at h ⊢
  by_cases hwait : s.flow.send.inFlight ≠ 0 ∨ s.flow.send.window = 0 ∧ (!s.flow.send.finSent) = true
  · rw [if_pos hwait]
    split
    · rfl
    · rename_i harmed
      rw [Option.isNone_iff_eq_none] at harmed
      exact Option.isSome_iff_ne_none.mpr harmed
  · rw [if_neg hwait] at h
    refine absurd (h.imp id fun hshut => ⟨hshut.1, ?_⟩) hwait
    have hopen : s.flow.send.finSent = false := hshut.2
    rw [hopen]
    rfl

theorem sendToGuest_paced (hinv : f.Inv) (h : Quiet f s) (hgood : Good f s) (env : PollEnv) :
    Paced f (s.sendToGuest env).1 := by
  have hquiet := expire_quiet hinv (repairLoss_quiet hinv h env.wraps.1) env.wraps.2 env.now
  have hstart := hquiet.paced (expire_good (repairLoss_good hgood env.wraps.1) env.wraps.2 env.now)
  exact sendToGuest_rule env (forward_paced env.now env.reads hstart) fun _ h => armTimer_paced h env.now

/-- **Unless the host socket failed, the timer runs when `send_to_guest` returns and something waits for the guest.** -/
theorem sendToGuest_armed (s : Sending) (env : PollEnv) (hread : (s.sendToGuest env).2 ≠ .failed)
    (hwait : (s.sendToGuest env).1.flow.send.Waiting) : (s.sendToGuest env).1.flow.send.deadlineMs.isSome = true := by
  unfold Sending.sendToGuest at hread hwait ⊢
  dsimp only at hread hwait ⊢
  generalize Sending.forward env.now env.reads _ = sent at hread hwait ⊢
  obtain ⟨s', result⟩ := sent
  cases result with
  | failed => exact absurd rfl hread
  | idle => exact armTimer_armed s' env.now hwait
  | sent => exact armTimer_armed s' env.now hwait

/-! ## A whole poll -/

variable {p : Polling}

theorem connect_quiet (h : Quiet f p.toSending) (check : ConnectCheck) : Quiet f (p.connect check).1.toSending := by
  unfold Polling.connect
  split
  · cases check with
    | connected => exact h.push (by constructor <;> rfl) rfl (not_firstSent_bare rfl) rfl
    | pending => exact h.keep (by constructor <;> rfl) rfl rfl
    | failed =>
      exact h.push (x := ⟨p.flow.ourSeq, p.flow.guestNext, Polling.resetFlags, 65535, [], []⟩)
        (by constructor <;> rfl) rfl
        (not_firstSent_bare rfl) rfl
  · exact h

theorem upload_quiet (h : Quiet f p.toSending) (env : PollEnv) : Quiet f (p.upload env).toSending := by
  refine h.keep ((flushHostWrite_same env.writes p.flow).trans (by constructor <;> rfl)) rfl ?_
  exact congrArg TcpSendState.recover (flushHostWrite_send env.writes p.flow).1

theorem acknowledge_quiet (h : Quiet f p.toSending) : Quiet f p.acknowledge.toSending :=
  acknowledge_rule h (fun _ h => segment_quiet h _ _) fun _ h => h.keep (by constructor <;> rfl) rfl rfl

theorem reset_paced (h : Paced f p.toSending) (seq : UInt32) : Paced f (p.reset seq).toSending := by
  refine ⟨reset_good h.good seq, h.window, fun r hr hfirst => ?_, h.recover, h.repairing⟩
  have hr : r ∈ (p.queue.push ⟨seq, p.flow.guestNext, Polling.resetFlags, 65535, [], []⟩).replies := hr
  rcases mem_push hr with hr | rfl
  · exact h.within r hr hfirst
  · exact absurd hfirst (not_firstSent_bare rfl)

theorem download_paced (hinv : f.Inv) (h : Quiet f p.toSending) (hgood : Good f p.toSending) (env : PollEnv) :
    Paced f (p.download env).toSending := by
  exact download_rule env (sendToGuest_paced hinv h hgood env) fun _ h seq => reset_paced h seq

theorem download_armed (env : PollEnv) (hremoved : (p.download env).removed = false)
    (hwait : (p.download env).flow.send.Waiting) : (p.download env).flow.send.deadlineMs.isSome = true := by
  have harmed := sendToGuest_armed p.toSending env
  unfold Polling.download at hremoved hwait ⊢
  generalize p.toSending.sendToGuest env = sent at harmed hremoved hwait ⊢
  obtain ⟨s', result⟩ := sent
  cases result with
  | failed => cases hremoved
  | idle => exact harmed nofun hwait
  | sent => exact harmed nofun hwait

/-- What a turn of a flow sends for the first time, the repair it leaves, and the timer of what waits. -/
structure PacedTurn (f : TcpFlow) (t : Turn) : Prop where
  una : t.flow.send.una = f.send.una
  window : t.flow.send.window = f.send.window
  within : ∀ r ∈ t.replies, f.FirstSent r → (r.seq - f.send.una).toNat + r.payload.length ≤ f.send.window ∧
    f.send.recover = none ∧ t.flow.send.recover = none
  repairing : t.flow.send.Repairing
  armed : t.removed = false → t.flow.state = .established → t.flow.send.Waiting →
    t.flow.send.deadlineMs.isSome = true

theorem finish_send (p : Polling) (now : Nat) : (p.finish now).flow.send = p.flow.send := by
  unfold Polling.finish
  dsimp only
  split
  · rfl
  · rfl

theorem finish_paced (h : Paced f p.toSending) (now : Nat)
    (harmed : p.removed = false → p.flow.state = .established →
    p.flow.send.Waiting → p.flow.send.deadlineMs.isSome = true) : PacedTurn f (p.finish now) where
  una := by rw [finish_send]; exact h.good.una
  window := by rw [finish_send]; exact h.window
  within := by rw [finish_send]; exact h.within
  repairing := by rw [finish_send]; exact h.repairing
  armed hremoved := by
    rw [finish_send, finish_state]
    exact harmed (Bool.or_eq_false_iff.mp hremoved).1

theorem synDue_send (f : TcpFlow) (now : Nat) :
    (f.synDue now).1.send.recover = f.send.recover ∧ (f.synDue now).1.state = f.state := by
  unfold TcpFlow.synDue
  split
  · exact ⟨rfl, rfl⟩
  · split
    · exact ⟨rfl, rfl⟩
    · exact ⟨rfl, rfl⟩

theorem opening_paced (hrep : f.send.Repairing) (hopening : f.state = .opening) (now : Nat) {q : ReplyQueue}
    (hq : q.replies = []) {t : Turn} (hflow : t.flow = (f.synDue now).1)
    (hreplies : t.replies = [] ∨ t.replies = (t.flow.queueSyn q).replies) : PacedTurn f t := by
  have hsame := synDue_same f now
  obtain ⟨hrecover, hstate⟩ := synDue_send f now
  rw [← hflow] at hsame hrecover hstate
  refine ⟨hsame.una, hsame.window, fun r hr hfirst => ?_, hsame.repairing hrecover hrep, fun _ hest => ?_⟩
  · rcases hreplies with hnil | hsyn
    · rw [hnil] at hr
      cases hr
    · rw [hsyn] at hr
      rcases mem_push hr with hr | rfl
      · rw [hq] at hr
        cases hr
      · exact absurd hfirst (not_firstSent_bare rfl)
  · rw [hstate, hopening] at hest
    cases hest

/-- **A poll sends within the guest's window.** -/
theorem pollTcp_paced (hinv : f.Inv) (hrep : f.send.Repairing) (env : PollEnv) : PacedTurn f (f.pollTcp env) := by
  have hgood : Good f ⟨f, ⟨env.waiting, []⟩, env.budget⟩ :=
    ⟨hinv, rfl, rfl, rfl, rfl, fun r hr => absurd hr List.not_mem_nil⟩
  have hstart : Quiet f ⟨f, ⟨env.waiting, []⟩, env.budget⟩ :=
    ⟨SameData.refl f, fun r hr => absurd hr List.not_mem_nil, id, hrep⟩
  unfold TcpFlow.pollTcp
  dsimp only
  split
  · rename_i hopening
    split
    · rename_i f' heq
      exact opening_paced hrep hopening env.now rfl (by rw [heq]) (Or.inr rfl)
    · rename_i f' heq
      exact opening_paced hrep hopening env.now (q := ⟨env.waiting, []⟩) rfl (by rw [heq]) (Or.inl rfl)
    · rename_i f' heq
      exact opening_paced hrep hopening env.now (q := ⟨env.waiting, []⟩) rfl (by rw [heq]) (Or.inl rfl)
  · have hquiet :=
      connect_quiet (p := ⟨⟨f, ⟨env.waiting, []⟩, env.budget⟩, false, false⟩) hstart env.connect
    have hconn := connect_good (p := ⟨⟨f, ⟨env.waiting, []⟩, env.budget⟩, false, false⟩) hgood env.connect
    split
    · rename_i p' heq
      rw [heq] at hquiet hconn
      have hpaced := hquiet.paced hconn
      exact ⟨hpaced.good.una, hpaced.window, hpaced.within, hpaced.repairing, fun hremoved => by cases hremoved⟩
    · rename_i p' heq
      rw [heq] at hquiet hconn
      split
      · rename_i hconnecting
        refine finish_paced (hquiet.paced hconn) env.now fun _ hest => ?_
        rw [hconnecting] at hest
        cases hest
      · exact finish_paced (download_paced hinv (acknowledge_quiet (upload_quiet hquiet env))
          (acknowledge_good (upload_good hconn env)) env) env.now fun hremoved _ hwait =>
            download_armed env hremoved hwait

/-! ## A poll after the deadline -/

theorem segment_queues (s : Sending) (seq : UInt32) (flags : UInt8) (payload : List UInt8)
    (hlen : payload.length ≤ tcpMss) : ∃ r ∈ (s.segment seq flags payload).queue.replies, r.seq = seq := by
  have hlen : payload.length ≤ 1460 := hlen
  have hfits : 40 + ([] : List UInt8).length + payload.length < 65536 := by
    rw [List.length_nil]
    omega
  refine ⟨⟨seq, s.flow.guestNext, flags, s.flow.windowField.1, [], payload⟩, ?_, rfl⟩
  change _ ∈ (s.queue.push ⟨seq, s.flow.guestNext, flags, s.flow.windowField.1, [], payload⟩).replies
  unfold ReplyQueue.push
  rw [if_pos hfits]
  exact List.mem_append_right _ (List.mem_singleton_self _)

theorem push_subset (q : ReplyQueue) (r : TcpReply) : q.replies ⊆ (q.push r).replies := by
  unfold ReplyQueue.push
  split
  · exact List.subset_append_left _ _
  · exact List.Subset.refl _

theorem forward_subset (now : Nat) (reads : List HostTurn) (s : Sending) :
    s.queue.replies ⊆ (s.forward now reads).1.queue.replies := by
  refine forward_rule (P := fun s' => s.queue.replies ⊆ s'.queue.replies) now reads (fun _ h => h)
    (fun s' len r payload stream h _ _ => ?_) (List.Subset.refl _)
  obtain ⟨-, -, -, -, -, -, -, -, ack, window, hq⟩ := sendRead_spec s' stream payload now
  have hpush := push_subset s'.queue ⟨s'.flow.send.next, ack,
    if payload.isEmpty then tcpFlagFin ||| tcpFlagAck else tcpFlagPsh ||| tcpFlagAck, window, [], payload⟩
  rw [← hq] at hpush
  exact List.Subset.trans h hpush

theorem resendOldest_queues (s : Sending) (wrap : Nat) :
    ∃ r ∈ (s.resendOldest wrap).queue.replies, r.seq = s.flow.send.una := by
  unfold Sending.resendOldest
  dsimp only
  rw [asSlices_take]
  refine segment_queues s _ _ _ ?_
  rw [List.length_take]
  omega

/-- A timer that is due sends the oldest bytes again, or probes the shut window. -/
theorem expire_queues (wrap now : Nat) (hdue : s.flow.send.deadlineMs.any (· ≤ now) = true)
    (hwait : s.flow.send.Waiting) :
    ∃ r ∈ (s.expire wrap now).queue.replies, r.seq = s.flow.send.una ∨ r.seq = s.flow.send.una - 1 := by
  unfold Sending.expire
  rw [if_pos hdue]
  dsimp only
  split
  · obtain ⟨r, hr, hseq⟩ := resendOldest_queues (s.mapSend fun send => { send with deadlineMs := none }) wrap
    exact ⟨r, hr, Or.inl hseq⟩
  · rename_i hflight
    have hshut : s.flow.send.window = 0 ∧ s.flow.send.finSent = false := hwait.resolve_left hflight
    split
    · obtain ⟨r, hr, hseq⟩ := segment_queues (s.mapSend fun send => { send with deadlineMs := none })
        (s.flow.send.una - 1) tcpFlagAck [] (Nat.zero_le _)
      exact ⟨r, hr, Or.inr hseq⟩
    · rename_i hprobe
      refine absurd ⟨hshut.1, ?_⟩ hprobe
      have hopen : (!s.flow.send.finSent) = true := by
        rw [hshut.2]
        rfl
      exact hopen

theorem repairLoss_send (s : Sending) (wrap : Nat) :
    (s.repairLoss wrap).flow.send = { s.flow.send with resend := false } := by
  unfold Sending.repairLoss
  dsimp only
  split
  · rfl
  · rfl

theorem sendToGuest_queues (s : Sending) (env : PollEnv) (hdue : s.flow.send.deadlineMs.any (· ≤ env.now) = true)
    (hwait : s.flow.send.Waiting) :
    ∃ r ∈ (s.sendToGuest env).1.queue.replies, r.seq = s.flow.send.una ∨ r.seq = s.flow.send.una - 1 := by
  have hsend := repairLoss_send s env.wraps.1
  have hqueues := expire_queues (s := s.repairLoss env.wraps.1) env.wraps.2 env.now (by rw [hsend]; exact hdue)
    (by rw [hsend]; exact hwait)
  rw [hsend] at hqueues
  obtain ⟨r, hr, hseq⟩ := hqueues
  have hsubset := forward_subset env.now env.reads ((s.repairLoss env.wraps.1).expire env.wraps.2 env.now)
  refine ⟨r, sendToGuest_rule (P := fun s' => r ∈ s'.queue.replies) env (hsubset hr) fun s' h => ?_, hseq⟩
  exact armTimer_rule (P := fun s' => r ∈ s'.queue.replies) env.now (fun _ => h) h

theorem download_queues (p : Polling) (env : PollEnv) :
    (p.toSending.sendToGuest env).1.queue.replies ⊆ (p.download env).queue.replies :=
  download_rule (P := fun s => (p.toSending.sendToGuest env).1.queue.replies ⊆ s.queue.replies) env
    (List.Subset.refl _)
    fun q h _ => List.Subset.trans h (push_subset q.queue _)

/-- **A poll of an established flow after its deadline reaches the guest.** -/
theorem pollTcp_retries (env : PollEnv) (hest : f.state = .established) (hwait : f.send.Waiting)
    (hdue : f.send.deadlineMs.any (· ≤ env.now) = true) :
    ∃ r ∈ (f.pollTcp env).replies, r.seq = f.send.una ∨ r.seq = f.send.una - 1 := by
  have hconn : Polling.connect ⟨⟨f, ⟨env.waiting, []⟩, env.budget⟩, false, false⟩ env.connect =
      (⟨⟨f, ⟨env.waiting, []⟩, env.budget⟩, false, false⟩, true) := by
    unfold Polling.connect
    rw [if_neg]
    rintro ⟨hconnecting, -⟩
    exact absurd (hest.symm.trans hconnecting) nofun
  have hopen : f.state ≠ .opening := by
    rw [hest]
    nofun
  unfold TcpFlow.pollTcp
  dsimp only
  rw [if_neg hopen, hconn]
  dsimp only
  rw [if_neg (by rw [hest]; nofun)]
  generalize hp : (Polling.mk ⟨f, ⟨env.waiting, []⟩, env.budget⟩ false false).upload env = p
  have hsend : p.flow.send = f.send := by
    rw [← hp]
    exact (flushHostWrite_send env.writes f).1
  have hack : p.acknowledge.flow.send = p.flow.send := by
    unfold Polling.acknowledge
    split
    · rfl
    · rfl
  have hqueues := sendToGuest_queues p.acknowledge.toSending env
  rw [hack, hsend] at hqueues
  obtain ⟨r, hr, hseq⟩ := hqueues hdue hwait
  exact ⟨r, download_queues _ env hr, hseq⟩

end Polls

/-! ## Guest segments -/

section Segments

variable {send : TcpSendState} {f : TcpFlow}

theorem takeAck_repairing (h : send.Repairing) (ack : UInt32) (window acked : Nat) :
    (send.takeAck ack window acked).Repairing := by
  intro r hr
  obtain ⟨hmark, hbefore⟩ := Option.filter_eq_some_iff.mp hr
  obtain ⟨rfl, -⟩ := h r hmark
  refine ⟨rfl, fun hzero => ?_⟩
  have hzero : (send.next - ack).toNat = 0 := hzero
  have hend : ack + UInt32.ofNat 0 = send.next := by
    rw [← hzero]
    exact ofNat_toNat_sub send.next ack
  have hack : ack = send.next := by
    rw [← hend]
    exact (UInt32.add_zero ack).symm
  rw [hack, seqBefore, UInt32.sub_self] at hbefore
  exact absurd hbefore (by decide)

theorem countDuplicate_repairing (h : send.Repairing) (hflight : send.inFlight ≠ 0) :
    send.countDuplicate.Repairing := by
  unfold TcpSendState.countDuplicate
  dsimp only
  split
  · rintro r ⟨⟩
    exact ⟨rfl, hflight⟩
  · exact h

theorem onGuestAck_repairing (h : send.Repairing) (ack : UInt32) (window : Nat) (bare : Bool) :
    (send.onGuestAck ack window bare).Repairing := by
  have hwindow : ({ send with window := window } : TcpSendState).Repairing := h
  unfold TcpSendState.onGuestAck
  dsimp only
  split
  · exact takeAck_repairing h ack window _
  · split
    · split
      · rename_i hdup
        exact countDuplicate_repairing hwindow hdup.2.2
      · exact hwindow
    · exact h

/-- The guest's position and window after an ACK: those of the ACK, when it acknowledges nothing unsent. -/
theorem onGuestAck_offer (send : TcpSendState) (ack : UInt32) (window : Nat) (bare : Bool) :
    (send.onGuestAck ack window bare).una = (if (ack - send.una).toNat ≤ send.inFlight then ack else send.una) ∧
      (send.onGuestAck ack window bare).window =
        if (ack - send.una).toNat ≤ send.inFlight then window else send.window := by
  unfold TcpSendState.onGuestAck
  dsimp only
  by_cases hnew : (ack - send.una).toNat ≠ 0 ∧ (ack - send.una).toNat ≤ send.inFlight
  · rw [if_pos hnew, if_pos hnew.2, if_pos hnew.2]
    exact ⟨rfl, rfl⟩
  · rw [if_neg hnew]
    by_cases hrepeat : (ack - send.una).toNat = 0
    · have hsame : send.una = ack := by
        have hat := ofNat_toNat_sub ack send.una
        rw [hrepeat] at hat
        exact (UInt32.add_zero send.una).symm.trans hat
      have hle : (ack - send.una).toNat ≤ send.inFlight := by omega
      rw [if_pos hrepeat, if_pos hle, if_pos hle]
      unfold TcpSendState.countDuplicate
      dsimp only
      split
      · split
        · exact ⟨hsame, rfl⟩
        · exact ⟨hsame, rfl⟩
      · exact ⟨hsame, rfl⟩
    · have hpast : ¬(ack - send.una).toNat ≤ send.inFlight := fun hle => hnew ⟨hrepeat, hle⟩
      rw [if_neg hrepeat, if_neg hpast, if_neg hpast]
      exact ⟨rfl, rfl⟩

theorem takeFin_send (f : TcpFlow) (tcp : TcpSegment) : (f.takeFin tcp).send = f.send := by
  unfold TcpFlow.takeFin
  split
  · rfl
  · rfl

/-- A guest segment queues nothing, and moves the send state by its ACK. -/
theorem handleTcp_send (f : TcpFlow) (tcp : TcpSegment) (now : Nat) (writes : List HostTurn) :
    (f.handleTcp tcp now writes).replies = [] ∧
      (f.handleTcp tcp now writes).flow.send =
        if hasFlag tcp.flags tcpFlagRst then f.send
        else if f.state = .opening then
          if tcp.flags &&& (tcpFlagSyn ||| tcpFlagAck) = tcpFlagSyn ||| tcpFlagAck ∧ tcp.ack = f.ourSeq + 1 then
            (f.openFromSynAck tcp).send
          else f.send
        else (f.takeAck tcp).send := by
  have hnow : (({ f with lastActivity := now } : TcpFlow).takeAck tcp).send = (f.takeAck tcp).send := by
    unfold TcpFlow.takeAck
    split
    · rfl
    · rfl
  rw [← hnow]
  unfold TcpFlow.handleTcp
  dsimp only
  split
  · exact ⟨rfl, rfl⟩
  · split
    · split
      · exact ⟨rfl, rfl⟩
      · exact ⟨rfl, rfl⟩
    · split
      · split
        · exact ⟨rfl, rfl⟩
        · exact ⟨rfl, (takeFin_send _ tcp).trans (flushHostWrite_send writes _).1⟩
      · split
        · exact ⟨rfl, takeFin_send _ tcp⟩
        · exact ⟨rfl, takeFin_send _ tcp⟩

theorem handleTcp_repairing (h : f.send.Repairing) (tcp : TcpSegment) (now : Nat) (writes : List HostTurn) :
    (f.handleTcp tcp now writes).flow.send.Repairing := by
  rw [(handleTcp_send f tcp now writes).2]
  split
  · exact h
  · split
    · split
      · exact h
      · exact h
    · unfold TcpFlow.takeAck
      split
      · exact onGuestAck_repairing h _ _ _
      · exact h

end Segments

/-! ## Runs -/

/-- What the guest last advertised: the sequence number it expects, and its receive window from there. -/
structure Offer where
  una : UInt32
  window : Nat
deriving DecidableEq, Repr

/-- What an event advertises. A SYN-ACK opens a forwarded connection, and its window is never scaled; an ACK that is
older than the last, or acknowledges what was never sent, advertises nothing. -/
def Offer.next (o : Offer) (f : TcpFlow) : FlowEvent → Offer
  | .segment tcp _ _ =>
    if hasFlag tcp.flags tcpFlagRst then o
    else if f.state = .opening then
      let synAck := tcpFlagSyn ||| tcpFlagAck
      if tcp.flags &&& synAck = synAck ∧ tcp.ack = f.ourSeq + 1 then ⟨o.una, tcp.window.toNat⟩ else o
    else if hasFlag tcp.flags tcpFlagAck ∧ (tcp.ack - o.una).toNat ≤ (f.send.next - o.una).toNat then
      ⟨tcp.ack, f.send.guestWindow tcp.window⟩
    else o
  | _ => o

/-- The states of a flow, with what the guest last advertised. -/
inductive Offered : TcpFlow → Offer → Prop
  | syn {stream : TcpStream} (tcp : TcpSegment) (ourSeq : UInt32) (watched : Bool) (now : Nat) :
    stream.Fresh → Offered (TcpFlow.openFromSyn stream tcp ourSeq watched now) ⟨ourSeq + 1, tcp.window.toNat⟩
  | forwarded {stream : TcpStream} (ourSeq : UInt32) (watched : Bool) (now : Nat) :
    stream.Fresh → Offered (TcpFlow.openForwarded stream ourSeq watched now) ⟨ourSeq + 1, 0⟩
  | turn {f : TcpFlow} {o : Offer} (e : FlowEvent) :
    Offered f o → (f.turn e).removed = false → Offered (f.turn e).flow (o.next f e)

section Runs

variable {f : TcpFlow} {o : Offer}

theorem Offered.reached (h : Offered f o) : Reached f := by
  induction h with
  | syn tcp ourSeq watched now hs => exact Reached.opens (Opens.syn tcp ourSeq watched now hs)
  | forwarded ourSeq watched now hs => exact Reached.opens (Opens.forwarded ourSeq watched now hs)
  | turn e _ hremoved ih => exact Reached.turn e ih hremoved

theorem turn_paced (hinv : f.Inv) (h : f.send.Repairing) (e : FlowEvent) :
    (f.turn e).flow.send.Repairing ∧ ∀ r ∈ (f.turn e).replies, f.FirstSent r →
      (r.seq - f.send.una).toNat + r.payload.length ≤ f.send.window ∧ f.send.recover = none ∧
        (f.turn e).flow.send.recover = none := by
  cases e with
  | segment tcp now writes =>
    refine ⟨handleTcp_repairing h tcp now writes, fun r hr => ?_⟩
    have hnil : (f.turn (.segment tcp now writes)).replies = [] := (handleTcp_send f tcp now writes).1
    rw [hnil] at hr
    cases hr
  | poll env =>
    have hpaced := pollTcp_paced hinv h env
    exact ⟨hpaced.repairing, hpaced.within⟩
  | ready => exact ⟨h, fun r hr => by cases hr⟩
  | evictIdle now timeout => exact ⟨h, fun r hr => by cases hr⟩
  | evictLru => exact ⟨h, fun r hr => by cases hr⟩

theorem Offered.repairing (h : Offered f o) : f.send.Repairing := by
  induction h with
  | syn tcp ourSeq watched now _ => exact fun r hr => by cases hr
  | forwarded ourSeq watched now _ => exact fun r hr => by cases hr
  | turn e h _ ih => exact (turn_paced (reached_inv h.reached) ih e).1

/-- **The flow sends by what the guest last advertised.** -/
theorem offered_eq (h : Offered f o) : f.send.una = o.una ∧ f.send.window = o.window := by
  induction h with
  | syn tcp ourSeq watched now _ => exact ⟨rfl, rfl⟩
  | forwarded ourSeq watched now _ => exact ⟨rfl, rfl⟩
  | @turn f o e h _ ih =>
    obtain ⟨huna, hwindow⟩ := ih
    cases e with
    | segment tcp now writes =>
      change (f.handleTcp tcp now writes).flow.send.una = _ ∧ (f.handleTcp tcp now writes).flow.send.window = _
      rw [(handleTcp_send f tcp now writes).2]
      unfold Offer.next
      dsimp only
      split
      · exact ⟨huna, hwindow⟩
      · split
        · split
          · exact ⟨huna, rfl⟩
          · exact ⟨huna, hwindow⟩
        · unfold TcpFlow.takeAck
          by_cases hack : hasFlag tcp.flags tcpFlagAck = true
          · rw [if_pos hack]
            obtain ⟨hpos, hoffer⟩ := onGuestAck_offer f.send tcp.ack (f.send.guestWindow tcp.window)
              (tcp.payload.isEmpty && !hasFlag tcp.flags (tcpFlagSyn ||| tcpFlagFin))
            dsimp only
            rw [hpos, hoffer, TcpSendState.inFlight, huna, hwindow]
            by_cases hle : (tcp.ack - o.una).toNat ≤ (f.send.next - o.una).toNat
            · rw [if_pos hle, if_pos hle, if_pos ⟨hack, hle⟩]
              exact ⟨rfl, rfl⟩
            · rw [if_neg hle, if_neg hle, if_neg fun hc => hle hc.2]
              exact ⟨rfl, rfl⟩
          · rw [if_neg hack, if_neg fun hc => hack hc.1]
            exact ⟨huna, hwindow⟩
    | poll env =>
      have hpaced := pollTcp_paced (reached_inv h.reached) h.repairing env
      exact ⟨hpaced.una.trans huna, hpaced.window.trans hwindow⟩
    | ready => exact ⟨huna, hwindow⟩
    | evictIdle now timeout => exact ⟨huna, hwindow⟩
    | evictLru => exact ⟨huna, hwindow⟩

/-- **The guest's receive window is respected**: in every run, what a flow sends for the first time ends within the
window the guest last advertised, and none of it goes out while a loss is repaired. Unless the host socket failed, which
resets and removes the flow, the timer runs after `send_to_guest` when something waits for the guest. A repair never
outlives its flight, and a poll after the deadline reaches the guest again. -/
theorem window_respected (h : Offered f o) :
    (∀ e, ∀ r ∈ (f.turn e).replies, f.FirstSent r → (r.seq - o.una).toNat + r.payload.length ≤ o.window ∧
      f.send.recover = none ∧ (f.turn e).flow.send.recover = none) ∧
    (∀ (s : Sending) (env : PollEnv), (s.sendToGuest env).2 ≠ .failed →
      (s.sendToGuest env).1.flow.send.Waiting →
      (s.sendToGuest env).1.flow.send.deadlineMs.isSome = true) ∧
    (∀ env, (f.turn (.poll env)).removed = false → (f.turn (.poll env)).flow.state = .established →
      (f.turn (.poll env)).flow.send.Waiting → (f.turn (.poll env)).flow.send.deadlineMs.isSome = true) ∧
    (f.send.recover.isSome = true → f.send.inFlight ≠ 0) ∧
    ∀ env, f.state = .established → f.send.Waiting → f.send.deadlineMs.any (· ≤ env.now) = true →
      ∃ r ∈ (f.turn (.poll env)).replies, r.seq = o.una ∨ r.seq = o.una - 1 := by
  obtain ⟨huna, hwindow⟩ := offered_eq h
  have hinv := reached_inv h.reached
  rw [← huna, ← hwindow]
  refine ⟨fun e => (turn_paced hinv h.repairing e).2, sendToGuest_armed,
    fun env => (pollTcp_paced hinv h.repairing env).armed, fun hmark => ?_,
    fun env hest hwait hdue => pollTcp_retries env hest hwait hdue⟩
  obtain ⟨r, hr⟩ := Option.isSome_iff_exists.mp hmark
  exact (h.repairing r hr).2

theorem downloading_offered : Offered downloading ⟨0, 65535⟩ :=
  Offered.turn (.poll downloadPoll) (Offered.syn _ 0xffffffff false 0 ⟨rfl, rfl, rfl⟩) (by decide)

/-- The next poll sends the third byte, and leaves the timer running. -/
theorem window_respected_download :
    (∃ r ∈ (downloading.turn (.poll downloadPoll)).replies, r.payload = [3] ∧
      (r.seq - 0).toNat + r.payload.length ≤ 65535) ∧
      (downloading.turn (.poll downloadPoll)).flow.send.deadlineMs.isSome = true := by
  obtain ⟨hwithin, -, harmed, -⟩ := window_respected downloading_offered
  refine ⟨?_, harmed downloadPoll (by decide) (by decide) (Or.inl (by decide))⟩
  have hsent : (downloading.turn (.poll downloadPoll)).replies =
    [⟨2, 101, tcpFlagPsh ||| tcpFlagAck, 65535, [], [3]⟩] := by
    decide
  refine ⟨⟨2, 101, tcpFlagPsh ||| tcpFlagAck, 65535, [],
    [3]⟩, by rw [hsent]; exact List.mem_singleton_self _, rfl, ?_⟩
  exact (hwithin (.poll downloadPoll) _ (by rw [hsent]; exact List.mem_singleton_self _)
    ⟨List.cons_ne_nil _ _, by decide⟩).1

/-- The guest acknowledges the first of two bytes. -/
def partlyAcked : TcpFlow :=
  (downloading.turn (.segment ⟨101, 1, tcpFlagAck, 65535, [], [], TcpSegment.fits_nil⟩ 0 [])).flow

/-- A host socket that fails leaves the second byte in flight without a timer. -/
theorem failed_read_leaves_no_timer :
    ¬∀ (f : TcpFlow) (o : Offer), Offered f o → ∀ env : PollEnv,
      (Sending.sendToGuest ⟨f, ⟨env.waiting, []⟩, env.budget⟩ env).1.flow.send.Waiting →
        (Sending.sendToGuest ⟨f, ⟨env.waiting, []⟩, env.budget⟩ env).1.flow.send.deadlineMs.isSome = true := by
  intro hall
  have harmed := hall partlyAcked _ (Offered.turn _ downloading_offered (by decide))
    ⟨0, 0, maxTcpUnackedBytes, .connected, [], [.err], false, (0, 0)⟩ (Or.inl (by decide))
  exact absurd harmed (by decide)

end Runs

end BridgeVm.NetNat
