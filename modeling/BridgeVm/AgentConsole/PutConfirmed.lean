import BridgeVm.AgentConsole.SharePut
import BridgeVm.Lib.EventLog
import BridgeVm.Lib.Transition

/-!
# A confirmed PUT was executed

Answers are told apart by phase only. A request that is rewound from a PUTCHUNK or the PUTEND waits for OK PUTBEG, which
no answer of its earlier lines is: these are still on the way, and ignored. Nothing tells the answer to a PUT or a
PUTBEG from the one to the same line sent again. So the confirmations are sound in runs that send neither again while
the line or its answer is on the way.
-/

namespace BridgeVm.AgentConsole.SharePut

open Lib
open Share (shareGuestPath)

/-! ## What is claimed -/

/-- What an event needs of what happened before it. -/
def Confirmed (guestDir : List Char) : Event → List Event → Prop
  | .sent serial _, earlier => ∀ n name, .sent n name ∈ earlier → n < serial
  | .credited serial, earlier =>
    (∃ name, .sent serial name ∈ earlier) ∧ ∀ n name, .sent n name ∈ earlier → n ≤ serial
  | .onPutOk name size hash, earlier =>
    ∃ serial bytes, earlier.head? = some (.credited serial) ∧ .sent serial name ∈ earlier ∧
      .executed serial (shareGuestPath guestDir name) bytes ∈ earlier ∧ bytes.length = size ∧
      .queued name bytes hash ∈ earlier
  | .onPutRejected name, earlier =>
    ∃ serial, earlier.head? = some (.credited serial) ∧ .sent serial name ∈ earlier ∧
      .refused serial ∈ earlier
  | _, _ => True

/-- The PUT or PUTBEG in flight is on the way, or the answer to it. -/
def State.Crossing (s : State) : Prop :=
  ∃ req ∈ s.inFlight, (req.phase = .legacy ∨ req.phase = .beg) ∧ ∃ item ∈ s.link.items, item.1 = s.link.sent

instance (s : State) : Decidable s.Crossing := by
  unfold State.Crossing
  infer_instance

/-- The step does not send a PUT or a PUTBEG again that is on the way, or the answer to it. -/
def Uncrossed (s : State) : Act → Prop
  | .pump true => s.overdueBeats + 1 < 3 ∨ ¬s.Crossing
  | .deliver =>
    match s.link.outputs with
    | .ready :: _ => ¬s.Crossing
    | _ => True
  | _ => True

instance (s : State) (a : Act) : Decidable (Uncrossed s a) := by
  unfold Uncrossed
  split
  · infer_instance
  · split <;> infer_instance
  · infer_instance

/-! ## Chunks -/

section Chunks

variable (bytes : List UInt8) (k : Nat)

/-- What the agent has of a file after `k` chunks. -/
def received : List UInt8 := bytes.take (k * chunkBytes)

def chunk : List UInt8 :=
  (bytes.drop (k * chunkBytes)).take (min (k * chunkBytes + chunkBytes) bytes.length - k * chunkBytes)

theorem received_zero : received bytes 0 = [] := by simp [received]

theorem received_succ : received bytes k ++ chunk bytes k = received bytes (k + 1) := by
  unfold received chunk
  rw [Nat.succ_mul, List.take_add]
  congr 1
  by_cases h : k * chunkBytes + chunkBytes ≤ bytes.length
  · rw [Nat.min_eq_left h, Nat.add_sub_cancel_left]
  · have hlen : (bytes.drop (k * chunkBytes)).length ≤ chunkBytes := by
      rw [List.length_drop]
      omega
    rw [Nat.min_eq_right (by omega), List.take_of_length_le (by rw [List.length_drop]), List.take_of_length_le hlen]

theorem received_nchunks : received bytes (nchunks bytes) = bytes := by
  apply List.take_of_length_le
  unfold nchunks chunkBytes
  omega

theorem start_lt (h : k < nchunks bytes) : k * chunkBytes < bytes.length := by
  unfold nchunks chunkBytes at *
  omega

end Chunks

theorem writeChunkLine_eq {req : Put} (h : req.nextChunk * chunkBytes < req.bytes.length) :
    writeChunkLine req req.nextChunk (req.nextChunk * chunkBytes)
        (min (req.nextChunk * chunkBytes + chunkBytes) req.bytes.length) =
      some (.putChunk req.nextChunk (chunk req.bytes req.nextChunk)) := by
  unfold writeChunkLine
  rw [if_neg (by omega)]
  rfl

/-! ## Requests -/

/-- The line a request in flight waits for the answer to. -/
def Put.line (guestDir : List Char) (req : Put) : Line :=
  match req.phase with
  | .legacy => .put (shareGuestPath guestDir req.name) req.bytes
  | .beg => .putBeg (shareGuestPath guestDir req.name) req.bytes.length (nchunks req.bytes)
  | .chunk => .putChunk (req.nextChunk - 1) (chunk req.bytes (req.nextChunk - 1))
  | .done => .putEnd (nchunks req.bytes)

/-- The lines that go on with a PUT. -/
def Line.isPart : Line → Bool
  | .putChunk .. | .putEnd _ => true
  | _ => false

/-- The chunk counter goes with the phase. -/
def Put.Phased (req : Put) : Prop :=
  match req.phase with
  | .legacy => True
  | .beg => req.nextChunk = 0 ∧ 0 < req.bytes.length
  | .chunk => 0 < req.nextChunk ∧ req.nextChunk ≤ nchunks req.bytes
  | .done => req.nextChunk = nchunks req.bytes ∧ 0 < req.bytes.length

section Requests

variable {guestDir : List Char} {req req' : Put} {line : Line} {reply : Reply}

theorem phased_sharePutReq (name : List Char) (bytes : List UInt8) (hash : Nat) :
    (sharePutReq name bytes hash).Phased := by
  unfold sharePutReq Put.Phased
  by_cases h : bytes.length ≤ chunkBytes
  · simp only [if_pos h]
  · simp only [if_neg h, true_and]
    omega

theorem sharePutReq_phase (name : List Char) (bytes : List UInt8) (hash : Nat) :
    (sharePutReq name bytes hash).phase = .legacy ∨ (sharePutReq name bytes hash).phase = .beg := by
  unfold sharePutReq
  by_cases h : bytes.length ≤ chunkBytes <;> simp [h]

theorem Put.Phased.length_pos (h : req.Phased) (hphase : req.phase ≠ .legacy) : 0 < req.bytes.length := by
  unfold Put.Phased at h
  cases hp : req.phase with
  | legacy => exact absurd hp hphase
  | beg =>
    simp only [hp] at h
    exact h.2
  | chunk =>
    simp only [hp] at h
    have hlt := start_lt req.bytes (req.nextChunk - 1) (by omega)
    omega
  | done =>
    simp only [hp] at h
    exact h.2

theorem rewind_spec (h : req.Phased) :
    (rewindForRetransmit req).Phased ∧ (rewindForRetransmit req).name = req.name ∧
      (rewindForRetransmit req).bytes = req.bytes ∧ (rewindForRetransmit req).hash = req.hash ∧
      (rewindForRetransmit req).phase = if req.phase = .legacy then .legacy else .beg := by
  unfold rewindForRetransmit
  by_cases hp : req.phase = .legacy
  · simp [hp, h]
  · have hlen := h.length_pos hp
    simp [hp, Put.Phased, hlen]

theorem writeReqLine_eq (h : req.phase = .legacy ∨ req.phase = .beg) :
    writeReqLine guestDir req = some (req.line guestDir) := by
  unfold writeReqLine Put.line
  rcases h with h | h <;> simp [h]

/-- What an answer that is not ignored does, by the phase of the request. -/
theorem handleReply_cases (hphased : req.Phased) (h : handleReply req reply ≠ .ignored) :
    (req.phase = .beg ∧ reply = .okPutBeg ∧
        handleReply req reply = .sends { req with nextChunk := 1, phase := .chunk }
          (.putChunk 0 (chunk req.bytes 0))) ∨
      (req.phase = .chunk ∧ reply = .okPutChunk (req.nextChunk - 1) ∧ req.nextChunk < nchunks req.bytes ∧
        handleReply req reply = .sends { req with nextChunk := req.nextChunk + 1, phase := .chunk }
          (.putChunk req.nextChunk (chunk req.bytes req.nextChunk))) ∨
      (req.phase = .chunk ∧ reply = .okPutChunk (req.nextChunk - 1) ∧ req.nextChunk = nchunks req.bytes ∧
        handleReply req reply = .sends { req with phase := .done } (.putEnd (nchunks req.bytes))) ∨
      ((req.phase = .legacy ∨ req.phase = .done) ∧ (∃ path written, reply = .putOk path written) ∧
        handleReply req reply = .ok) ∨
      (reply.isErr = true ∧ handleReply req reply = .rejected) := by
  unfold handleReply at h ⊢
  by_cases hmatch : replyMatchesPhase req.phase reply = false
  · exact absurd (if_pos hmatch) h
  · rw [if_neg hmatch] at h ⊢
    cases reply with
    | okPutBeg =>
      have hphase : req.phase = .beg := by
        revert hmatch
        cases req.phase <;> simp [replyMatchesPhase]
      unfold Put.Phased at hphased
      simp only [hphase] at hphased
      obtain ⟨hnext, hlen⟩ := hphased
      refine .inl ⟨hphase, rfl, ?_⟩
      have hline := writeChunkLine_eq (show req.nextChunk * chunkBytes < req.bytes.length by rw [hnext]; omega)
      simp only [sendNextChunk]
      rw [if_neg (not_or.mpr ⟨not_not.mpr hphase, by rw [hnext]; omega⟩), hline]
      simp [hnext]
    | okPutChunk seq =>
      have hphase : req.phase = .chunk := by
        revert hmatch
        cases req.phase <;> simp [replyMatchesPhase]
      unfold Put.Phased at hphased
      simp only [hphase] at hphased
      have hseq : seq + 1 = req.nextChunk := by
        by_contra hne
        exact h (by simp [advanceAfterChunk, hne])
      obtain rfl : seq = req.nextChunk - 1 := by omega
      by_cases hmore : req.nextChunk < nchunks req.bytes
      · refine .inr (.inl ⟨hphase, rfl, hmore, ?_⟩)
        have hline := writeChunkLine_eq (start_lt req.bytes req.nextChunk hmore)
        simp only [advanceAfterChunk]
        rw [if_neg (not_or.mpr ⟨not_not.mpr hphase, by omega⟩), if_pos hmore, hline]
      · refine .inr (.inr (.inl ⟨hphase, rfl, by omega, ?_⟩))
        simp only [advanceAfterChunk]
        rw [if_neg (not_or.mpr ⟨not_not.mpr hphase, by omega⟩), if_neg hmore]
    | putOk path written =>
      have hphase : req.phase = .legacy ∨ req.phase = .done := by
        revert hmatch
        cases req.phase <;> simp [replyMatchesPhase]
      exact .inr (.inr (.inr (.inl ⟨hphase, ⟨_, _, rfl⟩, rfl⟩)))
    | errPut => exact .inr (.inr (.inr (.inr ⟨rfl, rfl⟩)))
    | errPutBeg => exact .inr (.inr (.inr (.inr ⟨rfl, rfl⟩)))
    | errPutChunk => exact .inr (.inr (.inr (.inr ⟨rfl, rfl⟩)))
    | errPutEnd => exact .inr (.inr (.inr (.inr ⟨rfl, rfl⟩)))

theorem matches_of_handled (h : handleReply req reply ≠ .ignored) : replyMatchesPhase req.phase reply = true := by
  by_contra hmatch
  apply h
  unfold handleReply
  exact if_pos (Bool.eq_false_iff.mpr hmatch)

end Requests

/-! ## The invariant -/

/-- The agent has the first `k` chunks of the request's file in its stream, or has no stream. -/
def Holds (guestDir : List Char) (req : Put) (k : Nat) (stream : Option PutStream) : Prop :=
  stream = none ∨
    stream = some
      ⟨shareGuestPath guestDir req.name, req.bytes.length, (received req.bytes k).length, k, received req.bytes k⟩

/-- What the answer to a line tells. -/
structure Answered (log : List Event) (serial : Nat) (line : Line) (reply : Reply) : Prop where
  refused : reply.isErr = true → .refused serial ∈ log
  put : ∀ path bytes p written, line = .put path bytes → reply = .putOk p written →
    .executed serial path bytes ∈ log
  part : line.isPart = true → replyMatchesPhase .beg reply = false

/-- What the answer to the last line tells of the request in flight. -/
structure Replied (guestDir : List Char) (s : State) (req : Put) (reply : Reply) : Prop where
  beg : req.phase = .beg → reply = .okPutBeg → Holds guestDir req 0 s.stream
  chunk : ∀ seq, req.phase = .chunk → reply = .okPutChunk seq → Holds guestDir req req.nextChunk s.stream
  done : ∀ p written, req.phase = .done → reply = .putOk p written →
    .executed s.link.sent (shareGuestPath guestDir req.name) req.bytes ∈ s.log

/-- The chunks before the line that a request waits for. -/
def Put.before (req : Put) : Nat :=
  match req.phase with
  | .chunk => req.nextChunk - 1
  | _ => req.nextChunk

/-- A request in the queue. -/
structure Waiting (log : List Event) (req : Put) : Prop where
  phased : req.Phased
  phase : req.phase = .legacy ∨ req.phase = .beg
  queued : .queued req.name req.bytes req.hash ∈ log

/-- The request in flight: it waits for the answer to the last line. -/
structure Flying (guestDir : List Char) (s : State) (req : Put) : Prop where
  phased : req.Phased
  queued : .queued req.name req.bytes req.hash ∈ s.log
  sent : .sent s.link.sent req.name ∈ s.log
  line : ∀ line, (s.link.sent, line) ∈ s.link.items → line = req.line guestDir
  unread : ∀ line, (s.link.sent, line) ∈ s.link.unread → line.isPart = true →
    Holds guestDir req req.before s.stream
  answer : ∀ line reply, .answer s.link.sent line reply ∈ s.link.outputs → Replied guestDir s req reply

/-- The next answer that counts is the one to a PUTBEG. -/
def State.Rewound (s : State) : Prop :=
  match s.inFlight with
  | some req => req.phase = .beg
  | none => ∃ req, s.queue.head? = some req ∧ req.phase = .beg

/-- The log, the queue and the answers on the way. -/
structure Ledger (guestDir : List Char) (s : State) : Prop where
  traced : Traced (Confirmed guestDir) s.log
  sent_le : ∀ n name, .sent n name ∈ s.log → n ≤ s.link.sent
  queue : ∀ req ∈ s.queue, Waiting s.log req
  outputs : ∀ serial line reply, .answer serial line reply ∈ s.link.outputs → Answered s.log serial line reply

/-- What is on the way belongs to the request in flight, or is a part of an earlier transmission. -/
structure Inv (guestDir : List Char) (s : State) : Prop extends Ledger guestDir s where
  flight : ∀ req, s.inFlight = some req → Flying guestDir s req
  items : ∀ item ∈ s.link.items, (item.1 = s.link.sent ∧ s.inFlight.isSome = true) ∨
    (item.2.isPart = true ∧ s.Rewound ∧ (s.inFlight.isSome = true → item.1 < s.link.sent))

section Invariant

variable {guestDir : List Char} {s s' : State} {req : Put} {line : Line} {reply : Reply} {log : List Event}

theorem Answered.mono {serial : Nat} (h : Answered s.log serial line reply) (hlog : ∀ e ∈ s.log, e ∈ log) :
    Answered log serial line reply where
  refused := fun herr => hlog _ (h.refused herr)
  put := fun path bytes p written hline hreply => hlog _ (h.put path bytes p written hline hreply)
  part := h.part

theorem Waiting.mono (h : Waiting s.log req) (hlog : ∀ e ∈ s.log, e ∈ log) : Waiting log req :=
  ⟨h.phased, h.phase, hlog _ h.queued⟩

theorem State.Rewound.phase (h : s.Rewound) (hflight : s.inFlight = some req) : req.phase = .beg := by
  simpa only [State.Rewound, hflight] using h

theorem isPart_line_beg (h : req.phase = .beg) : (req.line guestDir).isPart = false := by
  simp [Put.line, h, Line.isPart]

theorem inv_start : Inv guestDir start where
  traced := trivial
  sent_le := by simp [start]
  queue := by simp [start]
  outputs := by simp [start, Link.idle]
  flight := by simp [start]
  items := by simp [start]

theorem Holds.of_stream {k : Nat} {stream stream' : Option PutStream} (h : Holds guestDir req k stream)
    (hstream : stream' = none ∨ stream' = stream) : Holds guestDir req k stream' := by
  rcases hstream with rfl | rfl
  · exact .inl rfl
  · exact h

/-- Less on the way, or a new agent process. -/
theorem Inv.shrink (h : Inv guestDir s) {link : Link Line Reply} {stream : Option PutStream}
    (hsent : link.sent = s.link.sent) (hunread : ∀ item ∈ link.unread, item ∈ s.link.unread)
    (houtputs : ∀ serial line reply, .answer serial line reply ∈ link.outputs →
      .answer serial line reply ∈ s.link.outputs)
    (hstream : stream = none ∨ stream = s.stream) : Inv guestDir { s with link := link, stream := stream } := by
  have hitems : ∀ item ∈ link.items, item ∈ s.link.items := by
    intro item hitem
    rcases Link.mem_items.mp hitem with ⟨reply, hreply⟩ | hitem
    · exact Link.mem_items.mpr (.inl ⟨reply, houtputs _ _ _ hreply⟩)
    · exact Link.mem_items.mpr (.inr (hunread _ hitem))
  refine { traced := h.traced, sent_le := ?_, queue := h.queue, outputs := ?_, flight := ?_, items := ?_ }
  · intro n name hmem
    rw [hsent]
    exact h.sent_le n name hmem
  · intro serial line reply hmem
    exact h.outputs _ _ _ (houtputs _ _ _ hmem)
  · intro req hreq
    have hf := h.flight req hreq
    refine ⟨hf.phased, hf.queued, by rw [hsent]; exact hf.sent, ?_, ?_, ?_⟩
    · intro line hline
      exact hf.line line (hitems _ (hsent ▸ hline))
    · intro line hline hpart
      exact (hf.unread line (hunread _ (hsent ▸ hline)) hpart).of_stream hstream
    · intro line reply hreply
      have hr := hf.answer line reply (houtputs _ _ _ (hsent ▸ hreply))
      refine ⟨fun hp hreply => (hr.beg hp hreply).of_stream hstream,
        fun seq hp hreply => (hr.chunk seq hp hreply).of_stream hstream, ?_⟩
      rw [hsent]
      exact hr.done
  · intro item hitem
    rw [hsent]
    exact h.items item (hitems item hitem)

/-- A request goes back to the queue while nothing that its first line could be taken for is on the way. -/
theorem Inv.requeue (h : Inv guestDir s) (hcross : ¬s.Crossing) : Inv guestDir s.requeue := by
  unfold State.requeue
  cases hflight : s.inFlight with
  | none => exact h
  | some req =>
    have hf := h.flight req hflight
    obtain ⟨hphased, hname, hbytes, hhash, hphase⟩ := rewind_spec hf.phased
    have hpart : ∀ item ∈ s.link.items, item.2.isPart = true ∧ req.phase ≠ .legacy := by
      intro item hitem
      rcases h.items item hitem with ⟨hlast, -⟩ | ⟨hpart, hrewound, -⟩
      · have hnot : ¬(req.phase = .legacy ∨ req.phase = .beg) :=
          fun hp => hcross ⟨req, hflight, hp, item, hitem, hlast⟩
        rw [not_or] at hnot
        have hline := hf.line item.2 (hlast ▸ hitem)
        refine ⟨?_, hnot.1⟩
        rw [hline]
        unfold Put.line
        cases hp : req.phase with
        | legacy => exact absurd hp hnot.1
        | beg => exact absurd hp hnot.2
        | chunk => rfl
        | done => rfl
      · exact ⟨hpart, by rw [hrewound.phase hflight]; simp⟩
    refine { traced := h.traced, sent_le := h.sent_le, queue := ?_, outputs := h.outputs, flight := ?_, items := ?_ }
    · intro req' hreq'
      rcases List.mem_cons.mp hreq' with rfl | hreq'
      · refine ⟨hphased, ?_, by rw [hname, hbytes, hhash]; exact hf.queued⟩
        rw [hphase]
        by_cases hp : req.phase = .legacy <;> simp [hp]
      · exact h.queue req' hreq'
    · simp
    · intro item hitem
      obtain ⟨hp, hlegacy⟩ := hpart item hitem
      exact .inr ⟨hp, ⟨_, rfl, by rw [hphase, if_neg hlegacy]⟩, by simp⟩

/-- A line is sent while only parts of an earlier transmission are on the way. -/
theorem Ledger.send (h : Ledger guestDir s) (hphased : req.Phased) (hline : line = req.line guestDir)
    (hqueued : .queued req.name req.bytes req.hash ∈ s.log)
    (hitems : ∀ item ∈ s.link.items, item.2.isPart = true ∧ req.phase = .beg)
    (hholds : line.isPart = true → Holds guestDir req req.before s.stream) : Inv guestDir (s.send req line) := by
  have hfresh : ∀ line, (s.link.sent + 1, line) ∉ s.link.items := by
    intro line hmem
    exact absurd (Link.mem_items_le hmem) (Nat.not_succ_le_self _)
  refine { traced := ⟨?_, h.traced⟩, sent_le := ?_, queue := ?_, outputs := ?_, flight := ?_, items := ?_ }
  · intro n name hmem
    exact Nat.lt_succ_of_le (h.sent_le n name hmem)
  · intro n name hmem
    rcases List.mem_cons.mp hmem with heq | hmem
    · cases heq
      exact Nat.le_refl _
    · exact Nat.le_succ_of_le (h.sent_le n name hmem)
  · intro req' hreq'
    exact (h.queue req' hreq').mono fun e he => List.mem_cons_of_mem _ he
  · intro serial line reply hmem
    exact (h.outputs serial line reply hmem).mono fun e he => List.mem_cons_of_mem _ he
  · intro req' hreq'
    cases hreq'
    refine ⟨hphased, List.mem_cons_of_mem _ hqueued, List.mem_cons_self .., ?_, ?_, ?_⟩
    · intro line' hmem
      rcases List.mem_append.mp (Link.items_send ▸ hmem) with hmem | hmem
      · exact absurd hmem (hfresh line')
      · cases List.mem_singleton.mp hmem
        exact hline
    · intro line' hmem hpart
      rcases List.mem_append.mp hmem with hmem | hmem
      · exact absurd (Link.mem_items.mpr (.inr hmem)) (hfresh line')
      · cases List.mem_singleton.mp hmem
        exact hholds hpart
    · intro line' reply hmem
      exact absurd (Link.mem_items.mpr (.inl ⟨reply, hmem⟩)) (hfresh line')
  · intro item hitem
    rcases List.mem_append.mp (Link.items_send ▸ hitem) with hitem | hitem
    · obtain ⟨hpart, hbeg⟩ := hitems item hitem
      exact .inr ⟨hpart, hbeg, fun _ => Nat.lt_succ_of_le (Link.mem_items_le hitem)⟩
    · cases List.mem_singleton.mp hitem
      exact .inl ⟨rfl, rfl⟩

theorem Ledger.note (h : Ledger guestDir s) {e : Event} (he : Confirmed guestDir e s.log)
    (hsent : ∀ n name, e ≠ .sent n name) : Ledger guestDir { s with log := e :: s.log } where
  traced := ⟨he, h.traced⟩
  sent_le := by
    intro n name hmem
    rcases List.mem_cons.mp hmem with heq | hmem
    · exact absurd heq.symm (hsent n name)
    · exact h.sent_le n name hmem
  queue := fun req hreq => (h.queue req hreq).mono fun _ => List.mem_cons_of_mem _
  outputs := fun serial line reply hmem => (h.outputs serial line reply hmem).mono fun _ => List.mem_cons_of_mem _

theorem Ledger.idle (h : Ledger guestDir s) (hitems : s.link.items = []) :
    Inv guestDir { s with inFlight := none } where
  traced := h.traced
  sent_le := h.sent_le
  queue := h.queue
  outputs := h.outputs
  flight := by simp
  items := by simp [hitems]

/-! ## The steps -/

theorem Inv.enqueue (h : Inv guestDir s) (name : List Char) (bytes : List UInt8) (hash : Nat) :
    Inv guestDir
      { s with queue := s.queue ++ [sharePutReq name bytes hash], log := .queued name bytes hash :: s.log } := by
  have hl := h.toLedger.note (e := .queued name bytes hash) trivial (by simp)
  refine { traced := hl.traced, sent_le := hl.sent_le, queue := ?_, outputs := hl.outputs, flight := ?_, items := ?_ }
  · intro req hreq
    rcases List.mem_append.mp hreq with hreq | hreq
    · exact hl.queue req hreq
    · cases List.mem_singleton.mp hreq
      exact ⟨phased_sharePutReq name bytes hash, sharePutReq_phase name bytes hash, List.mem_cons_self ..⟩
  · intro req hreq
    have hf := h.flight req hreq
    refine ⟨hf.phased, List.mem_cons_of_mem _ hf.queued, List.mem_cons_of_mem _ hf.sent, hf.line, hf.unread, ?_⟩
    intro line reply hreply
    have hr := hf.answer line reply hreply
    exact ⟨hr.beg, hr.chunk, fun p written hp hok => List.mem_cons_of_mem _ (hr.done p written hp hok)⟩
  · intro item hitem
    rcases h.items item hitem with hlast | ⟨hpart, hrewound, hlt⟩
    · exact .inl hlast
    · refine .inr ⟨hpart, ?_, hlt⟩
      unfold State.Rewound at hrewound ⊢
      cases hflight : s.inFlight with
      | some req => simpa only [hflight] using hrewound
      | none =>
        simp only [hflight] at hrewound ⊢
        obtain ⟨req, hhead, hbeg⟩ := hrewound
        refine ⟨req, ?_, hbeg⟩
        rw [List.head?_append, hhead]
        rfl

theorem Inv.beats (h : Inv guestDir s) (n : Nat) : Inv guestDir { s with overdueBeats := n } where
  traced := h.traced
  sent_le := h.sent_le
  queue := h.queue
  outputs := h.outputs
  flight := by
    intro req hreq
    have hf := h.flight req hreq
    refine ⟨hf.phased, hf.queued, hf.sent, hf.line, hf.unread, ?_⟩
    intro line reply hreply
    have hr := hf.answer line reply hreply
    exact ⟨hr.beg, hr.chunk, hr.done⟩
  items := h.items

theorem Inv.noteOverdue (h : Inv guestDir s) (hcross : s.overdueBeats + 1 < 3 ∨ ¬s.Crossing) :
    Inv guestDir s.noteOverdue := by
  unfold State.noteOverdue
  split
  · exact h
  · split
    · next hthree =>
      exact (h.requeue (hcross.resolve_left (by omega))).beats 0
    · exact h.beats _

theorem Inv.sendNext (h : Inv guestDir s) : Inv guestDir (s.sendNext guestDir) := by
  unfold State.sendNext
  split
  · exact h
  · next hidle =>
    have hnone : s.inFlight = none := by simpa using hidle
    split
    · exact h.beats 0
    · next req rest hqueue =>
      have hw := h.queue req (by rw [hqueue]; exact List.mem_cons_self ..)
      simp only [writeReqLine_eq hw.phase]
      have hl : Ledger guestDir { s with queue := rest, overdueBeats := 0 } :=
        { traced := h.traced, sent_le := h.sent_le, outputs := h.outputs
          queue := fun req' hreq' => h.queue req' (by rw [hqueue]; exact List.mem_cons_of_mem _ hreq') }
      refine hl.send hw.phased rfl hw.queued ?_ ?_
      · intro item hitem
        rcases h.items item hitem with ⟨-, hsome⟩ | ⟨hpart, hrewound, -⟩
        · rw [hnone] at hsome
          cases hsome
        · simp only [State.Rewound, hnone, hqueue, List.head?_cons, Option.some.injEq, exists_eq_left'] at hrewound
          exact ⟨hpart, hrewound⟩
      · intro hpart
        unfold Put.line at hpart
        rcases hw.phase with hp | hp <;> simp [hp, Line.isPart] at hpart

theorem Ledger.notes (h : Ledger guestDir s) {events : List Event}
    (hevents : ∀ e ∈ events, (∀ earlier, Confirmed guestDir e earlier) ∧ ∀ n name, e ≠ .sent n name) :
    Ledger guestDir { s with log := events ++ s.log } := by
  induction events with
  | nil => exact h
  | cons e events ih =>
    have hrest := ih fun e' he' => hevents e' (List.mem_cons_of_mem _ he')
    obtain ⟨he, hsent⟩ := hevents e (List.mem_cons_self ..)
    exact hrest.note (he _) hsent

/-- The answer to a PUT, and to a part of a PUT. -/
theorem agentStep_spec (stream : Option PutStream) (line : Line) (failure : Option Nat) :
    (∀ path bytes p written, line = .put path bytes → (agentStep stream line failure).2.2 = .putOk p written →
        (agentStep stream line failure).2.1 = some (path, bytes)) ∧
      (line.isPart = true → replyMatchesPhase .beg (agentStep stream line failure).2.2 = false) := by
  cases line with
  | put path bytes =>
    refine ⟨?_, by simp [Line.isPart]⟩
    rintro path' bytes' p written ⟨⟩ hreply
    unfold agentStep at hreply ⊢
    by_cases hfail : failure.isSome = true
    · simp [hfail] at hreply
    · simp [hfail]
  | putBeg path total n => simp [Line.isPart]
  | putChunk seq bytes =>
    refine ⟨by simp, fun _ => ?_⟩
    unfold agentStep
    cases stream with
    | none => rfl
    | some open' =>
      by_cases hseq : seq = open'.seq
      · cases failure <;> simp [hseq, replyMatchesPhase]
      · simp [hseq, replyMatchesPhase]
  | putEnd seq =>
    refine ⟨by simp, fun _ => ?_⟩
    unfold agentStep
    cases stream with
    | none => rfl
    | some open' =>
      dsimp only
      split <;> rfl

/-- The agent's answer to the last line. -/
theorem agentStep_replied {failure : Option Nat} (hphased : req.Phased)
    (hholds : (req.line guestDir).isPart = true → Holds guestDir req req.before s.stream)
    (hstream : s'.stream = (agentStep s.stream (req.line guestDir) failure).1)
    (hlog : ∀ file ∈ (agentStep s.stream (req.line guestDir) failure).2.1,
      .executed s'.link.sent file.1 file.2 ∈ s'.log) :
    Replied guestDir s' req (agentStep s.stream (req.line guestDir) failure).2.2 := by
  unfold Put.line Put.before at *
  unfold Put.Phased at hphased
  cases hp : req.phase with
  | legacy =>
    simp only [hp] at hphased hholds hstream hlog ⊢
    exact ⟨by simp [hp], by simp [hp], by simp [hp]⟩
  | beg =>
    simp only [hp] at hphased hholds hstream hlog ⊢
    refine ⟨?_, by simp [hp], by simp [hp]⟩
    intro _ hreply
    right
    rw [hstream]
    unfold agentStep at hreply ⊢
    by_cases hfail : failure.isSome = true
    · simp [hfail] at hreply
    · simp [hfail, received_zero]
  | chunk =>
    simp only [hp] at hphased hholds hstream hlog ⊢
    refine ⟨by simp [hp], ?_, by simp [hp]⟩
    intro seq _ hreply
    right
    rw [hstream]
    rcases hholds rfl with hnone | hsome
    · simp [agentStep, hnone] at hreply
    · rw [hsome] at hreply ⊢
      simp only [agentStep, ne_eq, not_true_eq_false, if_false] at hreply ⊢
      cases failure with
      | some n => simp at hreply
      | none =>
        have hnext : req.nextChunk - 1 + 1 = req.nextChunk := by omega
        have hreceived := received_succ req.bytes (req.nextChunk - 1)
        rw [hnext] at hreceived
        simp only [Option.some.injEq, PutStream.mk.injEq, true_and]
        rw [← hreceived, List.length_append]
        exact ⟨rfl, hnext, rfl⟩
  | done =>
    simp only [hp] at hphased hholds hstream hlog ⊢
    refine ⟨by simp [hp], by simp [hp], ?_⟩
    intro p written _ hreply
    have hfile : (agentStep s.stream (.putEnd (nchunks req.bytes)) failure).2.1 =
        some (shareGuestPath guestDir req.name, req.bytes) := by
      rcases hholds rfl with hnone | hsome
      · simp [agentStep, hnone] at hreply
      · rw [hsome, hphased.1, received_nchunks] at hreply ⊢
        simp only [agentStep] at hreply ⊢
        split at hreply
        · cases hreply
        · next hok => rw [if_neg hok]
    exact hlog _ hfile

/-- What an answer adds to the log. -/
def answerEvents (serial : Nat) (answer : Option (List Char × List UInt8) × Reply) : List Event :=
  (answer.1.toList.map fun file => Event.executed serial file.1 file.2) ++
    (if answer.2.isErr then [.refused serial] else [])

theorem Ledger.answer (h : Ledger guestDir s) (serial : Nat) (answer : Option (List Char × List UInt8) × Reply) :
    Ledger guestDir { s with log := answerEvents serial answer ++ s.log } := by
  apply h.notes
  intro e he
  rcases List.mem_append.mp he with he | he
  · obtain ⟨file, -, rfl⟩ := List.mem_map.mp he
    exact ⟨fun _ => trivial, by simp⟩
  · split at he
    · cases List.mem_singleton.mp he
      exact ⟨fun _ => trivial, by simp⟩
    · cases he

theorem answered_answerEvents (log : List Event) (serial : Nat) (stream : Option PutStream) (line : Line)
    (failure : Option Nat) :
    Answered (answerEvents serial (agentStep stream line failure).2 ++ log) serial line
      (agentStep stream line failure).2.2 := by
  obtain ⟨hput, hpart⟩ := agentStep_spec stream line failure
  refine ⟨?_, ?_, hpart⟩
  · intro herr
    refine List.mem_append_left _ (List.mem_append_right _ ?_)
    rw [if_pos herr]
    exact List.mem_singleton_self _
  · intro path bytes p written hline hreply
    refine List.mem_append_left _ (List.mem_append_left _ ?_)
    rw [hput path bytes p written hline hreply]
    exact List.mem_singleton_self _

theorem Inv.agent (h : Inv guestDir s) {failure : Option Nat} (hs : s.agent failure = some s') : Inv guestDir s' := by
  unfold State.agent at hs
  cases hunread : s.link.unread with
  | nil =>
    rw [hunread] at hs
    cases hs
  | cons item rest =>
    obtain ⟨serial, line⟩ := item
    rw [hunread] at hs
    dsimp only at hs
    cases hs
    obtain ⟨hrest, houtputs, hsent⟩ := Link.answer_cons (agentStep s.stream line failure).2.2 hunread
    have hl := h.toLedger.answer serial (agentStep s.stream line failure).2
    have hanswered := answered_answerEvents s.log serial s.stream line failure
    have hitem : (serial, line) ∈ s.link.items :=
      Link.mem_items.mpr (.inr (by rw [hunread]; exact List.mem_cons_self ..))
    have hunanswered : ∀ line' reply, .answer s.link.sent line' reply ∉ s.link.outputs := by
      intro line' reply hmem
      rw [Link.unread_of_answered hmem] at hunread
      cases hunread
    refine { traced := hl.traced, sent_le := ?_, queue := hl.queue, outputs := ?_, flight := ?_, items := ?_ }
    · intro n name hmem
      rw [hsent]
      exact hl.sent_le n name hmem
    · intro serial' line' reply hmem
      rcases List.mem_append.mp (houtputs ▸ hmem) with hmem | hmem
      · exact hl.outputs serial' line' reply hmem
      · cases List.mem_singleton.mp hmem
        exact hanswered
    · intro req hreq
      have hf := h.flight req hreq
      refine ⟨hf.phased, List.mem_append_right _ hf.queued, ?_, ?_, ?_, ?_⟩
      · rw [hsent]
        exact List.mem_append_right _ hf.sent
      · intro line' hline'
        exact hf.line line' (hsent ▸ Link.items_answer ▸ hline')
      · intro line' hmem hpart
        rw [hrest, hsent] at hmem
        rcases h.items _ hitem with ⟨hlast, -⟩ | ⟨-, hrewound, -⟩
        · have hnew : .answer s.link.sent line (agentStep s.stream line failure).2.2 ∈
              (s.link.answer (agentStep s.stream line failure).2.2).outputs := by
            rw [houtputs, ← hlast]
            exact List.mem_append_right _ (List.mem_singleton_self _)
          rw [← hsent] at hnew
          have hnil := Link.unread_of_answered hnew
          rw [← hrest, hnil] at hmem
          cases hmem
        · have hline' := hf.line line' (Link.mem_items.mpr (.inr (by rw [hunread]; exact List.mem_cons_of_mem _ hmem)))
          rw [hline', isPart_line_beg (hrewound.phase hreq)] at hpart
          cases hpart
      · intro line' reply hmem
        rw [houtputs, hsent] at hmem
        rcases List.mem_append.mp hmem with hmem | hmem
        · exact absurd hmem (hunanswered line' reply)
        · cases List.mem_singleton.mp hmem
          have hline := hf.line line hitem
          subst hline
          apply agentStep_replied hf.phased _ rfl
          · intro file hfile
            refine List.mem_append_left _ (List.mem_append_left _ ?_)
            rw [hsent]
            exact List.mem_map.mpr ⟨file, Option.mem_toList.mpr hfile, rfl⟩
          · exact hf.unread _ (by rw [hunread]; exact List.mem_cons_self ..)
    · intro item' hitem'
      rw [hsent]
      exact h.items item' (Link.items_answer ▸ hitem')

theorem Inv.last (h : Inv guestDir s) {serial : Nat} {later : List (Output Line Reply)}
    (houtputs : s.link.outputs = .answer serial line reply :: later) (hflight : s.inFlight = some req)
    (hhandled : handleReply req reply ≠ .ignored) : serial = s.link.sent := by
  have hmem : .answer serial line reply ∈ s.link.outputs := by
    rw [houtputs]
    exact List.mem_cons_self ..
  rcases h.items (serial, line) (Link.mem_items.mpr (.inl ⟨reply, hmem⟩)) with ⟨hlast, -⟩ |
    ⟨hpart, hrewound, -⟩
  · exact hlast
  · have hmatch := matches_of_handled hhandled
    rw [hrewound.phase hflight, (h.outputs serial line reply hmem).part hpart] at hmatch
    cases hmatch

theorem Inv.credit (h : Inv guestDir s) {serial : Nat} {later : List (Output Line Reply)}
    (houtputs : s.link.outputs = .answer serial line reply :: later) :
    Inv guestDir ({ s with link := s.link.receive }.credit serial reply) := by
  have hmem : .answer serial line reply ∈ s.link.outputs := by
    rw [houtputs]
    exact List.mem_cons_self ..
  have hreceived : Inv guestDir { s with link := s.link.receive } :=
    h.shrink rfl (fun _ hitem => hitem) (fun _ _ _ hout => List.mem_of_mem_tail hout) (.inr rfl)
  unfold State.credit
  split
  · exact hreceived
  · next req hflight =>
    have hf := h.flight req hflight
    by_cases hhandled : handleReply req reply = .ignored
    · rw [hhandled]
      exact hreceived
    · obtain rfl := h.last houtputs hflight hhandled
      have hempty := Link.receive_last houtputs
      have hreplied := hf.answer line reply hmem
      have hanswered := h.outputs _ line reply hmem
      have hline := hf.line line (Link.mem_items.mpr (.inl ⟨reply, hmem⟩))
      have hcredited : Ledger guestDir { s with link := s.link.receive, log := .credited s.link.sent :: s.log } :=
        hreceived.toLedger.note ⟨⟨req.name, hf.sent⟩, h.sent_le⟩ (by simp)
      have hphased := hf.phased
      unfold Put.Phased at hphased
      rcases handleReply_cases hf.phased hhandled with ⟨hp, hreply, heq⟩ | ⟨hp, hreply, hmore, heq⟩ |
        ⟨hp, hreply, hlast, heq⟩ | ⟨hp, ⟨path, written, hreply⟩, heq⟩ | ⟨herr, heq⟩
      · rw [heq]
        refine hcredited.send ?_ rfl (List.mem_cons_of_mem _ hf.queued) (by simp [hempty]) ?_
        · have hlen := hf.phased.length_pos (by rw [hp]; simp)
          simp only [Put.Phased]
          unfold nchunks chunkBytes
          omega
        · intro _
          exact hreplied.beg hp hreply
      · rw [heq]
        refine hcredited.send ?_ rfl (List.mem_cons_of_mem _ hf.queued) (by simp [hempty]) ?_
        · simp only [Put.Phased]
          omega
        · intro _
          exact hreplied.chunk _ hp hreply
      · rw [heq]
        refine hcredited.send ?_ rfl (List.mem_cons_of_mem _ hf.queued) (by simp [hempty]) ?_
        · exact ⟨hlast, hf.phased.length_pos (by rw [hp]; simp)⟩
        · intro _
          exact hreplied.chunk _ hp hreply
      · rw [heq]
        have hexecuted : .executed s.link.sent (shareGuestPath guestDir req.name) req.bytes ∈ s.log := by
          rcases hp with hp | hp
          · exact hanswered.put _ _ _ _ (by rw [hline, Put.line, hp]) hreply
          · exact hreplied.done _ _ hp hreply
        refine (hcredited.note (e := .onPutOk req.name req.bytes.length req.hash) ?_ (by simp)).idle hempty
        exact ⟨s.link.sent, req.bytes, rfl, List.mem_cons_of_mem _ hf.sent, List.mem_cons_of_mem _ hexecuted, rfl,
          List.mem_cons_of_mem _ hf.queued⟩
      · rw [heq]
        refine (hcredited.note (e := .onPutRejected req.name) ?_ (by simp)).idle hempty
        exact ⟨s.link.sent, rfl, List.mem_cons_of_mem _ hf.sent, List.mem_cons_of_mem _ (hanswered.refused herr)⟩

theorem Inv.deliver (h : Inv guestDir s) (hcross : Uncrossed s .deliver) (hs : s.deliver = some s') :
    Inv guestDir s' := by
  unfold State.deliver at hs
  unfold Uncrossed at hcross
  split at hs
  · cases hs
  · next later houtputs =>
    cases hs
    rw [houtputs] at hcross
    have hreceived : Inv guestDir { s with link := s.link.receive } :=
      h.shrink rfl (fun _ hitem => hitem) (fun _ _ _ hout => List.mem_of_mem_tail hout) (.inr rfl)
    apply hreceived.requeue
    rintro ⟨req, hflight, hphase, item, hitem, hlast⟩
    exact hcross ⟨req, hflight, hphase, item, Link.items_receive.subset hitem, hlast⟩
  · next serial line reply later houtputs =>
    cases hs
    exact h.credit houtputs

theorem Inv.step (h : Inv guestDir s) {a : Act} (hcross : Uncrossed s a) (hs : step guestDir s a = some s') :
    Inv guestDir s' := by
  cases a with
  | enqueue name bytes hash =>
    cases hs
    exact h.enqueue name bytes hash
  | pump overdue =>
    cases hs
    cases overdue with
    | false => exact h.sendNext
    | true => exact (h.noteOverdue hcross).sendNext
  | agent failure => exact h.agent hs
  | deliver => exact h.deliver hcross hs
  | restart =>
    cases hs
    refine h.shrink rfl (fun _ hitem => hitem) ?_ (.inl rfl)
    intro serial line reply hmem
    rcases List.mem_append.mp hmem with hmem | hmem
    · exact hmem
    · cases List.mem_singleton.mp hmem
  | loseLine i =>
    cases hs
    exact h.shrink rfl (fun _ hitem => List.mem_of_mem_eraseIdx hitem) (fun _ _ _ hout => hout) (.inr rfl)
  | loseOutput i =>
    cases hs
    exact h.shrink rfl (fun _ hitem => hitem) (fun _ _ _ hout => List.mem_of_mem_eraseIdx hout) (.inr rfl)

end Invariant

/-! ## Runs -/

/-- **Confirmations are sound** in every run that sends no PUT or PUTBEG again while it or its answer is on the way:
each answer credited is the one to the last line, `on_put_ok` follows the PUT of those bytes to that name's path, and
`on_put_rejected` a refusal of that name's PUT. -/
theorem put_confirmations_sound {guestDir : List Char} {s : State}
    (h : Reaches (step guestDir) Uncrossed start s) : Traced (Confirmed guestDir) s.log :=
  (h.invariant (P := Inv guestDir) inv_start fun _ _ _ hinv hcross hs => hinv.step hcross hs).traced

/-- A PUT whose answer was lost is sent again, and confirmed. -/
theorem put_confirmations_sound_resent :
    ∃ s, runs (guarded (step ['C']) Uncrossed) start
        [.enqueue ['a'] [7] 1, .pump false, .agent none, .loseOutput 0, .pump true, .pump true, .pump true,
          .agent none, .deliver] = some s ∧
      s.log.head? = some (.onPutOk ['a'] 1 1) ∧ Traced (Confirmed ['C']) s.log :=
  ⟨_, rfl, rfl, put_confirmations_sound (Reaches.start.of_runs
    (show runs (guarded (step ['C']) Uncrossed) start
        [.enqueue ['a'] [7] 1, .pump false, .agent none, .loseOutput 0, .pump true, .pump true, .pump true,
          .agent none, .deliver] = some _ from rfl))⟩

/-- The event is no PUT of the path. -/
def Event.spares (path : List Char) : Event → Bool
  | .executed _ path' _ => path' ≠ path
  | _ => true

/-- The agent's READY comes while it has not read the PUT of `a`, which is sent again at once. The first PUTOK is
credited to the second transmission, the second one to the PUT of `b`, which the agent has not read. -/
theorem late_answer_confirms_next :
    ∃ s, Reaches (step ['C']) (fun _ _ => True) start s ∧
      s.log.head? = some (.onPutOk ['b'] 1 2) ∧
      (∀ serial bytes, .executed serial ['C', '\\', 'b'] bytes ∉ s.log) ∧
      ¬Traced (Confirmed ['C']) s.log := by
  have hspares : ∀ {log : List Event}, log.all (Event.spares ['C', '\\', 'b']) = true →
      ∀ serial bytes, .executed serial ['C', '\\', 'b'] bytes ∉ log := by
    intro log hall serial bytes hmem
    have h := List.all_eq_true.mp hall _ hmem
    simp [Event.spares] at h
  refine ⟨_, Reaches.start.of_runs (show runs (guarded (step ['C']) fun _ _ => True) start
    [.enqueue ['a'] [7] 1, .pump false, .restart, .deliver, .pump false, .agent none, .agent none, .deliver,
      .enqueue ['b'] [8] 2, .pump false, .deliver] = some _ from rfl), rfl, hspares rfl, ?_⟩
  intro htraced
  obtain ⟨serial, bytes, -, -, hexecuted, -⟩ := htraced.1
  exact hspares rfl serial bytes hexecuted

end BridgeVm.AgentConsole.SharePut
