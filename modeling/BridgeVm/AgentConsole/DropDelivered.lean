import BridgeVm.AgentConsole.Delivery
import BridgeVm.Lib.Transition

/-!
# A drop reported done was delivered

Answers name their verb, and chunks their number; the job they belong to they do not name. Between two jobs only the
request for the capabilities, the first of each, can take the answer to an earlier line: to the same request of a job
that stalled, or the `OUT 255` of an agent without the verbs. Where that does not happen, the wire is empty once a job
has its capabilities, and what the agent answers from then on is the job's own.
-/

namespace BridgeVm.AgentConsole.FileDrop

open Lib

/-! ## The invariant -/

/-- The log and the answers on the way. -/
structure Ledger (s : State) : Prop where
  traced : Traced Sound s.log
  sent_le : ∀ n job req, .sent n job req ∈ s.log → n ≤ s.link.sent
  ended_le : ∀ job, .done job ∈ s.log ∨ .failed job ∈ s.log → job ≤ s.jobs
  outputs : ∀ n req reply, .answer n req reply ∈ s.link.outputs →
    .answered n req reply ∈ s.log ∧ reply.answers req = true

/-- The last job started, while it runs. -/
structure Running (s : State) (drop : ActiveDrop) : Prop where
  active : s.active = some drop
  started : .started s.jobs drop.id drop.root ∈ s.log
  walked : drop.entries = walkStaged [] drop.root
  running : .done s.jobs ∉ s.log ∧ .failed s.jobs ∉ s.log

/-- The agent has answered the job's request for the capabilities, line `c`. -/
def Capable (s : State) (c : Nat) : Prop :=
  .sent c s.jobs .caps ∈ s.log ∧ ∃ reply, .answered c .caps reply ∈ s.log

structure Queued (s : State) (req : DropReq) : Prop where
  inFlight : s.inFlight = none
  queue : s.queue = [(s.jobs, req)]

structure Flying (s : State) (req : DropReq) : Prop where
  inFlight : s.inFlight = some (s.jobs, req)
  queue : s.queue = []
  sent : .sent s.link.sent s.jobs req ∈ s.log

/-- A step of the job that was ended last. -/
def Aborted (s : State) (item : Nat × DropReq) : Prop := item.2 ≠ .abort ∧ .sent item.1 s.jobs item.2 ∈ s.log

/-- Nothing of the drop is done. -/
structure Fresh (drop : ActiveDrop) : Prop where
  caps : drop.caps = false
  file : drop.file = none
  next : drop.next = 0
  folders : drop.folders = AssocMap.empty

/-- Where the last job is. -/
inductive Shape (s : State) : Prop
  | ended (hactive : s.active = none) (hflight : s.inFlight = none) (hqueue : s.queue = [])
  | abortQueued (hactive : s.active = none) (h : Queued s .abort) (hitems : ∀ item ∈ s.link.items, Aborted s item)
  | abortFlying (hactive : s.active = none) (h : Flying s .abort)
      (hitems : ∀ item ∈ s.link.items, item.1 = s.link.sent ∨ Aborted s item)
  | capsQueued {drop : ActiveDrop} (hrun : Running s drop) (hfresh : Fresh drop) (h : Queued s .caps)
  | capsFlying {drop : ActiveDrop} (hrun : Running s drop) (hfresh : Fresh drop) (h : Flying s .caps)
      (hitems : ∀ item ∈ s.link.items, item.2 = .caps ↔ item.1 = s.link.sent)
      (hanswer : ∀ line reply, .answer s.link.sent line reply ∈ s.link.outputs →
        transcript s.link.sent s.log = [])
  | idle {drop : ActiveDrop} {c : Nat} (hrun : Running s drop) (hcaps : Capable s c) (hflight : s.inFlight = none)
      (hqueue : s.queue = []) (hitems : s.link.items = [])
      (hprogress : Progress drop.root drop none (transcript c s.log))
  | queued {drop : ActiveDrop} {c : Nat} {req : DropReq} (hrun : Running s drop) (hcaps : Capable s c)
      (h : Queued s req) (hitems : s.link.items = [])
      (hprogress : Progress drop.root drop (some req) (transcript c s.log))
  | flying {drop : ActiveDrop} {c : Nat} {req : DropReq} {xs : List Exchange} (hrun : Running s drop)
      (hcaps : Capable s c) (hlt : c < s.link.sent) (h : Flying s req)
      (hitems : ∀ item ∈ s.link.items, item = (s.link.sent, req))
        (hprogress : Progress drop.root drop (some req) xs)
      (hunread : (s.link.sent, req) ∈ s.link.unread → transcript c s.log = xs)
      (hanswer : ∀ reply, .answer s.link.sent req reply ∈ s.link.outputs → transcript c s.log = xs ++
        [(req, reply)])

structure Inv (s : State) : Prop extends Ledger s where
  shape : Shape s

theorem inv_start : Inv start where
  traced := trivial
  sent_le := by simp [start]
  ended_le := by simp [start]
  outputs := by simp [start, Link.idle]
  shape := .ended rfl rfl rfl

section Invariant

variable {s s' : State} {drop : ActiveDrop} {req : DropReq} {reply : Reply} {link : Link DropReq Reply}

theorem mem_items_of_subset (hunread : ∀ item ∈ link.unread, item ∈ s.link.unread)
    (houtputs : ∀ n req reply, .answer n req reply ∈ link.outputs → .answer n req reply ∈ s.link.outputs) :
    ∀ item ∈ link.items, item ∈ s.link.items := by
  intro item hitem
  rcases Link.mem_items.mp hitem with ⟨reply, hreply⟩ | hitem
  · exact Link.mem_items.mpr (.inl ⟨reply, houtputs _ _ _ hreply⟩)
  · exact Link.mem_items.mpr (.inr (hunread _ hitem))

/-- Less on the way; more jobs wait. -/
theorem Inv.shrink (h : Inv s) {waiting : List (List Char × Option (List (Name × Staged)))} {beats : Nat}
    (hsent : link.sent = s.link.sent) (hunread : ∀ item ∈ link.unread, item ∈ s.link.unread)
    (houtputs : ∀ n req reply, .answer n req reply ∈ link.outputs → .answer n req reply ∈ s.link.outputs) :
    Inv { s with waiting := waiting, overdueBeats := beats, link := link } := by
  have hsub := mem_items_of_subset hunread houtputs
  have hnil : s.link.items = [] → link.items = [] := by
    intro hnil
    rw [List.eq_nil_iff_forall_not_mem] at hnil ⊢
    exact fun item hitem => hnil item (hsub item hitem)
  refine { traced := h.traced, sent_le := ?_, ended_le := h.ended_le, outputs := ?_, shape := ?_ }
  · rw [hsent]
    exact h.sent_le
  · exact fun n req reply hmem => h.outputs n req reply (houtputs n req reply hmem)
  · cases h.shape with
    | ended hactive hflight hqueue => exact .ended hactive hflight hqueue
    | abortQueued hactive hq hitems =>
      exact .abortQueued hactive ⟨hq.inFlight, hq.queue⟩ fun item hitem => hitems item (hsub item hitem)
    | abortFlying hactive hf hitems =>
      refine .abortFlying hactive ⟨hf.inFlight, hf.queue, hsent ▸ hf.sent⟩ fun item hitem => ?_
      rw [hsent]
      exact hitems item (hsub item hitem)
    | capsQueued hrun hfresh hq =>
      exact .capsQueued ⟨hrun.1, hrun.2, hrun.3, hrun.4⟩ hfresh ⟨hq.inFlight, hq.queue⟩
    | capsFlying hrun hfresh hf hitems hanswer =>
      refine .capsFlying ⟨hrun.1, hrun.2, hrun.3, hrun.4⟩ hfresh ⟨hf.inFlight,
        hf.queue, hsent ▸ hf.sent⟩ ?_ ?_
      · rw [hsent]
        exact fun item hitem => hitems item (hsub item hitem)
      · rw [hsent]
        exact fun line reply hmem => hanswer line reply (houtputs _ _ _ hmem)
    | idle hrun hcaps hflight hqueue hitems hprogress =>
      exact .idle ⟨hrun.1, hrun.2, hrun.3, hrun.4⟩ hcaps hflight hqueue (hnil hitems) hprogress
    | queued hrun hcaps hq hitems hprogress =>
      exact .queued ⟨hrun.1, hrun.2, hrun.3, hrun.4⟩ hcaps ⟨hq.inFlight, hq.queue⟩ (hnil hitems) hprogress
    | flying hrun hcaps hlt hf hitems hprogress hun hanswer =>
      refine .flying ⟨hrun.1, hrun.2, hrun.3, hrun.4⟩ hcaps (hsent ▸ hlt)
        ⟨hf.inFlight, hf.queue, hsent ▸ hf.sent⟩ ?_ hprogress ?_ ?_
      · rw [hsent]
        exact fun item hitem => hitems item (hsub item hitem)
      · rw [hsent]
        exact fun hmem => hun (hunread _ hmem)
      · rw [hsent]
        exact fun reply hmem => hanswer reply (houtputs _ _ _ hmem)

/-! ## Events -/

theorem Ledger.note (h : Ledger s) {e : Event} (he : Sound e s.log) (hsent : ∀ n job req, e ≠ .sent n job req)
    (hended : ∀ job, e = .done job ∨ e = .failed job → job ≤ s.jobs) : Ledger { s with log := e :: s.log } where
  traced := ⟨he, h.traced⟩
  sent_le := by
    intro n job req hmem
    rcases List.mem_cons.mp hmem with heq | hmem
    · exact absurd heq.symm (hsent n job req)
    · exact h.sent_le n job req hmem
  ended_le := by
    intro job hmem
    rw [List.mem_cons, List.mem_cons] at hmem
    rcases hmem with (heq | hmem) | (heq | hmem)
    · exact hended job (.inl heq.symm)
    · exact h.ended_le job (.inl hmem)
    · exact hended job (.inr heq.symm)
    · exact h.ended_le job (.inr hmem)
  outputs := fun n req reply hmem => (h.outputs n req reply hmem).imp_left (List.mem_cons_of_mem _)

theorem Ledger.fail (h : Ledger s) (hactive : s.active = some drop) (hflight : s.inFlight = none) {hostSide : Bool}
    (hitems : hostSide = true → drop.file.isSome = true → ∀ item ∈ s.link.items, Aborted s item) :
    Inv (s.fail hostSide) := by
  unfold State.fail
  simp only [hactive]
  have hl := h.note (e := .failed s.jobs) trivial (by simp) (by simp)
  refine { traced := hl.traced, sent_le := hl.sent_le, ended_le := hl.ended_le, outputs := hl.outputs, shape := ?_ }
  by_cases habort : hostSide = true ∧ drop.file.isSome = true
  · refine .abortQueued rfl ⟨hflight, if_pos habort⟩ fun item hitem => ?_
    obtain ⟨hne, hsent⟩ := hitems habort.1 habort.2 item hitem
    exact ⟨hne, List.mem_cons_of_mem _ hsent⟩
  · exact .ended rfl hflight (if_neg habort)

theorem Progress.ne_abort {root : List (Name × Staged)} {xs : List Exchange}
    (h : Progress root drop (some req) xs) : req ≠ .abort := by
  cases h <;> simp

theorem Inv.noteOverdue (h : Inv s) : Inv s.noteOverdue := by
  unfold State.noteOverdue
  split
  · exact h
  · next hsome =>
    split
    · have hl : Ledger { s with inFlight := none } := ⟨h.traced, h.sent_le, h.ended_le, h.outputs⟩
      have hfail : Inv (State.fail true { s with inFlight := none }) := by
        cases h.shape with
        | ended hactive hflight hqueue => simp [hflight] at hsome
        | abortQueued hactive hq hitems => simp [hq.inFlight] at hsome
        | abortFlying hactive hf hitems =>
          simp only [State.fail, hactive]
          exact { hl with shape := .ended rfl rfl hf.queue }
        | capsQueued hrun hfresh hq => simp [hq.inFlight] at hsome
        | capsFlying hrun hfresh hf hitems hanswer =>
          exact hl.fail hrun.active rfl fun _ hfile => by simp [hfresh.file] at hfile
        | idle hrun hcaps hflight hqueue hitems hprogress => simp [hflight] at hsome
        | queued hrun hcaps hq hitems hprogress => simp [hq.inFlight] at hsome
        | flying hrun hcaps hlt hf hitems hprogress hun hanswer =>
          refine hl.fail hrun.active rfl fun _ _ item hitem => ?_
          rw [hitems item hitem]
          exact ⟨hprogress.ne_abort, hf.sent⟩
      exact hfail.shrink rfl (fun _ hitem => hitem) fun _ _ _ hout => hout
    · exact h.shrink rfl (fun _ hitem => hitem) fun _ _ _ hout => hout

/-! ## Sending -/

/-- A line is sent of a job that has not ended, or after it a DROPABORT. -/
theorem Ledger.send (h : Ledger s) (hreq : req = .abort ∨ (.done s.jobs ∉ s.log ∧ .failed s.jobs ∉ s.log))
    {queue : List (Nat × DropReq)} {inFlight : Option (Nat × DropReq)} {beats : Nat} :
    Ledger
      { s with
        inFlight := inFlight
        queue := queue
        overdueBeats := beats
        link := s.link.send req
        log := .sent (s.link.sent + 1) s.jobs req :: s.log } where
  traced := ⟨⟨fun n job' req' hmem => Nat.lt_succ_of_le (h.sent_le n job' req' hmem), hreq⟩, h.traced⟩
  sent_le := by
    intro n job req' hmem
    rcases List.mem_cons.mp hmem with heq | hmem
    · cases heq
      exact Nat.le_refl _
    · exact Nat.le_succ_of_le (h.sent_le n job req' hmem)
  ended_le := by
    intro job hmem
    simp only [List.mem_cons, reduceCtorEq, false_or] at hmem
    exact h.ended_le job hmem
  outputs := fun n req' reply hmem => (h.outputs n req' reply hmem).imp_left (List.mem_cons_of_mem _)

theorem Running.event (h : Running s drop) {e : Event} (he : e ≠ .done s.jobs ∧ e ≠ .failed s.jobs)
    (hactive : s'.active = s.active) (hjobs : s'.jobs = s.jobs) (hlog : s'.log = e :: s.log) : Running s' drop where
  active := hactive.trans h.active
  started := by
    rw [hlog, hjobs]
    exact List.mem_cons_of_mem _ h.started
  walked := h.walked
  running := by
    rw [hlog, hjobs, List.mem_cons, List.mem_cons, not_or, not_or]
    exact ⟨⟨he.1.symm, h.running.1⟩, he.2.symm, h.running.2⟩

theorem Capable.event {c : Nat} (h : Capable s c) {e : Event} (hjobs : s'.jobs = s.jobs) (hlog : s'.log = e :: s.log) :
    Capable s' c := by
  obtain ⟨hsent, reply, hreply⟩ := h
  unfold Capable
  rw [hlog, hjobs]
  exact ⟨List.mem_cons_of_mem _ hsent, reply, List.mem_cons_of_mem _ hreply⟩

theorem Flying.event (h : Flying s req) {e : Event} (hflight : s'.inFlight = s.inFlight) (hqueue : s'.queue = s.queue)
    (hjobs : s'.jobs = s.jobs) (hsent : s'.link.sent = s.link.sent) (hlog : s'.log = e :: s.log) : Flying s' req where
  inFlight := by rw [hflight, hjobs, h.inFlight]
  queue := hqueue.trans h.queue
  sent := by
    rw [hsent, hjobs, hlog]
    exact List.mem_cons_of_mem _ h.sent

theorem Inv.sendNext (h : Inv s)
    (hcaps : s.active ≠ none → s.inFlight = none → ∀ job, s.queue = [(job, .caps)] →
      ∀ item ∈ s.link.items, item.2 ≠ .caps) :
    Inv s.sendNext := by
  have hfresh : ∀ req, (s.link.sent + 1, req) ∉ s.link.items := by
    intro req hmem
    exact absurd (Link.mem_items_le hmem) (Nat.not_succ_le_self _)
  have hunanswered : ∀ req reply, .answer (s.link.sent + 1) req reply ∉ s.link.outputs := by
    intro req reply hmem
    exact hfresh req (Link.mem_items.mpr (.inl ⟨reply, hmem⟩))
  unfold State.sendNext
  split
  · exact h
  · next hnone =>
    split
    · exact h.shrink rfl (fun _ hitem => hitem) fun _ _ _ hout => hout
    · next job req rest hqueue =>
      cases h.shape with
      | ended hactive hflight hq => simp [hq] at hqueue
      | abortQueued hactive hq hitems =>
        rw [hq.queue] at hqueue
        cases hqueue
        refine { h.toLedger.send (.inl rfl) with
          shape := .abortFlying hactive ⟨rfl, rfl, List.mem_cons_self ..⟩ ?_ }
        intro item hitem
        rcases List.mem_append.mp (Link.items_send ▸ hitem) with hitem | hitem
        · obtain ⟨hne, hsent⟩ := hitems item hitem
          exact .inr ⟨hne, List.mem_cons_of_mem _ hsent⟩
        · cases List.mem_singleton.mp hitem
          exact .inl rfl
      | abortFlying hactive hf hitems => simp [hf.queue] at hqueue
      | capsQueued hrun hnew hq =>
        have hnocaps := hcaps (by rw [hrun.active]; simp) hq.inFlight s.jobs hq.queue
        rw [hq.queue] at hqueue
        cases hqueue
        refine { h.toLedger.send (.inr hrun.running) with
          shape := .capsFlying (hrun.event (by simp) rfl rfl rfl) hnew ⟨rfl, rfl, List.mem_cons_self ..⟩ ?_ ?_ }
        · intro item hitem
          rcases List.mem_append.mp (Link.items_send ▸ hitem) with hitem | hitem
          · have hle := Link.mem_items_le hitem
            exact ⟨fun hreq => absurd hreq (hnocaps item hitem), fun hlast => by
              rw [hlast] at hle
              exact absurd hle (Nat.not_succ_le_self _)⟩
          · cases List.mem_singleton.mp hitem
            exact ⟨fun _ => rfl, fun _ => rfl⟩
        · intro line reply hmem
          exact absurd hmem (hunanswered line reply)
      | capsFlying hrun hnew hf hitems hanswer => simp [hf.queue] at hqueue
      | idle hrun hc hflight hq hitems hprogress => simp [hq] at hqueue
      | @queued drop c req' hrun hc hq hitems hprogress =>
        rw [hq.queue] at hqueue
        cases hqueue
        refine { h.toLedger.send (.inr hrun.running) with
          shape := .flying (hrun.event (by simp) rfl rfl rfl) (hc.event rfl rfl)
            (Nat.lt_succ_of_le (h.sent_le _ _ _ hc.1)) ⟨rfl, rfl, List.mem_cons_self ..⟩ ?_ hprogress ?_ ?_ }
        · intro item hitem
          rw [Link.items_send, hitems, List.nil_append] at hitem
          exact List.mem_singleton.mp hitem
        · intro _
          exact transcript_event rfl
        · intro reply hmem
          exact absurd hmem (hunanswered req reply)
      | flying hrun hc hlt hf hitems hprogress hun hanswer => simp [hf.queue] at hqueue

/-! ## The agent -/

theorem Inv.agent (h : Inv s) (hs : s.agent reply = some s') : Inv s' := by
  unfold State.agent at hs
  split at hs
  · cases hs
  · next serial req rest hunread =>
    split at hs
    · next hanswers =>
      cases hs
      obtain ⟨hrest, houtputs, hsent⟩ := Link.answer_cons reply hunread
      have hitem : (serial, req) ∈ s.link.items :=
        Link.mem_items.mpr (.inr (by rw [hunread]; exact List.mem_cons_self ..))
      have hunanswered : ∀ line reply, .answer s.link.sent line reply ∉ s.link.outputs := by
        intro line reply hmem
        rw [Link.unread_of_answered hmem] at hunread
        cases hunread
      have hl := h.toLedger.note (e := .answered serial req reply) trivial (by simp) (by simp)
      refine { traced := hl.traced, sent_le := hsent ▸ hl.sent_le, ended_le := hl.ended_le, outputs
        := ?_, shape := ?_ }
      · intro n line reply' hmem
        rcases List.mem_append.mp (houtputs ▸ hmem) with hmem | hmem
        · exact hl.outputs n line reply' hmem
        · cases List.mem_singleton.mp hmem
          exact ⟨List.mem_cons_self .., hanswers⟩
      · cases h.shape with
        | ended hactive hflight hqueue => exact .ended hactive hflight hqueue
        | abortQueued hactive hq hitems =>
          refine .abortQueued hactive ⟨hq.inFlight, hq.queue⟩ fun item hmem => ?_
          obtain ⟨hne, hmem⟩ := hitems item (Link.items_answer ▸ hmem)
          exact ⟨hne, List.mem_cons_of_mem _ hmem⟩
        | abortFlying hactive hf hitems =>
          refine .abortFlying hactive (hf.event rfl rfl rfl hsent rfl) fun item hmem => ?_
          rw [hsent]
          refine (hitems item (Link.items_answer ▸ hmem)).imp_right fun ⟨hne, hmem⟩ => ?_
          exact ⟨hne, List.mem_cons_of_mem _ hmem⟩
        | capsQueued hrun hnew hq =>
          exact .capsQueued (hrun.event (by simp) rfl rfl rfl) hnew ⟨hq.inFlight, hq.queue⟩
        | capsFlying hrun hnew hf hitems hanswer =>
          refine .capsFlying (hrun.event (by simp) rfl rfl rfl) hnew
            (hf.event rfl rfl rfl hsent rfl) ?_ ?_
          · rw [hsent]
            exact fun item hmem => hitems item (Link.items_answer ▸ hmem)
          · intro line reply' hmem
            rw [houtputs, hsent] at hmem
            rw [hsent]
            rcases List.mem_append.mp hmem with hmem | hmem
            · exact absurd hmem (hunanswered line reply')
            · cases List.mem_singleton.mp hmem
              exact transcript_start
        | idle hrun hc hflight hqueue hitems hprogress => simp [hitems] at hitem
        | queued hrun hc hq hitems hprogress => simp [hitems] at hitem
        | @flying drop c req' xs hrun hc hlt hf hitems hprogress hun hanswer =>
          cases hitems _ hitem
          have hnew : .answer s.link.sent req reply ∈ (s.link.answer reply).outputs := by
            rw [houtputs]
            exact List.mem_append_right _ (List.mem_singleton_self _)
          refine .flying (hrun.event (by simp) rfl rfl rfl) (hc.event rfl rfl) (hsent ▸ hlt)
            (hf.event rfl rfl rfl hsent rfl) ?_ hprogress ?_ ?_
          · rw [hsent]
            exact fun item hmem => hitems item (Link.items_answer ▸ hmem)
          · intro hmem
            rw [← hsent] at hnew
            rw [Link.unread_of_answered hnew] at hmem
            cases hmem
          · intro reply' hmem
            rw [houtputs, hsent] at hmem
            rcases List.mem_append.mp hmem with hmem | hmem
            · exact absurd hmem (hunanswered req reply')
            · cases List.mem_singleton.mp hmem
              have hxs := hun (by rw [hunread]; exact List.mem_cons_self ..)
              exact (transcript_answered (Nat.ne_of_gt hlt)).trans (by rw [hxs])
    · cases hs

/-! ## The next step of the drop -/

/-- The next job starts, with the request for the capabilities. -/
theorem Ledger.startNext (h : Ledger s) (hactive : s.active = none) (hflight : s.inFlight = none)
    (hqueue : s.queue = []) (io : Bool) : Inv (s.startNext.request io) := by
  unfold State.startNext
  split
  · simp only [State.request, hactive]
    exact { h with shape := .ended rfl hflight hqueue }
  · next id root waiting hfirst =>
    have hl := h.note (e := .started (s.jobs + 1) id root) trivial (by simp) (by simp)
    have hnew : .done (s.jobs + 1) ∉ s.log ∧ .failed (s.jobs + 1) ∉ s.log :=
      ⟨fun hmem => Nat.not_succ_le_self _ (h.ended_le _ (.inl hmem)),
        fun hmem => Nat.not_succ_le_self _ (h.ended_le _ (.inr hmem))⟩
    refine { traced := hl.traced, sent_le := hl.sent_le, ended_le := ?_, outputs := hl.outputs, shape := ?_ }
    · exact fun job hmem => Nat.le_succ_of_le (hl.ended_le job hmem)
    · have hrun : Running
          { s with
            jobs := s.jobs + 1
            waiting
            active := some ⟨id, root, walkStaged [] root, 0, AssocMap.empty, none, false⟩
            queue := s.queue ++ [(s.jobs + 1, .caps)]
            log := .started (s.jobs + 1) id root :: s.log }
          ⟨id, root, walkStaged [] root, 0, AssocMap.empty, none, false⟩ :=
        ⟨rfl, List.mem_cons_self .., rfl, by simpa using hnew.1, by simpa using hnew.2⟩
      refine .capsQueued hrun ⟨rfl, rfl, rfl, rfl⟩ ⟨hflight, ?_⟩
      show s.queue ++ [(s.jobs + 1, DropReq.caps)] = _
      rw [hqueue]
      rfl

theorem Inv.enqueue (h : Inv s) (io : Bool) : Inv (s.enqueue io) := by
  unfold State.enqueue
  split
  · exact h
  · next hpending =>
    rw [not_or, not_not] at hpending
    obtain ⟨hsome, hqueue⟩ := hpending
    have hflight : s.inFlight = none := by simpa using hsome
    cases h.shape with
    | ended hactive =>
      simp only [hactive]
      exact h.toLedger.startNext hactive hflight hqueue io
    | abortQueued _ hq => simp [hq.queue] at hqueue
    | abortFlying _ hf => simp [hf.inFlight] at hflight
    | capsQueued _ _ hq => simp [hq.queue] at hqueue
    | capsFlying _ _ hf => simp [hf.inFlight] at hflight
    | queued _ _ hq => simp [hq.queue] at hqueue
    | flying _ _ _ hf => simp [hf.inFlight] at hflight
    | @idle drop c hrun hc _ _ hitems hprogress =>
      simp only [hrun.active]
      rcases hprogress.nextReq io with ⟨drop', req, hnext, hprogress⟩ | ⟨hnext, folders, hdelivered⟩ | hnext
      · simp only [hnext, State.request, hrun.active]
        obtain ⟨hid, hroot, hentries⟩ : drop.Same drop' := by simpa only [hnext] using nextReq_same drop io
        have hrun' : Running { s with active := some drop', queue := s.queue ++ [(s.jobs, req)] } drop' :=
          ⟨rfl, hid ▸ hroot ▸ hrun.started, by rw [hentries, hroot, hrun.walked], hrun.running⟩
        refine { h.toLedger with shape := .queued hrun' hc ⟨hflight, ?_⟩ hitems (hroot ▸ hprogress) }
        show s.queue ++ [(s.jobs, req)] = _
        rw [hqueue]
        rfl
      · simp only [hnext]
        have hdone : Sound (.done s.jobs) s.log := by
          obtain ⟨hsent, reply, hreply⟩ := hc
          exact ⟨drop.id, drop.root, c, reply, folders, hrun.started, hsent, hreply, hdelivered⟩
        have hl := h.toLedger.note hdone (by simp) (by simp)
        have hl' : Ledger s.finish := ⟨hl.traced, hl.sent_le, hl.ended_le, hl.outputs⟩
        exact hl'.startNext rfl hflight hqueue io
      · simp only [hnext, State.request, hrun.active]
        exact h.toLedger.fail hrun.active hflight fun _ _ item hitem => by simp [hitems] at hitem

/-! ## Answers -/

/-- An answer that counts has the verb of the request, or is `OUT 255`. -/
theorem verb_of_classify {line : DropReq} (h : classify req reply ≠ .ignored) (hanswers : reply.answers line = true) :
    reply = .tooOld ∨ line.verb = req.verb := by
  cases reply with
  | tooOld => exact .inl rfl
  | err verb =>
    by_cases hverb : req.verb = verb
    · exact .inr ((of_decide_eq_true hanswers).trans hverb.symm)
    · exact absurd (by simp [classify, hverb]) h
  | caps =>
    cases req with
    | caps => exact .inr (of_decide_eq_true hanswers)
    | _ => exact absurd rfl h
  | named verb name =>
    have hline : line.verb = verb := by
      simp only [Reply.answers, Bool.and_eq_true, decide_eq_true_eq] at hanswers
      exact hanswers.1
    cases req with
    | dir rel => cases verb <;> first | exact .inr hline | exact absurd rfl h
    | beg rel size => cases verb <;> first | exact .inr hline | exact absurd rfl h
    | _ => cases verb <;> exact absurd rfl h
  | okChunk n =>
    cases req with
    | chunk seq bytes => exact .inr (of_decide_eq_true hanswers)
    | _ => exact absurd rfl h
  | okEnd written =>
    cases req with
    | stop chunks => exact .inr (of_decide_eq_true hanswers)
    | _ => exact absurd rfl h
  | okAbort =>
    cases req with
    | abort => exact .inr (of_decide_eq_true hanswers)
    | _ => exact absurd rfl h

theorem Ledger.goOn {c : Nat} {xs : List Exchange} {answer : DropReply} (h : Ledger s) (hrun : Running s drop)
    (hc : Capable s c) (hflight : s.inFlight = none) (hqueue : s.queue = []) (hitems : s.link.items = [])
    (hxs : transcript c s.log = xs)
    (hprogress : ∀ drop', drop.reply answer = some drop' → Progress drop.root drop' none xs) :
    Inv (match drop.reply answer with
      | some drop' => { s with active := some drop' }
      | none => s.fail false) := by
  cases hreply : drop.reply answer with
  | none => exact h.fail hrun.active hflight fun hhost => by cases hhost
  | some drop' =>
    obtain ⟨hid, hroot, hentries⟩ := reply_same hreply
    have hrun' : Running { s with active := some drop' } drop' :=
      ⟨rfl, hid ▸ hroot ▸ hrun.started, by rw [hentries, hroot, hrun.walked], hrun.running⟩
    refine { h with shape := .idle hrun' hc hflight hqueue hitems ?_ }
    rw [hroot]
    exact hxs ▸ hprogress drop' hreply

theorem Inv.credit (h : Inv s) {serial : Nat} {line : DropReq} {later : List (Output DropReq Reply)}
    (hcross : Uncrossed s .deliver) (houtputs : s.link.outputs = .answer serial line reply :: later) :
    Inv ({ s with link := s.link.receive }.credit serial reply) := by
  have hmem : .answer serial line reply ∈ s.link.outputs := by
    rw [houtputs]
    exact List.mem_cons_self ..
  have hitem : (serial, line) ∈ s.link.items := Link.mem_items.mpr (.inl ⟨reply, hmem⟩)
  obtain ⟨hanswered, hanswers⟩ := h.outputs serial line reply hmem
  have hreceived : Inv { s with link := s.link.receive } :=
    h.shrink rfl (fun _ hitem => hitem) fun _ _ _ hout => List.mem_of_mem_tail hout
  unfold State.credit
  split
  · exact hreceived
  · next job req hflight =>
    change s.inFlight = some (job, req) at hflight
    dsimp only
    split
    · exact hreceived
    · next hclassify =>
      have hverb := verb_of_classify hclassify hanswers
      have hcredited : (∃ line, .sent serial job line ∈ s.log) →
          Ledger { s with link := s.link.receive, inFlight := none, log := .credited serial job :: s.log } := by
        intro hsent
        have hl := hreceived.toLedger.note (e := .credited serial job) hsent (by simp) (by simp)
        exact ⟨hl.traced, hl.sent_le, hl.ended_le, hl.outputs⟩
      cases h.shape with
      | ended _ hnone => simp [hnone] at hflight
      | abortQueued _ hq => simp [hq.inFlight] at hflight
      | capsQueued _ _ hq => simp [hq.inFlight] at hflight
      | idle _ _ hnone => simp [hnone] at hflight
      | queued _ _ hq => simp [hq.inFlight] at hflight
      | abortFlying hactive hf hitems =>
        cases hf.inFlight.symm.trans hflight
        simp only [hactive]
        have hl := hcredited (by
          rcases hitems _ hitem with hlast | haborted
          · obtain rfl : serial = s.link.sent := hlast
            exact ⟨.abort, hf.sent⟩
          · exact ⟨line, haborted.2⟩)
        exact { hl with shape := .ended rfl rfl hf.queue }
      | @capsFlying drop hrun hnew hf hitems htranscript =>
        cases hf.inFlight.symm.trans hflight
        obtain rfl : serial = s.link.sent := by
          rcases hverb with hold | hverb
          · simp only [Uncrossed, houtputs, hflight, hold, reduceCtorEq, false_or] at hcross
            exact hcross
          · refine (hitems _ hitem).mp ?_
            cases line <;> first | rfl | cases hverb
        obtain rfl : line = .caps := (hitems _ hitem).mpr rfl
        have hl := hcredited ⟨.caps, hf.sent⟩
        have hlog : transcript s.link.sent (.credited s.link.sent s.jobs :: s.log) = [] :=
          (transcript_event rfl).trans (htranscript .caps reply hmem)
        split
        · next hnone => cases hrun.active.symm.trans hnone
        · next hactive =>
          cases hrun.active.symm.trans hactive
          refine hl.goOn (hrun.event (by simp) rfl rfl rfl)
            ⟨List.mem_cons_of_mem _ hf.sent, reply, List.mem_cons_of_mem _ hanswered⟩ rfl hf.queue
            (Link.receive_last houtputs) hlog ?_
          intro drop' hreply
          have hfailed : classify .caps reply ≠ .failed := by
            intro hfailed
            rw [hfailed] at hreply
            cases hreply
          have hspec := (classify_spec hclassify hfailed).2
          rw [hspec] at hreply
          cases hreply
          refine .between ⟨hrun.walked, rfl, rfl, ?_⟩ hnew.file
          rw [hnew.next, hnew.folders, List.take_zero]
          exact .nil
      | @flying drop c req xs hrun hc hlt hf hitems hprogress hun hanswer =>
        cases hf.inFlight.symm.trans hflight
        cases hitems _ hitem
        have hl := hcredited ⟨line, hf.sent⟩
        have hlog : transcript c (.credited s.link.sent s.jobs :: s.log) = xs ++ [(line, reply)] :=
          (transcript_event rfl).trans (hanswer reply hmem)
        split
        · next hnone => cases hrun.active.symm.trans hnone
        · next hactive =>
          cases hrun.active.symm.trans hactive
          exact hl.goOn (hrun.event (by simp) rfl rfl rfl) (hc.event rfl rfl) rfl hf.queue
            (Link.receive_last houtputs) hlog fun drop' hreply => hprogress.credited hclassify hreply

theorem Inv.deliver (h : Inv s) (hcross : Uncrossed s .deliver) (hs : s.deliver = some s') : Inv s' := by
  unfold State.deliver at hs
  split at hs
  · cases hs
  · next later houtputs =>
    cases hs
    have hreceived : Inv { s with link := s.link.receive } :=
      h.shrink rfl (fun _ hitem => hitem) fun _ _ _ hout => List.mem_of_mem_tail hout
    have hl : Ledger { s with link := s.link.receive, inFlight := none } :=
      ⟨hreceived.traced, hreceived.sent_le, hreceived.ended_le, hreceived.outputs⟩
    rcases Option.eq_none_or_eq_some s.active with hactive | ⟨drop, hactive⟩
    · simp only [State.fail, hactive]
      refine { hl with shape := ?_ }
      cases hreceived.shape with
      | ended _ _ hqueue => exact .ended rfl rfl hqueue
      | abortQueued _ hq hitems => exact .abortQueued rfl ⟨rfl, hq.queue⟩ hitems
      | abortFlying _ hf => exact .ended rfl rfl hf.queue
      | capsQueued hrun => cases hactive.symm.trans hrun.active
      | capsFlying hrun => cases hactive.symm.trans hrun.active
      | idle hrun => cases hactive.symm.trans hrun.active
      | queued hrun => cases hactive.symm.trans hrun.active
      | flying hrun => cases hactive.symm.trans hrun.active
    · exact hl.fail hactive rfl fun hhost => absurd hhost Bool.false_ne_true
  · next serial line reply later houtputs =>
    cases hs
    exact h.credit hcross houtputs

theorem noteOverdue_idle (hactive : s.noteOverdue.active ≠ none) (hnone : s.noteOverdue.inFlight = none) :
    s.noteOverdue = s := by
  unfold State.noteOverdue at hactive hnone ⊢
  split at hnone
  · next hidle => rw [if_pos hidle]
  · next hsome =>
    rw [if_neg hsome] at hactive ⊢
    split at hnone
    · next hthree =>
      rw [if_pos hthree] at hactive
      exact absurd (by unfold State.fail; split <;> simp_all) hactive
    · exact absurd (Option.isNone_iff_eq_none.mpr hnone) hsome

theorem Inv.step (h : Inv s) {a : Act} (hcross : Uncrossed s a) (hs : step s a = some s') : Inv s' := by
  cases a with
  | submit id root =>
    cases hs
    exact h.shrink rfl (fun _ hitem => hitem) fun _ _ _ hout => hout
  | enqueue io =>
    cases hs
    exact h.enqueue io
  | pump overdue =>
    cases hs
    have hcaps : s.inFlight = none → ∀ job, s.queue = [(job, .caps)] → ∀ item ∈ s.link.items,
      item.2 ≠ .caps := by
      intro hnone job hqueue
      simpa only [Uncrossed, hnone, hqueue] using hcross
    unfold State.pump
    cases overdue with
    | false => exact h.sendNext fun _ => hcaps
    | true =>
      refine h.noteOverdue.sendNext fun hactive hnone => ?_
      have hidle := noteOverdue_idle hactive hnone
      rw [hidle] at hnone ⊢
      exact hcaps hnone
  | agent reply => exact h.agent hs
  | deliver => exact h.deliver hcross hs
  | restart =>
    cases hs
    refine h.shrink rfl (fun _ hitem => hitem) ?_
    intro n req reply hmem
    rcases List.mem_append.mp hmem with hmem | hmem
    · exact hmem
    · cases List.mem_singleton.mp hmem
  | loseLine i =>
    cases hs
    exact h.shrink rfl (fun _ hitem => List.mem_of_mem_eraseIdx hitem) fun _ _ _ hout => hout
  | loseOutput i =>
    cases hs
    exact h.shrink rfl (fun _ hitem => hitem) fun _ _ _ hout => List.mem_of_mem_eraseIdx hout

end Invariant

/-! ## Runs -/

/-- **A drop reported done was delivered whole** in every run in which no request for the capabilities goes out while an
earlier one is on the way, and no late `OUT 255` comes in for a request of another job: what the agent answered since it
answered the job's request for the capabilities is exactly the delivery, no step of an ended job is sent, and no answer
is credited to another job. -/
theorem done_delivered {s : State} (h : Reaches step Uncrossed start s) : Traced Sound s.log :=
  (h.invariant (P := Inv) inv_start fun _ _ _ hinv hcross hs => hinv.step hcross hs).traced

/-- A folder with one file. -/
theorem done_delivered_folder :
    ∃ s, runs (guarded step Uncrossed) start
        [.submit ['1'] (some [(['d'], .folder [(['f'], .file [7])])]), .enqueue true, .pump false,
          .agent .caps, .deliver,
          .enqueue true, .pump false, .agent (.named .dir (some ['e'])), .deliver,
          .enqueue true, .pump false, .agent (.named .beg (some ['f'])), .deliver,
          .enqueue true, .pump false, .agent (.okChunk 0), .deliver,
          .enqueue true, .pump false, .agent (.okEnd (some 1)), .deliver, .enqueue true] = some s ∧
      s.log.head? = some (.done 1) ∧ Traced Sound s.log :=
  ⟨_, rfl, rfl, done_delivered (Reaches.start.of_runs
    (show runs (guarded step Uncrossed) start
        [.submit ['1'] (some [(['d'], .folder [(['f'], .file [7])])]), .enqueue true, .pump false,
          .agent .caps, .deliver,
          .enqueue true, .pump false, .agent (.named .dir (some ['e'])), .deliver,
          .enqueue true, .pump false, .agent (.named .beg (some ['f'])), .deliver,
          .enqueue true, .pump false, .agent (.okChunk 0), .deliver,
          .enqueue true, .pump false, .agent (.okEnd (some 1)), .deliver, .enqueue true] = some _ from rfl))⟩

/-- An answer credited to a job is the one to a line of it. -/
def OwnAnswer : Event → List Event → Prop
  | .credited serial job, earlier => earlier.any (fun
      | .sent n job' _ => n = serial && job' = job
      | _ => false) = true
  | _, _ => True

instance (e : Event) (log : List Event) : Decidable (OwnAnswer e log) := by
  unfold OwnAnswer
  split <;> infer_instance

theorem Sound.ownAnswer {e : Event} {log : List Event} (h : Sound e log) : OwnAnswer e log := by
  unfold OwnAnswer
  split
  · obtain ⟨req, hsent⟩ := h
    exact List.any_eq_true.mpr ⟨_, hsent, by simp⟩
  · trivial

/-- The event is no answer to a DROPDIR of `rel`. -/
def Event.spares (rel : List Char) : Event → Bool
  | .answered _ (.dir rel') _ => rel' ≠ rel
  | _ => true

/-- A READY ends the first job at its DROPCAPS, and another one the second at the DROPDIR of `x`. The third job takes
the answers to their lines for its own, and is done while the agent has not read the DROPDIR of its folder `y`. -/
theorem late_answers_credited :
    ∃ s, Reaches step (fun _ _ => True) start s ∧
      s.log.head? = some (.done 3) ∧ (∀ serial reply, .answered serial (.dir ['y']) reply ∉ s.log) ∧
      ¬Traced Sound s.log := by
  have hspares : ∀ {log : List Event}, log.all (Event.spares ['y']) = true →
      ∀ serial reply, .answered serial (.dir ['y']) reply ∉ log := by
    intro log hall serial reply hmem
    have h := List.all_eq_true.mp hall _ hmem
    simp [Event.spares] at h
  refine ⟨_, Reaches.start.of_runs (show runs (guarded step fun _ _ => True) start
    [.submit ['1'] (some []), .submit ['2'] (some [(['x'], .folder [])]), .submit ['3'] (some [(['y'], .folder [])]),
      .enqueue true, .pump false, .restart, .deliver,
      .enqueue true, .pump false, .agent .caps, .deliver,
      .enqueue true, .pump false, .restart, .deliver,
      .enqueue true, .pump false, .agent .caps, .deliver,
      .enqueue true, .pump false, .agent (.named .dir (some ['x'])), .deliver, .enqueue true] = some _ from rfl),
    rfl, hspares rfl, ?_⟩
  intro htraced
  exact absurd (htraced.mono fun _ _ h => h.ownAnswer) (by decide +kernel)

end BridgeVm.AgentConsole.FileDrop
