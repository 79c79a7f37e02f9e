import BridgeVm.Nvme.WorkConserving

/-!
# Resuming a queue

A queue with work and room on its completion ring, which it shares with no other queue that has work, has its next entry
fetched by `process_into`, unless an admin command deletes it there. With two queues on one ring the first may take all
the room.
-/

namespace BridgeVm.Nvme

open Lib Sys

variable {s s' s₀ s₁ : Sys} {c : Fetched} {qid i j x : Nat} {sq sq' : SubmissionQueue} {cq : CompletionQueue}
  {buf : List UInt8} {acked : Prop} {hand : List Fetched}

/-! ## Room on a completion ring -/

/-- Queue `x` has room for one entry more than the slots held and the commands in the hand. -/
def Room (x : Nat) (hand : List Fetched) (s : Sys) : Prop :=
  ∃ cq, slot s.ctrl.cqs x = some cq ∧ cq.head < cq.size ∧ cq.tail < cq.size ∧
    ringDist cq.size cq.head cq.tail + 1 + (s.ctrl.flushReservedSlots x + toQueue hand x) < cq.size

theorem cqHasSpace_iff_room : s.ctrl.cqHasSpace x = true ↔ Room x [] s := by
  unfold NvmeController.cqHasSpace Room
  cases hcq : slot s.ctrl.cqs x with
  | none => simp
  | some cq =>
    simp only [decide_eq_true_eq, Option.some.injEq, exists_eq_left']
    constructor
    · rintro ⟨hsize, htail, hhead, hspace⟩
      rw [Nat.max_eq_left (by omega)] at hspace
      exact ⟨hhead, htail, hspace⟩
    · rintro ⟨hhead, htail, hspace⟩
      change (cq.tail + cq.size - cq.head) % cq.size + 1 + (_ + 0) < cq.size at hspace
      rw [Nat.max_eq_left (by omega)]
      exact ⟨by omega, htail, hhead, hspace⟩

namespace Room

theorem of_same {hand' : List Fetched} (h : Room x hand s) (hcq : slot s'.ctrl.cqs x = slot s.ctrl.cqs x)
    (hheld : s'.ctrl.flushReservedSlots x + toQueue hand' x ≤ s.ctrl.flushReservedSlots x + toQueue hand x) :
    Room x hand' s' := by
  obtain ⟨cq, hold, hhead, htail, hroom⟩ := h
  exact ⟨cq, hcq.trans hold, hhead, htail, by omega⟩

theorem frame (h : Room x hand s) (hframe : Frame i s s') (hi : x ≠ i) : Room x hand s' :=
  h.of_same (hframe.cqs x hi) (by rw [hframe.slots x hi])

theorem kept (h : Room x hand s) (hk : Kept s s') : Room x hand s' := by
  refine h.of_same (by rw [hk.queues.cqs]) ?_
  rw [NvmeController.flushReservedSlots, hk.flushReserved]
  exact Nat.le_refl _

theorem hold {ctrl : NvmeController} (h : Room x (c :: hand) s) (hcqs : ctrl.cqs = s.ctrl.cqs)
    (hreserved : ctrl.flushReserved = s.ctrl.flushReserved) :
    Room x hand { s with ctrl := ctrl.holdCompletionSlot c.cqid } := by
  refine h.of_same (congrArg (slot · x) hcqs) ?_
  show (ctrl.holdCompletionSlot c.cqid).flushReservedSlots x + toQueue hand x ≤ _
  rw [holdCompletionSlot_slots, Inv.toQueue_cons, NvmeController.flushReservedSlots, hreserved,
    NvmeController.flushReservedSlots]
  omega

theorem drop (h : Room x (c :: hand) s) (hcq : slot s'.ctrl.cqs x = slot s.ctrl.cqs x)
    (hreserved : s'.ctrl.flushReserved = s.ctrl.flushReserved) : Room x hand s' := by
  refine h.of_same hcq ?_
  rw [Inv.toQueue_cons, NvmeController.flushReservedSlots, hreserved, NvmeController.flushReservedSlots]
  omega

theorem post (h : Room x (c :: hand) s) (status : Nat) : Room x hand (s.postCompletion c status) := by
  unfold postCompletion
  dsimp only
  split
  · exact h.drop rfl rfl
  · rename_i cq hcq
    split
    · exact h.drop rfl rfl
    · by_cases hx : x = c.cqid
      · subst hx
        obtain ⟨cq', hcq', hhead, htail, hroom⟩ := h
        rw [show slot s.ctrl.cqs c.cqid = some cq from hcq] at hcq'
        cases hcq'
        rw [Inv.toQueue_cons, if_pos rfl] at hroom
        refine ⟨CompletionQueue.posted cq, (slot_putSlot _ _ _ _).trans (if_pos rfl), hhead,
          Nat.mod_lt _ (Nat.zero_lt_of_lt hhead), ?_⟩
        show ringDist cq.size cq.head ((cq.tail + 1) % cq.size) + 1 + (s.ctrl.flushReservedSlots c.cqid + _) < cq.size
        rw [ringDist_succ_tail hhead htail (by omega)]
        omega
      · exact h.drop ((slot_putSlot _ _ _ _).trans (if_neg hx)) rfl

theorem finishOne {done : Finished} (h : Room x (done.command :: hand) s) : Room x hand (Sys.finishOne s done) := by
  have hcomplete : ∀ (s : Sys) (status : Nat), Room x (done.command :: hand) s → Room x hand
      (if (slot s.ctrl.sqs done.job.fetched.sqid).isSome ∧ (slot s.ctrl.cqs done.job.fetched.cqid).isSome then
        s.postCompletion done.job.fetched status else s.record (.unposted done.job.fetched)) := by
    intro s status hroom
    split
    · exact hroom.post status
    · exact hroom.drop rfl rfl
  unfold Sys.finishOne
  dsimp only
  split
  · obtain ⟨s', ⟨heq, hkept⟩ | ⟨s₁, jobs, job, heq, -, hkept, -, hjob, rfl⟩⟩ :=
      deferFlush_cases s done.job.fetched
    · rw [heq]
      exact hcomplete _ _ ((h.kept hkept).kept (onPath_kept s' fun d => d.ioFlush_backing _))
    · rw [heq]
      have hroom : Room x (job.fetched :: hand) s₁ := by
        rw [show job.fetched = done.command from hjob]
        exact h.kept hkept
      exact hroom.hold rfl rfl
  · exact hcomplete s done.status h

theorem finishAll {taken : List Finished} (h : Room x (taken.map Finished.command) s) :
    Room x [] (taken.foldl Sys.finishOne s) := by
  induction taken generalizing s with
  | nil => exact h
  | cons done taken ih => exact ih h.finishOne

theorem take (h : Room x [] s) (hinv : Inv acked s []) : Room x (s.take.1.map Finished.command) s.take.2 := by
  obtain ⟨hqueues, hslots, -, hout, -⟩ := take_taken s
  refine h.of_same (by rw [hqueues.cqs]) ?_
  have hle : toQueue (s.take.1.map Finished.command) x ≤ s.ctrl.flushReservedSlots x := by
    rw [hinv.slots, toQueue_perm hout, toQueue_append]
    exact Nat.le_add_right _ _
  rw [hslots]
  show s.ctrl.flushReservedSlots x - toQueue (s.take.1.map Finished.command) x + _ ≤ s.ctrl.flushReservedSlots x + 0
  omega

theorem postFinished (h : Room x [] s) (hinv : Inv acked s []) (wait : Bool) : Room x [] (s.postFinished wait) := by
  have htaken : Room x ((s.takeFinished wait).1.map Finished.command) (s.takeFinished wait).2 := by
    unfold takeFinished
    split
    · exact (h.kept (waitForFlushes_kept s)).take (hinv.kept (waitForFlushes_kept s))
    · exact h.take hinv
  exact htaken.finishAll

end Room

/-! ## Completing finished jobs -/

theorem finishOne_frame (s : Sys) (done : Finished) : Frame done.job.fetched.cqid s (finishOne s done) := by
  have hcomplete : ∀ (s : Sys) (status : Nat), Frame done.job.fetched.cqid s
      (if (slot s.ctrl.sqs done.job.fetched.sqid).isSome ∧ (slot s.ctrl.cqs done.job.fetched.cqid).isSome then
        s.postCompletion done.job.fetched status else s.record (.unposted done.job.fetched)) := by
    intro s status
    split
    · exact .post s _ status
    · exact .recorded _ s _
  have hdefer := Frame.deferFlush s done.job.fetched
  unfold finishOne
  dsimp only
  split
  · cases h : s.deferFlush done.job.fetched with
    | mk deferred s' =>
      rw [h] at hdefer
      cases deferred with
      | true => exact hdefer
      | false =>
        exact hdefer.trans ((Frame.kept _ (onPath_kept s' fun d => d.ioFlush_backing _)).trans (hcomplete _ _))
  · exact hcomplete s done.status

/-- Submission queues, doorbells and the log after jobs were completed. -/
structure SqsKept (s s' : Sys) : Prop where
  sqs : s'.ctrl.sqs = s.ctrl.sqs
  births : s'.ctrl.births = s.ctrl.births
  log : s.log <:+ s'.log
  backing : s.path.SameBacking s'.path

theorem SqsKept.trans {s₁ s₂ s₃ : Sys} (h₁ : SqsKept s₁ s₂) (h₂ : SqsKept s₂ s₃) :
    SqsKept s₁ s₃ :=
  ⟨h₂.sqs.trans h₁.sqs, h₂.births.trans h₁.births, h₁.log.trans h₂.log, h₁.backing.trans h₂.backing⟩

theorem finishAll_sqsKept (taken : List Finished) (s : Sys) : SqsKept s (taken.foldl finishOne s) := by
  induction taken generalizing s with
  | nil => exact ⟨rfl, rfl, List.suffix_refl _, .refl _⟩
  | cons done taken ih =>
    have hone := finishOne_frame s done
    exact SqsKept.trans ⟨hone.sqs, hone.births, hone.log, hone.backing⟩ (ih _)

theorem takeFinished_sqsKept (s : Sys) (wait : Bool) : SqsKept s (s.takeFinished wait).2 := by
  unfold takeFinished
  split
  · have hkept := waitForFlushes_kept s
    have htake := take_taken s.waitForFlushes
    refine ⟨htake.queues.sqs.trans hkept.queues.sqs, htake.queues.births.trans hkept.queues.births, ?_, ?_⟩
    · exact (htake.log.trans hkept.log) ▸ List.suffix_refl s.log
    · rw [htake.path]
      exact hkept.backing
  · have htake := take_taken s
    refine ⟨htake.queues.sqs, htake.queues.births, ?_, ?_⟩
    · exact htake.log ▸ List.suffix_refl s.log
    · rw [htake.path]
      exact .refl _

theorem postFinished_sqsKept (s : Sys) (wait : Bool) : SqsKept s (s.postFinished wait) :=
  (takeFinished_sqsKept s wait).trans (finishAll_sqsKept _ _)

theorem completeFlushes_room (hroom : Room x [] s) (hinv : Inv acked s []) (wait : Bool) :
    Room x [] (s.completeFlushes wait) ∧ SqsKept s (s.completeFlushes wait) := by
  have hloop : ∀ (rounds : Nat) (s : Sys), Room x [] s → Inv acked s [] →
      Room x [] (completeFlushesLoop wait rounds s) ∧ SqsKept s (completeFlushesLoop wait rounds s) := by
    intro rounds
    induction rounds with
    | zero => exact fun s hroom _ => ⟨hroom, rfl, rfl, List.suffix_refl _, .refl _⟩
    | succ rounds ih =>
      intro s hroom hinv
      have hroom' := hroom.postFinished hinv wait
      have hkept := postFinished_sqsKept s wait
      unfold completeFlushesLoop
      dsimp only
      split
      · exact ⟨hroom', hkept⟩
      · obtain ⟨hroom'', hkept'⟩ := ih _ hroom' (hinv.postFinished wait)
        exact ⟨hroom'', hkept.trans hkept'⟩
  exact hloop 2 s hroom hinv

/-! ## A queue on its way to be drained -/

/-- Nothing is in the way of queue `sq`. -/
structure Ready (qid : Nat) (sq : SubmissionQueue) (s : Sys) : Prop where
  queue : slot s.ctrl.sqs qid = some sq
  room : Room sq.cqid [] s
  readable : s.entryReadable sq = true
  others : ∀ i sq', i ≠ qid → slot s.ctrl.sqs i = some sq' → sq'.cqid = sq.cqid → ¬ sq'.hasWork

/-- The instance was deleted. -/
def Gone (qid born : Nat) (s : Sys) : Prop :=
  born < s.ctrl.births ∧ ∀ sq, slot s.ctrl.sqs qid = some sq → sq.born ≠ born

/-- An entry of the instance was fetched after `log`. -/
def FetchedSince (log : List Event) (qid born : Nat) (s : Sys) : Prop :=
  ∃ c earlier, c.sqid = qid ∧ c.sqBorn = born ∧ log <:+ earlier ∧ .fetched c :: earlier <:+ s.log

def Served (log : List Event) (qid : Nat) (sq : SubmissionQueue) (s : Sys) : Prop :=
  Gone qid sq.born s ∨ FetchedSince log qid sq.born s

def Serving (log : List Event) (qid : Nat) (sq : SubmissionQueue) (s : Sys) : Prop :=
  Ready qid sq s ∧ log <:+ s.log ∨ Served log qid sq s

variable {log : List Event} {born : Nat}

theorem FetchedSince.mono (h : FetchedSince log qid born s) (hlog : s.log <:+ s'.log) :
    FetchedSince log qid born s' := by
  obtain ⟨c, earlier, hsqid, hborn, hearlier, hmem⟩ := h
  exact ⟨c, earlier, hsqid, hborn, hearlier, hmem.trans hlog⟩

namespace Ready

theorem frame (h : Ready qid sq s) (hframe : Frame x s s') (hx : sq.cqid ≠ x) : Ready qid sq s' := by
  refine ⟨?_, h.room.frame hframe hx, ?_, ?_⟩
  · rw [hframe.sqs]
    exact h.queue
  · rw [entryReadable_of_backing hframe.backing]
    exact h.readable
  · rw [hframe.sqs]
    exact h.others

theorem fetch (h : Ready qid sq s) (hj : j ≠ qid) (hcqid : sq'.cqid ≠ sq.cqid) (buf : List UInt8) :
    Ready qid sq (s.fetch j sq' buf).2 := by
  refine ⟨?_, h.room, h.readable, fun i sq₁ hi hsq₁ hsame => ?_⟩
  · exact (slot_putSlot _ _ _ _).trans ((if_neg (Ne.symm hj)).trans h.queue)
  · change slot (putSlot s.ctrl.sqs j _) i = some sq₁ at hsq₁
    rw [slot_putSlot] at hsq₁
    split at hsq₁
    · cases hsq₁
      exact absurd hsame hcqid
    · exact h.others i sq₁ hi hsq₁ hsame

/-- An admin command leaves the queue ready, or deletes it. -/
theorem adminStep (h : Ready qid sq s) (hstep : AdminStep s s') (hborn : sq.born < s.ctrl.births) :
    Ready qid sq s' ∨ Gone qid sq.born s' := by
  obtain ⟨hqueue, hroom, hreadable, hothers⟩ := h
  cases hstep with
  | kept hk => exact .inl (Ready.frame ⟨hqueue, hroom, hreadable, hothers⟩ (Frame.kept (sq.cqid + 1) hk) (by omega))
  | addCq q cq hq hle hnone hnew =>
    refine .inl ⟨hqueue, ?_, hreadable, hothers⟩
    obtain ⟨cq', hcq', -⟩ := id hroom
    have hne : sq.cqid ≠ q := by
      rintro rfl
      rw [hnone] at hcq'
      cases hcq'
    exact hroom.of_same ((slot_putSlot _ _ _ _).trans (if_neg hne)) (Nat.le_refl _)
  | addSq q sq₁ hq hle hnone hnew =>
    have hne : qid ≠ q := by
      rintro rfl
      rw [hnone] at hqueue
      cases hqueue
    refine .inl ⟨(slot_putSlot _ _ _ _).trans ((if_neg hne).trans hqueue), hroom, hreadable,
      fun i sq₂ hi hsq₂ hsame => ?_⟩
    change slot (putSlot s.ctrl.sqs q sq₁) i = some sq₂ at hsq₂
    rw [slot_putSlot] at hsq₂
    split at hsq₂
    · cases hsq₂
      exact not_not.2 (hnew.headZero.trans hnew.tailZero.symm)
    · exact hothers i sq₂ hi hsq₂ hsame
  | removeSq q hq =>
    by_cases hqid : qid = q
    · refine .inr ⟨hborn, fun sq₂ hsq₂ => ?_⟩
      change slot (clearSlot s.ctrl.sqs q) qid = some sq₂ at hsq₂
      rw [slot_clearSlot, if_pos hqid] at hsq₂
      cases hsq₂
    · refine .inl ⟨(slot_clearSlot _ _ _).trans ((if_neg hqid).trans hqueue), hroom, hreadable,
        fun i sq₂ hi hsq₂ hsame => ?_⟩
      change slot (clearSlot s.ctrl.sqs q) i = some sq₂ at hsq₂
      rw [slot_clearSlot] at hsq₂
      split at hsq₂
      · cases hsq₂
      · exact hothers i sq₂ hi hsq₂ hsame
  | removeCq q hq hunused =>
    refine .inl ⟨hqueue, ?_, hreadable, hothers⟩
    exact hroom.of_same ((slot_clearSlot _ _ _).trans (if_neg (hunused qid sq hqueue))) (Nat.le_refl _)

end Ready

namespace Gone

theorem frame (h : Gone qid born s) (hframe : Frame x s s') : Gone qid born s' := by
  obtain ⟨hborn, hgone⟩ := h
  refine ⟨?_, ?_⟩
  · rw [hframe.births]
    exact hborn
  · rw [hframe.sqs]
    exact hgone

theorem fetch (h : Gone qid born s) (hsq : slot s.ctrl.sqs j = some sq) (buf : List UInt8) :
    Gone qid born (s.fetch j sq buf).2 := by
  obtain ⟨hborn, hgone⟩ := h
  refine ⟨hborn, fun sq' hsq' => ?_⟩
  change slot (putSlot s.ctrl.sqs j _) qid = some sq' at hsq'
  rw [slot_putSlot] at hsq'
  split at hsq'
  · rename_i hj
    cases hsq'
    exact hgone sq (hj ▸ hsq)
  · exact hgone sq' hsq'

theorem adminStep (h : Gone qid born s) (hstep : AdminStep s s') : Gone qid born s' := by
  obtain ⟨hborn, hgone⟩ := id h
  cases hstep with
  | kept hk => exact h.frame (Frame.kept 0 hk)
  | addCq q cq hq hle hnone hnew => exact ⟨Nat.lt_succ_of_lt hborn, hgone⟩
  | addSq q sq hq hle hnone hnew =>
    refine ⟨Nat.lt_succ_of_lt hborn, fun sq' hsq' => ?_⟩
    change slot (putSlot s.ctrl.sqs q sq) qid = some sq' at hsq'
    rw [slot_putSlot] at hsq'
    split at hsq'
    · cases hsq'
      rw [hnew.bornNow]
      exact Nat.ne_of_gt hborn
    · exact hgone sq' hsq'
  | removeSq q hq =>
    refine ⟨hborn, fun sq' hsq' => ?_⟩
    change slot (clearSlot s.ctrl.sqs q) qid = some sq' at hsq'
    rw [slot_clearSlot] at hsq'
    split at hsq'
    · cases hsq'
    · exact hgone sq' hsq'
  | removeCq q hq hunused => exact h

end Gone

theorem Sys.AdminStep.log_suffix (h : AdminStep s s') : s.log <:+ s'.log := by
  cases h with
  | kept hk => exact hk.log ▸ List.suffix_refl s.log
  | addCq q cq hq hle hnone hnew => exact List.suffix_cons _ _
  | addSq q sq hq hle hnone hnew => exact List.suffix_refl _
  | removeSq q hq => exact List.suffix_refl _
  | removeCq q hq hunused => exact List.suffix_refl _

/-! ## One round of a queue -/

theorem round_cases (s : Sys) (j : Nat) (sq : SubmissionQueue) (buf : List UInt8) :
    ∃ s₁, (s₁ = (s.fetch j sq buf).2 ∨ j = 0 ∧ AdminStep (s.fetch j sq buf).2 s₁) ∧
      Frame sq.cqid s₁ ((s.fetch j sq buf).2.handle (s.fetch j sq buf).1).othersTurn := by
  by_cases hj : j = 0
  · subst hj
    obtain ⟨s₁, hstep, hframe⟩ := handle_admin_frame (s := (s.fetch 0 sq buf).2) (c := (s.fetch 0 sq buf).1) rfl
    exact ⟨s₁, .inr ⟨rfl, hstep⟩, hframe.trans (.kept _ (othersTurn_kept _))⟩
  · exact ⟨_, .inl rfl, round_frame hj sq buf⟩

theorem round_log (s : Sys) (j : Nat) (sq : SubmissionQueue) (buf : List UInt8) :
    .fetched (s.fetch j sq buf).1 :: s.log <:+ ((s.fetch j sq buf).2.handle (s.fetch j sq buf).1).othersTurn.log := by
  obtain ⟨s₁, heq | ⟨-, hstep⟩, hframe⟩ := round_cases s j sq buf
  · subst heq
    exact hframe.log
  · exact hstep.log_suffix.trans hframe.log

theorem processSqLoop_log (j rounds : Nat) (s : Sys) : s.log <:+ (processSqLoop j rounds s).log := by
  induction rounds generalizing s with
  | zero => exact List.suffix_refl _
  | succ rounds ih =>
    unfold processSqLoop
    cases hnext : s.nextEntry j with
    | none => exact List.suffix_refl _
    | some next =>
      obtain ⟨sq, buf⟩ := next
      exact ((List.suffix_cons _ _).trans (round_log s j sq buf)).trans (ih _)

theorem served_loop (h : Served log qid sq s) (j rounds : Nat) : Served log qid sq (processSqLoop j rounds s) := by
  rcases h with hgone | hfetched
  · refine .inl ?_
    induction rounds generalizing s with
    | zero => exact hgone
    | succ rounds ih =>
      unfold processSqLoop
      cases hnext : s.nextEntry j with
      | none => exact hgone
      | some next =>
        obtain ⟨sqj, buf⟩ := next
        obtain ⟨hsqj, -⟩ := Inv.nextEntry_some hnext
        have hfetch := hgone.fetch hsqj buf
        obtain ⟨s₁, heq | ⟨-, hstep⟩, hframe⟩ := round_cases s j sqj buf
        · subst heq
          exact ih (hfetch.frame hframe)
        · exact ih ((hfetch.adminStep hstep).frame hframe)
  · exact .inr (hfetched.mono (processSqLoop_log j rounds s))

/-- Another queue is drained. -/
theorem serving_loop (h : Serving log qid sq s) (hinv : QueueInv acked j s) (hj : j ≠ qid) (rounds : Nat) :
    Serving log qid sq (processSqLoop j rounds s) := by
  rcases h with hready | hserved
  · induction rounds generalizing s with
    | zero => exact .inl hready
    | succ rounds ih =>
      obtain ⟨hready, hlog⟩ := hready
      unfold processSqLoop
      cases hnext : s.nextEntry j with
      | none => exact .inl ⟨hready, hlog⟩
      | some next =>
        obtain ⟨sqj, buf⟩ := next
        obtain ⟨hsqj, hworkj, -⟩ := Inv.nextEntry_some hnext
        have hcqid : sqj.cqid ≠ sq.cqid := fun hsame => hready.others j sqj hj hsqj hsame hworkj
        have hborn := (hinv.inv.queues.sqs qid sq hready.queue).bornLt
        have hinv' : QueueInv acked j ((s.fetch j sqj buf).2.handle (s.fetch j sqj buf).1).othersTurn :=
          (QueueInv.handle (hinv.inv.fetch hnext) hinv.idle).kept (othersTurn_kept _)
        have hlog' := hlog.trans ((List.suffix_cons _ _).trans (round_log s j sqj buf))
        have hfetch := hready.fetch hj hcqid buf
        obtain ⟨s₁, heq | ⟨-, hstep⟩, hframe⟩ := round_cases s j sqj buf
        · subst heq
          exact ih hinv' ⟨hfetch.frame hframe (Ne.symm hcqid), hlog'⟩
        · rcases hfetch.adminStep hstep hborn with hready' | hgone
          · exact ih hinv' ⟨hready'.frame hframe (Ne.symm hcqid), hlog'⟩
          · exact .inr (served_loop (.inl (hgone.frame hframe)) j rounds)
  · exact .inr (served_loop hserved j rounds)

theorem fetched_loop (h : Ready qid sq s) (hlog : log <:+ s.log) (hwork : sq.hasWork) (rounds : Nat) :
    FetchedSince log qid sq.born (processSqLoop qid (rounds + 1) s) := by
  have hnext : s.nextEntry qid = some (sq, s.path.mem.span (sq.base + sq.head * sqEntrySize) sqEntrySize) := by
    have hreadable : s.path.mem.readable (sq.base + sq.head * sqEntrySize) sqEntrySize = true := h.readable
    unfold nextEntry GuestMemory.readBytes
    rw [h.queue, Option.bind_some, if_neg (not_or.2 ⟨hwork, by rw [cqHasSpace_iff_room.2 h.room]; decide⟩),
      if_pos hreadable]
    rfl
  unfold processSqLoop
  rw [hnext]
  refine ⟨_, s.log, ?_, ?_, hlog, (round_log s qid sq _).trans (processSqLoop_log qid rounds _)⟩
  · rfl
  · rfl

/-! ## The whole drain -/

theorem Served.drainQueue (h : Served log qid sq s) (j : Nat) : Served log qid sq (s.drainQueue j) := by
  have hframe := drainQueue_frame s j 0
  rcases served_loop h j _ with hgone | hfetched
  · exact .inl (Gone.frame hgone hframe)
  · exact .inr (FetchedSince.mono hfetched hframe.log)

theorem Served.drainWord (h : Served log qid sq s) (idx : Nat) (bits : List Nat) :
    Served log qid sq (bits.foldl (fun s bit => s.drainQueue (idx * 64 + bit)) s) := by
  induction bits generalizing s with
  | nil => exact h
  | cons bit bits ih => exact ih (h.drainQueue _)

theorem Served.drainWords (h : Served log qid sq s) (words idx : Nat) :
    Served log qid sq (Sys.drainWords words idx s) := by
  induction words generalizing s idx with
  | zero => exact h
  | succ words ih =>
    unfold Sys.drainWords
    split
    · exact ih (h.drainWord _ _) _
    · exact h

namespace Serving

theorem drainOther (h : Serving log qid sq s) (hinv : QueueInv acked j s) (hj : j ≠ qid) :
    Serving log qid sq (s.drainQueue j) := by
  rcases h with hready | hserved
  · have hframe := drainQueue_frame s j (sq.cqid + 1)
    rcases serving_loop (.inl hready) hinv hj _ with ⟨hready', hlog⟩ | hserved
    · exact .inl ⟨Ready.frame hready' hframe (by omega), hlog.trans hframe.log⟩
    · rcases hserved with hgone | hfetched
      · exact .inr (.inl (Gone.frame hgone hframe))
      · exact .inr (.inr (FetchedSince.mono hfetched hframe.log))
  · exact .inr (hserved.drainQueue j)

theorem drainOwn (h : Serving log qid sq s) (hinv : Inv acked s []) (hwork : sq.hasWork) :
    Served log qid sq (s.drainQueue qid) := by
  rcases h with ⟨hready, hlog⟩ | hserved
  · have hsize : 0 < sq.size := Nat.zero_lt_of_lt (hinv.queues.sqs qid sq hready.queue).headLt
    have hfetched : FetchedSince log qid sq.born (s.processSq qid) := by
      unfold processSq
      rw [hready.queue]
      obtain ⟨rounds, hrounds⟩ := Nat.exists_eq_add_of_lt hsize
      rw [show ((some sq).map SubmissionQueue.size).getD 0 = rounds + 1 by show sq.size = _; omega]
      exact fetched_loop hready hlog hwork rounds
    exact .inr (hfetched.mono (drainQueue_frame s qid 0).log)
  · exact hserved.drainQueue qid

theorem drainIo (h : Serving log qid sq s) (hinv : Inv acked s []) (hwork : sq.hasWork) {idx : Nat} {bits : List Nat}
    (hio : ∀ bit ∈ bits, idx * 64 + bit ≠ 0) (hmem : ∃ bit ∈ bits, idx * 64 + bit = qid) :
    Served log qid sq (bits.foldl (fun s bit => s.drainQueue (idx * 64 + bit)) s) := by
  induction bits generalizing s with
  | nil =>
    obtain ⟨bit, hbit, -⟩ := hmem
    cases hbit
  | cons bit bits ih =>
    obtain ⟨hbit, hbits⟩ := List.forall_mem_cons.1 hio
    have hqueue : QueueInv acked (idx * 64 + bit) s := ⟨hinv, fun hzero => absurd hzero hbit⟩
    by_cases hown : idx * 64 + bit = qid
    · exact Served.drainWord
        (by show Served log qid sq (s.drainQueue (idx * 64 + bit)); rw [hown]; exact h.drainOwn hinv hwork)
        idx bits
    · refine ih (h.drainOther hqueue hown) hqueue.drainQueue hbits ?_
      obtain ⟨b, hb, heq⟩ := hmem
      rcases List.mem_cons.1 hb with rfl | hb
      · exact absurd heq hown
      · exact ⟨b, hb, heq⟩

theorem drain (h : Serving log qid sq s) (hinv : Inv acked s []) (hwork : sq.hasWork)
    (hidle : s.ctrl.sqPending 0 = true → s.outstanding = []) (hready : Ready qid sq s)
    (hshutdown : s.ctrl.csts &&& cstsShstMask = 0) :
    Served log qid sq (Sys.drainWords s.ctrl.pendingSqBits.length 0 s) := by
  have hmem := hinv.queues.mem_setBits hready.queue hwork
  cases hwords : s.ctrl.pendingSqBits.length with
  | zero =>
    rw [List.length_eq_zero_iff.1 hwords] at hmem
    exact absurd (Lib.mem_setBits.1 hmem) (by simp [entry])
  | succ words =>
    unfold Sys.drainWords
    rw [if_pos hshutdown]
    refine Served.drainWords ?_ words 1
    have hpairwise := pairwise_setBits (entry 0 s.ctrl.pendingSqBits 0)
    cases hbits : setBits (entry 0 s.ctrl.pendingSqBits 0) with
    | nil =>
      rw [hbits] at hmem
      cases hmem
    | cons bit bits =>
      rw [hbits] at hpairwise hmem
      have hrest : ∀ b ∈ bits, 0 * 64 + b ≠ 0 := fun b hb => by
        have := List.rel_of_pairwise_cons hpairwise hb
        omega
      have hqueue : QueueInv acked (0 * 64 + bit) s := by
        refine ⟨hinv, fun hzero => hidle ?_⟩
        rw [show bit = 0 by omega] at hbits
        exact Lib.mem_setBits.1 (hbits ▸ List.mem_cons_self)
      by_cases hown : 0 * 64 + bit = qid
      · exact Served.drainWord
          (by show Served log qid sq (s.drainQueue (0 * 64 + bit)); rw [hown]; exact h.drainOwn hinv hwork)
          0 bits
      · refine (h.drainOther hqueue hown).drainIo hqueue.drainQueue hwork hrest ⟨qid, ?_, by omega⟩
        exact (List.mem_cons.1 hmem).resolve_left fun heq => hown (by omega)

end Serving

/-- `process_into` fetches from a queue that nothing is in the way of, or an admin command deletes it there. -/
theorem Inv.processInto_served (hinv : Inv acked s []) (hready : Ready qid sq s) (hwork : sq.hasWork)
    (hshutdown : s.ctrl.csts &&& cstsShstMask = 0) : Served s.log qid sq s.processInto := by
  unfold Sys.processInto
  dsimp only
  split
  · obtain ⟨hroom, hkept⟩ := completeFlushes_room hready.room hinv (s.ctrl.sqPending 0)
    have hready' : Ready qid sq (s.completeFlushes (s.ctrl.sqPending 0)) := by
      refine ⟨?_, hroom, ?_, ?_⟩
      · rw [hkept.sqs]
        exact hready.queue
      · rw [entryReadable_of_backing hkept.backing]
        exact hready.readable
      · rw [hkept.sqs]
        exact hready.others
    refine Serving.drain (.inl ⟨hready', hkept.log⟩) (hinv.completeFlushes _) hwork (fun hpend => ?_) hready' ?_
    · cases hadmin : s.ctrl.sqPending 0 with
      | true => exact hinv.completeFlushes_wait
      | false =>
        rw [hadmin, NvmeController.sqPending, (completeFlushes_doorbells s _).1] at hpend
        exact absurd (hadmin.symm.trans hpend) Bool.false_ne_true
    · rw [(completeFlushes_doorbells s _).2]
      exact hshutdown
  · rename_i hcalm
    refine Serving.drain (.inl ⟨hready, List.suffix_refl _⟩) hinv hwork
      (fun hpend => hinv.outstanding_nil ?_) hready hshutdown
    exact (by simpa [hpend] using hcalm : s.flushesReady = false ∧ s.flushesInFlight = false).2

/-! ## Work conservation -/

theorem ready_of_not_blocked (hsq : slot s.ctrl.sqs qid = some sq) (hfree : ¬ Blocked s sq)
    (hothers : ∀ i sq', i ≠ qid → slot s.ctrl.sqs i = some sq' → sq'.cqid = sq.cqid → ¬ sq'.hasWork) :
    Ready qid sq s ∧ s.ctrl.csts &&& cstsShstMask = 0 := by
  obtain ⟨hshutdown, hfree⟩ := not_or.1 hfree
  obtain ⟨hspace, hreadable⟩ := not_or.1 hfree
  exact ⟨⟨hsq, cqHasSpace_iff_room.1 (by simpa using hspace), by simpa using hreadable, hothers⟩,
    not_not.1 hshutdown⟩

/-- In every reachable state a queue with work has its bit; after `process_into` it is blocked; and when nothing blocks
it, and no other queue with work shares its completion ring, `process_into` fetches its next entry or deletes it. -/
theorem drain_is_work_conserving (h : Reached anyOp s) :
    (∀ qid sq, slot s.ctrl.sqs qid = some sq → sq.hasWork → s.ctrl.sqPending qid = true) ∧
    (∀ qid sq, slot s.processInto.ctrl.sqs qid = some sq → sq.hasWork → Blocked s.processInto sq) ∧
    ∀ qid sq, slot s.ctrl.sqs qid = some sq → sq.hasWork → ¬ Blocked s sq →
      (∀ i sq', i ≠ qid → slot s.ctrl.sqs i = some sq' → sq'.cqid = sq.cqid → ¬ sq'.hasWork) →
      Served s.log qid sq s.processInto := by
  have hinv : Inv False s [] := h.inv nofun
  refine ⟨fun qid sq hsq hwork => (hinv.queues.sqs qid sq hsq).pending hwork,
    fun qid sq hsq hwork => hinv.processInto_blocked hsq hwork, fun qid sq hsq hwork hfree hothers => ?_⟩
  obtain ⟨hready, hshutdown⟩ := ready_of_not_blocked hsq hfree hothers
  exact hinv.processInto_served hready hwork hshutdown

/-! ### Two queues on one ring

Three admin commands create a completion queue of two entries and two submission queues on it; the guest queues two
commands on the first and one on the second.
-/

def sharedMemory : GuestMemory where
  bytes a :=
    if a < 192 then
      ((submission adminOpCreateIoCq 1 0 512 0x10001 1 ++ submission adminOpCreateIoSq 2 0 1024 0x30001 0x10001 ++
        submission adminOpCreateIoSq 3 0 1280 0x30002 0x10001)[a]?).getD 0
    else if 1024 ≤ a then 0xff
    else 0
  readable gpa len := gpa + len ≤ 4096
  writable gpa len := gpa + len ≤ 4096

def sharedOps : List Op :=
  [.mmioWrite 0x24 4 0x30003, .mmioWrite 0x28 8 0, .mmioWrite 0x30 8 256, .mmioWrite 0x14 4 1, .mmioWrite 0x1000 4 3,
    .process, .mmioWrite 0x1008 4 2, .mmioWrite 0x1010 4 1]

/-- Before the drain of the I/O queues. -/
def sharedSys : Sys := (Sys.initial sampleDisk sharedMemory (fun _ _ => true) calmHost).run sharedOps

theorem sharedSys_reached : Reached anyOp sharedSys :=
  (Reached.initial sampleDisk sharedMemory (fun _ _ => true) calmHost).run fun _ _ _ => trivial

/-- The second queue has its bit before the drain. -/
theorem sharedSys_pending : sharedSys.ctrl.sqPending 2 = true := by
  obtain ⟨hpending, -⟩ := drain_is_work_conserving sharedSys_reached
  have hsq : ∃ sq, slot sharedSys.ctrl.sqs 2 = some sq ∧ sq.head ≠ sq.tailDoorbell := by
    have hsome : (slot sharedSys.ctrl.sqs 2).any (fun sq => sq.head ≠ sq.tailDoorbell) = true := by decide +kernel
    obtain ⟨sq, hsq, hwork⟩ := (Option.any_eq_true _ _).1 hsome
    exact ⟨sq, hsq, of_decide_eq_true hwork⟩
  obtain ⟨sq, hsq, hwork⟩ := hsq
  exact hpending 2 sq hsq hwork

/-- After the drain the guest acknowledges the one entry of the ring. -/
def sharedAcknowledged : Sys := sharedSys.processInto.mmioWrite 0x100c 4 1

/-- The second queue waits for room on the ring; the doorbell makes room, and nothing else blocks it, but the next drain
leaves it where it was: the first queue takes the room. -/
theorem shared_ring_not_resumed : Reached anyOp sharedSys ∧
    (slot sharedSys.processInto.ctrl.sqs 2).any (fun sq => sq.head ≠ sq.tailDoorbell ∧
      sharedSys.processInto.ctrl.cqHasSpace sq.cqid = false) = true ∧
    (slot sharedAcknowledged.ctrl.sqs 2).any (fun sq => sharedAcknowledged.ctrl.cqHasSpace sq.cqid = true ∧
      sharedAcknowledged.entryReadable sq = true ∧ sharedAcknowledged.ctrl.csts &&& cstsShstMask = 0) = true ∧
    slot sharedAcknowledged.processInto.ctrl.sqs 2 = slot sharedSys.processInto.ctrl.sqs 2 := by
  refine ⟨sharedSys_reached, ?_, ?_, ?_⟩ <;> decide +kernel

end BridgeVm.Nvme
