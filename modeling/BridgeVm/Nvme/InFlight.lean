import BridgeVm.Nvme.Engine
import Mathlib.Data.List.Count
import Mathlib.Data.List.Perm.Basic

/-!
# Jobs in flight

A deferred command is in the flush thread's inbox, among the queued transfers, in a batch that a thread holds, or
finished and not yet taken. The threads' turns and the waits move jobs between these places and touch nothing else of
the controller (`Kept`); a wait leaves every job finished.
-/

namespace BridgeVm.Nvme

open Lib

def FlushJob.command (job : FlushJob) : Fetched := job.fetched

def Finished.command (done : Finished) : Fetched := done.job.fetched

def IoJob.command (job : IoJob) : Fetched := job.done.fetched

namespace Sys

variable {s s' s₁ s₂ s₃ : Sys}

/-- The flush thread's inbox. -/
def inbox (s : Sys) : List FlushJob := s.ctrl.flushWorker.jobs.getD []

/-- The commands in flight. -/
def outstanding (s : Sys) : List Fetched :=
  s.inbox.map FlushJob.command ++ (s.ctrl.flushWorker.finished.map Finished.command ++
    (s.ctrl.flushWorker.io.map IoJob.command ++ s.batches.flatten.map IoJob.command))

/-- The same queues, doorbells and status. -/
structure SameQueues (c c' : NvmeController) : Prop where
  sqs : c'.sqs = c.sqs
  cqs : c'.cqs = c.cqs
  pendingSqBits : c'.pendingSqBits = c.pendingSqBits
  cc : c'.cc = c.cc
  csts : c'.csts = c.csts
  maxIoQueues : c'.maxIoQueues = c.maxIoQueues
  births : c'.births = c.births
  fetches : c'.fetches = c.fetches

theorem SameQueues.refl (c : NvmeController) : SameQueues c c := ⟨rfl, rfl, rfl, rfl, rfl, rfl, rfl, rfl⟩

theorem SameQueues.trans {c₁ c₂ c₃ : NvmeController} (h₁ : SameQueues c₁ c₂) (h₂ : SameQueues c₂ c₃) :
    SameQueues c₁ c₃ :=
  ⟨h₂.sqs.trans h₁.sqs, h₂.cqs.trans h₁.cqs, h₂.pendingSqBits.trans h₁.pendingSqBits,
    h₂.cc.trans h₁.cc,
    h₂.csts.trans h₁.csts, h₂.maxIoQueues.trans h₁.maxIoQueues, h₂.births.trans h₁.births,
    h₂.fetches.trans h₁.fetches⟩

/-- Jobs only moved: the same queues, the same commands in flight, nothing logged. -/
structure Kept (s s' : Sys) : Prop where
  queues : SameQueues s.ctrl s'.ctrl
  flushReserved : s'.ctrl.flushReserved = s.ctrl.flushReserved
  inFlight : s'.ctrl.flushWorker.inFlight = s.ctrl.flushWorker.inFlight
  outstanding : s'.outstanding.Perm s.outstanding
  log : s'.log = s.log
  backing : s.path.SameBacking s'.path

namespace Kept

theorem refl (s : Sys) : Kept s s := ⟨.refl _, rfl, rfl, .refl _, rfl, .refl _⟩

theorem trans (h₁ : Kept s₁ s₂) (h₂ : Kept s₂ s₃) : Kept s₁ s₃ :=
  ⟨h₁.queues.trans h₂.queues, h₂.flushReserved.trans h₁.flushReserved, h₂.inFlight.trans h₁.inFlight,
    h₂.outstanding.trans h₁.outstanding, h₂.log.trans h₁.log, h₁.backing.trans h₂.backing⟩

theorem of_worker (hctrl : s'.ctrl = { s.ctrl with flushWorker := s'.ctrl.flushWorker })
    (hcount : s'.ctrl.flushWorker.inFlight = s.ctrl.flushWorker.inFlight) (hout : s'.outstanding.Perm s.outstanding)
    (hlog : s'.log = s.log) (hpath : s.path.SameBacking s'.path) : Kept s s' := by
  refine ⟨?_, ?_, hcount, hout, hlog, hpath⟩
  · rw [hctrl]
    exact ⟨rfl, rfl, rfl, rfl, rfl, rfl, rfl, rfl⟩
  · rw [hctrl]

theorem of_path {path : DataPath} (h : s.path.SameBacking path) : Kept s { s with path := path } :=
  ⟨.refl _, rfl, rfl, .refl _, rfl, h⟩

end Kept

theorem hostCall_kept (s : Sys) : Kept s s.hostCall.2 := .of_path s.path.hostCall_backing

theorem onPath_kept (s : Sys) {f : DataPath → Nat × DataPath}
    (h : ∀ d : DataPath, d.SameBacking (f d).2) : Kept s (s.onPath f).2 :=
  .of_path (h s.path)

/-! ## The other threads -/

theorem publish_outstanding (s : Sys) (done : List Finished) :
    (s.publish done).outstanding.Perm (done.map Finished.command ++ s.outstanding) := by
  have hout : (s.publish done).outstanding = s.inbox.map FlushJob.command ++
      ((s.ctrl.flushWorker.finished ++ done).map Finished.command ++
        (s.ctrl.flushWorker.io.map IoJob.command ++ s.batches.flatten.map IoJob.command)) := rfl
  rw [hout, outstanding, List.perm_iff_count]
  intro c
  simp only [List.map_append, List.count_append]
  omega

theorem flushBatch_cases (s : Sys) (n : Nat) : s.flushBatch n = s ∨ ∃ done : List Finished,
    s.flushBatch n = (s.hostCall.2.hostCall.2.dropInbox n).publish done ∧
    done.map Finished.command = (s.inbox.take n).map FlushJob.command ∧ ∀ f ∈ done, f.syncNext = false := by
  unfold flushBatch
  dsimp only
  split
  · exact .inl rfl
  · refine .inr ⟨_, rfl, ?_, ?_⟩
    · rw [List.map_map]
      rfl
    · intro f hf
      obtain ⟨job, -, rfl⟩ := List.mem_map.1 hf
      rfl

theorem inbox_dropInbox (s : Sys) (n : Nat) : (s.dropInbox n).inbox = s.inbox.drop n := by
  show (s.ctrl.flushWorker.jobs.map (List.drop n)).getD [] = (s.ctrl.flushWorker.jobs.getD []).drop n
  cases s.ctrl.flushWorker.jobs with
  | none => simp
  | some jobs => rfl

theorem flushBatch_kept (s : Sys) (n : Nat) : Kept s (s.flushBatch n) := by
  rcases flushBatch_cases s n with h | ⟨done, h, hdone, -⟩
  · rw [h]
    exact .refl s
  · rw [h]
    refine .of_worker rfl rfl ?_ rfl ((s.path.hostCall_backing).trans (DataPath.hostCall_backing _))
    refine (publish_outstanding _ done).trans ?_
    have hrest : (s.hostCall.2.hostCall.2.dropInbox n).outstanding = (s.inbox.drop n).map FlushJob.command ++
        (s.ctrl.flushWorker.finished.map Finished.command ++
          (s.ctrl.flushWorker.io.map IoJob.command ++ s.batches.flatten.map IoJob.command)) := by
      rw [outstanding, inbox_dropInbox]
      rfl
    rw [hrest, hdone, outstanding, ← List.append_assoc, ← List.map_append, List.take_append_drop]

theorem runJobs_command (d : DataPath) (jobs : List IoJob) :
    (runJobs d jobs).1.map Finished.command = jobs.map IoJob.command := by
  induction jobs generalizing d with
  | nil => rfl
  | cons job jobs ih =>
    simp only [runJobs, List.map_cons, ih]
    rfl

theorem runJobs_backing (d : DataPath) (jobs : List IoJob) : d.SameBacking (runJobs d jobs).2 := by
  induction jobs generalizing d with
  | nil => exact .refl d
  | cons job jobs ih => exact DataPath.transfer_backing.trans (ih _)

theorem batch_kept {i : Nat} {jobs : List IoJob} {path : DataPath} {done : List Finished}
    (hi : s.batches[i]? = some jobs)
    (hdone : done.map Finished.command = jobs.map IoJob.command) (hpath : s.path.SameBacking path) :
    Kept s ({ s with path := path, batches := s.batches.eraseIdx i }.publish done) := by
  refine .of_worker rfl rfl ((publish_outstanding _ done).trans ?_) rfl hpath
  obtain ⟨hlt, hjobs⟩ := List.getElem?_eq_some_iff.1 hi
  have hbatches := ((List.getElem_cons_eraseIdx_perm hlt).flatten).map IoJob.command
  rw [hjobs, List.flatten_cons, List.map_append] at hbatches
  have hrest : { s with path := path, batches := s.batches.eraseIdx i }.outstanding = s.inbox.map FlushJob.command ++
      (s.ctrl.flushWorker.finished.map Finished.command ++ (s.ctrl.flushWorker.io.map IoJob.command ++
        (s.batches.eraseIdx i).flatten.map IoJob.command)) := rfl
  rw [hrest, hdone, outstanding, List.perm_iff_count]
  intro c
  have hcount := hbatches.count_eq c
  simp only [List.count_append] at hcount ⊢
  omega

theorem runIo_kept (s : Sys) (i : Nat) : Kept s (s.runIo i) := by
  unfold runIo
  cases hi : s.batches[i]? with
  | none => exact .refl s
  | some jobs => exact batch_kept hi (runJobs_command _ jobs) (runJobs_backing _ jobs)

theorem failJobs_command (jobs : List IoJob) : (failJobs jobs).map Finished.command = jobs.map IoJob.command := by
  rw [failJobs, List.map_map]
  rfl

theorem dropIo_kept (s : Sys) (i : Nat) : Kept s (s.dropIo i) := by
  unfold dropIo
  cases hi : s.batches[i]? with
  | none => exact .refl s
  | some jobs => exact batch_kept hi (failJobs_command jobs) (.refl _)

theorem guestStore_kept (s : Sys) (gpa : Nat) (data : List UInt8) : Kept s (s.guestStore gpa data) :=
  .of_path ⟨rfl, rfl⟩

theorem threadTurn_kept (s : Sys) (a : ThreadAction) : Kept s (s.threadTurn a) := by
  cases a with
  | flushBatch n => exact flushBatch_kept s n
  | runIo i => exact runIo_kept s i
  | dropIo i => exact dropIo_kept s i
  | guestStore gpa data => exact guestStore_kept s gpa data

theorem foldl_kept {α : Type} {f : Sys → α → Sys} (hf : ∀ s a, Kept s (f s a)) (l : List α) (s : Sys) :
    Kept s (l.foldl f s) := by
  induction l generalizing s with
  | nil => exact .refl s
  | cons a l ih => exact (hf s a).trans (ih _)

theorem othersTurn_kept (s : Sys) : Kept s s.othersTurn := (hostCall_kept s).trans (foldl_kept threadTurn_kept _ _)

/-! ## Waits -/

theorem takeIo_kept (s : Sys) : Kept s s.takeIo := by
  unfold takeIo
  split
  · exact .refl s
  · refine .of_worker rfl rfl ?_ rfl (.refl _)
    have hout : ({ s with batches := s.batches ++ [s.ctrl.flushWorker.io] }.withWorker
        { s.ctrl.flushWorker with io := [] }).outstanding = s.inbox.map FlushJob.command ++
        (s.ctrl.flushWorker.finished.map Finished.command ++ ([].map IoJob.command ++
          (s.batches ++ [s.ctrl.flushWorker.io]).flatten.map IoJob.command)) := rfl
    rw [hout, outstanding, List.perm_iff_count]
    intro c
    simp only [List.flatten_append, List.flatten_cons, List.flatten_nil, List.map_append, List.map_nil,
      List.count_append, List.count_nil]
    omega

theorem failUntakenIo_kept (s : Sys) : Kept s s.failUntakenIo := by
  refine .of_worker rfl rfl ((publish_outstanding _ _).trans ?_) rfl (.refl _)
  have hout : (s.withWorker { s.ctrl.flushWorker with io := [] }).outstanding = s.inbox.map FlushJob.command ++
      (s.ctrl.flushWorker.finished.map Finished.command ++ ([].map IoJob.command ++
        s.batches.flatten.map IoJob.command)) := rfl
  rw [hout, failJobs_command, outstanding, List.perm_iff_count]
  intro c
  simp only [List.map_nil, List.count_append, List.count_nil]
  omega

theorem settle_kept (s : Sys) : Kept s s.settle :=
  (othersTurn_kept s).trans ((flushBatch_kept _ _).trans (foldl_kept (fun s _ => runIo_kept s 0) _ _))

theorem waitForFlushes_kept (s : Sys) : Kept s s.waitForFlushes := (failUntakenIo_kept s).trans (settle_kept _)

/-- Every job in flight is finished. -/
structure AllFinished (s : Sys) : Prop where
  inbox : s.inbox = []
  io : s.ctrl.flushWorker.io = []
  batches : s.batches = []

/-- No transfer is queued or running, and nothing finished goes on to a sync. -/
structure NoTransfer (s : Sys) : Prop where
  io : s.ctrl.flushWorker.io = []
  batches : s.batches = []
  finished : ∀ done ∈ s.ctrl.flushWorker.finished, done.syncNext = false

theorem flushBatch_io (s : Sys) (n : Nat) : (s.flushBatch n).ctrl.flushWorker.io = s.ctrl.flushWorker.io := by
  rcases flushBatch_cases s n with h | ⟨done, h, -⟩
  · rw [h]
  · rw [h]
    rfl

theorem threadTurn_io (s : Sys) (a : ThreadAction) :
    (s.threadTurn a).ctrl.flushWorker.io = s.ctrl.flushWorker.io := by
  cases a with
  | flushBatch n => exact flushBatch_io s n
  | runIo i =>
    show (s.runIo i).ctrl.flushWorker.io = _
    unfold runIo
    split <;> rfl
  | dropIo i =>
    show (s.dropIo i).ctrl.flushWorker.io = _
    unfold dropIo
    split <;> rfl
  | guestStore gpa data => rfl

theorem othersTurn_io (s : Sys) : s.othersTurn.ctrl.flushWorker.io = s.ctrl.flushWorker.io := by
  have hfold : ∀ (l : List ThreadAction) (s : Sys),
      (l.foldl threadTurn s).ctrl.flushWorker.io = s.ctrl.flushWorker.io := by
    intro l
    induction l with
    | nil => exact fun _ => rfl
    | cons a l ih => exact fun s => (ih _).trans (threadTurn_io s a)
  exact hfold _ _

theorem flushBatch_all (s : Sys) : (s.flushBatch s.inbox.length).inbox = [] := by
  unfold flushBatch
  dsimp only
  split
  · rename_i h
    rw [show (s.ctrl.flushWorker.jobs.getD []) = s.inbox from rfl, List.take_length] at h
    exact h
  · show (s.dropInbox s.inbox.length).inbox = []
    rw [inbox_dropInbox, List.drop_length]

theorem runIo_zero (s : Sys) : (s.runIo 0).batches = s.batches.tail ∧ (s.runIo 0).inbox = s.inbox ∧
    (s.runIo 0).ctrl.flushWorker.io = s.ctrl.flushWorker.io := by
  unfold runIo
  cases h : s.batches[0]? with
  | none =>
    rw [List.getElem?_eq_none_iff, Nat.le_zero, List.length_eq_zero_iff] at h
    simp [h]
  | some jobs => exact ⟨List.eraseIdx_zero, rfl, rfl⟩

theorem runAll_finished {α : Type} (l : List α) (s : Sys) (h : s.batches.length ≤ l.length) (hinbox : s.inbox = [])
    (hio : s.ctrl.flushWorker.io = []) : AllFinished (l.foldl (fun s _ => s.runIo 0) s) := by
  induction l generalizing s with
  | nil => exact ⟨hinbox, hio, List.length_eq_zero_iff.1 (Nat.le_zero.1 h)⟩
  | cons a l ih =>
    obtain ⟨hbatches, hsame, hsameIo⟩ := runIo_zero s
    refine ih _ ?_ (hsame.trans hinbox) (hsameIo.trans hio)
    rw [hbatches, List.length_tail]
    simp only [List.length_cons] at h
    omega

theorem waitForFlushes_finished (s : Sys) : AllFinished s.waitForFlushes := by
  refine runAll_finished _ _ (Nat.le_refl _) (flushBatch_all _) ?_
  rw [flushBatch_io, othersTurn_io]
  rfl

theorem flushBatch_noTransfer (h : NoTransfer s) (n : Nat) : NoTransfer (s.flushBatch n) := by
  refine ⟨(flushBatch_io s n).trans h.io, ?_, ?_⟩ <;> rcases flushBatch_cases s n with heq |
    ⟨done, heq, -, hdone⟩
  · rw [heq]
    exact h.batches
  · rw [heq]
    exact h.batches
  · rw [heq]
    exact h.finished
  · rw [heq]
    intro f hf
    rcases List.mem_append.1 hf with hf | hf
    · exact h.finished f hf
    · exact hdone f hf

theorem runIo_noTransfer (h : NoTransfer s) (i : Nat) : s.runIo i = s := by
  unfold runIo
  rw [h.batches]
  rfl

theorem threadTurn_noTransfer (h : NoTransfer s) (a : ThreadAction) : NoTransfer (s.threadTurn a) := by
  cases a with
  | flushBatch n => exact flushBatch_noTransfer h n
  | runIo i =>
    rw [threadTurn, runIo_noTransfer h]
    exact h
  | dropIo i =>
    rw [threadTurn, dropIo, h.batches]
    exact h
  | guestStore gpa data => exact ⟨h.io, h.batches, h.finished⟩

theorem othersTurn_noTransfer (h : NoTransfer s) : NoTransfer s.othersTurn := by
  have hfold : ∀ (l : List ThreadAction) (s : Sys), NoTransfer s → NoTransfer (l.foldl threadTurn s) := by
    intro l
    induction l with
    | nil => exact fun _ h => h
    | cons a l ih => exact fun s h => ih _ (threadTurn_noTransfer h a)
  exact hfold _ _ ⟨h.io, h.batches, h.finished⟩

theorem waitForFlushes_noTransfer (h : NoTransfer s) : NoTransfer s.waitForFlushes := by
  have hfail : NoTransfer s.failUntakenIo := by
    refine ⟨rfl, h.batches, fun done hdone => ?_⟩
    have hfinished : s.failUntakenIo.ctrl.flushWorker.finished =
        s.ctrl.flushWorker.finished ++ failJobs s.ctrl.flushWorker.io := rfl
    rw [hfinished, h.io] at hdone
    exact h.finished done (by simpa [failJobs] using hdone)
  have hflush := flushBatch_noTransfer (othersTurn_noTransfer hfail)
    (s.failUntakenIo.othersTurn.ctrl.flushWorker.jobs.getD []).length
  rw [waitForFlushes, settle]
  show NoTransfer (List.foldl _ _ (flushBatch _ _).batches)
  rw [hflush.batches]
  exact hflush

/-! ## Taking what is finished -/

theorem releaseSlots_eq (c : NvmeController) (taken : List Finished) : ∃ reserved : List Nat,
    releaseSlots c taken = { c with flushReserved := reserved } ∧
    ∀ q, entry 0 reserved q = c.flushReservedSlots q - (taken.map Finished.command).countP fun f => f.cqid = q := by
  induction taken generalizing c with
  | nil => exact ⟨c.flushReserved, rfl, fun q => rfl⟩
  | cons done taken ih =>
    obtain ⟨reserved, heq, hslots⟩ := ih (c.releaseCompletionSlot done.command.cqid)
    refine ⟨reserved, heq, fun q => ?_⟩
    have hone : (c.releaseCompletionSlot done.command.cqid).flushReservedSlots q =
        if q = done.command.cqid then c.flushReservedSlots done.command.cqid - 1 else c.flushReservedSlots q :=
      entry_modify (Or.inl rfl)
    rw [hslots, hone, List.map_cons, List.countP_cons]
    by_cases hq : q = done.command.cqid
    · subst hq
      simp
      omega
    · have hne : done.command.cqid ≠ q := Ne.symm hq
      simp [hq, hne]

/-- What `take` leaves. -/
structure Taken (s : Sys) (taken : List Finished) (s' : Sys) : Prop where
  queues : SameQueues s.ctrl s'.ctrl
  slots : ∀ q, s'.ctrl.flushReservedSlots q =
    s.ctrl.flushReservedSlots q - (taken.map Finished.command).countP fun f => f.cqid = q
  inFlight : s'.ctrl.flushWorker.inFlight = s.ctrl.flushWorker.inFlight - taken.length
  outstanding : s.outstanding.Perm (taken.map Finished.command ++ s'.outstanding)
  log : s'.log = s.log
  path : s'.path = s.path

/-- The controller, its finished jobs taken. -/
def afterTake (s : Sys) (reserved : List Nat) : NvmeController :=
  { s.ctrl with
    flushWorker := { s.ctrl.flushWorker with
      finished := [], inFlight := s.ctrl.flushWorker.inFlight - s.ctrl.flushWorker.finished.length }
    flushReserved := reserved }

theorem take_eq (s : Sys) : ∃ reserved : List Nat,
    s.take = (s.ctrl.flushWorker.finished, { s with ctrl := s.afterTake reserved }) ∧
    ∀ q, entry 0 reserved q =
      s.ctrl.flushReservedSlots q - (s.ctrl.flushWorker.finished.map Finished.command).countP fun f => f.cqid = q := by
  obtain ⟨reserved, heq, hslots⟩ := releaseSlots_eq
    { s.ctrl with flushWorker := { s.ctrl.flushWorker with
      finished := [], inFlight := s.ctrl.flushWorker.inFlight - s.ctrl.flushWorker.finished.length } }
    s.ctrl.flushWorker.finished
  refine ⟨reserved, ?_, hslots⟩
  unfold take
  dsimp only
  rw [heq]
  rfl

theorem afterTake_outstanding (s : Sys) (reserved : List Nat) :
    Sys.outstanding { s with ctrl := s.afterTake reserved } = s.inbox.map FlushJob.command ++
      (s.ctrl.flushWorker.io.map IoJob.command ++ s.batches.flatten.map IoJob.command) := rfl

theorem take_taken (s : Sys) : Taken s s.take.1 s.take.2 := by
  obtain ⟨reserved, htake, hslots⟩ := take_eq s
  rw [htake]
  refine ⟨⟨rfl, rfl, rfl, rfl, rfl, rfl, rfl, rfl⟩, hslots, rfl, ?_, rfl, rfl⟩
  rw [afterTake_outstanding, outstanding, List.perm_iff_count]
  intro c
  simp only [List.count_append]
  omega

theorem take_outstanding (h : AllFinished s) : s.take.2.outstanding = [] := by
  obtain ⟨reserved, htake, -⟩ := take_eq s
  rw [htake, afterTake_outstanding, h.inbox, h.io, h.batches]
  rfl

end Sys
end BridgeVm.Nvme
