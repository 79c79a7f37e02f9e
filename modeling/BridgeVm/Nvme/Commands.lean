import BridgeVm.Nvme.Ledger

/-!
# Executing and completing commands

Every way a fetched command goes keeps the invariant: it is deferred, posted or kept without completion, now or when its
job is finished. Admin commands meet no job in flight.
-/

namespace BridgeVm.Nvme

open Lib Sys

variable {acked : Prop} {s s' : Sys} {hand : List Fetched} {c : Fetched}

/-! ## Deferral -/

namespace Sys

theorem startWorker_cases (s : Sys) : ∃ s', s.startWorker = (false, s') ∧ Kept s s' ∨
    ∃ jobs, s.startWorker = (true, s') ∧ Kept s s' ∧ s'.ctrl.flushWorker.jobs = some jobs := by
  unfold startWorker
  split
  · rename_i hjobs
    obtain ⟨jobs, hjobs⟩ := Option.isSome_iff_exists.1 hjobs
    exact ⟨s, .inr ⟨jobs, rfl, .refl s, hjobs⟩⟩
  · rename_i hjobs
    have hnone : s.ctrl.flushWorker.jobs = none := by simpa using hjobs
    dsimp only
    split
    · refine ⟨_, .inr ⟨[], rfl, ?_, rfl⟩⟩
      refine .of_worker rfl rfl ?_ rfl s.path.hostCall_backing
      show (([] : List FlushJob).map FlushJob.command ++ _).Perm _
      rw [outstanding, inbox, hnone]
      exact .refl _
    · exact ⟨_, .inl ⟨rfl, ⟨⟨rfl, rfl, rfl, rfl, rfl, rfl, rfl, rfl⟩, rfl, rfl, .refl _, rfl,
        s.path.hostCall_backing⟩⟩⟩

theorem deferFlush_cases (s : Sys) (c : Fetched) : ∃ s', s.deferFlush c = (false, s') ∧ Kept s s' ∨
    ∃ s₁ jobs job, s.deferFlush c = (true, s') ∧ c.sqid ≠ 0 ∧ Kept s s₁ ∧
    s₁.ctrl.flushWorker.jobs = some jobs ∧
      job.command = c ∧ s' = s₁.enqueueFlush job := by
  unfold deferFlush
  split
  · exact ⟨s, .inl ⟨rfl, .refl s⟩⟩
  · rename_i hgo
    obtain ⟨-, hadmin⟩ := not_or.1 hgo
    dsimp only
    split
    · exact ⟨s, .inl ⟨rfl, .refl s⟩⟩
    · obtain ⟨s₁, ⟨heq, hkept⟩ | ⟨jobs, heq, hkept, hjobs⟩⟩ := startWorker_cases s
      · rw [heq]
        exact ⟨s₁, .inl ⟨rfl, hkept⟩⟩
      · rw [heq]
        exact ⟨_, .inr ⟨s₁, jobs, _, rfl, hadmin, hkept, hjobs, rfl, rfl⟩⟩

theorem deferIo_cases (s : Sys) (c : Fetched) : s.deferIo c = (false, s) ∨
    ∃ job : IoJob, s.deferIo c = (true, s.enqueueIo job) ∧ c.sqid ≠ 0 ∧ job.command = c := by
  unfold deferIo
  cases h : s.ioTransfer c with
  | none => exact .inl rfl
  | some transfer =>
    refine .inr ⟨_, rfl, fun hadmin => ?_, rfl⟩
    unfold ioTransfer at h
    rw [if_pos (.inr (.inr (.inl hadmin)))] at h
    cases h

end Sys

namespace Inv

theorem enqueueFlush {jobs : List FlushJob} {job : FlushJob} (h : Inv acked s (c :: hand)) (hadmin : c.sqid ≠ 0)
    (hjobs : s.ctrl.flushWorker.jobs = some jobs) (hjob : job.command = c) : Inv acked (s.enqueueFlush job) hand := by
  subst hjob
  exact h.enqueue hadmin rfl rfl (enqueueFlush_outstanding hjobs) rfl (.refl _)

theorem enqueueIo {job : IoJob} (h : Inv acked s (c :: hand)) (hadmin : c.sqid ≠ 0) (hjob : job.command = c) :
    Inv acked (s.enqueueIo job) hand := by
  subst hjob
  exact h.enqueue hadmin rfl rfl (enqueueIo_outstanding s job) rfl (.refl _)

theorem deferFlush (h : Inv acked s (c :: hand)) :
    Inv acked (s.deferFlush c).2 (if (s.deferFlush c).1 then hand else c :: hand) := by
  obtain ⟨s', ⟨heq, hkept⟩ | ⟨s₁, jobs, job, heq, hadmin, hkept, hjobs, hjob, rfl⟩⟩ :=
    deferFlush_cases s c
  · rw [heq]
    exact h.kept hkept
  · rw [heq]
    exact (h.kept hkept).enqueueFlush hadmin hjobs hjob

theorem deferIo (h : Inv acked s (c :: hand)) :
    Inv acked (s.deferIo c).2 (if (s.deferIo c).1 then hand else c :: hand) := by
  obtain heq | ⟨job, heq, hadmin, hjob⟩ := deferIo_cases s c
  · rw [heq]
    exact h
  · rw [heq]
    exact h.enqueueIo hadmin hjob

/-! ## Finished jobs -/

theorem installed_of_hand (h : Inv acked s (c :: hand)) :
    (slot s.ctrl.sqs c.sqid).isSome ∧ (slot s.ctrl.cqs c.cqid).isSome := by
  obtain ⟨⟨sq, hsq, -⟩, ⟨cq, hcq, -⟩, -⟩ := h.live c (List.mem_append_right _ List.mem_cons_self)
  rw [hsq, hcq]
  exact ⟨rfl, rfl⟩

theorem finishOne {done : Finished} (h : Inv acked s (done.command :: hand)) : Inv acked (finishOne s done) hand := by
  change Inv acked s (done.job.fetched :: hand) at h
  unfold Sys.finishOne
  dsimp only
  split
  · have hdefer := h.deferFlush
    cases hd : s.deferFlush done.job.fetched with
    | mk deferred s' =>
      rw [hd] at hdefer
      cases deferred with
      | true => exact hdefer
      | false =>
        have hsync : Inv acked (s'.onPath fun d => d.ioFlush done.job.fetched.cmd).2 (done.job.fetched :: hand) :=
          Inv.kept hdefer (onPath_kept s' fun d => d.ioFlush_backing _)
        dsimp only
        rw [if_pos hsync.installed_of_hand]
        exact hsync.post _
  · rw [if_pos h.installed_of_hand]
    exact h.post _

theorem finishAll {taken : List Finished} (h : Inv acked s (taken.map Finished.command ++ hand)) :
    Inv acked (taken.foldl Sys.finishOne s) hand := by
  induction taken generalizing s with
  | nil => exact h
  | cons done taken ih => exact ih h.finishOne

theorem takeFinished (h : Inv acked s []) (wait : Bool) :
    Inv acked (s.takeFinished wait).2 ((s.takeFinished wait).1.map Finished.command) := by
  have hkept : Kept s (if wait then s.waitForFlushes else s) := by
    split
    · exact waitForFlushes_kept s
    · exact .refl s
  have htake := (h.kept hkept).take
  rw [List.append_nil] at htake
  unfold Sys.takeFinished
  split
  · rename_i hw
    rw [if_pos hw] at htake
    exact htake
  · rename_i hw
    rw [if_neg hw] at htake
    exact htake

theorem postFinished (h : Inv acked s []) (wait : Bool) : Inv acked (s.postFinished wait) [] := by
  have htake := h.takeFinished wait
  rw [← List.append_nil ((s.takeFinished wait).1.map Finished.command)] at htake
  exact htake.finishAll

theorem completeFlushesLoop (h : Inv acked s []) (wait : Bool) (rounds : Nat) :
    Inv acked (Sys.completeFlushesLoop wait rounds s) [] := by
  induction rounds generalizing s with
  | zero => exact h
  | succ rounds ih =>
    unfold Sys.completeFlushesLoop
    dsimp only
    split
    · exact h.postFinished wait
    · exact ih (h.postFinished wait)

theorem completeFlushes (h : Inv acked s []) (wait : Bool) : Inv acked (s.completeFlushes wait) [] :=
  h.completeFlushesLoop wait 2

end Inv
/-! ## Waiting until nothing is in flight -/

namespace Sys

/-- The same transfers, finished jobs, doorbells and status. -/
structure FinishKept (s s' : Sys) : Prop where
  io : s'.ctrl.flushWorker.io = s.ctrl.flushWorker.io
  batches : s'.batches = s.batches
  finished : s'.ctrl.flushWorker.finished = s.ctrl.flushWorker.finished
  pendingSqBits : s'.ctrl.pendingSqBits = s.ctrl.pendingSqBits
  csts : s'.ctrl.csts = s.ctrl.csts

theorem FinishKept.refl (s : Sys) : FinishKept s s := ⟨rfl, rfl, rfl, rfl, rfl⟩

theorem FinishKept.trans {s₁ s₂ s₃ : Sys} (h₁ : FinishKept s₁ s₂) (h₂ : FinishKept s₂ s₃) :
    FinishKept s₁ s₃ :=
  ⟨h₂.io.trans h₁.io, h₂.batches.trans h₁.batches, h₂.finished.trans h₁.finished,
    h₂.pendingSqBits.trans h₁.pendingSqBits, h₂.csts.trans h₁.csts⟩

theorem FinishKept.noTransfer (h : FinishKept s s') (hs : NoTransfer s) : NoTransfer s' :=
  ⟨h.io.trans hs.io, h.batches.trans hs.batches, h.finished ▸ hs.finished⟩

theorem startWorker_finishKept (s : Sys) : FinishKept s s.startWorker.2 := by
  unfold startWorker
  split
  · exact .refl s
  · dsimp only
    split <;> exact ⟨rfl, rfl, rfl, rfl, rfl⟩

theorem deferFlush_finishKept (s : Sys) (c : Fetched) : FinishKept s (s.deferFlush c).2 := by
  have hstart := startWorker_finishKept s
  unfold deferFlush
  split
  · exact .refl s
  · dsimp only
    split
    · exact .refl s
    · cases h : s.startWorker with
      | mk started s' =>
        rw [h] at hstart
        cases started with
        | true => exact hstart.trans ⟨rfl, rfl, rfl, rfl, rfl⟩
        | false => exact hstart

theorem postCompletion_worker (s : Sys) (c : Fetched) (status : Nat) :
    (s.postCompletion c status).ctrl.flushWorker = s.ctrl.flushWorker ∧
      FinishKept s (s.postCompletion c status) := by
  unfold postCompletion
  dsimp only
  split
  · exact ⟨rfl, rfl, rfl, rfl, rfl, rfl⟩
  · split <;> exact ⟨rfl, rfl, rfl, rfl, rfl, rfl⟩

theorem finishOne_finishKept (s : Sys) (done : Finished) : FinishKept s (finishOne s done) := by
  have hcomplete : ∀ (s : Sys) (status : Nat), FinishKept s
      (if (slot s.ctrl.sqs done.job.fetched.sqid).isSome ∧ (slot s.ctrl.cqs done.job.fetched.cqid).isSome then
        s.postCompletion done.job.fetched status else s.record (.unposted done.job.fetched)) := by
    intro s status
    split
    · exact (postCompletion_worker s _ status).2
    · exact ⟨rfl, rfl, rfl, rfl, rfl⟩
  have hdefer := deferFlush_finishKept s done.job.fetched
  unfold finishOne
  dsimp only
  split
  · cases h : s.deferFlush done.job.fetched with
    | mk deferred s' =>
      rw [h] at hdefer
      cases deferred with
      | true => exact hdefer
      | false =>
        have hpath : FinishKept s' (s'.onPath fun d => d.ioFlush done.job.fetched.cmd).2 :=
          ⟨rfl, rfl, rfl, rfl, rfl⟩
        exact hdefer.trans (hpath.trans (hcomplete _ _))
  · exact hcomplete s done.status

theorem finishOne_outstanding {done : Finished} (h : done.syncNext = false) :
    (finishOne s done).outstanding = s.outstanding := by
  unfold finishOne
  dsimp only
  rw [if_neg (by rw [h]; exact Bool.false_ne_true)]
  split
  · obtain ⟨hworker, hkept⟩ := postCompletion_worker s done.job.fetched done.status
    rw [outstanding, outstanding, inbox, inbox, hworker, hkept.batches]
  · rfl

theorem finishAll_finishKept (taken : List Finished) (s : Sys) : FinishKept s (taken.foldl finishOne s) := by
  induction taken generalizing s with
  | nil => exact .refl s
  | cons done taken ih => exact (finishOne_finishKept s done).trans (ih _)

theorem finishAll_outstanding {taken : List Finished} (h : ∀ done ∈ taken, done.syncNext = false) :
    (taken.foldl finishOne s).outstanding = s.outstanding := by
  induction taken generalizing s with
  | nil => rfl
  | cons done taken ih =>
    obtain ⟨hone, hrest⟩ := List.forall_mem_cons.1 h
    exact (ih hrest).trans (finishOne_outstanding hone)

theorem takeFinished_wait (s : Sys) : NoTransfer (s.takeFinished true).2 ∧
    (s.takeFinished true).2.outstanding = [] ∧
    (s.takeFinished true).1 = s.waitForFlushes.ctrl.flushWorker.finished := by
  have hall := waitForFlushes_finished s
  have hout := take_outstanding hall
  obtain ⟨reserved, htake, -⟩ := take_eq s.waitForFlushes
  refine ⟨?_, hout, congrArg Prod.fst htake⟩
  show NoTransfer s.waitForFlushes.take.2
  rw [htake]
  exact ⟨hall.io, hall.batches, fun done hdone => nomatch hdone⟩

theorem postFinished_wait (s : Sys) : NoTransfer (s.postFinished true) :=
  (finishAll_finishKept _ _).noTransfer (takeFinished_wait s).1

theorem postFinished_noTransfer (h : NoTransfer s) : (s.postFinished true).outstanding = [] := by
  obtain ⟨-, hout, htaken⟩ := takeFinished_wait s
  show ((s.takeFinished true).1.foldl finishOne (s.takeFinished true).2).outstanding = []
  rw [finishAll_outstanding, hout]
  rw [htaken]
  exact (waitForFlushes_noTransfer h).finished

end Sys

theorem Inv.outstanding_nil (h : Inv acked s hand) (hidle : s.flushesInFlight = false) : s.outstanding = [] := by
  have hzero : s.ctrl.flushWorker.inFlight = 0 := by simpa [flushesInFlight] using hidle
  rw [h.inFlight] at hzero
  exact List.length_eq_zero_iff.1 hzero

theorem Inv.completeFlushes_wait (h : Inv acked s []) : (s.completeFlushes true).outstanding = [] := by
  have hfirst := h.postFinished true
  unfold Sys.completeFlushes Sys.completeFlushesLoop
  dsimp only
  split
  · rename_i hidle
    exact hfirst.outstanding_nil (by simpa using hidle)
  · unfold Sys.completeFlushesLoop Sys.completeFlushesLoop
    dsimp only
    split <;> exact postFinished_noTransfer (postFinished_wait s)

end BridgeVm.Nvme
