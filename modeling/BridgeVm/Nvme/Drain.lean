import BridgeVm.Nvme.Admin

/-!
# Draining the queues

A fetched command is handled without losing or repeating it, and the drain as a whole keeps the invariant. The admin
queue is drained while nothing is in flight: a pending admin doorbell makes `process_into` wait first.
-/

namespace BridgeVm.Nvme

open Lib Sys

variable {acked : Prop} {s s' : Sys} {hand : List Fetched} {c : Fetched} {qid : Nat}

/-! ## One command -/

namespace Sys

theorem executeIo_kept (s : Sys) (cmd : SubmissionEntry) : Kept s (s.executeIo cmd).2 := by
  unfold executeIo
  split
  · exact onPath_kept s fun d => d.ioFlush_backing cmd
  split
  · exact onPath_kept s fun d => d.ioRead_backing cmd
  split
  · exact onPath_kept s fun d => d.ioWrite_backing _ cmd
  split
  · exact onPath_kept s fun d => d.ioDatasetManagement_backing cmd
  · exact .refl s

theorem postCompletion_outstanding (s : Sys) (c : Fetched) (status : Nat) :
    (s.postCompletion c status).outstanding = s.outstanding := by
  obtain ⟨hworker, hkept⟩ := postCompletion_worker s c status
  rw [outstanding, outstanding, inbox, inbox, hworker, hkept.batches]

theorem deferFlush_admin (hadmin : c.sqid = 0) : s.deferFlush c = (false, s) := by
  unfold deferFlush
  rw [if_pos (.inr hadmin)]

theorem handle_admin (hadmin : c.sqid = 0) : s.handle c = s.execute c := by
  unfold handle
  rw [deferFlush_admin hadmin, ite_self]
  dsimp only
  rw [if_neg (not_not.2 hadmin)]

end Sys

namespace Inv

theorem executeSyncedWrite (h : Inv acked s (c :: hand)) :
    Inv acked (s.executeSyncedWrite c).2 (if (s.executeSyncedWrite c).1.isSome then c :: hand else hand) := by
  have hdata : Inv acked (s.onPath fun d => d.ioWriteData c.cmd).2 (c :: hand) :=
    h.kept (onPath_kept s fun d => d.ioWriteData_backing c.cmd)
  unfold Sys.executeSyncedWrite
  cases hwrite : s.onPath fun d => d.ioWriteData c.cmd with
  | mk status s₁ =>
    rw [hwrite] at hdata
    dsimp only
    split
    · have hdefer := hdata.deferFlush
      cases hd : s₁.deferFlush c with
      | mk deferred s₂ =>
        rw [hd] at hdefer
        cases deferred with
        | true => exact hdefer
        | false => exact Inv.kept hdefer (onPath_kept s₂ fun d => d.ioFlush_backing c.cmd)
    · exact hdata

theorem executeForIo (h : Inv acked s [c]) (hio : c.sqid ≠ 0) : Inv acked (s.execute c) [] := by
  unfold Sys.execute
  split
  · have hwrite := h.executeSyncedWrite
    cases hw : s.executeSyncedWrite c with
    | mk status s' =>
      rw [hw] at hwrite
      cases status with
      | none => exact hwrite
      | some status => exact Inv.post hwrite status
  · have hkept := h.kept (executeIo_kept s c.cmd)
    cases hx : s.executeIo c.cmd with
    | mk status s' =>
      rw [hx] at hkept
      exact hkept.post status

end Inv

theorem AdminInv.execute (h : AdminInv acked s c) : Inv acked (s.execute c) [] ∧ (s.execute c).outstanding = [] := by
  have hadmin := h.executeAdmin
  unfold Sys.execute
  rw [if_neg (fun hsync => hsync.1 h.admin), if_pos h.admin]
  cases hx : s.executeAdmin c.cmd with
  | mk result s' =>
    rw [hx] at hadmin
    dsimp only
    split
    · exact ⟨hadmin.inv.post _, (postCompletion_outstanding _ _ _).trans hadmin.idle⟩
    · exact ⟨hadmin.inv.retain h.admin, hadmin.idle⟩

/-- The invariant between commands of queue `qid`: nothing is in flight beside the admin queue's. -/
structure QueueInv (acked : Prop) (qid : Nat) (s : Sys) : Prop where
  inv : Inv acked s []
  idle : qid = 0 → s.outstanding = []

namespace QueueInv

theorem kept (h : QueueInv acked qid s) (hk : Kept s s') : QueueInv acked qid s' := by
  refine ⟨h.inv.kept hk, fun hqid => ?_⟩
  have hout := hk.outstanding
  rw [h.idle hqid] at hout
  exact List.perm_nil.1 hout

/-- What `process_sq` does with a fetched command. -/
theorem handle (h : Inv acked s [c]) (hidle : c.sqid = 0 → s.outstanding = []) :
    QueueInv acked c.sqid (s.handle c) := by
  by_cases hadmin : c.sqid = 0
  · rw [handle_admin hadmin]
    obtain ⟨hinv, hout⟩ := (AdminInv.mk h hadmin (hidle hadmin)).execute
    exact ⟨hinv, fun _ => hout⟩
  · refine ⟨?_, fun hzero => absurd hzero hadmin⟩
    unfold Sys.handle
    have hflush : Inv acked (if c.cmd.opcode = nvmOpFlush then s.deferFlush c else (false, s)).2
        (if (if c.cmd.opcode = nvmOpFlush then s.deferFlush c else (false, s)).1 then [] else [c]) := by
      split
      · exact h.deferFlush
      · exact h
    cases hf : if c.cmd.opcode = nvmOpFlush then s.deferFlush c else (false, s) with
    | mk deferred s₁ =>
      rw [hf] at hflush
      cases deferred with
      | true => exact hflush
      | false =>
        have hio := Inv.deferIo (s := s₁) hflush
        dsimp only
        rw [if_pos hadmin]
        cases hd : s₁.deferIo c with
        | mk deferred s₂ =>
          rw [hd] at hio
          cases deferred with
          | true => exact hio
          | false => exact Inv.executeForIo hio hadmin

/-! ## One queue -/

theorem processSqLoop (h : QueueInv acked qid s) (rounds : Nat) :
    QueueInv acked qid (Sys.processSqLoop qid rounds s) := by
  induction rounds generalizing s with
  | zero => exact h
  | succ rounds ih =>
    unfold Sys.processSqLoop
    cases hnext : s.nextEntry qid with
    | none => exact h
    | some next =>
      obtain ⟨sq, buf⟩ := next
      have hhandled : QueueInv acked qid ((s.fetch qid sq buf).2.handle (s.fetch qid sq buf).1) :=
        handle (h.inv.fetch hnext) h.idle
      exact ih (hhandled.kept (othersTurn_kept _))

theorem processSq (h : QueueInv acked qid s) : QueueInv acked qid (s.processSq qid) := h.processSqLoop _

end QueueInv

theorem Inv.clearPending (h : Inv acked s hand) (hidle : s.ctrl.sqHasWork qid = false) :
    Inv acked { s with ctrl := s.ctrl.clearSqPending qid } hand := by
  have hqueues : QueuesOk (s.ctrl.clearSqPending qid) := by
    refine ⟨fun i sq hsq => ?_, fun i cq hcq => ?_, h.queues.off, h.queues.maxIoQueues⟩
    · obtain ⟨hhead, htail, hborn, hle, hadmin, hpend⟩ := h.queues.sqs i sq hsq
      refine ⟨hhead, htail, hborn, hle, hadmin, fun hwork => ?_⟩
      rw [NvmeController.sqPending_clearSqPending, Bool.and_eq_true]
      refine ⟨hpend hwork, ?_⟩
      simp only [Bool.not_eq_eq_eq_not, Bool.not_true, decide_eq_false_iff_not]
      rintro rfl
      have hany : s.ctrl.sqHasWork i = true := by
        rw [NvmeController.sqHasWork, show slot s.ctrl.sqs i = some sq from hsq]
        simpa using hwork
      rw [hidle] at hany
      cases hany
    · obtain ⟨hhead, htail, hborn, hle⟩ := h.queues.cqs i cq hcq
      exact ⟨hhead, htail, hborn, hle⟩
  exact h.requeued (.inl rfl) rfl rfl rfl rfl (.refl _) hqueues
    (fun c hc => ⟨(h.live c hc).sq, (h.live c hc).cq, (h.live c hc).commandId⟩) h.installed h.rings

theorem QueueInv.drainQueue (h : QueueInv acked qid s) : Inv acked (s.drainQueue qid) [] := by
  unfold Sys.drainQueue
  dsimp only
  split
  · exact h.processSq.inv
  · rename_i hwork
    exact h.processSq.inv.clearPending (by simpa using hwork)

/-! ## All queues -/

namespace Sys

theorem takeFinished_queues (s : Sys) (wait : Bool) : SameQueues s.ctrl (s.takeFinished wait).2.ctrl := by
  unfold takeFinished
  split
  · exact (waitForFlushes_kept s).queues.trans (take_taken _).queues
  · exact (take_taken s).queues

theorem postFinished_doorbells (s : Sys) (wait : Bool) :
    (s.postFinished wait).ctrl.pendingSqBits = s.ctrl.pendingSqBits ∧
    (s.postFinished wait).ctrl.csts = s.ctrl.csts := by
  have htake := takeFinished_queues s wait
  have hfinish := finishAll_finishKept (s.takeFinished wait).1 (s.takeFinished wait).2
  exact ⟨hfinish.pendingSqBits.trans htake.pendingSqBits, hfinish.csts.trans htake.csts⟩

theorem completeFlushes_doorbells (s : Sys) (wait : Bool) :
    (s.completeFlushes wait).ctrl.pendingSqBits = s.ctrl.pendingSqBits ∧
      (s.completeFlushes wait).ctrl.csts = s.ctrl.csts := by
  have hloop : ∀ (rounds : Nat) (s : Sys),
      (completeFlushesLoop wait rounds s).ctrl.pendingSqBits = s.ctrl.pendingSqBits ∧
        (completeFlushesLoop wait rounds s).ctrl.csts = s.ctrl.csts := by
    intro rounds
    induction rounds with
    | zero => exact fun s => ⟨rfl, rfl⟩
    | succ rounds ih =>
      intro s
      obtain ⟨hbits, hcsts⟩ := postFinished_doorbells s wait
      unfold completeFlushesLoop
      dsimp only
      split
      · exact ⟨hbits, hcsts⟩
      · exact ⟨(ih _).1.trans hbits, (ih _).2.trans hcsts⟩
  exact hloop 2 s

end Sys

namespace Inv

theorem drainIo (h : Inv acked s []) {bits : List Nat} {idx : Nat} (hio : ∀ bit ∈ bits, idx * 64 + bit ≠ 0) :
    Inv acked (bits.foldl (fun s bit => s.drainQueue (idx * 64 + bit)) s) [] := by
  induction bits generalizing s with
  | nil => exact h
  | cons bit bits ih =>
    obtain ⟨hbit, hbits⟩ := List.forall_mem_cons.1 hio
    exact ih (QueueInv.drainQueue ⟨h, fun hzero => absurd hzero hbit⟩) hbits

theorem drainWord (h : Inv acked s []) (word : BitVec 64) (idx : Nat)
    (hidle : idx = 0 → word.getLsbD 0 = true → s.outstanding = []) :
    Inv acked ((setBits word).foldl (fun s bit => s.drainQueue (idx * 64 + bit)) s) [] := by
  have hpairwise := pairwise_setBits word
  cases hbits : setBits word with
  | nil => exact h
  | cons bit bits =>
    rw [hbits] at hpairwise
    have hmem : word.getLsbD bit = true := mem_setBits.1 (hbits ▸ List.mem_cons_self)
    refine drainIo (QueueInv.drainQueue ⟨h, fun hzero => hidle (by omega) ?_⟩) fun b hb => ?_
    · rw [show bit = 0 by omega] at hmem
      exact hmem
    · have hlt := List.rel_of_pairwise_cons hpairwise hb
      omega

theorem drainWords (h : Inv acked s []) (words idx : Nat)
    (hidle : idx = 0 → s.ctrl.sqPending 0 = true → s.outstanding = []) : Inv acked
      (Sys.drainWords words idx s) [] := by
  induction words generalizing s idx with
  | zero => exact h
  | succ words ih =>
    unfold Sys.drainWords
    split
    · refine ih (h.drainWord _ idx fun hzero hbit => hidle hzero ?_) (idx + 1) nofun
      subst hzero
      exact hbit
    · exact h

theorem processInto (h : Inv acked s []) : Inv acked s.processInto [] := by
  unfold Sys.processInto
  dsimp only
  split
  · refine (h.completeFlushes _).drainWords _ 0 fun _ hpend => ?_
    cases hadmin : s.ctrl.sqPending 0 with
    | true => exact h.completeFlushes_wait
    | false =>
      exfalso
      rw [hadmin] at hpend
      rw [NvmeController.sqPending, (completeFlushes_doorbells s _).1] at hpend
      exact Bool.false_ne_true (hadmin.symm.trans hpend)
  · rename_i hcalm
    refine h.drainWords _ 0 fun _ hpend => h.outstanding_nil ?_
    exact (by simpa [hpend] using hcalm : s.flushesReady = false ∧ s.flushesInFlight = false).2

end Inv

end BridgeVm.Nvme
