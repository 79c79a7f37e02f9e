import BridgeVm.Nvme.Commands

/-!
# Executing admin commands

Admin commands run while nothing is in flight. Those that create and delete queues change one I/O queue (`addCq`,
`addSq`, `removeSq`, `removeCq`); the others change no queue at all.
-/

namespace BridgeVm.Nvme

open Lib Sys

variable {acked : Prop} {s s' : Sys} {c : Fetched} {ctrl : NvmeController} {qid i : Nat} {sq : SubmissionQueue}
  {cq : CompletionQueue} {cmd : SubmissionEntry}

/-! ## Creating and deleting I/O queues -/

/-- A submission queue as it is created. -/
structure SqNew (ctrl : NvmeController) (sq : SubmissionQueue) : Prop where
  headZero : sq.head = 0
  tailZero : sq.tailDoorbell = 0
  sizePos : 0 < sq.size
  bornNow : sq.born = ctrl.births

/-- A completion queue as it is created. -/
structure CqNew (ctrl : NvmeController) (cq : CompletionQueue) : Prop where
  headZero : cq.head = 0
  tailZero : cq.tail = 0
  sizePos : 0 < cq.size
  bornNow : cq.born = ctrl.births
  unreadZero : cq.unread = 0

/-- The submission queue a command creates, in a free I/O slot, on an installed completion queue. -/
structure SqCreated (ctrl : NvmeController) (cmd : SubmissionEntry) (sq : SubmissionQueue) :
    Prop extends SqNew ctrl sq where
  qid : cmd.cdw10 &&& 0xffff ≠ 0
  within : cmd.cdw10 &&& 0xffff ≤ ctrl.maxIoQueues
  free : slot ctrl.sqs (cmd.cdw10 &&& 0xffff) = none
  base : sq.base = cmd.prp1
  size : 2 ≤ sq.size ∧ sq.size ≤ maxQueueEntries
  target : (slot ctrl.cqs sq.cqid).isSome

/-- The completion queue a command creates, in a free I/O slot. -/
structure CqCreated (ctrl : NvmeController) (cmd : SubmissionEntry) (cq : CompletionQueue) :
    Prop extends CqNew ctrl cq where
  qid : cmd.cdw10 &&& 0xffff ≠ 0
  within : cmd.cdw10 &&& 0xffff ≤ ctrl.maxIoQueues
  free : slot ctrl.cqs (cmd.cdw10 &&& 0xffff) = none
  base : cq.base = cmd.prp1
  size : 2 ≤ cq.size ∧ cq.size ≤ maxQueueEntries

namespace NvmeController

def addCq (ctrl : NvmeController) (qid : Nat) (cq : CompletionQueue) : NvmeController :=
  { ctrl with cqs := putSlot ctrl.cqs qid cq, births := ctrl.births + 1 }

def addSq (ctrl : NvmeController) (qid : Nat) (sq : SubmissionQueue) : NvmeController :=
  { ctrl with sqs := putSlot ctrl.sqs qid sq, births := ctrl.births + 1 }.clearSqPending qid

def removeSq (ctrl : NvmeController) (qid : Nat) : NvmeController :=
  { ctrl with sqs := clearSlot ctrl.sqs qid }.clearSqPending qid

def removeCq (ctrl : NvmeController) (qid : Nat) : NvmeController := { ctrl with cqs := clearSlot ctrl.cqs qid }

theorem ioQueueSize_cases (cmd : SubmissionEntry) :
    (∃ status, status ≠ scSuccess ∧ ioQueueSize cmd = .error status) ∨
      ∃ size, (2 ≤ size ∧ size ≤ maxQueueEntries) ∧ ioQueueSize cmd = .ok size := by
  unfold ioQueueSize
  dsimp only
  split
  · exact .inl ⟨_, by decide, rfl⟩
  · rename_i hrange
    obtain ⟨hzero, hmax⟩ := not_or.1 hrange
    split
    · exact .inl ⟨_, by decide, rfl⟩
    · exact .inr ⟨_, ⟨by omega, by omega⟩, rfl⟩

/-- CREATE I/O COMPLETION QUEUE is refused, or puts a new queue in an empty I/O slot. -/
theorem adminCreateIoCq_cases (ctrl : NvmeController) (cmd : SubmissionEntry) :
    (∃ status, status ≠ scSuccess ∧ ctrl.adminCreateIoCq cmd = (status, ctrl)) ∨
    ∃ cq, CqCreated ctrl cmd cq ∧ ctrl.adminCreateIoCq cmd = (scSuccess, ctrl.addCq (cmd.cdw10 &&& 0xffff) cq) := by
  unfold adminCreateIoCq
  dsimp only
  split
  · exact .inl ⟨_, by decide, rfl⟩
  · rename_i hqid
    obtain ⟨hqid, hle⟩ := not_or.1 hqid
    obtain ⟨status, hstatus, hsize⟩ | ⟨size, hrange, hsize⟩ := ioQueueSize_cases cmd
    · rw [hsize]
      exact .inl ⟨status, hstatus, rfl⟩
    · rw [hsize]
      dsimp only
      split
      · exact .inl ⟨_, by decide, rfl⟩
      · split
        · exact .inl ⟨_, by decide, rfl⟩
        · rename_i hslot
          have hpos : 0 < size := Nat.lt_of_lt_of_le Nat.zero_lt_two hrange.1
          exact .inr ⟨_, ⟨⟨rfl, rfl, hpos, rfl, rfl⟩, hqid,
            Nat.le_of_not_lt hle, by simpa using hslot, rfl, hrange⟩, rfl⟩

/-- CREATE I/O SUBMISSION QUEUE is refused, or puts a new queue in an empty I/O slot, on an installed completion
queue. -/
theorem adminCreateIoSq_cases (ctrl : NvmeController) (cmd : SubmissionEntry) :
    (∃ status, status ≠ scSuccess ∧ ctrl.adminCreateIoSq cmd = (status, ctrl)) ∨
    ∃ sq, SqCreated ctrl cmd sq ∧ ctrl.adminCreateIoSq cmd = (scSuccess, ctrl.addSq (cmd.cdw10 &&& 0xffff) sq) := by
  unfold adminCreateIoSq
  dsimp only
  split
  · exact .inl ⟨_, by decide, rfl⟩
  · rename_i hqid
    obtain ⟨hqid, hle⟩ := not_or.1 hqid
    obtain ⟨status, hstatus, hsize⟩ | ⟨size, hrange, hsize⟩ := ioQueueSize_cases cmd
    · rw [hsize]
      exact .inl ⟨status, hstatus, rfl⟩
    · rw [hsize]
      dsimp only
      split
      · exact .inl ⟨_, by decide, rfl⟩
      · rename_i htarget
        split
        · exact .inl ⟨_, by decide, rfl⟩
        · rename_i hslot
          obtain ⟨-, hslot⟩ := not_or.1 hslot
          have hpos : 0 < size := Nat.lt_of_lt_of_le Nat.zero_lt_two hrange.1
          exact .inr ⟨_, ⟨⟨rfl, rfl, hpos, rfl⟩, hqid, Nat.le_of_not_lt hle, by simpa using hslot, rfl, hrange,
            by simpa [Option.isSome_iff_ne_none] using htarget⟩, rfl⟩

/-- A deletion is refused, or empties one I/O slot; a completion queue goes only when no submission queue uses it. -/
theorem adminDeleteIoQueue_cases (ctrl : NvmeController) (cmd : SubmissionEntry) :
    (∃ status, status ≠ scSuccess ∧ ctrl.adminDeleteIoQueue cmd = (status, ctrl)) ∨
    cmd.cdw10 &&& 0xffff ≠ 0 ∧ cmd.opcode = adminOpDeleteIoSq ∧
      ctrl.adminDeleteIoQueue cmd = (scSuccess, ctrl.removeSq (cmd.cdw10 &&& 0xffff)) ∨
    cmd.cdw10 &&& 0xffff ≠ 0 ∧ (∀ i sq, slot ctrl.sqs i = some sq → sq.cqid ≠ cmd.cdw10 &&& 0xffff) ∧
      ctrl.adminDeleteIoQueue cmd = (scSuccess, ctrl.removeCq (cmd.cdw10 &&& 0xffff)) := by
  unfold adminDeleteIoQueue
  dsimp only
  split
  · exact .inl ⟨_, by decide, rfl⟩
  · rename_i hqid
    split
    · rename_i hopcode
      split
      · exact .inl ⟨_, by decide, rfl⟩
      · exact .inr (.inl ⟨hqid, hopcode, rfl⟩)
    · split
      · split
        · exact .inl ⟨_, by decide, rfl⟩
        · split
          · exact .inl ⟨_, by decide, rfl⟩
          · rename_i huse
            refine .inr (.inr ⟨hqid, fun i sq hsq heq => huse ?_, rfl⟩)
            exact List.any_eq_true.2 ⟨some sq, slot_mem hsq, by simpa using heq⟩
      · exact .inl ⟨_, by decide, rfl⟩

theorem sqPending_clearSqPending (ctrl : NvmeController) (qid i : Nat) :
    (ctrl.clearSqPending qid).sqPending i = (ctrl.sqPending i && !decide (i = qid)) := bitAt_clear qid i

end NvmeController

namespace QueuesOk

open NvmeController

theorem addCq (h : QueuesOk ctrl) (hon : ctrl.enabled = true) (hqid : qid ≤ ctrl.maxIoQueues) (hnew : CqNew ctrl cq) :
    QueuesOk (ctrl.addCq qid cq) where
  sqs i sq hsq := by
    obtain ⟨hhead, htail, hborn, hle, hadmin, hpend⟩ := h.sqs i sq hsq
    exact ⟨hhead, htail, Nat.lt_succ_of_lt hborn, hle, hadmin, hpend⟩
  cqs i cq' hcq' := by
    change slot (putSlot ctrl.cqs qid cq) i = some cq' at hcq'
    rw [slot_putSlot] at hcq'
    split at hcq'
    · rename_i hi
      cases hcq'
      refine ⟨?_, ?_, ?_, ?_⟩
      · rw [hnew.headZero]
        exact hnew.sizePos
      · rw [hnew.tailZero]
        exact hnew.sizePos
      · rw [hnew.bornNow]
        exact Nat.lt_succ_self _
      · rw [hi, ← h.maxIoQueues]
        exact hqid
    · obtain ⟨hhead, htail, hborn, hle⟩ := h.cqs i cq' hcq'
      exact ⟨hhead, htail, Nat.lt_succ_of_lt hborn, hle⟩
  off hoff := by
    rw [show (ctrl.addCq qid cq).enabled = ctrl.enabled from rfl, hon] at hoff
    cases hoff
  maxIoQueues := h.maxIoQueues

theorem addSq (h : QueuesOk ctrl) (hon : ctrl.enabled = true) (hadmin : qid ≠ 0) (hqid : qid ≤ ctrl.maxIoQueues)
    (hnew : SqNew ctrl sq) : QueuesOk (ctrl.addSq qid sq) where
  sqs i sq' hsq' := by
    change slot (putSlot ctrl.sqs qid sq) i = some sq' at hsq'
    rw [slot_putSlot] at hsq'
    split at hsq'
    · rename_i hi
      cases hsq'
      refine ⟨?_, ?_, ?_, ?_, fun hzero => absurd (hi.symm.trans hzero) hadmin, fun hwork => ?_⟩
      · rw [hnew.headZero]
        exact hnew.sizePos
      · rw [hnew.tailZero]
        exact hnew.sizePos
      · rw [hnew.bornNow]
        exact Nat.lt_succ_self _
      · rw [hi, ← h.maxIoQueues]
        exact hqid
      · exact absurd (hnew.headZero.trans hnew.tailZero.symm) hwork
    · rename_i hi
      obtain ⟨hhead, htail, hborn, hle, hzero, hpend⟩ := h.sqs i sq' hsq'
      refine ⟨hhead, htail, Nat.lt_succ_of_lt hborn, hle, hzero, fun hwork => ?_⟩
      rw [NvmeController.addSq, sqPending_clearSqPending, Bool.and_eq_true]
      exact ⟨hpend hwork, by simpa using hi⟩
  cqs i cq hcq := by
    obtain ⟨hhead, htail, hborn, hle⟩ := h.cqs i cq hcq
    exact ⟨hhead, htail, Nat.lt_succ_of_lt hborn, hle⟩
  off hoff := by
    rw [show (ctrl.addSq qid sq).enabled = ctrl.enabled from rfl, hon] at hoff
    cases hoff
  maxIoQueues := h.maxIoQueues

theorem removeSq (h : QueuesOk ctrl) (qid : Nat) : QueuesOk (ctrl.removeSq qid) where
  sqs i sq hsq := by
    change slot (clearSlot ctrl.sqs qid) i = some sq at hsq
    rw [slot_clearSlot] at hsq
    split at hsq
    · cases hsq
    · rename_i hi
      obtain ⟨hhead, htail, hborn, hle, hzero, hpend⟩ := h.sqs i sq hsq
      refine ⟨hhead, htail, hborn, hle, hzero, fun hwork => ?_⟩
      rw [NvmeController.removeSq, sqPending_clearSqPending, Bool.and_eq_true]
      exact ⟨hpend hwork, by simpa using hi⟩
  cqs i cq hcq := by
    obtain ⟨hhead, htail, hborn, hle⟩ := h.cqs i cq hcq
    exact ⟨hhead, htail, hborn, hle⟩
  off hoff i := by
    refine ⟨?_, (h.off hoff i).2⟩
    show slot (clearSlot ctrl.sqs qid) i = none
    rw [slot_clearSlot, (h.off hoff i).1, ite_self]
  maxIoQueues := h.maxIoQueues

theorem removeCq (h : QueuesOk ctrl) (qid : Nat) : QueuesOk (ctrl.removeCq qid) where
  sqs i sq hsq := by
    obtain ⟨hhead, htail, hborn, hle, hzero, hpend⟩ := h.sqs i sq hsq
    exact ⟨hhead, htail, hborn, hle, hzero, hpend⟩
  cqs i cq hcq := by
    change slot (clearSlot ctrl.cqs qid) i = some cq at hcq
    rw [slot_clearSlot] at hcq
    split at hcq
    · cases hcq
    · obtain ⟨hhead, htail, hborn, hle⟩ := h.cqs i cq hcq
      exact ⟨hhead, htail, hborn, hle⟩
  off hoff i := by
    refine ⟨(h.off hoff i).1, ?_⟩
    show slot (clearSlot ctrl.cqs qid) i = none
    rw [slot_clearSlot, (h.off hoff i).2, ite_self]
  maxIoQueues := h.maxIoQueues

end QueuesOk

/-! ## What an admin command does -/

namespace Sys

/-- The steps of admin commands. -/
inductive AdminStep (s : Sys) : Sys → Prop
  | kept {s' : Sys} (h : Kept s s') : AdminStep s s'
  | addCq (qid : Nat) (cq : CompletionQueue) (hqid : qid ≠ 0) (hle : qid ≤ s.ctrl.maxIoQueues)
      (hnone : slot s.ctrl.cqs qid = none) (hnew : CqNew s.ctrl cq) :
      AdminStep s { s with ctrl := s.ctrl.addCq qid cq, log := .cqInstalled cq.base cq.size :: s.log }
  | addSq (qid : Nat) (sq : SubmissionQueue) (hqid : qid ≠ 0) (hle : qid ≤ s.ctrl.maxIoQueues)
      (hnone : slot s.ctrl.sqs qid = none) (hnew : SqNew s.ctrl sq) : AdminStep s { s with ctrl := s.ctrl.addSq qid sq }
  | removeSq (qid : Nat) (hqid : qid ≠ 0) : AdminStep s { s with ctrl := s.ctrl.removeSq qid }
  | removeCq (qid : Nat) (hqid : qid ≠ 0) (hunused : ∀ i sq, slot s.ctrl.sqs i = some sq → sq.cqid ≠ qid) :
      AdminStep s { s with ctrl := s.ctrl.removeCq qid }

theorem adminCreateIoCq_step (s : Sys) (cmd : SubmissionEntry) : AdminStep s (s.adminCreateIoCq cmd).2 := by
  unfold adminCreateIoCq onCtrl
  dsimp only
  obtain ⟨status, hfail, heq⟩ | ⟨cq, hcq, heq⟩ := s.ctrl.adminCreateIoCq_cases cmd
  · rw [heq]
    dsimp only
    rw [if_neg hfail]
    exact .kept (.refl s)
  · rw [heq]
    dsimp only
    rw [if_pos rfl, NvmeController.addCq, slot_putSlot, if_pos rfl]
    exact .addCq _ cq hcq.qid hcq.within hcq.free hcq.toCqNew

theorem adminCreateIoSq_step (s : Sys) (cmd : SubmissionEntry) :
    AdminStep s (s.onCtrl fun c => c.adminCreateIoSq cmd).2 := by
  unfold onCtrl
  dsimp only
  obtain ⟨status, -, heq⟩ | ⟨sq, hsq, heq⟩ := s.ctrl.adminCreateIoSq_cases cmd
  · rw [heq]
    exact .kept (.refl s)
  · rw [heq]
    exact .addSq _ sq hsq.qid hsq.within hsq.free hsq.toSqNew

theorem adminDeleteIoQueue_step (s : Sys) (cmd : SubmissionEntry) :
    AdminStep s (s.onCtrl fun c => c.adminDeleteIoQueue cmd).2 := by
  unfold onCtrl
  dsimp only
  obtain ⟨status, -, heq⟩ | ⟨hqid, -, heq⟩ | ⟨hqid, hunused, heq⟩ := s.ctrl.adminDeleteIoQueue_cases cmd
  · rw [heq]
    exact .kept (.refl s)
  · rw [heq]
    exact .removeSq _ hqid
  · rw [heq]
    exact .removeCq _ hqid hunused

theorem setFeatureResult_kept (s : Sys) (value : Nat) : Kept s (s.setFeatureResult value) :=
  ⟨⟨rfl, rfl, rfl, rfl, rfl, rfl, rfl, rfl⟩, rfl, rfl, .refl _, rfl, .refl _⟩

theorem adminSetFeatures_kept (s : Sys) (cmd : SubmissionEntry) : Kept s (s.adminSetFeatures cmd).2 := by
  unfold adminSetFeatures
  dsimp only
  split
  · exact setFeatureResult_kept s _
  · split
    · have hset : Kept s { s with ctrl :=
        { s.ctrl with volatileWriteCacheEnabled := decide (cmd.cdw11 &&& 1 ≠ 0) } } :=
        ⟨⟨rfl, rfl, rfl, rfl, rfl, rfl, rfl, rfl⟩, rfl, rfl, .refl _, rfl, .refl _⟩
      split
      · exact hset
      · exact hset.trans (onPath_kept _ fun d => d.flushAllNamespaces_backing)
    · exact .refl s

theorem adminGetFeatures_kept (s : Sys) (cmd : SubmissionEntry) : Kept s (s.adminGetFeatures cmd).2 := by
  unfold adminGetFeatures
  dsimp only
  split
  · cases featureCapabilities (cmd.cdw10 &&& 0xff) with
    | none => exact .refl s
    | some capabilities => exact setFeatureResult_kept s _
  · split
    · exact setFeatureResult_kept s _
    · split
      · exact setFeatureResult_kept s _
      · split
        · exact setFeatureResult_kept s _
        · split
          · exact setFeatureResult_kept s _
          · split
            · have hpath := onPath_kept s fun d => d.writeApstTable_backing cmd
              split
              · exact hpath.trans (setFeatureResult_kept _ _)
              · exact hpath
            · exact .refl s

theorem adminAsyncEventRequest_kept (s : Sys) : Kept s { s with ctrl := s.ctrl.adminAsyncEventRequest.2 } := by
  unfold NvmeController.adminAsyncEventRequest
  split
  · exact .refl s
  · exact ⟨⟨rfl, rfl, rfl, rfl, rfl, rfl, rfl, rfl⟩, rfl, rfl, .refl _, rfl, .refl _⟩

/-- What an admin command runs. -/
inductive AdminRuns (s : Sys) (cmd : SubmissionEntry) : Sys → Prop
  | path {f : DataPath → Nat × DataPath} (hback : ∀ d : DataPath, d.SameBacking (f d).2) : AdminRuns s cmd
    (s.onPath f).2
  | createCq : AdminRuns s cmd (s.adminCreateIoCq cmd).2
  | createSq : AdminRuns s cmd (s.onCtrl fun c => c.adminCreateIoSq cmd).2
  | deleteQueue : AdminRuns s cmd (s.onCtrl fun c => c.adminDeleteIoQueue cmd).2
  | setFeatures : AdminRuns s cmd (s.adminSetFeatures cmd).2
  | getFeatures : AdminRuns s cmd (s.adminGetFeatures cmd).2
  | asyncEvent : AdminRuns s cmd { s with ctrl := s.ctrl.adminAsyncEventRequest.2 }
  | refused : AdminRuns s cmd s

theorem executeAdmin_runs (s : Sys) (cmd : SubmissionEntry) : AdminRuns s cmd (s.executeAdmin cmd).2 := by
  unfold executeAdmin
  dsimp only
  by_cases hop : cmd.opcode = adminOpIdentify
  · rw [if_pos hop]
    exact .path fun d => d.adminIdentify_backing cmd
  rw [if_neg hop]
  by_cases hop : cmd.opcode = adminOpGetLogPage
  · rw [if_pos hop]
    exact .path fun d => d.adminGetLogPage_backing cmd
  rw [if_neg hop]
  by_cases hop : cmd.opcode = adminOpCreateIoCq
  · rw [if_pos hop]
    exact .createCq
  rw [if_neg hop]
  by_cases hop : cmd.opcode = adminOpCreateIoSq
  · rw [if_pos hop]
    exact .createSq
  rw [if_neg hop]
  by_cases hop : cmd.opcode = adminOpSetFeatures
  · rw [if_pos hop]
    exact .setFeatures
  rw [if_neg hop]
  by_cases hop : cmd.opcode = adminOpGetFeatures
  · rw [if_pos hop]
    exact .getFeatures
  rw [if_neg hop]
  by_cases hop : cmd.opcode = adminOpAsyncEventRequest
  · rw [if_pos hop]
    exact .asyncEvent
  rw [if_neg hop]
  by_cases hop : cmd.opcode = adminOpSecuritySend
  · rw [if_pos hop]
    exact .refused
  rw [if_neg hop]
  by_cases hop : cmd.opcode = adminOpSecurityRecv
  · rw [if_pos hop]
    exact .path fun d => d.adminSecurityReceive_backing cmd
  rw [if_neg hop]
  by_cases hop : cmd.opcode = adminOpDeleteIoSq ∨ cmd.opcode = adminOpDeleteIoCq
  · rw [if_pos hop]
    exact .deleteQueue
  rw [if_neg hop]
  exact .refused

theorem executeAdmin_step (s : Sys) (cmd : SubmissionEntry) : AdminStep s (s.executeAdmin cmd).2 := by
  have hruns := executeAdmin_runs s cmd
  generalize (s.executeAdmin cmd).2 = s' at hruns ⊢
  cases hruns with
  | path hback => exact .kept (onPath_kept s hback)
  | createCq => exact adminCreateIoCq_step s cmd
  | createSq => exact adminCreateIoSq_step s cmd
  | deleteQueue => exact adminDeleteIoQueue_step s cmd
  | setFeatures => exact .kept (adminSetFeatures_kept s cmd)
  | getFeatures => exact .kept (adminGetFeatures_kept s cmd)
  | asyncEvent => exact .kept (adminAsyncEventRequest_kept s)
  | refused => exact .kept (.refl s)

end Sys

/-! ## Admin commands keep the invariant -/

/-- An admin command in the hand, and nothing in flight. -/
structure AdminInv (acked : Prop) (s : Sys) (c : Fetched) : Prop where
  inv : Inv acked s [c]
  admin : c.sqid = 0
  idle : s.outstanding = []

namespace AdminInv

theorem liveHand (h : AdminInv acked s c) : Live s.ctrl c := h.inv.live c (List.mem_append_right _ List.mem_cons_self)

theorem cqid (h : AdminInv acked s c) : c.cqid = 0 := by
  obtain ⟨sq, hsq, -, hcqid⟩ := h.liveHand.sq
  exact hcqid.symm.trans ((h.inv.queues.sqs _ sq hsq).admin h.admin)

theorem on (h : AdminInv acked s c) : s.ctrl.enabled = true := by
  obtain ⟨sq, hsq, -⟩ := h.liveHand.sq
  cases hon : s.ctrl.enabled with
  | true => rfl
  | false =>
    rw [(h.inv.queues.off hon _).1] at hsq
    cases hsq

theorem kept (h : AdminInv acked s c) (hk : Kept s s') : AdminInv acked s' c := by
  refine ⟨h.inv.kept hk, h.admin, ?_⟩
  have hout := hk.outstanding
  rw [h.idle] at hout
  exact List.perm_nil.1 hout

/-- I/O queues come and go while the admin queues stay. -/
theorem requeued {ctrl' : NvmeController} {log' : List Event} (h : AdminInv acked s c)
    (hworker : ctrl'.flushWorker = s.ctrl.flushWorker) (hreserved : ctrl'.flushReserved = s.ctrl.flushReserved)
    (hfetches : ctrl'.fetches = s.ctrl.fetches) (hlog : InstalledOne s.log log') (hqueues : QueuesOk ctrl')
    (hsq : slot ctrl'.sqs 0 = slot s.ctrl.sqs 0) (hcq : slot ctrl'.cqs 0 = slot s.ctrl.cqs 0)
    (hcqs : ∀ qid cq, slot ctrl'.cqs qid = some cq → slot s.ctrl.cqs qid = some cq ∨
      qid ≠ 0 ∧ .cqInstalled cq.base cq.size ∈ log' ∧ CqNew s.ctrl cq) :
    AdminInv acked { s with ctrl := ctrl', log := log' } c := by
  have hout : Sys.outstanding { s with ctrl := ctrl', log := log' } = s.outstanding := by
    rw [outstanding, outstanding, inbox, inbox]
    show _ ++ (ctrl'.flushWorker.finished.map _ ++ (ctrl'.flushWorker.io.map _ ++ _)) = _
    rw [hworker]
  refine ⟨h.inv.requeued hlog hout (congrArg _ hworker) hreserved hfetches (.refl _) hqueues ?_ ?_ ?_, h.admin,
    hout.trans h.idle⟩
  · intro c' hc'
    rw [h.idle] at hc'
    cases List.mem_singleton.1 hc'
    obtain ⟨hsqLive, hcqLive, hid⟩ := h.liveHand
    rw [h.admin] at hsqLive
    rw [h.cqid] at hcqLive
    refine ⟨?_, ?_, hid⟩
    · rw [h.admin, hsq]
      exact hsqLive
    · rw [h.cqid, hcq]
      exact hcqLive
  · intro qid cq hinstalled
    rcases hcqs qid cq hinstalled with hold | ⟨-, hring, -⟩
    · exact hlog.mem (h.inv.installed qid cq hold)
    · exact hring
  · intro hacked qid cq hinstalled
    rcases hcqs qid cq hinstalled with hold | ⟨hqid, -, hnew⟩
    · exact h.inv.rings hacked qid cq hold
    · have hnone : toQueue s.outstanding qid + toQueue [c] qid = 0 := by
        rw [h.idle, Inv.toQueue_cons, h.cqid, if_neg (Ne.symm hqid)]
        rfl
      rw [hnone]
      refine ⟨?_, ?_⟩
      · rw [hnew.unreadZero, hnew.headZero, hnew.tailZero, ringDist_self hnew.sizePos]
      · rw [hnew.unreadZero]
        exact hnew.sizePos

theorem step (h : AdminInv acked s c) (hstep : AdminStep s s') : AdminInv acked s' c := by
  cases hstep with
  | kept hk => exact h.kept hk
  | addCq qid cq hqid hle hnone hnew =>
    refine h.requeued rfl rfl rfl (.inr ⟨_, _, rfl⟩) (h.inv.queues.addCq h.on hle hnew) rfl ?_ fun i cq' hcq' => ?_
    · exact (slot_putSlot _ _ _ _).trans (if_neg (Ne.symm hqid))
    · change slot (putSlot s.ctrl.cqs qid cq) i = some cq' at hcq'
      rw [slot_putSlot] at hcq'
      split at hcq'
      · rename_i hi
        cases hcq'
        exact .inr ⟨hi ▸ hqid, List.mem_cons_self, hnew⟩
      · exact .inl hcq'
  | addSq qid sq hqid hle hnone hnew =>
    refine h.requeued rfl rfl rfl (.inl rfl) (h.inv.queues.addSq h.on hqid hle hnew) ?_ rfl fun i cq hcq => .inl hcq
    exact (slot_putSlot _ _ _ _).trans (if_neg (Ne.symm hqid))
  | removeSq qid hqid =>
    refine h.requeued rfl rfl rfl (.inl rfl) (h.inv.queues.removeSq qid) ?_ rfl fun i cq hcq => .inl hcq
    exact (slot_clearSlot _ _ _).trans (if_neg (Ne.symm hqid))
  | removeCq qid hqid hunused =>
    refine h.requeued rfl rfl rfl (.inl rfl) (h.inv.queues.removeCq qid) rfl ?_ fun i cq hcq => .inl ?_
    · exact (slot_clearSlot _ _ _).trans (if_neg (Ne.symm hqid))
    · change slot (clearSlot s.ctrl.cqs qid) i = some cq at hcq
      rw [slot_clearSlot] at hcq
      split at hcq
      · cases hcq
      · exact hcq

theorem executeAdmin (h : AdminInv acked s c) : AdminInv acked (s.executeAdmin c.cmd).2 c :=
  h.step (executeAdmin_step s c.cmd)

end AdminInv

end BridgeVm.Nvme
