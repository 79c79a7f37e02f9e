import BridgeVm.Nvme.ExactlyOnce
import Mathlib.Logic.Relation

/-!
# The queues of the controller, step by step

- `RingStep`: all that ever happens to the queues; each operation is a run of such steps (`RingRun.step`);
- so the queue graph stays closed: a submission queue completes to a live completion queue, and every queue has its size
  and its indices in range (`reached_wired`, `queue_graph_stays_closed`).
-/

namespace BridgeVm.Nvme

open Lib Sys
open NvmeController (ioQueueSize)
open Relation (ReflTransGen)

/-! ## Steps -/

/-- The queues of a controller, and where its next admin queues will be. -/
structure Rings where
  sqs : List (Option SubmissionQueue)
  cqs : List (Option CompletionQueue)
  asq : Nat
  acq : Nat

def Sys.rings (s : Sys) : Rings := ⟨s.ctrl.sqs, s.ctrl.cqs, s.ctrl.asq, s.ctrl.acq⟩

/-- A submission queue at `base` with nothing in it. -/
structure SqEmpty (base : Nat) (sq : SubmissionQueue) : Prop where
  head : sq.head = 0
  tail : sq.tailDoorbell = 0
  base : sq.base = base

structure CqEmpty (base : Nat) (cq : CompletionQueue) : Prop where
  head : cq.head = 0
  tail : cq.tail = 0
  base : cq.base = base

/-- The sizes an I/O queue is created with. -/
def IoSize (size : Nat) : Prop := 2 ≤ size ∧ size ≤ maxQueueEntries

/-- The sizes `AQA` gives an admin queue. -/
def AdminSize (size : Nat) : Prop := 1 ≤ size ∧ size ≤ 4096

/-- What happens to the queues, in a guest memory, with new rings at allowed places. -/
inductive RingStep (mem : GuestMemory) (place : Nat → Prop) (r : Rings) : Rings → Prop
  | fetch {qid : Nat} {sq : SubmissionQueue} (hsq : slot r.sqs qid = some sq)
      (hread : mem.readable (sq.base + sq.head * sqEntrySize) sqEntrySize = true) :
      RingStep mem place r { r with sqs := putSlot r.sqs qid (Inv.advanced sq) }
  | post {qid : Nat} {cq : CompletionQueue} (hcq : slot r.cqs qid = some cq)
      (hwrite : mem.writable (cq.base + cq.tail * cqEntrySize) cqEntrySize = true) :
      RingStep mem place r { r with cqs := putSlot r.cqs qid (CompletionQueue.posted cq) }
  | tailDoorbell {qid val : Nat} {sq : SubmissionQueue} (hsq : slot r.sqs qid = some sq) (hval : val < sq.size) :
      RingStep mem place r { r with sqs := putSlot r.sqs qid { sq with tailDoorbell := val } }
  | headDoorbell {qid val unread : Nat} {cq : CompletionQueue} (hcq : slot r.cqs qid = some cq) (hval : val < cq.size) :
      RingStep mem place r { r with cqs := putSlot r.cqs qid { cq with head := val, unread := unread } }
  | createSq {qid base : Nat} {sq : SubmissionQueue} (hqid : qid ≠ 0) (hempty : SqEmpty base sq) (hplace : place base)
      (hsize : IoSize sq.size) (htarget : (slot r.cqs sq.cqid).isSome) :
      RingStep mem place r { r with sqs := putSlot r.sqs qid sq }
  | createCq {qid base : Nat} {cq : CompletionQueue} (hqid : qid ≠ 0) (hempty : CqEmpty base cq) (hplace : place base)
      (hsize : IoSize cq.size) : RingStep mem place r { r with cqs := putSlot r.cqs qid cq }
  | deleteSq (qid : Nat) : RingStep mem place r { r with sqs := clearSlot r.sqs qid }
  | deleteCq {qid : Nat} (hunused : ∀ i sq, slot r.sqs i = some sq → sq.cqid ≠ qid) :
      RingStep mem place r { r with cqs := clearSlot r.cqs qid }
  | enable {sq : SubmissionQueue} {cq : CompletionQueue} (hsq : SqEmpty r.asq sq) (hcq : CqEmpty r.acq cq)
      (hsqSize : AdminSize sq.size) (hcqSize : AdminSize cq.size) (htarget : sq.cqid = 0) :
      RingStep mem place r { r with sqs := putSlot r.sqs 0 sq, cqs := putSlot r.cqs 0 cq }
  | drop : RingStep mem place r { r with sqs := [none], cqs := [none] }
  | adminBases {asq acq : Nat} (hasq : asq = r.asq ∨ place asq) (hacq : acq = r.acq ∨ place acq) :
      RingStep mem place r { r with asq := asq, acq := acq }

/-- Steps of the queues, in a guest memory that stays where it is. -/
structure RingRun (place : Nat → Prop) (s s' : Sys) : Prop where
  backing : s.path.SameBacking s'.path
  steps : ReflTransGen (RingStep s.path.mem place) s.rings s'.rings

variable {place : Nat → Prop} {s s' s₁ s₂ s₃ : Sys} {c : Fetched} {qid : Nat} {sq : SubmissionQueue}
  {r r' : Rings}

theorem RingStep.of_backing {mem mem' : GuestMemory} (hmem : mem.SameBacking mem') (h : RingStep mem' place r r') :
    RingStep mem place r r' := by
  cases h with
  | fetch hsq hread => exact .fetch hsq (hmem.1 ▸ hread)
  | post hcq hwrite => exact .post hcq (hmem.2 ▸ hwrite)
  | tailDoorbell hsq hval => exact .tailDoorbell hsq hval
  | headDoorbell hcq hval => exact .headDoorbell hcq hval
  | createSq hqid hempty hplace hsize htarget => exact .createSq hqid hempty hplace hsize htarget
  | createCq hqid hempty hplace hsize => exact .createCq hqid hempty hplace hsize
  | deleteSq qid => exact .deleteSq qid
  | deleteCq hunused => exact .deleteCq hunused
  | enable hsq hcq hsqSize hcqSize htarget => exact .enable hsq hcq hsqSize hcqSize htarget
  | drop => exact .drop
  | adminBases hasq hacq => exact .adminBases hasq hacq

/-! ## Where the next admin queues will be -/

/-- `ASQ`, `ACQ` and `AQA`. -/
def Sys.adminBases (s : Sys) : Nat × Nat × BitVec 32 := (s.ctrl.asq, s.ctrl.acq, s.ctrl.aqa)

theorem threadTurn_bases (s : Sys) (a : ThreadAction) : (s.threadTurn a).adminBases = s.adminBases := by
  cases a with
  | flushBatch n =>
    rcases flushBatch_cases s n with h | ⟨done, h, -⟩
    · rw [threadTurn, h]
    · rw [threadTurn, h]
      rfl
  | runIo i =>
    show (s.runIo i).adminBases = _
    unfold runIo
    split <;> rfl
  | dropIo i =>
    show (s.dropIo i).adminBases = _
    unfold dropIo
    split <;> rfl
  | guestStore gpa data => rfl

theorem foldl_bases {α : Type} {f : Sys → α → Sys} (hf : ∀ s a, (f s a).adminBases = s.adminBases)
    (l : List α) (s : Sys) :
    (l.foldl f s).adminBases = s.adminBases := by
  induction l generalizing s with
  | nil => rfl
  | cons a l ih => exact (ih _).trans (hf s a)

theorem othersTurn_bases (s : Sys) : s.othersTurn.adminBases = s.adminBases := foldl_bases threadTurn_bases _ _

theorem waitForFlushes_bases (s : Sys) : s.waitForFlushes.adminBases = s.adminBases := by
  have hbatch : ∀ (s : Sys) (n : Nat), (s.flushBatch n).adminBases = s.adminBases := fun s n =>
    threadTurn_bases s (.flushBatch n)
  have hrun : ∀ (s : Sys), (s.runIo 0).adminBases = s.adminBases := fun s => threadTurn_bases s (.runIo 0)
  unfold waitForFlushes settle
  exact (foldl_bases (fun s _ => hrun s) _ _).trans ((hbatch _ _).trans (othersTurn_bases _))

theorem deferFlush_bases (s : Sys) (c : Fetched) : (s.deferFlush c).2.adminBases = s.adminBases := by
  have hstart : s.startWorker.2.adminBases = s.adminBases := by
    unfold startWorker
    dsimp only
    split_ifs <;> rfl
  unfold Sys.deferFlush
  split
  · rfl
  · dsimp only
    split
    · rfl
    · cases hs : s.startWorker with
      | mk started s₁ =>
        rw [hs] at hstart
        cases started <;> exact hstart

theorem adminFeatures_bases (s : Sys) (cmd : SubmissionEntry) :
    (s.adminSetFeatures cmd).2.adminBases = s.adminBases ∧ (s.adminGetFeatures cmd).2.adminBases = s.adminBases := by
  constructor
  · unfold adminSetFeatures
    dsimp only
    split_ifs <;> rfl
  · unfold adminGetFeatures
    dsimp only
    split_ifs <;> first | rfl | (split <;> rfl)

theorem executeIo_bases (s : Sys) (cmd : SubmissionEntry) : (s.executeIo cmd).2.adminBases = s.adminBases := by
  unfold Sys.executeIo
  split_ifs <;> rfl

namespace RingRun

theorem refl (s : Sys) : RingRun place s s := ⟨.refl _, .refl⟩

theorem trans (h₁ : RingRun place s₁ s₂) (h₂ : RingRun place s₂ s₃) : RingRun place s₁ s₃ :=
  ⟨h₁.backing.trans h₂.backing,
    h₁.steps.trans (ReflTransGen.mono (fun _ _ => RingStep.of_backing h₁.backing) _ _ h₂.steps)⟩

theorem same (h : s'.rings = s.rings) (hback : s.path.SameBacking s'.path) : RingRun place s s' := by
  refine ⟨hback, ?_⟩
  rw [h]

theorem kept (h : Kept s s') (hbases : s'.adminBases = s.adminBases) : RingRun place s s' := by
  obtain ⟨hasq, hbases⟩ := Prod.mk.inj hbases
  obtain ⟨hacq, -⟩ := Prod.mk.inj hbases
  refine same ?_ h.backing
  rw [Sys.rings, Sys.rings, h.queues.sqs, h.queues.cqs, hasq, hacq]

theorem path {f : DataPath → Nat × DataPath} (s : Sys) (h : ∀ d : DataPath, d.SameBacking (f d).2) :
    RingRun place s (s.onPath f).2 := same rfl (h s.path)

theorem single (hback : s.path.SameBacking s'.path) (h : RingStep s.path.mem place s.rings s'.rings) :
    RingRun place s s' := ⟨hback, .single h⟩

/-! ## Commands -/

theorem deferFlush (s : Sys) (c : Fetched) : RingRun place s (s.deferFlush c).2 := by
  have hbases := deferFlush_bases s c
  obtain ⟨s', ⟨heq, hkept⟩ | ⟨s₁, jobs, job, heq, -, hkept, -, -, rfl⟩⟩ := deferFlush_cases s c
  · rw [heq] at hbases ⊢
    exact kept hkept hbases
  · rw [heq] at hbases ⊢
    exact (kept hkept hbases).trans (same rfl (.refl _))

theorem deferIo (s : Sys) (c : Fetched) : RingRun place s (s.deferIo c).2 := by
  obtain heq | ⟨job, heq, -⟩ := deferIo_cases s c
  · rw [heq]
    exact refl s
  · rw [heq]
    exact same rfl (.refl _)

theorem post (s : Sys) (c : Fetched) (status : Nat) : RingRun place s (s.postCompletion c status) := by
  unfold postCompletion
  dsimp only
  split
  · exact same rfl (.refl _)
  · rename_i cq hcq
    split
    · exact same rfl (.refl _)
    · rename_i mem hwrite
      unfold GuestMemory.writeBytes at hwrite
      split at hwrite
      · rename_i hwritable
        cases hwrite
        exact single ⟨rfl, rfl⟩ (.post hcq hwritable)
      · cases hwrite

theorem finishOne (s : Sys) (done : Finished) : RingRun place s (finishOne s done) := by
  have hcomplete : ∀ (s : Sys) (status : Nat), RingRun place s
      (if (slot s.ctrl.sqs done.job.fetched.sqid).isSome ∧ (slot s.ctrl.cqs done.job.fetched.cqid).isSome
        then s.postCompletion done.job.fetched status else s.record (.unposted done.job.fetched)) := by
    intro s status
    split
    · exact post s _ status
    · exact same rfl (.refl _)
  unfold Sys.finishOne
  dsimp only
  split
  · have hdefer : RingRun place s (s.deferFlush done.job.fetched).2 := deferFlush s done.job.fetched
    cases hd : s.deferFlush done.job.fetched with
    | mk deferred s₁ =>
      rw [hd] at hdefer
      cases deferred with
      | true => exact hdefer
      | false =>
        exact hdefer.trans ((path s₁ (fun d => d.ioFlush_backing done.job.fetched.cmd)).trans (hcomplete _ _))
  · exact hcomplete s done.status

theorem foldl {α : Type} {f : Sys → α → Sys} (hf : ∀ s a, RingRun place s (f s a)) (l : List α) (s : Sys) :
    RingRun place s (l.foldl f s) := by
  induction l generalizing s with
  | nil => exact refl s
  | cons a l ih => exact (hf s a).trans (ih _)

theorem waitForFlushes (s : Sys) : RingRun place s s.waitForFlushes :=
  kept (waitForFlushes_kept s) (waitForFlushes_bases s)

theorem takeFinished (s : Sys) (wait : Bool) : RingRun place s (s.takeFinished wait).2 := by
  have htake : ∀ s : Sys, RingRun place s s.take.2 := fun s => by
    obtain ⟨reserved, htake, -⟩ := take_eq s
    rw [htake]
    exact same rfl (.refl _)
  unfold Sys.takeFinished
  split
  · exact (waitForFlushes s).trans (htake _)
  · exact htake s

theorem discardFlushes (s : Sys) : RingRun place s s.discardFlushes := takeFinished s true

theorem completeFlushes (s : Sys) (wait : Bool) : RingRun place s (s.completeFlushes wait) := by
  have hpost : ∀ s : Sys, RingRun place s (s.postFinished wait) := fun s =>
    (takeFinished s wait).trans (foldl finishOne _ _)
  have hloop : ∀ (rounds : Nat) (s : Sys), RingRun place s (completeFlushesLoop wait rounds s) := by
    intro rounds
    induction rounds with
    | zero => exact refl
    | succ rounds ih =>
      intro s
      unfold completeFlushesLoop
      dsimp only
      split
      · exact hpost s
      · exact (hpost s).trans (ih _)
  exact hloop 2 s

end RingRun

/-! ## Admin commands -/

theorem SqCreated.empty {ctrl : NvmeController} {cmd : SubmissionEntry} (h : SqCreated ctrl cmd sq) :
    SqEmpty cmd.prp1 sq :=
  ⟨h.headZero, h.tailZero, h.base⟩

theorem CqCreated.empty {ctrl : NvmeController} {cmd : SubmissionEntry} {cq : CompletionQueue}
    (h : CqCreated ctrl cmd cq) : CqEmpty cmd.prp1 cq := ⟨h.headZero, h.tailZero, h.base⟩

namespace RingRun

theorem executeAdmin (hplace : place c.cmd.prp1) : RingRun place s (s.executeAdmin c.cmd).2 := by
  have hruns := executeAdmin_runs s c.cmd
  generalize (s.executeAdmin c.cmd).2 = s' at hruns ⊢
  cases hruns with
  | path hback => exact path s hback
  | createCq =>
    unfold Sys.adminCreateIoCq onCtrl
    dsimp only
    obtain ⟨status, hfail, heq⟩ | ⟨cq, hcq, heq⟩ := s.ctrl.adminCreateIoCq_cases c.cmd
    · rw [heq]
      dsimp only
      rw [if_neg hfail]
      exact refl s
    · rw [heq]
      dsimp only
      rw [if_pos rfl, NvmeController.addCq, slot_putSlot, if_pos rfl]
      exact single (.refl _) (.createCq hcq.qid hcq.empty hplace hcq.size)
  | createSq =>
    unfold onCtrl
    dsimp only
    obtain ⟨status, -, heq⟩ | ⟨sq, hsq, heq⟩ := s.ctrl.adminCreateIoSq_cases c.cmd
    · rw [heq]
      exact refl s
    · rw [heq]
      exact single (.refl _) (.createSq hsq.qid hsq.empty hplace hsq.size hsq.target)
  | deleteQueue =>
    unfold onCtrl
    dsimp only
    obtain ⟨status, -, heq⟩ | ⟨-, -, heq⟩ | ⟨-, hunused, heq⟩ := s.ctrl.adminDeleteIoQueue_cases c.cmd
    · rw [heq]
      exact refl s
    · rw [heq]
      exact single (.refl _) (.deleteSq _)
    · rw [heq]
      exact single (.refl _) (.deleteCq hunused)
  | setFeatures => exact kept (adminSetFeatures_kept s c.cmd) (adminFeatures_bases s c.cmd).1
  | getFeatures => exact kept (adminGetFeatures_kept s c.cmd) (adminFeatures_bases s c.cmd).2
  | asyncEvent =>
    unfold NvmeController.adminAsyncEventRequest
    split
    · exact same rfl (.refl _)
    · exact same rfl (.refl _)
  | refused => exact refl s

/-! ## Draining the queues -/

theorem executeSyncedWrite (s : Sys) (c : Fetched) : RingRun place s (s.executeSyncedWrite c).2 := by
  have hdata : RingRun place s (s.onPath fun d => d.ioWriteData c.cmd).2 :=
    path s (fun d => d.ioWriteData_backing c.cmd)
  unfold Sys.executeSyncedWrite
  cases hwrite : s.onPath fun d => d.ioWriteData c.cmd with
  | mk status s₁ =>
    rw [hwrite] at hdata
    dsimp only
    split
    · have hdefer : RingRun place s₁ (s₁.deferFlush c).2 := deferFlush s₁ c
      cases hd : s₁.deferFlush c with
      | mk deferred s₂ =>
        rw [hd] at hdefer
        cases deferred with
        | true => exact hdata.trans hdefer
        | false => exact hdata.trans (hdefer.trans (path s₂ (fun d => d.ioFlush_backing c.cmd)))
    · exact hdata

theorem execute (hplace : place c.cmd.prp1) : RingRun place s (s.execute c) := by
  unfold Sys.execute
  split
  · have hwrite : RingRun place s (s.executeSyncedWrite c).2 := executeSyncedWrite s c
    cases hw : s.executeSyncedWrite c with
    | mk status s' =>
      rw [hw] at hwrite
      cases status with
      | none => exact hwrite
      | some status => exact hwrite.trans (post s' c status)
  · split
    · have hadmin := executeAdmin (s := s) hplace
      cases hx : s.executeAdmin c.cmd with
      | mk result s' =>
        rw [hx] at hadmin
        dsimp only
        split
        · exact hadmin.trans (post s' c _)
        · exact hadmin.trans (same rfl (.refl _))
    · have hio : RingRun place s (s.executeIo c.cmd).2 := kept (executeIo_kept s c.cmd) (executeIo_bases s c.cmd)
      cases hx : s.executeIo c.cmd with
      | mk status s' =>
        rw [hx] at hio
        exact hio.trans (post s' c status)

theorem handle (hplace : place c.cmd.prp1) : RingRun place s (s.handle c) := by
  unfold Sys.handle
  have hflush : RingRun place s (if c.cmd.opcode = nvmOpFlush then s.deferFlush c else (false, s)).2 := by
    split
    · exact deferFlush s c
    · exact refl s
  cases hf : if c.cmd.opcode = nvmOpFlush then s.deferFlush c else (false, s) with
  | mk deferred s₁ =>
    rw [hf] at hflush
    cases deferred with
    | true => exact hflush
    | false =>
      have hio : RingRun place s₁ (if c.sqid ≠ 0 then s₁.deferIo c else (false, s₁)).2 := by
        split
        · exact deferIo s₁ c
        · exact refl s₁
      dsimp only
      cases hd : if c.sqid ≠ 0 then s₁.deferIo c else (false, s₁) with
      | mk deferred s₂ =>
        rw [hd] at hio
        cases deferred with
        | true => exact hflush.trans hio
        | false => exact hflush.trans (hio.trans (execute hplace))

theorem fetch {buf : List UInt8} (hnext : s.nextEntry qid = some (sq, buf)) :
    RingRun place s (s.fetch qid sq buf).2 := by
  unfold nextEntry at hnext
  obtain ⟨sq', hsq, hentry⟩ := Option.bind_eq_some_iff.1 hnext
  split at hentry
  · cases hentry
  · obtain ⟨bytes, hread, heq⟩ := Option.map_eq_some_iff.1 hentry
    cases heq
    refine single (.refl _) (.fetch hsq ?_)
    unfold GuestMemory.readBytes at hread
    split at hread
    · assumption
    · cases hread

theorem processSqLoop (hplace : ∀ buf, place (SubmissionEntry.fromBytes buf).prp1) (rounds : Nat) (s : Sys) :
    RingRun place s (Sys.processSqLoop qid rounds s) := by
  induction rounds generalizing s with
  | zero => exact refl s
  | succ rounds ih =>
    unfold Sys.processSqLoop
    cases hnext : s.nextEntry qid with
    | none => exact refl s
    | some next =>
      obtain ⟨sq, buf⟩ := next
      exact (fetch hnext).trans ((handle (hplace buf)).trans
        ((kept (othersTurn_kept _) (othersTurn_bases _)).trans (ih _)))

theorem drainQueue (hplace : ∀ buf, place (SubmissionEntry.fromBytes buf).prp1) (s : Sys) (qid : Nat) :
    RingRun place s (s.drainQueue qid) := by
  have hloop : RingRun place s (s.processSq qid) := processSqLoop hplace _ s
  unfold Sys.drainQueue
  dsimp only
  split
  · exact hloop
  · exact hloop.trans (same rfl (.refl _))

theorem drainWords (hplace : ∀ buf, place (SubmissionEntry.fromBytes buf).prp1) (words idx : Nat) (s : Sys) :
    RingRun place s (Sys.drainWords words idx s) := by
  induction words generalizing s idx with
  | zero => exact refl s
  | succ words ih =>
    unfold Sys.drainWords
    split
    · exact (foldl (fun s bit => drainQueue hplace s _) _ _).trans (ih _ _)
    · exact refl s

theorem processInto (hplace : ∀ buf, place (SubmissionEntry.fromBytes buf).prp1) (s : Sys) :
    RingRun place s s.processInto := by
  unfold Sys.processInto
  dsimp only
  split
  · exact (completeFlushes s _).trans (drainWords hplace _ _ _)
  · exact drainWords hplace _ _ _

end RingRun

/-- The places an operation may put rings at are allowed. -/
structure Places (place : Nat → Prop) (s : Sys) (op : Op) : Prop where
  entries : ∀ buf, place (SubmissionEntry.fromBytes buf).prp1
  zero : place 0
  registers : ∀ offset size value, op = .mmioWrite offset size value →
    (∀ high, place (mergeU64 s.ctrl.asq value size high)) ∧ ∀ high, place (mergeU64 s.ctrl.acq value size high)

/-! ## Registers and resets -/

namespace RingRun

variable {op : Op}

theorem installAdminQueues (s : Sys) : RingRun place s s.installAdminQueues := by
  have hfield : ∀ x : BitVec 32, (x &&& 0xfff).toNat + 1 ≤ 4096 := fun x => by
    have hle : (x &&& 0xfff).toNat ≤ 0xfff := by
      rw [BitVec.toNat_and]
      exact Nat.and_le_right
    omega
  refine single (.refl _) (.enable ⟨rfl, rfl, rfl⟩ ⟨rfl, rfl, rfl⟩ ⟨?_, hfield _⟩ ⟨?_, hfield _⟩ rfl)
  · exact Nat.succ_pos _
  · exact Nat.succ_pos _

theorem processShutdownNotification (s : Sys) (value : BitVec 32) :
    RingRun place s (s.processShutdownNotification value) := by
  unfold Sys.processShutdownNotification
  dsimp only
  split
  · exact refl s
  · exact (path s fun d => d.flushAllNamespaces_backing).trans (same rfl (.refl _))

theorem writeCc (s : Sys) (value : BitVec 32) : RingRun place s (s.writeCc value) := by
  have hwait : RingRun place s
      (if s.ctrl.enabled && !((value &&& ccEnBit) != 0) then s.discardFlushes else s.waitForFlushes) := by
    split
    · exact discardFlushes s
    · exact waitForFlushes s
  have htoggle : ∀ (s : Sys) (on off : Bool), RingRun place s
      (if on then s.installAdminQueues else if off then s.dropQueues else s) := by
    intro s on off
    split
    · exact installAdminQueues s
    · split
      · exact single (.refl _) .drop
      · exact refl s
  have hcc : ∀ s : Sys, RingRun place s { s with ctrl := { s.ctrl with cc := value } } := fun s => same rfl (.refl _)
  exact hwait.trans ((hcc _).trans ((htoggle _ _ _).trans (processShutdownNotification _ value)))

theorem writeDoorbell (s : Sys) (offset value : Nat) :
    RingRun place s { s with ctrl := s.ctrl.writeDoorbell offset value } := by
  unfold NvmeController.writeDoorbell
  dsimp only
  split
  · cases hcq : slot s.ctrl.cqs ((offset - NvmeController.regDoorbellBase) / 4 / 2) with
    | none => exact refl s
    | some cq =>
      dsimp only
      split
      · exact refl s
      · rename_i hval
        exact single (.refl _) (.headDoorbell hcq (Nat.lt_of_not_le hval))
  · cases hsq : slot s.ctrl.sqs ((offset - NvmeController.regDoorbellBase) / 4 / 2) with
    | none => exact refl s
    | some sq =>
      dsimp only
      split
      · exact refl s
      · rename_i hval
        split <;> exact single (.refl _) (.tailDoorbell hsq (Nat.lt_of_not_le hval))

/-- Registers take what is written to them. -/
theorem mmioWrite (offset size value : Nat) (hasq : ∀ high, place (mergeU64 s.ctrl.asq value size high))
    (hacq : ∀ high, place (mergeU64 s.ctrl.acq value size high)) : RingRun place s
      (s.mmioWrite offset size value) := by
  unfold Sys.mmioWrite
  dsimp only
  iterate 2
    split
    · exact same rfl (.refl _)
  split
  · exact writeCc s _
  split
  · exact same rfl (.refl _)
  iterate 2
    split
    · exact single (.refl _) (.adminBases (.inr (hasq _)) (.inl rfl))
  iterate 2
    split
    · exact single (.refl _) (.adminBases (.inl rfl) (.inr (hacq _)))
  split
  · exact writeDoorbell s offset value
  · exact refl s

theorem replaceController (hzero : place 0) (s : Sys) (disk : DiskBackend) (disk2 : Option DiskBackend) :
    RingRun place s (s.replaceController disk disk2) := by
  refine ⟨⟨rfl, rfl⟩, .head .drop (.single ?_)⟩
  exact .adminBases (.inr hzero) (.inr hzero)

theorem step (h : Places place s op) : RingRun place s (s.step op) := by
  obtain ⟨hplace, hzero, hmerge⟩ := h
  cases op with
  | mmioWrite offset size value =>
    exact mmioWrite offset size value (hmerge offset size value rfl).1 (hmerge offset size value rfl).2
  | process => exact processInto hplace s
  | completeFlushes wait => exact completeFlushes s wait
  | takeIo =>
    show RingRun place s s.takeIo
    unfold Sys.takeIo
    split <;> exact same rfl (.refl _)
  | thread a => exact kept (threadTurn_kept s a) (threadTurn_bases s a)
  | setAsyncFlush enabled => exact same rfl (.refl _)
  | setUnlockedIo enabled => exact same rfl (.refl _)
  | setDirectDmaEnabled enabled => exact same rfl (.refl _)
  | loadDisk disk =>
    show RingRun place s (s.loadDisk disk)
    unfold Sys.loadDisk
    cases disk with
    | none => exact (discardFlushes s).trans (same rfl (.refl _))
    | some disk => exact (discardFlushes s).trans (replaceController hzero _ _ _)
  | resetRegistersKeepDisks => exact (discardFlushes s).trans (replaceController hzero _ _ _)
  | attachSecondNamespace disk2 =>
    have hrestart : RingRun place s s.restartFlushWorker := (waitForFlushes s).trans (same rfl (.refl _))
    show RingRun place s (s.attachSecondNamespace disk2)
    unfold Sys.attachSecondNamespace
    cases disk2 with
    | none => exact hrestart
    | some disk2 => exact hrestart.trans (same rfl ⟨rfl, rfl⟩)
  | flushDisk => exact (waitForFlushes s).trans (same rfl (.refl _))

end RingRun

/-! ## The queue graph -/

/-- The size of a queue by its slot: slot 0 holds the admin queue. -/
def SizeOk (qid size : Nat) : Prop := if qid = 0 then AdminSize size else IoSize size

structure SqShape (qid : Nat) (sq : SubmissionQueue) : Prop where
  size : SizeOk qid sq.size
  head : sq.head < sq.size
  tail : sq.tailDoorbell < sq.size

structure CqShape (qid : Nat) (cq : CompletionQueue) : Prop where
  size : SizeOk qid cq.size
  head : cq.head < cq.size
  tail : cq.tail < cq.size

/-- Submission queues complete to live completion queues; sizes and indices are in range. -/
structure Wired (r : Rings) : Prop where
  target : ∀ i sq, slot r.sqs i = some sq → (slot r.cqs sq.cqid).isSome
  sqs : ∀ i sq, slot r.sqs i = some sq → SqShape i sq
  cqs : ∀ i cq, slot r.cqs i = some cq → CqShape i cq

theorem IoSize.ok {size : Nat} (h : IoSize size) (hqid : qid ≠ 0) : SizeOk qid size := by
  rw [SizeOk, if_neg hqid]
  exact h

theorem AdminSize.ok {size : Nat} (h : AdminSize size) : SizeOk 0 size := h

theorem SqEmpty.shape {base : Nat} (h : SqEmpty base sq) (hsize : SizeOk qid sq.size) (hpos : 0 < sq.size) :
    SqShape qid sq := ⟨hsize, by rw [h.head]; exact hpos, by rw [h.tail]; exact hpos⟩

theorem CqEmpty.shape {base : Nat} {cq : CompletionQueue} (h : CqEmpty base cq) (hsize : SizeOk qid cq.size)
    (hpos : 0 < cq.size) : CqShape qid cq := ⟨hsize, by rw [h.head]; exact hpos, by rw [h.tail]; exact hpos⟩

theorem Wired.putCq {cq : CompletionQueue} (h : Wired r) (hcq : CqShape qid cq) :
    Wired { r with cqs := putSlot r.cqs qid cq } :=
  ⟨fun i sq hsq => isSome_putSlot (h.target i sq hsq) _ _, h.sqs, forall_putSlot h.cqs hcq⟩

theorem Wired.putSq (h : Wired r) (hsq : SqShape qid sq) (htarget : (slot r.cqs sq.cqid).isSome) :
    Wired { r with sqs := putSlot r.sqs qid sq } :=
  ⟨forall_putSlot (P := fun _ (sq : SubmissionQueue) => (slot r.cqs sq.cqid).isSome) h.target htarget,
    forall_putSlot h.sqs hsq, h.cqs⟩

theorem wired_none (asq acq : Nat) : Wired ⟨[none], [none], asq, acq⟩ := by
  refine ⟨fun i sq hsq => ?_, fun i sq hsq => ?_, fun i cq hcq => ?_⟩
  · rw [slot_none] at hsq
    cases hsq
  · rw [slot_none] at hsq
    cases hsq
  · rw [slot_none] at hcq
    cases hcq

/-- One step keeps the graph closed. -/
theorem RingStep.wired {mem : GuestMemory} (h : RingStep mem place r r') (hw : Wired r) : Wired r' := by
  cases h with
  | fetch hsq hread =>
    obtain ⟨hsize, hhead, htail⟩ := hw.sqs _ _ hsq
    have htarget := hw.target _ _ hsq
    exact hw.putSq ⟨hsize, Nat.mod_lt _ (Nat.zero_lt_of_lt hhead), htail⟩ htarget
  | post hcq hwrite =>
    obtain ⟨hsize, hhead, htail⟩ := hw.cqs _ _ hcq
    exact hw.putCq ⟨hsize, hhead, Nat.mod_lt _ (Nat.zero_lt_of_lt hhead)⟩
  | tailDoorbell hsq hval =>
    obtain ⟨hsize, hhead, -⟩ := hw.sqs _ _ hsq
    have htarget := hw.target _ _ hsq
    exact hw.putSq ⟨hsize, hhead, hval⟩ htarget
  | headDoorbell hcq hval =>
    obtain ⟨hsize, -, htail⟩ := hw.cqs _ _ hcq
    exact hw.putCq ⟨hsize, hval, htail⟩
  | createSq hqid hempty hplace hsize htarget =>
    exact hw.putSq (hempty.shape (hsize.ok hqid) (Nat.zero_lt_of_lt hsize.1)) htarget
  | createCq hqid hempty hplace hsize => exact hw.putCq (hempty.shape (hsize.ok hqid) (Nat.zero_lt_of_lt hsize.1))
  | deleteSq qid =>
    exact ⟨forall_clearSlot (P := fun _ (sq : SubmissionQueue) => (slot r.cqs sq.cqid).isSome) hw.target qid,
      forall_clearSlot hw.sqs qid,
      hw.cqs⟩
  | deleteCq hunused =>
    refine ⟨fun i sq hsq => ?_, hw.sqs, forall_clearSlot hw.cqs _⟩
    -- no queue that stays completes to the one that goes
    show (slot (clearSlot r.cqs _) sq.cqid).isSome
    rw [slot_clearSlot, if_neg (hunused i sq hsq)]
    exact hw.target i sq hsq
  | enable hsq hcq hsqSize hcqSize htarget =>
    have hshape : CqShape 0 _ := hcq.shape hcqSize.ok hcqSize.1
    have hlive := hw.putCq hshape
    refine hlive.putSq (hsq.shape hsqSize.ok hsqSize.1) ?_
    rw [htarget, slot_putSlot, if_pos rfl]
    rfl
  | drop => exact wired_none _ _
  | adminBases hasq hacq => exact ⟨hw.target, hw.sqs, hw.cqs⟩

theorem Wired.steps {mem : GuestMemory} (h : ReflTransGen (RingStep mem place) r r') (hw : Wired r) : Wired r' := by
  induction h with
  | refl => exact hw
  | tail _ hstep ih => exact hstep.wired ih

/-- The queues of a snapshot, as new instances. -/
def Rings.reborn (r : Rings) (born : Nat) : Rings :=
  { r with
    sqs := r.sqs.map (Option.map fun sq => { sq with born := born })
    cqs := r.cqs.map (Option.map fun cq => { cq with born := born }) }

theorem restoreState_rings {t : Sys} (hs : s.restoreState t.snapshotState = some s') :
    ∃ born, s'.rings = t.rings.reborn born ∧ s.path.SameBacking s'.path := by
  have hdiscard : RingRun (fun _ => True) s s.discardFlushes := RingRun.discardFlushes s
  unfold Sys.restoreState at hs
  split at hs
  · cases hs
  · cases hs
    exact ⟨_, rfl, hdiscard.backing⟩

theorem Wired.reborn (h : Wired r) (born : Nat) : Wired (r.reborn born) := by
  have hsq : ∀ i sq, slot (r.reborn born).sqs i = some sq → ∃ old, slot r.sqs i = some old ∧
    sq = { old with born := born } := by
    intro i sq hsq
    obtain ⟨old, hold, rfl⟩ := Option.map_eq_some_iff.1 ((slot_map _ _ _).symm.trans hsq)
    exact ⟨old, hold, rfl⟩
  refine ⟨fun i sq hi => ?_, fun i sq hi => ?_, fun i cq hi => ?_⟩
  · obtain ⟨old, hold, rfl⟩ := hsq i sq hi
    show (slot (r.cqs.map _) old.cqid).isSome
    rw [slot_map, Option.isSome_map]
    exact h.target i old hold
  · obtain ⟨old, hold, rfl⟩ := hsq i sq hi
    exact ⟨(h.sqs i old hold).size, (h.sqs i old hold).head, (h.sqs i old hold).tail⟩
  · obtain ⟨old, hold, rfl⟩ := Option.map_eq_some_iff.1 ((slot_map _ _ _).symm.trans hi)
    exact ⟨(h.cqs i old hold).size, (h.cqs i old hold).head, (h.cqs i old hold).tail⟩

theorem places_any (s : Sys) (op : Op) : Places (fun _ => True) s op :=
  ⟨fun _ => trivial, trivial, fun _ _ _ _ => ⟨fun _ => trivial, fun _ => trivial⟩⟩

theorem reached_wired {ok : Sys → Op → Prop} (h : Reached ok s) : Wired s.rings := by
  induction h with
  | initial disk mem hostPtr host => exact wired_none 0 0
  | step _ op _ ih => exact ih.steps (RingRun.step (places_any _ op)).steps
  | restore _ _ hs _ iht =>
    obtain ⟨born, hrings, -⟩ := restoreState_rings hs
    rw [hrings]
    exact iht.reborn born

/-! ## Refused commands -/

/-- The commands that create and delete I/O queues. -/
def QueueCommand (cmd : SubmissionEntry) : Prop :=
  cmd.opcode = adminOpCreateIoCq ∨ cmd.opcode = adminOpCreateIoSq ∨ cmd.opcode = adminOpDeleteIoSq ∨
    cmd.opcode = adminOpDeleteIoCq

section Refused

variable {cmd : SubmissionEntry} {status : Nat}

theorem executeAdmin_createIoCq (hcmd : cmd.opcode = adminOpCreateIoCq) :
    s.executeAdmin cmd = (.done (s.adminCreateIoCq cmd).1, (s.adminCreateIoCq cmd).2) := by
  unfold Sys.executeAdmin
  dsimp only
  rw [hcmd, if_neg (by decide), if_neg (by decide), if_pos rfl]

theorem executeAdmin_createIoSq (hcmd : cmd.opcode = adminOpCreateIoSq) :
    s.executeAdmin cmd = (.done (s.ctrl.adminCreateIoSq cmd).1, { s with ctrl := (s.ctrl.adminCreateIoSq cmd).2 }) := by
  unfold Sys.executeAdmin
  dsimp only
  rw [hcmd, if_neg (by decide), if_neg (by decide), if_neg (by decide), if_pos rfl]
  rfl

theorem executeAdmin_deleteIoQueue (hcmd : cmd.opcode = adminOpDeleteIoSq ∨ cmd.opcode = adminOpDeleteIoCq) :
    s.executeAdmin cmd = (.done (s.ctrl.adminDeleteIoQueue cmd).1,
      { s with ctrl := (s.ctrl.adminDeleteIoQueue cmd).2 }) := by
  unfold Sys.executeAdmin
  dsimp only
  rcases hcmd with hcmd | hcmd
  all_goals
    rw [hcmd, if_neg (by decide), if_neg (by decide), if_neg (by decide), if_neg (by decide), if_neg (by decide),
      if_neg (by decide), if_neg (by decide), if_neg (by decide), if_neg (by decide), if_pos (by decide)]
    rfl

/-- A refused command changes nothing. -/
theorem executeAdmin_refused (hcmd : QueueCommand cmd) (h : s.executeAdmin cmd = (.done status, s'))
    (hstatus : status ≠ scSuccess) : s' = s := by
  have hdone : ∀ {result : Nat} {t : Sys}, s.executeAdmin cmd = (.done result, t) → status = result ∧ s' = t := by
    intro result t heq
    rw [heq] at h
    cases h
    exact ⟨rfl, rfl⟩
  rcases hcmd with hcmd | hcmd | hcmd
  · obtain ⟨hresult, hsys⟩ := hdone (executeAdmin_createIoCq hcmd)
    rw [hsys]
    unfold Sys.adminCreateIoCq onCtrl at hresult ⊢
    dsimp only at hresult ⊢
    obtain ⟨refused, hne, heq⟩ | ⟨cq, -, heq⟩ := s.ctrl.adminCreateIoCq_cases cmd
    · rw [heq]
      dsimp only
      rw [if_neg hne]
    · rw [heq] at hresult
      dsimp only at hresult
      rw [if_pos rfl] at hresult
      exact absurd hresult hstatus
  · obtain ⟨hresult, hsys⟩ := hdone (executeAdmin_createIoSq hcmd)
    rw [hsys]
    obtain ⟨refused, -, heq⟩ | ⟨sq, -, heq⟩ := s.ctrl.adminCreateIoSq_cases cmd
    · rw [heq]
    · rw [heq] at hresult
      exact absurd hresult hstatus
  · obtain ⟨hresult, hsys⟩ := hdone (executeAdmin_deleteIoQueue hcmd)
    rw [hsys]
    obtain ⟨refused, -, heq⟩ | ⟨-, -, heq⟩ | ⟨-, -, heq⟩ := s.ctrl.adminDeleteIoQueue_cases cmd
    · rw [heq]
    · rw [heq] at hresult
      exact absurd hresult hstatus
    · rw [heq] at hresult
      exact absurd hresult hstatus

theorem executeAdmin_inUse {i : Nat} (hcmd : cmd.opcode = adminOpDeleteIoCq) (hsq : slot s.ctrl.sqs i = some sq)
    (hbound : sq.cqid = cmd.cdw10 &&& 0xffff) : ∃ status, status ≠ scSuccess ∧
    s.executeAdmin cmd = (.done status, s) := by
  rw [executeAdmin_deleteIoQueue (.inr hcmd)]
  obtain ⟨refused, hne, heq⟩ | ⟨-, hopcode, -⟩ | ⟨-, hunused, -⟩ := s.ctrl.adminDeleteIoQueue_cases cmd
  · rw [heq]
    exact ⟨refused, hne, rfl⟩
  · rw [hcmd] at hopcode
    exact absurd hopcode (by decide)
  · exact absurd hbound (hunused i sq hsq)

end Refused

theorem writeCc_enables (s : Sys) (value : BitVec 32) (hoff : s.ctrl.enabled = false) (hon : value &&& ccEnBit ≠ 0) :
    (slot (s.writeCc value).ctrl.sqs 0).map SubmissionQueue.size = some ((s.ctrl.aqa &&& 0xfff).toNat + 1) ∧
      (slot (s.writeCc value).ctrl.cqs 0).map CompletionQueue.size =
        some (((s.ctrl.aqa >>> 16) &&& 0xfff).toNat + 1) := by
  have haqa : s.waitForFlushes.ctrl.aqa = s.ctrl.aqa := (Prod.mk.inj (Prod.mk.inj (waitForFlushes_bases s)).2).2
  have hshutdown (s : Sys) : (s.processShutdownNotification value).ctrl.sqs = s.ctrl.sqs ∧
      (s.processShutdownNotification value).ctrl.cqs = s.ctrl.cqs := by
    unfold Sys.processShutdownNotification
    dsimp only
    split <;> exact ⟨rfl, rfl⟩
  have hbit : ((value &&& ccEnBit) != 0) = true := bne_iff_ne.2 hon
  unfold Sys.writeCc
  dsimp only
  rw [(hshutdown _).1, (hshutdown _).2, hoff, hbit, if_pos (by rfl), if_neg (by decide)]
  unfold Sys.installAdminQueues
  dsimp only
  rw [slot_putSlot, slot_putSlot, if_pos rfl, if_pos rfl, haqa]
  exact ⟨rfl, rfl⟩

/-- **The queue graph stays closed**, whatever the guest writes and commands: each live submission queue names a live
completion queue, sizes and indices are in range, the admin queues get their sizes from `AQA`, a bound completion queue
is not deleted, and a refused command changes nothing. -/
theorem queue_graph_stays_closed (h : Reached anyOp s) :
    (∀ i sq, slot s.ctrl.sqs i = some sq → SqShape i sq ∧ ∃ cq, slot s.ctrl.cqs sq.cqid = some cq) ∧
      (∀ i cq, slot s.ctrl.cqs i = some cq → CqShape i cq) ∧
      (∀ value, s.ctrl.enabled = false → value &&& ccEnBit ≠ 0 →
        (slot (s.writeCc value).ctrl.sqs 0).map SubmissionQueue.size = some ((s.ctrl.aqa &&& 0xfff).toNat + 1) ∧
          (slot (s.writeCc value).ctrl.cqs 0).map CompletionQueue.size =
            some (((s.ctrl.aqa >>> 16) &&& 0xfff).toNat + 1)) ∧
      (∀ cmd i sq, cmd.opcode = adminOpDeleteIoCq → slot s.ctrl.sqs i = some sq →
        sq.cqid = cmd.cdw10 &&& 0xffff →
        ∃ status, status ≠ scSuccess ∧ s.executeAdmin cmd = (.done status, s)) ∧
      ∀ cmd status s', QueueCommand cmd → s.executeAdmin cmd = (.done status, s') → status ≠ scSuccess →
      s' = s := by
  have hwired := reached_wired h
  refine ⟨fun i sq hsq => ⟨hwired.sqs i sq hsq, Option.isSome_iff_exists.1 (hwired.target i sq hsq)⟩, hwired.cqs,
    writeCc_enables s, ?_, ?_⟩
  · intro cmd i sq hcmd hsq hbound
    exact executeAdmin_inUse hcmd hsq hbound
  · intro cmd status s' hcmd hrefused hstatus
    exact executeAdmin_refused hcmd hrefused hstatus

/-- The I/O queue of the sample run: two entries, completing to completion queue 1. -/
theorem sampleSys_stays_closed : (slot sampleSys.ctrl.sqs 1).map (fun sq => (sq.size, sq.cqid)) = some (2, 1) ∧
    ∀ i sq, slot sampleSys.ctrl.sqs i = some sq → SqShape i sq ∧
    ∃ cq, slot sampleSys.ctrl.cqs sq.cqid = some cq :=
  ⟨by decide +kernel, (queue_graph_stays_closed (sampleSys_reached.mono fun _ _ _ => trivial)).1⟩

/-- The guest asks for admin queues of 4096 entries and enables the controller. -/
def largeAdminQueues : List Op := [.mmioWrite 0x24 4 0x0fff0fff, .mmioWrite 0x14 4 1]

/-- An admin queue of 4096 entries is live: `MAX_QUEUE_ENTRIES` bounds I/O queues alone. -/
theorem admin_queue_above_limit : ¬ ∀ s, Reached anyOp s → ∀ i sq, slot s.ctrl.sqs i = some sq →
    2 ≤ sq.size ∧ sq.size ≤ maxQueueEntries := by
  intro hall
  have hreached : Reached anyOp ((Sys.initial sampleDisk sampleMemory
    (fun _ _ => true) calmHost).run largeAdminQueues) :=
    (Reached.initial _ _ _ _).run fun _ _ _ => trivial
  have hsize := (hall _ hreached 0 ⟨0, 4096, 0, 0, 0, 0⟩ (by decide +kernel)).2
  exact absurd hsize (by decide)

end BridgeVm.Nvme
