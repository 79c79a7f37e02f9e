import BridgeVm.Nvme.QueueGraph

/-!
# Ring arithmetic (`process_sq`, `post_completion`)

- the engine with every ring computation checked: 64-bit addresses, 16-bit indices, and the remainder by the size;
- `RingsSafe`: the next entry of each ring starts below 2^64; an index leaves zero only by an access to the slot before
  it, which is in guest memory that ends below 2^64 (`RingStep.safe`);
- so no check ever fails (`ring_arithmetic_never_overflows`).
-/

namespace BridgeVm.Nvme

open Lib Sys
open Relation (ReflTransGen)

/-! ## Checked computations -/

/-- 16-bit checked addition. -/
def checkedAdd16 (a b : Nat) : Option Nat := if a + b < 2 ^ 16 then some (a + b) else none

/-- A remainder, where the divisor is not zero. -/
def checkedRem (a b : Nat) : Option Nat := if b = 0 then none else some (a % b)

/-- `base + u64::from(index) * entry_size`. -/
def entryGpa (base index entrySize : Nat) : Option Nat :=
  (checkedMul index entrySize).bind fun offset => checkedAdd base offset

/-- `(index + 1) % size`. -/
def nextIndex (index size : Nat) : Option Nat := (checkedAdd16 index 1).bind fun next => checkedRem next size

namespace Sys

/-! ## The engine, checked -/

def nextEntryChecked (s : Sys) (qid : Nat) : Option (Option (SubmissionQueue × List UInt8)) :=
  match slot s.ctrl.sqs qid with
  | none => some none
  | some sq =>
    if sq.head = sq.tailDoorbell ∨ !s.ctrl.cqHasSpace sq.cqid then some none
    else
      (entryGpa sq.base sq.head sqEntrySize).map fun gpa =>
        (s.path.mem.readBytes gpa sqEntrySize).map fun buf => (sq, buf)

def fetchChecked (s : Sys) (qid : Nat) (sq : SubmissionQueue) (buf : List UInt8) : Option (Fetched × Sys) :=
  (nextIndex sq.head sq.size).map fun newHead =>
    let c := (s.fetch qid sq buf).1
    (c, { s with
      ctrl := { s.ctrl with
        sqs := putSlot s.ctrl.sqs qid { sq with head := newHead }, fetches := s.ctrl.fetches + 1 }
      log := .fetched c :: s.log })

def postCompletionChecked (s : Sys) (c : Fetched) (status : Nat) : Option Sys :=
  let dw0 := s.ctrl.lastFeatureResult
  let s := { s with ctrl := { s.ctrl with lastFeatureResult := 0 } }
  match slot s.ctrl.cqs c.cqid with
  | none => some (s.record (.unposted c))
  | some cq =>
    let sq := slot s.ctrl.sqs c.sqid
    let entry := completionEntry dw0 ((sq.map SubmissionQueue.head).getD 0) c.sqid c.cmd.commandId status cq.phase
    (entryGpa cq.base cq.tail cqEntrySize).bind fun gpa =>
      match s.path.mem.writeBytes gpa entry with
      | (_, false) => some (s.record (.unposted c))
      | (mem, true) =>
        (nextIndex cq.tail cq.size).map fun newTail =>
          let phase := if newTail = 0 then !cq.phase else cq.phase
          { s with
            ctrl := { s.ctrl with
              cqs := putSlot s.ctrl.cqs c.cqid { cq with tail := newTail, phase := phase, unread := cq.unread + 1 } }
            path := { s.path with mem := mem }
            completions := s.completions ++ if cq.interruptsEnabled then [⟨c.cqid, cq.interruptVector⟩] else []
            log := .posted c sq cq entry :: s.log }

def finishOneChecked (s : Sys) (done : Finished) : Option Sys :=
  let c := done.job.fetched
  let complete (status : Nat) (s : Sys) : Option Sys :=
    if (slot s.ctrl.sqs c.sqid).isSome ∧ (slot s.ctrl.cqs c.cqid).isSome then s.postCompletionChecked c status
    else some (s.record (.unposted c))
  if done.syncNext then
    match s.deferFlush c with
    | (true, s) => some s
    | (false, s) =>
      let (status, s) := s.onPath fun d => d.ioFlush c.cmd
      complete status s
  else complete done.status s

def postFinishedChecked (s : Sys) (wait : Bool) : Option Sys :=
  let (taken, s) := s.takeFinished wait
  taken.foldlM finishOneChecked s

def completeFlushesLoopChecked (wait : Bool) : Nat → Sys → Option Sys
  | 0, s => some s
  | rounds + 1, s =>
    (s.postFinishedChecked wait).bind fun s =>
      if !wait || !s.flushesInFlight then some s else completeFlushesLoopChecked wait rounds s

def completeFlushesChecked (s : Sys) (wait : Bool) : Option Sys := completeFlushesLoopChecked wait 2 s

def executeChecked (s : Sys) (c : Fetched) : Option Sys :=
  if c.sqid ≠ 0 ∧ s.ctrl.asyncFlush ∧ s.ctrl.writeNeedsSync c.cmd then
    match s.executeSyncedWrite c with
    | (none, s) => some s
    | (some status, s) => s.postCompletionChecked c status
  else if c.sqid = 0 then
    match s.executeAdmin c.cmd with
    | (result, s) => if result.complete then s.postCompletionChecked c result.status else some (s.record (.retained c))
  else
    match s.executeIo c.cmd with
    | (status, s) => s.postCompletionChecked c status

def handleChecked (s : Sys) (c : Fetched) : Option Sys :=
  match if c.cmd.opcode = nvmOpFlush then s.deferFlush c else (false, s) with
  | (true, s) => some s
  | (false, s) =>
    match if c.sqid ≠ 0 then s.deferIo c else (false, s) with
    | (true, s) => some s
    | (false, s) => s.executeChecked c

def processSqLoopChecked (qid : Nat) : Nat → Sys → Option Sys
  | 0, s => some s
  | rounds + 1, s =>
    (s.nextEntryChecked qid).bind fun next =>
      match next with
      | none => some s
      | some (sq, buf) =>
        (s.fetchChecked qid sq buf).bind fun (c, s) =>
          (s.handleChecked c).bind fun s => processSqLoopChecked qid rounds s.othersTurn

def drainQueueChecked (s : Sys) (qid : Nat) : Option Sys :=
  (processSqLoopChecked qid (((slot s.ctrl.sqs qid).map SubmissionQueue.size).getD 0) s).map fun s =>
    if s.ctrl.sqHasWork qid then s else { s with ctrl := s.ctrl.clearSqPending qid }

def drainWordsChecked : Nat → Nat → Sys → Option Sys
  | 0, _, s => some s
  | words + 1, idx, s =>
    if s.ctrl.csts &&& cstsShstMask = 0 then
      ((setBits (entry 0 s.ctrl.pendingSqBits idx)).foldlM
        (fun (s : Sys) bit => s.drainQueueChecked (idx * 64 + bit)) s).bind
        fun s => drainWordsChecked words (idx + 1) s
    else some s

def processIntoChecked (s : Sys) : Option Sys :=
  let adminPending := s.ctrl.sqPending 0
  (if s.flushesReady || adminPending && s.flushesInFlight then s.completeFlushesChecked adminPending else some s).bind
    fun s => drainWordsChecked s.ctrl.pendingSqBits.length 0 s

/-- An operation, `none` when a ring computation overflows or divides by zero. -/
def stepChecked (s : Sys) : Op → Option Sys
  | .process => s.processIntoChecked
  | .completeFlushes wait => s.completeFlushesChecked wait
  | op => some (s.step op)

end Sys

/-! ## Why no check fails -/

/-- Guest RAM ends below 2^64. -/
def EndsBelow (mem : GuestMemory) : Prop :=
  ∀ gpa len, 0 < len → mem.readable gpa len = true ∨ mem.writable gpa len = true → gpa + len < 2 ^ 64

/-- A 64-bit value. -/
def Word64 (n : Nat) : Prop := n < 2 ^ 64

/-- The next entry of a submission ring starts below 2^64, and the ring is small. -/
structure SqSafe (sq : SubmissionQueue) : Prop where
  head : sq.head < sq.size
  size : sq.size ≤ 4096
  entry : sq.base + sq.head * sqEntrySize < 2 ^ 64

structure CqSafe (cq : CompletionQueue) : Prop where
  tail : cq.tail < cq.size
  size : cq.size ≤ 4096
  entry : cq.base + cq.tail * cqEntrySize < 2 ^ 64

structure RingsSafe (r : Rings) : Prop where
  sqs : ∀ i sq, slot r.sqs i = some sq → SqSafe sq
  cqs : ∀ i cq, slot r.cqs i = some cq → CqSafe cq
  asq : Word64 r.asq
  acq : Word64 r.acq

variable {s s' : Sys} {c : Fetched} {qid : Nat} {sq : SubmissionQueue} {r r' : Rings} {mem : GuestMemory}

theorem SqEmpty.safe {base : Nat} (h : SqEmpty base sq) (hplace : Word64 base) (hpos : 0 < sq.size)
    (hsize : sq.size ≤ 4096) : SqSafe sq := by
  refine ⟨by rw [h.head]; exact hpos, hsize, ?_⟩
  rw [h.head, h.base, Nat.zero_mul, Nat.add_zero]
  exact hplace

theorem CqEmpty.safe {base : Nat} {cq : CompletionQueue} (h : CqEmpty base cq) (hplace : Word64 base)
    (hpos : 0 < cq.size)
    (hsize : cq.size ≤ 4096) : CqSafe cq := by
  refine ⟨by rw [h.tail]; exact hpos, hsize, ?_⟩
  rw [h.tail, h.base, Nat.zero_mul, Nat.add_zero]
  exact hplace

theorem IoSize.le {size : Nat} (h : IoSize size) : size ≤ 4096 := h.2.trans (by decide)

theorem next_entry_lt {base index size entrySize : Nat} (hindex : index < size)
    (haccess : base + index * entrySize + entrySize < 2 ^ 64) :
    (index + 1) % size < size ∧ base + (index + 1) % size * entrySize < 2 ^ 64 := by
  refine ⟨Nat.mod_lt _ (Nat.zero_lt_of_lt hindex), ?_⟩
  rcases Nat.lt_or_eq_of_le (Nat.succ_le_of_lt hindex) with hlt | heq
  · rw [Nat.mod_eq_of_lt hlt, Nat.succ_mul, ← Nat.add_assoc]
    exact haccess
  · rw [← heq, Nat.mod_self, Nat.zero_mul]
    omega

theorem ringsSafe_none {asq acq : Nat} (hasq : Word64 asq) (hacq : Word64 acq) :
    RingsSafe ⟨[none], [none], asq, acq⟩ := by
  refine ⟨fun i sq hsq => ?_, fun i cq hcq => ?_, hasq, hacq⟩
  · rw [slot_none] at hsq
    cases hsq
  · rw [slot_none] at hcq
    cases hcq

theorem zero_word : Word64 0 := Nat.two_pow_pos 64

theorem EndsBelow.of_backing {mem mem' : GuestMemory} (h : EndsBelow mem) (hback : mem.SameBacking mem') :
    EndsBelow mem' := by
  intro gpa len hlen haccess
  refine h gpa len hlen ?_
  rwa [← hback.1, ← hback.2]

/-- One step keeps the rings safe. -/
theorem RingStep.safe (h : RingStep mem Word64 r r') (hmem : EndsBelow mem) (hr : RingsSafe r) : RingsSafe r' := by
  obtain ⟨hsqs, hcqs, hasq, hacq⟩ := hr
  cases h with
  | fetch hsq hread =>
    obtain ⟨hhead, hsize, -⟩ := hsqs _ _ hsq
    obtain ⟨hlt, hentry⟩ := next_entry_lt hhead (hmem _ _ (by decide) (.inl hread))
    exact ⟨forall_putSlot (P := fun _ => SqSafe) hsqs ⟨hlt, hsize, hentry⟩, hcqs, hasq, hacq⟩
  | post hcq hwrite =>
    obtain ⟨htail, hsize, -⟩ := hcqs _ _ hcq
    obtain ⟨hlt, hentry⟩ := next_entry_lt htail (hmem _ _ (by decide) (.inr hwrite))
    exact ⟨hsqs, forall_putSlot (P := fun _ => CqSafe) hcqs ⟨hlt, hsize, hentry⟩, hasq, hacq⟩
  | tailDoorbell hsq hval =>
    obtain ⟨hhead, hsize, hentry⟩ := hsqs _ _ hsq
    exact ⟨forall_putSlot (P := fun _ => SqSafe) hsqs ⟨hhead, hsize, hentry⟩, hcqs, hasq, hacq⟩
  | headDoorbell hcq hval =>
    obtain ⟨htail, hsize, hentry⟩ := hcqs _ _ hcq
    exact ⟨hsqs, forall_putSlot (P := fun _ => CqSafe) hcqs ⟨htail, hsize, hentry⟩, hasq, hacq⟩
  | createSq hqid hempty hplace hsize htarget =>
    have hnew := hempty.safe hplace (Nat.zero_lt_of_lt hsize.1) hsize.le
    exact ⟨forall_putSlot (P := fun _ => SqSafe) hsqs hnew, hcqs, hasq, hacq⟩
  | createCq hqid hempty hplace hsize =>
    have hnew := hempty.safe hplace (Nat.zero_lt_of_lt hsize.1) hsize.le
    exact ⟨hsqs, forall_putSlot (P := fun _ => CqSafe) hcqs hnew, hasq, hacq⟩
  | deleteSq qid => exact ⟨forall_clearSlot (P := fun _ => SqSafe) hsqs qid, hcqs, hasq, hacq⟩
  | deleteCq hunused => exact ⟨hsqs, forall_clearSlot (P := fun _ => CqSafe) hcqs _, hasq, hacq⟩
  | enable hsq hcq hsqSize hcqSize htarget =>
    exact ⟨forall_putSlot (P := fun _ => SqSafe) hsqs (hsq.safe hasq hsqSize.1 hsqSize.2),
      forall_putSlot (P := fun _ => CqSafe) hcqs (hcq.safe hacq hcqSize.1 hcqSize.2), hasq, hacq⟩
  | drop => exact ringsSafe_none hasq hacq
  | adminBases hnewAsq hnewAcq =>
    exact ⟨hsqs, hcqs, hnewAsq.elim (fun h => h ▸ hasq) id, hnewAcq.elim (fun h => h ▸ hacq) id⟩

theorem RingsSafe.steps (hr : RingsSafe r) (h : ReflTransGen (RingStep mem Word64) r r') (hmem : EndsBelow mem) :
    RingsSafe r' := by
  induction h with
  | refl => exact hr
  | tail _ hstep ih => exact hstep.safe hmem ih

/-- Safe rings in a RAM that ends below 2^64. -/
structure Safe (s : Sys) : Prop where
  rings : RingsSafe s.rings
  mem : EndsBelow s.path.mem

theorem Safe.run (h : Safe s) (hrun : RingRun Word64 s s') : Safe s' :=
  ⟨h.rings.steps hrun.steps h.mem, h.mem.of_backing hrun.backing⟩

/-! ## The checked engine computes what the engine does -/

theorem entryGpa_eq {base index entrySize : Nat} (h : base + index * entrySize < 2 ^ 64) :
    entryGpa base index entrySize = some (base + index * entrySize) := by
  unfold entryGpa checkedMul
  rw [if_pos ((Nat.le_add_left _ _).trans_lt h), Option.bind_some, checkedAdd, if_pos h]

theorem nextIndex_eq {index size : Nat} (hindex : index < size) (hsize : size ≤ 4096) :
    nextIndex index size = some ((index + 1) % size) := by
  unfold nextIndex checkedAdd16
  rw [if_pos (by omega), Option.bind_some, checkedRem, if_neg (by omega)]

namespace Safe

theorem nextEntry (h : Safe s) (qid : Nat) : s.nextEntryChecked qid = some (s.nextEntry qid) := by
  unfold nextEntryChecked Sys.nextEntry
  cases hsq : slot s.ctrl.sqs qid with
  | none => rfl
  | some sq =>
    rw [Option.bind_some]
    dsimp only
    split
    · rfl
    · rw [entryGpa_eq (h.rings.sqs qid sq hsq).entry, Option.map_some]

theorem fetch (h : Safe s) (hsq : slot s.ctrl.sqs qid = some sq) (buf : List UInt8) :
    s.fetchChecked qid sq buf = some (s.fetch qid sq buf) := by
  obtain ⟨hhead, hsize, -⟩ := h.rings.sqs qid sq hsq
  unfold fetchChecked
  rw [nextIndex_eq hhead hsize, Option.map_some]
  rfl

theorem post (h : Safe s) (c : Fetched) (status : Nat) :
    s.postCompletionChecked c status = some (s.postCompletion c status) := by
  unfold postCompletionChecked Sys.postCompletion
  dsimp only
  cases hcq : slot s.ctrl.cqs c.cqid with
  | none => rfl
  | some cq =>
    obtain ⟨htail, hsize, hentry⟩ := h.rings.cqs _ cq hcq
    dsimp only
    rw [entryGpa_eq hentry, Option.bind_some, nextIndex_eq htail hsize]
    generalize s.path.mem.writeBytes _ _ = written
    obtain ⟨mem, ok⟩ := written
    cases ok <;> rfl

theorem finishOne (h : Safe s) (done : Finished) : finishOneChecked s done = some (Sys.finishOne s done) := by
  have hcomplete : ∀ {s : Sys} (_ : Safe s) (status : Nat),
      (if (slot s.ctrl.sqs done.job.fetched.sqid).isSome ∧ (slot s.ctrl.cqs done.job.fetched.cqid).isSome
        then s.postCompletionChecked done.job.fetched status else some (s.record (.unposted done.job.fetched))) =
      some (if (slot s.ctrl.sqs done.job.fetched.sqid).isSome ∧ (slot s.ctrl.cqs done.job.fetched.cqid).isSome
        then s.postCompletion done.job.fetched status else s.record (.unposted done.job.fetched)) := by
    intro s h status
    split
    · exact h.post _ _
    · rfl
  unfold finishOneChecked Sys.finishOne
  dsimp only
  split
  · have hdefer := h.run (RingRun.deferFlush s done.job.fetched)
    cases hd : s.deferFlush done.job.fetched with
    | mk deferred s₁ =>
      rw [hd] at hdefer
      cases deferred with
      | true => rfl
      | false => exact hcomplete (hdefer.run (RingRun.path s₁ fun d => d.ioFlush_backing done.job.fetched.cmd)) _
  · exact hcomplete h _

theorem foldlM {α : Type} {f : Sys → α → Sys} {g : Sys → α → Option Sys}
    (hg : ∀ s a, Safe s → g s a = some (f s a))
    (hf : ∀ s a, RingRun Word64 s (f s a)) (h : Safe s) (l : List α) : l.foldlM g s = some (l.foldl f s) := by
  induction l generalizing s with
  | nil => rfl
  | cons a l ih =>
    rw [List.foldlM_cons, hg s a h, Option.bind_eq_bind, Option.bind_some]
    exact ih (h.run (hf s a))

theorem completeFlushes (h : Safe s) (wait : Bool) : s.completeFlushesChecked wait = some (s.completeFlushes wait) := by
  have hpost : ∀ {s : Sys}, Safe s → s.postFinishedChecked wait = some (s.postFinished wait) := fun {s} h =>
    foldlM (fun _ done h => h.finishOne done) RingRun.finishOne (h.run (RingRun.takeFinished s wait)) _
  have hrun : ∀ s : Sys, RingRun Word64 s (s.postFinished wait) := fun s =>
    (RingRun.takeFinished s wait).trans (RingRun.foldl RingRun.finishOne _ _)
  have hloop : ∀ (rounds : Nat) {s : Sys}, Safe s →
      completeFlushesLoopChecked wait rounds s = some (completeFlushesLoop wait rounds s) := by
    intro rounds
    induction rounds with
    | zero => exact fun _ => rfl
    | succ rounds ih =>
      intro s h
      unfold completeFlushesLoopChecked completeFlushesLoop
      rw [hpost h, Option.bind_some]
      dsimp only
      split
      · rfl
      · exact ih (h.run (hrun s))
  exact hloop 2 h

theorem execute (h : Safe s) (hplace : Word64 c.cmd.prp1) : s.executeChecked c = some (s.execute c) := by
  unfold executeChecked Sys.execute
  split
  · have hwrite := h.run (RingRun.executeSyncedWrite s c)
    cases hw : s.executeSyncedWrite c with
    | mk status s' =>
      rw [hw] at hwrite
      cases status with
      | none => rfl
      | some status => exact hwrite.post c status
  · split
    · have hadmin := h.run (RingRun.executeAdmin hplace)
      cases hx : s.executeAdmin c.cmd with
      | mk result s' =>
        rw [hx] at hadmin
        dsimp only
        split
        · exact hadmin.post c _
        · rfl
    · have hio := h.run (RingRun.kept (executeIo_kept s c.cmd) (executeIo_bases s c.cmd))
      cases hx : s.executeIo c.cmd with
      | mk status s' =>
        rw [hx] at hio
        exact hio.post c status

theorem handle (h : Safe s) (hplace : Word64 c.cmd.prp1) : s.handleChecked c = some (s.handle c) := by
  unfold handleChecked Sys.handle
  have hflush : RingRun Word64 s (if c.cmd.opcode = nvmOpFlush then s.deferFlush c else (false, s)).2 := by
    split
    · exact RingRun.deferFlush s c
    · exact RingRun.refl s
  cases hf : if c.cmd.opcode = nvmOpFlush then s.deferFlush c else (false, s) with
  | mk deferred s₁ =>
    rw [hf] at hflush
    cases deferred with
    | true => rfl
    | false =>
      have hio : RingRun Word64 s₁ (if c.sqid ≠ 0 then s₁.deferIo c else (false, s₁)).2 := by
        split
        · exact RingRun.deferIo s₁ c
        · exact RingRun.refl s₁
      dsimp only
      cases hd : if c.sqid ≠ 0 then s₁.deferIo c else (false, s₁) with
      | mk deferred s₂ =>
        rw [hd] at hio
        cases deferred with
        | true => rfl
        | false => exact execute ((h.run hflush).run hio) hplace

theorem processSqLoop (h : Safe s) (rounds : Nat) :
    processSqLoopChecked qid rounds s = some (Sys.processSqLoop qid rounds s) := by
  induction rounds generalizing s with
  | zero => rfl
  | succ rounds ih =>
    unfold processSqLoopChecked Sys.processSqLoop
    rw [h.nextEntry, Option.bind_some]
    cases hnext : s.nextEntry qid with
    | none => rfl
    | some next =>
      obtain ⟨sq, buf⟩ := next
      have hfetched := h.run (RingRun.fetch hnext)
      have hplace : Word64 (s.fetch qid sq buf).1.cmd.prp1 := leField_lt buf 24 8
      have hround := hfetched.run (RingRun.handle hplace)
      have hrest := ih (hround.run (.kept (othersTurn_kept _) (othersTurn_bases _)))
      show ((s.fetchChecked qid sq buf).bind fun next =>
        (next.2.handleChecked next.1).bind fun s => processSqLoopChecked qid rounds s.othersTurn) = _
      rw [h.fetch (Inv.nextEntry_some hnext).1, Option.bind_some, hfetched.handle hplace, Option.bind_some]
      exact hrest

theorem drainQueue (h : Safe s) (qid : Nat) : s.drainQueueChecked qid = some (s.drainQueue qid) := by
  unfold drainQueueChecked Sys.drainQueue processSq
  rw [h.processSqLoop, Option.map_some]

theorem entry_place (buf : List UInt8) : Word64 (SubmissionEntry.fromBytes buf).prp1 := leField_lt buf 24 8

theorem drainWords (h : Safe s) (words idx : Nat) :
    drainWordsChecked words idx s = some (Sys.drainWords words idx s) := by
  induction words generalizing s idx with
  | zero => rfl
  | succ words ih =>
    unfold drainWordsChecked Sys.drainWords
    split
    · have hrun : ∀ (s : Sys) (bit : Nat), RingRun Word64 s (s.drainQueue (idx * 64 + bit)) := fun s bit =>
        RingRun.drainQueue entry_place s _
      rw [foldlM (fun s bit h => h.drainQueue (idx * 64 + bit)) hrun h, Option.bind_some]
      exact ih (h.run (RingRun.foldl hrun _ _)) _
    · rfl

theorem processInto (h : Safe s) : s.processIntoChecked = some s.processInto := by
  unfold processIntoChecked Sys.processInto
  dsimp only
  split
  · rw [h.completeFlushes, Option.bind_some]
    exact (h.run (RingRun.completeFlushes s _)).drainWords _ _
  · exact h.drainWords _ _

theorem step (h : Safe s) (op : Op) : s.stepChecked op = some (s.step op) := by
  cases op with
  | process => exact h.processInto
  | completeFlushes wait => exact h.completeFlushes wait
  | _ => rfl

end Safe

/-! ## Runs -/

/-- The guest writes 64-bit values. -/
def Op.Word : Op → Prop
  | .mmioWrite _ _ value => Word64 value
  | _ => True

/-- The systems reached on machines whose RAM ends below 2^64. -/
inductive RamReached : Sys → Prop
  | initial (disk : DiskBackend) {mem : GuestMemory} (hmem : EndsBelow mem) (hostPtr : Nat → Nat → Bool)
      (host : Nat → HostCall) : RamReached (.initial disk mem hostPtr host)
  | step {s : Sys} (h : RamReached s) (op : Op) (hop : op.Word) : RamReached (s.step op)
  | restore {s t s' : Sys} (h : RamReached s) (ht : RamReached t) (hs : s.restoreState t.snapshotState = some s') :
      RamReached s'

theorem mergeU64_word {current value : Nat} (hcurrent : Word64 current) (hvalue : Word64 value) (size : Nat)
    (high : Bool) : Word64 (mergeU64 current value size high) := by
  unfold Word64 at hcurrent hvalue ⊢
  unfold mergeU64
  split
  · exact hvalue
  · split <;> omega

theorem Safe.places (h : Safe s) {op : Op} (hop : op.Word) : Places Word64 s op := by
  refine ⟨Safe.entry_place, zero_word, fun offset size value heq => ?_⟩
  subst heq
  exact ⟨fun high => mergeU64_word h.rings.asq hop size high, fun high => mergeU64_word h.rings.acq hop size high⟩

theorem RingsSafe.reborn (h : RingsSafe r) (born : Nat) : RingsSafe (r.reborn born) := by
  refine ⟨fun i sq hi => ?_, fun i cq hi => ?_, h.asq, h.acq⟩
  · obtain ⟨old, hold, rfl⟩ := Option.map_eq_some_iff.1 ((slot_map _ _ _).symm.trans hi)
    exact ⟨(h.sqs i old hold).head, (h.sqs i old hold).size, (h.sqs i old hold).entry⟩
  · obtain ⟨old, hold, rfl⟩ := Option.map_eq_some_iff.1 ((slot_map _ _ _).symm.trans hi)
    exact ⟨(h.cqs i old hold).tail, (h.cqs i old hold).size, (h.cqs i old hold).entry⟩

theorem RamReached.safe (h : RamReached s) : Safe s := by
  induction h with
  | initial disk hmem hostPtr host =>
    exact ⟨ringsSafe_none zero_word zero_word, hmem⟩
  | step _ op hop ih => exact ih.run (RingRun.step (ih.places hop))
  | @restore s t s' _ _ hs ih iht =>
    obtain ⟨born, hrings, hback⟩ := restoreState_rings hs
    exact ⟨hrings ▸ iht.rings.reborn born, ih.mem.of_backing hback⟩

/-- **Ring arithmetic never overflows**: whatever the guest writes to registers, doorbells and queue entries, each ring
computation of an operation stays in its type and divides by a positive size. -/
theorem ring_arithmetic_never_overflows (h : RamReached s) (op : Op) : s.stepChecked op = some (s.step op) :=
  h.safe.step op

theorem RamReached.run {ops : List Op} (h : RamReached s) (hops : ∀ op ∈ ops, op.Word) :
    RamReached (s.run ops) := by
  induction ops generalizing s with
  | nil => exact h
  | cons op ops ih =>
    exact ih (.step h op (hops op List.mem_cons_self)) fun op' hop => hops op' (List.mem_cons_of_mem _ hop)

theorem sampleMemory_endsBelow : EndsBelow sampleMemory := by
  intro gpa len _ haccess
  have hle : gpa + len ≤ 4096 := by simpa [sampleMemory] using haccess
  exact hle.trans_lt (by decide)

theorem Op.word_iff {op : Op} : op.Word ↔ ∀ offset size value, op = .mmioWrite offset size value →
    Word64 value := by
  cases op with
  | mmioWrite offset size value => simp [Op.Word]
  | _ => simp [Op.Word]

/-- The sample machine, about to drain its two admin commands. -/
def sampleAdmin : Sys := (Sys.initial sampleDisk sampleMemory (fun _ _ => true) calmHost).run (sampleOps.take 6)

theorem sampleAdmin_never_overflows :
    (fetchedIn (sampleAdmin.step .process).log).length = 2 ∧
      sampleAdmin.stepChecked .process = some (sampleAdmin.step .process) := by
  refine ⟨by decide +kernel, ring_arithmetic_never_overflows
    (.run (.initial _ sampleMemory_endsBelow _ _) ?_) .process⟩
  intro op hop
  refine Op.word_iff.2 fun offset size value heq => ?_
  subst heq
  simp only [sampleOps, List.take_succ_cons, List.take_zero, List.mem_cons, reduceCtorEq, Op.mmioWrite.injEq,
    List.not_mem_nil, or_false, false_or] at hop
  unfold Word64
  omega

end BridgeVm.Nvme
