import BridgeVm.Nvme.ExactlyOnce

/-!
# The drain is work conserving

A queue with work has its bit (`QueuesOk`). After `process_into` each such queue is blocked: by a shutdown, by its
completion ring, or by an entry in memory that is not readable. A queue that none of these blocks, and that shares its
completion ring with no other queue that has work, is drained by the next `process_into`.
-/

namespace BridgeVm.Nvme

open Lib Sys

variable {s s' s₁ s₂ s₃ : Sys} {c : Fetched} {qid i j x : Nat} {sq sq' : SubmissionQueue} {cq : CompletionQueue}
  {buf : List UInt8} {todo : Nat → Prop} {acked : Prop} {hand : List Fetched}

def SubmissionQueue.hasWork (sq : SubmissionQueue) : Prop := sq.head ≠ sq.tailDoorbell

/-- The next entry of a queue is in memory that is readable. -/
def Sys.entryReadable (s : Sys) (sq : SubmissionQueue) : Bool :=
  s.path.mem.readable (sq.base + sq.head * sqEntrySize) sqEntrySize

/-- Why a queue with work is not drained. -/
def Blocked (s : Sys) (sq : SubmissionQueue) : Prop :=
  s.ctrl.csts &&& cstsShstMask ≠ 0 ∨ s.ctrl.cqHasSpace sq.cqid = false ∨ s.entryReadable sq = false

/-! ## What handling a command leaves alone -/

/-- Commands that complete to queue `x` were handled. -/
structure Frame (x : Nat) (s s' : Sys) : Prop where
  sqs : s'.ctrl.sqs = s.ctrl.sqs
  csts : s'.ctrl.csts = s.ctrl.csts
  births : s'.ctrl.births = s.ctrl.births
  cqs : ∀ i ≠ x, slot s'.ctrl.cqs i = slot s.ctrl.cqs i
  slots : ∀ i ≠ x, s'.ctrl.flushReservedSlots i = s.ctrl.flushReservedSlots i
  log : s.log <:+ s'.log
  backing : s.path.SameBacking s'.path

namespace Frame

theorem refl (x : Nat) (s : Sys) : Frame x s s :=
  ⟨rfl, rfl, rfl, fun _ _ => rfl, fun _ _ => rfl, List.suffix_refl _, .refl _⟩

theorem trans (h₁ : Frame x s₁ s₂) (h₂ : Frame x s₂ s₃) : Frame x s₁ s₃ :=
  ⟨h₂.sqs.trans h₁.sqs, h₂.csts.trans h₁.csts, h₂.births.trans h₁.births,
    fun i hi => (h₂.cqs i hi).trans (h₁.cqs i hi), fun i hi => (h₂.slots i hi).trans (h₁.slots i hi),
    h₁.log.trans h₂.log,
    h₁.backing.trans h₂.backing⟩

theorem kept (x : Nat) (h : Kept s s') : Frame x s s' := by
  refine ⟨h.queues.sqs, h.queues.csts, h.queues.births, fun i _ => ?_, fun i _ => ?_, ?_, h.backing⟩
  · rw [h.queues.cqs]
  · rw [NvmeController.flushReservedSlots, h.flushReserved]
    rfl
  · exact h.log ▸ List.suffix_refl s.log

theorem held {ctrl : NvmeController} (s : Sys) (x : Nat) (hsqs : ctrl.sqs = s.ctrl.sqs) (hcqs : ctrl.cqs = s.ctrl.cqs)
    (hcsts : ctrl.csts = s.ctrl.csts) (hbirths : ctrl.births = s.ctrl.births)
    (hreserved : ctrl.flushReserved = s.ctrl.flushReserved) : Frame x s
      { s with ctrl := ctrl.holdCompletionSlot x } := by
  refine ⟨hsqs, hcsts, hbirths, fun i _ => ?_, fun i hi => ?_, List.suffix_refl _, .refl _⟩
  · show slot ctrl.cqs i = _
    rw [hcqs]
  · show (ctrl.holdCompletionSlot x).flushReservedSlots i = _
    rw [holdCompletionSlot_slots, if_neg (Ne.symm hi), NvmeController.flushReservedSlots, hreserved]
    rfl

theorem deferFlush (s : Sys) (c : Fetched) : Frame c.cqid s (s.deferFlush c).2 := by
  obtain ⟨s', ⟨heq, hkept⟩ | ⟨s₁, jobs, job, heq, -, hkept, -, hjob, rfl⟩⟩ := deferFlush_cases s c
  · rw [heq]
    exact .kept _ hkept
  · rw [heq]
    subst hjob
    exact (Frame.kept _ hkept).trans (.held s₁ _ rfl rfl rfl rfl rfl)

theorem deferIo (s : Sys) (c : Fetched) : Frame c.cqid s (s.deferIo c).2 := by
  obtain heq | ⟨job, heq, -, hjob⟩ := deferIo_cases s c
  · rw [heq]
    exact .refl _ s
  · rw [heq]
    subst hjob
    exact .held s _ rfl rfl rfl rfl rfl

theorem post (s : Sys) (c : Fetched) (status : Nat) : Frame c.cqid s (s.postCompletion c status) := by
  unfold postCompletion
  dsimp only
  split
  · exact ⟨rfl, rfl, rfl, fun _ _ => rfl, fun _ _ => rfl, List.suffix_cons _ _, .refl _⟩
  · rename_i cq hcq
    split
    · exact ⟨rfl, rfl, rfl, fun _ _ => rfl, fun _ _ => rfl, List.suffix_cons _ _, .refl _⟩
    · rename_i mem hwrite
      refine ⟨rfl, rfl, rfl, fun i hi => ?_, fun _ _ => rfl, List.suffix_cons _ _, ?_⟩
      · exact (slot_putSlot _ _ _ _).trans (if_neg hi)
      · have hback := @writeBytes_backing s.path.mem (cq.base + cq.tail * cqEntrySize)
          (completionEntry s.ctrl.lastFeatureResult
            (((slot s.ctrl.sqs c.sqid).map SubmissionQueue.head).getD 0) c.sqid c.cmd.commandId status cq.phase)
        rw [hwrite] at hback
        exact hback

theorem recorded (x : Nat) (s : Sys) (e : Event) : Frame x s (s.record e) :=
  ⟨rfl, rfl, rfl, fun _ _ => rfl, fun _ _ => rfl, List.suffix_cons _ _, .refl _⟩

theorem executeForIo (hio : c.sqid ≠ 0) : Frame c.cqid s (s.execute c) := by
  unfold Sys.execute
  split
  · unfold executeSyncedWrite
    have hdata : Frame c.cqid s (s.onPath fun d => d.ioWriteData c.cmd).2 :=
      .kept _ (onPath_kept s fun d => d.ioWriteData_backing c.cmd)
    cases hwrite : s.onPath fun d => d.ioWriteData c.cmd with
    | mk status s₁ =>
      rw [hwrite] at hdata
      dsimp only
      by_cases hok : status = scSuccess
      · rw [if_pos hok]
        have hdefer := Frame.deferFlush s₁ c
        cases hd : s₁.deferFlush c with
        | mk deferred s₂ =>
          rw [hd] at hdefer
          cases deferred with
          | true => exact hdata.trans hdefer
          | false =>
            exact hdata.trans (hdefer.trans ((Frame.kept _ (onPath_kept s₂ fun d => d.ioFlush_backing c.cmd)).trans
              (.post _ c _)))
      · rw [if_neg hok]
        exact hdata.trans (.post s₁ c status)
  · have hkept : Frame c.cqid s (s.executeIo c.cmd).2 := .kept _ (executeIo_kept s c.cmd)
    cases hx : s.executeIo c.cmd with
    | mk status s' =>
      rw [hx] at hkept
      exact hkept.trans (.post s' c status)

theorem handle (hio : c.sqid ≠ 0) : Frame c.cqid s (s.handle c) := by
  unfold Sys.handle
  have hflush : Frame c.cqid s (if c.cmd.opcode = nvmOpFlush then s.deferFlush c else (false, s)).2 := by
    split
    · exact .deferFlush s c
    · exact .refl _ s
  cases hf : if c.cmd.opcode = nvmOpFlush then s.deferFlush c else (false, s) with
  | mk deferred s₁ =>
    rw [hf] at hflush
    cases deferred with
    | true => exact hflush
    | false =>
      have hdefer := Frame.deferIo s₁ c
      dsimp only
      rw [if_pos hio]
      cases hd : s₁.deferIo c with
      | mk deferred s₂ =>
        rw [hd] at hdefer
        cases deferred with
        | true => exact hflush.trans hdefer
        | false => exact hflush.trans (hdefer.trans (.executeForIo hio))

end Frame

/-! ## What blocks stays blocked -/

theorem entryReadable_of_backing (h : s.path.SameBacking s'.path) (sq : SubmissionQueue) :
    s'.entryReadable sq = s.entryReadable sq := by
  rw [entryReadable, entryReadable, h.1]

theorem cqHasSpace_congr {ctrl ctrl' : NvmeController} (hcq : slot ctrl'.cqs x = slot ctrl.cqs x)
    (hslots : ctrl'.flushReservedSlots x = ctrl.flushReservedSlots x) : ctrl'.cqHasSpace x = ctrl.cqHasSpace x := by
  rw [NvmeController.cqHasSpace, NvmeController.cqHasSpace, hcq, hslots]

/-- Draining queue `j`, which completes to queue `x`, leaves the other queues. -/
structure QueueFrame (j x : Nat) (s s' : Sys) : Prop where
  others : ∀ i ≠ j, slot s'.ctrl.sqs i = slot s.ctrl.sqs i
  own : ∀ sq', slot s'.ctrl.sqs j = some sq' → ∃ sq, slot s.ctrl.sqs j = some sq ∧ sq'.born = sq.born
  csts : s'.ctrl.csts = s.ctrl.csts
  births : s'.ctrl.births = s.ctrl.births
  cqs : ∀ i ≠ x, slot s'.ctrl.cqs i = slot s.ctrl.cqs i
  slots : ∀ i ≠ x, s'.ctrl.flushReservedSlots i = s.ctrl.flushReservedSlots i
  log : s.log <:+ s'.log
  backing : s.path.SameBacking s'.path

namespace QueueFrame

theorem refl (j x : Nat) (s : Sys) : QueueFrame j x s s :=
  ⟨fun _ _ => rfl, fun sq' h => ⟨sq', h, rfl⟩, rfl, rfl, fun _ _ => rfl, fun _ _ => rfl,
    List.suffix_refl _, .refl _⟩

theorem trans (h₁ : QueueFrame j x s₁ s₂) (h₂ : QueueFrame j x s₂ s₃) : QueueFrame j x s₁ s₃ := by
  refine ⟨fun i hi => (h₂.others i hi).trans (h₁.others i hi), fun sq' hsq' => ?_, h₂.csts.trans h₁.csts,
    h₂.births.trans h₁.births, fun i hi => (h₂.cqs i hi).trans (h₁.cqs i hi),
    fun i hi => (h₂.slots i hi).trans (h₁.slots i hi), h₁.log.trans h₂.log, h₁.backing.trans h₂.backing⟩
  obtain ⟨sq, hsq, hborn⟩ := h₂.own sq' hsq'
  obtain ⟨sq₀, hsq₀, hborn₀⟩ := h₁.own sq hsq
  exact ⟨sq₀, hsq₀, hborn.trans hborn₀⟩

theorem of_frame (j : Nat) (h : Frame x s s') : QueueFrame j x s s' :=
  ⟨fun i _ => by rw [h.sqs], fun sq' hsq' => ⟨sq', h.sqs ▸ hsq', rfl⟩, h.csts, h.births, h.cqs, h.slots, h.log,
    h.backing⟩

theorem fetch (hsq : slot s.ctrl.sqs j = some sq) (x : Nat) (buf : List UInt8) :
    QueueFrame j x s (s.fetch j sq buf).2 := by
  refine ⟨fun i hi => ?_, fun sq' hsq' => ?_, rfl, rfl, fun _ _ => rfl, fun _ _ => rfl,
    List.suffix_cons _ _, .refl _⟩
  · exact (slot_putSlot _ _ _ _).trans (if_neg hi)
  · change slot (putSlot s.ctrl.sqs j _) j = some sq' at hsq'
    rw [slot_putSlot, if_pos rfl] at hsq'
    cases hsq'
    exact ⟨sq, hsq, rfl⟩

end QueueFrame

theorem round_frame (hj : j ≠ 0) (sq : SubmissionQueue) (buf : List UInt8) :
    Frame sq.cqid (s.fetch j sq buf).2 ((s.fetch j sq buf).2.handle (s.fetch j sq buf).1).othersTurn :=
  (Frame.handle (c := (s.fetch j sq buf).1) hj).trans (.kept _ (othersTurn_kept _))

theorem round_own (hj : j ≠ 0) (sq : SubmissionQueue) (buf : List UInt8) :
    slot ((s.fetch j sq buf).2.handle (s.fetch j sq buf).1).othersTurn.ctrl.sqs j = some (Inv.advanced sq) := by
  rw [(round_frame hj sq buf).sqs]
  exact (slot_putSlot _ _ _ _).trans (if_pos rfl)

theorem processSqLoop_frame (hj : j ≠ 0) (hsq : slot s.ctrl.sqs j = some sq) (rounds : Nat) :
    QueueFrame j sq.cqid s (processSqLoop j rounds s) := by
  induction rounds generalizing s sq with
  | zero => exact .refl _ _ s
  | succ rounds ih =>
    unfold processSqLoop
    cases hnext : s.nextEntry j with
    | none => exact .refl _ _ s
    | some next =>
      obtain ⟨sq', buf⟩ := next
      obtain ⟨hsq', -⟩ := Inv.nextEntry_some hnext
      rw [hsq] at hsq'
      cases hsq'
      have hrest := ih (round_own (s := s) hj sq buf)
      exact (QueueFrame.fetch hsq sq.cqid buf).trans ((QueueFrame.of_frame j (round_frame hj sq buf)).trans hrest)

theorem processSqLoop_none (hsq : slot s.ctrl.sqs j = none) (rounds : Nat) : processSqLoop j rounds s = s := by
  cases rounds with
  | zero => rfl
  | succ rounds =>
    unfold processSqLoop nextEntry
    rw [hsq]
    rfl

theorem processSqLoop_idle (hsq : slot s.ctrl.sqs j = some sq)
    (hidle : sq.head = sq.tailDoorbell ∨ s.ctrl.cqHasSpace sq.cqid = false) (rounds : Nat) :
    processSqLoop j rounds s = s := by
  cases rounds with
  | zero => rfl
  | succ rounds =>
    unfold processSqLoop nextEntry
    rw [hsq, Option.bind_some, if_pos (hidle.imp_right fun hspace => by rw [hspace]; rfl)]

/-! ## A drained queue is blocked -/

theorem blocked_of_nextEntry (hsq : slot s.ctrl.sqs j = some sq) (hwork : sq.hasWork) (hnext : s.nextEntry j = none) :
    Blocked s sq := by
  unfold nextEntry at hnext
  rw [hsq, Option.bind_some] at hnext
  split at hnext
  · rename_i hstop
    rcases hstop with hidle | hspace
    · exact absurd hidle hwork
    · exact .inr (.inl (by simpa using hspace))
  · unfold GuestMemory.readBytes at hnext
    split at hnext
    · cases hnext
    · rename_i hunreadable
      exact .inr (.inr (by simpa [entryReadable] using hunreadable))

theorem ringDist_advanced {sq : SubmissionQueue} (hhead : sq.head < sq.size) (htail : sq.tailDoorbell < sq.size)
    (hwork : sq.hasWork) : ringDist sq.size (Inv.advanced sq).head sq.tailDoorbell + 1 =
      ringDist sq.size sq.head sq.tailDoorbell := by
  have hpos : ringDist sq.size sq.head sq.tailDoorbell ≠ 0 := fun hzero => hwork (ringDist_eq_zero hhead htail hzero)
  have hmoved : ringDist sq.size ((sq.head + 1) % sq.size) sq.tailDoorbell = _ :=
    ringDist_add_head hhead htail (Nat.one_le_iff_ne_zero.2 hpos)
  rw [Inv.advanced]
  dsimp only
  omega

theorem Sys.AdminStep.sqZero (h : AdminStep s s') : slot s'.ctrl.sqs 0 = slot s.ctrl.sqs 0 := by
  cases h with
  | kept hk => rw [hk.queues.sqs]
  | addCq qid cq hqid hle hnone hnew => rfl
  | addSq qid sq hqid hle hnone hnew => exact (slot_putSlot _ _ _ _).trans (if_neg (Ne.symm hqid))
  | removeSq qid hqid => exact (slot_clearSlot _ _ _).trans (if_neg (Ne.symm hqid))
  | removeCq qid hqid hunused => rfl

theorem handle_admin_frame (hadmin : c.sqid = 0) :
    ∃ s₁, AdminStep s s₁ ∧ Frame c.cqid s₁ (s.handle c) := by
  rw [handle_admin hadmin]
  unfold Sys.execute
  rw [if_neg (fun hsync => hsync.1 hadmin), if_pos hadmin]
  have hstep := executeAdmin_step s c.cmd
  cases hx : s.executeAdmin c.cmd with
  | mk result s' =>
    rw [hx] at hstep
    refine ⟨s', hstep, ?_⟩
    dsimp only
    split
    · exact .post s' c _
    · exact .recorded _ s' _

theorem round_sq (sq : SubmissionQueue) (buf : List UInt8) :
    slot ((s.fetch j sq buf).2.handle (s.fetch j sq buf).1).othersTurn.ctrl.sqs j = some (Inv.advanced sq) := by
  by_cases hj : j = 0
  · subst hj
    rw [(othersTurn_kept _).queues.sqs]
    obtain ⟨s₁, hstep, hframe⟩ := handle_admin_frame (s := (s.fetch 0 sq buf).2) (c := (s.fetch 0 sq buf).1) rfl
    rw [hframe.sqs, hstep.sqZero]
    exact (slot_putSlot _ _ _ _).trans (if_pos rfl)
  · exact round_own hj sq buf

/-- Enough rounds leave the queue without work, or blocked. -/
theorem processSqLoop_blocked (rounds : Nat) (hsq : slot s.ctrl.sqs j = some sq) (hhead : sq.head < sq.size)
    (htail : sq.tailDoorbell < sq.size) (hrounds : ringDist sq.size sq.head sq.tailDoorbell ≤ rounds)
    (hsq' : slot (processSqLoop j rounds s).ctrl.sqs j = some sq') (hwork : sq'.hasWork) :
    Blocked (processSqLoop j rounds s) sq' := by
  induction rounds generalizing s sq with
  | zero =>
    rw [processSqLoop, hsq] at hsq'
    cases hsq'
    exact absurd (ringDist_eq_zero hhead htail (Nat.le_zero.1 hrounds)) hwork
  | succ rounds ih =>
    unfold processSqLoop at hsq' ⊢
    cases hnext : s.nextEntry j with
    | none =>
      rw [hnext] at hsq'
      exact blocked_of_nextEntry hsq' hwork hnext
    | some next =>
      obtain ⟨sq₀, buf⟩ := next
      obtain ⟨hsq₀, hwork₀, -⟩ := Inv.nextEntry_some hnext
      rw [hsq] at hsq₀
      cases hsq₀
      rw [hnext] at hsq'
      have hdist := ringDist_advanced hhead htail hwork₀
      exact ih (round_sq sq buf) (Nat.mod_lt _ (Nat.zero_lt_of_lt hhead)) htail
        (by show ringDist sq.size (Inv.advanced sq).head sq.tailDoorbell ≤ rounds; omega) hsq'

theorem processSq_blocked (h : QueuesOk s.ctrl) (hsq' : slot (s.processSq j).ctrl.sqs j = some sq')
    (hwork : sq'.hasWork) :
    Blocked (s.processSq j) sq' := by
  unfold processSq at hsq' ⊢
  cases hsq : slot s.ctrl.sqs j with
  | none =>
    rw [processSqLoop_none hsq, hsq] at hsq'
    cases hsq'
  | some sq =>
    obtain ⟨hhead, htail, -⟩ := h.sqs j sq hsq
    rw [hsq] at hsq'
    exact processSqLoop_blocked _ hsq hhead htail (ringDist_lt (Nat.zero_lt_of_lt hhead)).le hsq' hwork

/-! ## After a drain every queue is blocked -/

/-- Each queue with work is still to be drained, or blocked. -/
def Conserving (todo : Nat → Prop) (s : Sys) : Prop :=
  ∀ i sq, slot s.ctrl.sqs i = some sq → sq.hasWork → todo i ∨ Blocked s sq

theorem Blocked.queueFrame (h : Blocked s sq) (hframe : QueueFrame j x s s')
    (hspace : s.ctrl.cqHasSpace sq.cqid = false → s'.ctrl.cqHasSpace sq.cqid = false) : Blocked s' sq := by
  rcases h with hshutdown | hfull | hunreadable
  · rw [← hframe.csts] at hshutdown
    exact .inl hshutdown
  · exact .inr (.inl (hspace hfull))
  · rw [← entryReadable_of_backing hframe.backing] at hunreadable
    exact .inr (.inr hunreadable)

theorem drainQueue_frame (s : Sys) (j x : Nat) : Frame x (s.processSq j) (s.drainQueue j) := by
  unfold drainQueue
  dsimp only
  split
  · exact .refl _ _
  · exact ⟨rfl, rfl, rfl, fun _ _ => rfl, fun _ _ => rfl, List.suffix_refl _, .refl _⟩

theorem Blocked.drainQueue (h : Blocked (s.processSq j) sq) : Blocked (s.drainQueue j) sq := by
  have hframe := drainQueue_frame s j (sq.cqid + 1)
  refine h.queueFrame (.of_frame j hframe) fun hfull => ?_
  exact (cqHasSpace_congr (hframe.cqs _ (by omega)) (hframe.slots _ (by omega))).trans hfull

/-- Draining an I/O queue: it is blocked then, and what was blocked still is. -/
theorem Conserving.drainIo (h : Conserving todo s) (hqueues : QueuesOk s.ctrl) (hj : j ≠ 0) :
    Conserving (fun i => todo i ∧ i ≠ j) (s.drainQueue j) := by
  intro i sq hsq hwork
  rw [(drainQueue_frame s j 0).sqs] at hsq
  by_cases hi : i = j
  · subst hi
    exact .inr (processSq_blocked hqueues hsq hwork).drainQueue
  · cases hown : slot s.ctrl.sqs j with
    | none =>
      have hsame : s.processSq j = s := processSqLoop_none hown _
      rw [hsame] at hsq
      exact (h i sq hsq hwork).imp (fun htodo => ⟨htodo, hi⟩) fun hblocked =>
        Blocked.drainQueue (by rw [hsame]; exact hblocked)
    | some sqj =>
      have hframe : QueueFrame j sqj.cqid s (s.processSq j) := processSqLoop_frame hj hown _
      rw [hframe.others i hi] at hsq
      refine (h i sq hsq hwork).imp (fun htodo => ⟨htodo, hi⟩) fun hblocked => ?_
      refine (hblocked.queueFrame hframe fun hfull => ?_).drainQueue
      by_cases hx : sq.cqid = sqj.cqid
      · have hsame : s.processSq j = s := processSqLoop_idle hown (.inr (hx ▸ hfull)) _
        rw [hsame]
        exact hfull
      · exact (cqHasSpace_congr (hframe.cqs _ hx) (hframe.slots _ hx)).trans hfull

theorem conserving_drainIo (idx : Nat) (bits : List Nat) (h : Conserving todo s) (hinv : Inv acked s [])
    (hio : ∀ bit ∈ bits, idx * 64 + bit ≠ 0) :
    Conserving (fun i => todo i ∧ ∀ bit ∈ bits, i ≠ idx * 64 + bit)
      (bits.foldl (fun s bit => s.drainQueue (idx * 64 + bit)) s) := by
  induction bits generalizing s todo with
  | nil => exact fun i sq hsq hwork => (h i sq hsq hwork).imp_left fun htodo => ⟨htodo, nofun⟩
  | cons bit bits ih =>
    obtain ⟨hbit, hbits⟩ := List.forall_mem_cons.1 hio
    have hrest := ih (h.drainIo hinv.queues hbit) (QueueInv.drainQueue ⟨hinv, fun hzero => absurd hzero hbit⟩) hbits
    intro i sq hsq hwork
    refine (hrest i sq hsq hwork).imp_left fun htodo => ⟨htodo.1.1, fun b hb => ?_⟩
    rcases List.mem_cons.1 hb with rfl | hb
    · exact htodo.1.2
    · exact htodo.2 b hb

theorem conserving_drainWords (h : Conserving (fun _ => False) s) (hinv : Inv acked s []) (words : Nat) {idx : Nat}
    (hidx : idx ≠ 0) : Conserving (fun _ => False) (drainWords words idx s) := by
  induction words generalizing s idx with
  | zero => exact h
  | succ words ih =>
    unfold drainWords
    split
    · have hio : ∀ bit ∈ setBits (entry 0 s.ctrl.pendingSqBits idx), idx * 64 + bit ≠ 0 := fun bit _ => by omega
      refine ih ?_ (hinv.drainIo hio) (Nat.succ_ne_zero idx)
      exact fun i sq hsq hwork => (conserving_drainIo _ _ h hinv hio i sq hsq hwork).imp_left And.left
    · exact h

theorem Sys.AdminStep.hasWork (h : AdminStep s s') (hsq : slot s'.ctrl.sqs i = some sq) (hwork : sq.hasWork) :
    slot s.ctrl.sqs i = some sq := by
  cases h with
  | kept hk => exact hk.queues.sqs ▸ hsq
  | addCq qid cq hqid hle hnone hnew => exact hsq
  | addSq qid sq' hqid hle hnone hnew =>
    change slot (putSlot s.ctrl.sqs qid sq') i = some sq at hsq
    rw [slot_putSlot] at hsq
    split at hsq
    · cases hsq
      exact absurd (hnew.headZero.trans hnew.tailZero.symm) hwork
    · exact hsq
  | removeSq qid hqid =>
    change slot (clearSlot s.ctrl.sqs qid) i = some sq at hsq
    rw [slot_clearSlot] at hsq
    split at hsq
    · cases hsq
    · exact hsq
  | removeCq qid hqid hunused => exact hsq

/-- Only the admin queue's head moves while its commands run. -/
theorem adminLoop_hasWork (rounds : Nat) (hi : i ≠ 0) (hsq : slot (processSqLoop 0 rounds s).ctrl.sqs i = some sq)
    (hwork : sq.hasWork) : slot s.ctrl.sqs i = some sq := by
  induction rounds generalizing s with
  | zero => exact hsq
  | succ rounds ih =>
    unfold processSqLoop at hsq
    cases hnext : s.nextEntry 0 with
    | none =>
      rw [hnext] at hsq
      exact hsq
    | some next =>
      obtain ⟨sq₀, buf⟩ := next
      rw [hnext] at hsq
      have hround : slot ((s.fetch 0 sq₀ buf).2.handle (s.fetch 0 sq₀ buf).1).othersTurn.ctrl.sqs i = some sq :=
        ih hsq
      rw [(othersTurn_kept _).queues.sqs] at hround
      obtain ⟨s₁, hstep, hframe⟩ :=
        handle_admin_frame (s := (s.fetch 0 sq₀ buf).2) (c := (s.fetch 0 sq₀ buf).1) rfl
      rw [hframe.sqs] at hround
      have hfetch := hstep.hasWork hround hwork
      exact ((slot_putSlot _ _ _ _).trans (if_neg hi)).symm.trans hfetch

theorem conserving_drainAdmin (h : ∀ i sq, slot s.ctrl.sqs i = some sq → sq.hasWork → todo i)
    (hqueues : QueuesOk s.ctrl) :
    Conserving (fun i => todo i ∧ i ≠ 0) (s.drainQueue 0) := by
  intro i sq hsq hwork
  rw [(drainQueue_frame s 0 0).sqs] at hsq
  by_cases hi : i = 0
  · subst hi
    exact .inr (processSq_blocked hqueues hsq hwork).drainQueue
  · exact .inl ⟨h i sq (adminLoop_hasWork _ hi hsq hwork) hwork, hi⟩

theorem QueuesOk.mem_setBits {ctrl : NvmeController} (h : QueuesOk ctrl) (hsq : slot ctrl.sqs i = some sq)
    (hwork : sq.hasWork) : i ∈ setBits (entry 0 ctrl.pendingSqBits 0) := by
  obtain ⟨-, -, -, hle, -, hpend⟩ := h.sqs i sq hsq
  have hbit := hpend hwork
  rw [maxIoQueuePairs] at hle
  rw [NvmeController.sqPending, show i / 64 = 0 by omega, show i % 64 = i by omega] at hbit
  exact Lib.mem_setBits.2 hbit

theorem conserving_drain (hinv : Inv acked s [])
    (hidle : s.ctrl.sqPending 0 = true → s.outstanding = []) :
    Conserving (fun _ => False) (drainWords s.ctrl.pendingSqBits.length 0 s) := by
  have htodo : ∀ i sq, slot s.ctrl.sqs i = some sq → sq.hasWork →
    i ∈ setBits (entry 0 s.ctrl.pendingSqBits 0) :=
    fun i sq hsq hwork => hinv.queues.mem_setBits hsq hwork
  cases hwords : s.ctrl.pendingSqBits.length with
  | zero =>
    intro i sq hsq hwork
    have hmem := htodo i sq hsq hwork
    rw [List.length_eq_zero_iff.1 hwords] at hmem
    exact absurd (Lib.mem_setBits.1 hmem) (by simp [entry])
  | succ words =>
    unfold drainWords
    split
    · have hword := hinv.drainWord (entry 0 s.ctrl.pendingSqBits 0) 0 fun _ hbit => hidle hbit
      refine conserving_drainWords ?_ hword words Nat.one_ne_zero
      have hpairwise := pairwise_setBits (entry 0 s.ctrl.pendingSqBits 0)
      cases hbits : setBits (entry 0 s.ctrl.pendingSqBits 0) with
      | nil =>
        intro i sq hsq hwork
        have hmem := htodo i sq hsq hwork
        rw [hbits] at hmem
        cases hmem
      | cons bit bits =>
        rw [hbits] at hpairwise htodo
        have hlt : ∀ b ∈ bits, bit < b := fun b hb => List.rel_of_pairwise_cons hpairwise hb
        by_cases hzero : bit = 0
        · -- the admin queue first, then the others
          subst hzero
          have hpend : s.ctrl.sqPending 0 = true := Lib.mem_setBits.1 (hbits ▸ List.mem_cons_self)
          have hadmin := conserving_drainAdmin htodo hinv.queues
          have hrest := conserving_drainIo 0 bits hadmin (QueueInv.drainQueue ⟨hinv, fun _ => hidle hpend⟩)
            fun b hb => by have := hlt b hb; omega
          intro i sq hsq hwork
          refine (hrest i sq hsq hwork).imp_left fun hleft => ?_
          rcases List.mem_cons.1 hleft.1.1 with heq | hmem
          · exact hleft.1.2 heq
          · exact hleft.2 i hmem (by omega)
        · have hstart : Conserving (fun i => i ∈ bit :: bits) s :=
            fun i sq hsq hwork => .inl (htodo i sq hsq hwork)
          have hrest := conserving_drainIo 0 (bit :: bits) hstart hinv fun b hb => by
            rcases List.mem_cons.1 hb with rfl | hb
            · omega
            · have := hlt b hb
              omega
          exact fun i sq hsq hwork => (hrest i sq hsq hwork).imp_left fun hleft => hleft.2 i hleft.1 (by omega)
    · rename_i hshutdown
      exact fun i sq _ _ => .inr (.inl hshutdown)

theorem Inv.processInto_blocked (hinv : Inv acked s []) (hsq : slot s.processInto.ctrl.sqs i = some sq)
    (hwork : sq.hasWork) : Blocked s.processInto sq := by
  unfold Sys.processInto at hsq ⊢
  dsimp only at hsq ⊢
  split at hsq
  · rename_i hready
    rw [if_pos hready]
    refine (conserving_drain (hinv.completeFlushes _) (fun hpend => ?_) i sq hsq hwork).resolve_left id
    cases hadmin : s.ctrl.sqPending 0 with
    | true => exact hinv.completeFlushes_wait
    | false =>
      rw [hadmin, NvmeController.sqPending, (completeFlushes_doorbells s _).1] at hpend
      exact absurd (hadmin.symm.trans hpend) Bool.false_ne_true
  · rename_i hcalm
    rw [if_neg hcalm]
    refine (conserving_drain hinv (fun hpend => hinv.outstanding_nil ?_) i sq hsq hwork).resolve_left id
    exact (by simpa [hpend] using hcalm : s.flushesReady = false ∧ s.flushesInFlight = false).2

end BridgeVm.Nvme
