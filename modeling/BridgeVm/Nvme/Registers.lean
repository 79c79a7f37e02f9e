import BridgeVm.Nvme.Drain

/-!
# Register writes, resets and restores

Every operation on the registers keeps the invariant. What is in flight at a reset, a restore or another image is waited
for and dropped: nothing of it is left behind (`Inv.reset`).
-/

namespace BridgeVm.Nvme

open Lib Sys

variable {acked : Prop} {s s' : Sys} {hand : List Fetched} {c : Fetched} {ctrl : NvmeController} {qid : Nat}

/-! ## Status registers -/

theorem QueuesOk.status (h : QueuesOk ctrl) {cc csts : BitVec 32} (hon : ((cc &&& ccEnBit) != 0) = ctrl.enabled) :
    QueuesOk { ctrl with cc := cc, csts := csts } where
  sqs i sq hsq := by
    obtain ⟨hhead, htail, hborn, hle, hadmin, hpend⟩ := h.sqs i sq hsq
    exact ⟨hhead, htail, hborn, hle, hadmin, hpend⟩
  cqs i cq hcq := by
    obtain ⟨hhead, htail, hborn, hle⟩ := h.cqs i cq hcq
    exact ⟨hhead, htail, hborn, hle⟩
  off hoff := h.off (hon.symm.trans hoff)
  maxIoQueues := h.maxIoQueues

namespace Inv

theorem status (h : Inv acked s hand) {cc csts : BitVec 32} (hon : ((cc &&& ccEnBit) != 0) = s.ctrl.enabled) :
    Inv acked { s with ctrl := { s.ctrl with cc := cc, csts := csts } } hand :=
  h.requeued (.inl rfl) rfl rfl rfl rfl (.refl _) (h.queues.status hon)
    (fun c hc => ⟨(h.live c hc).sq, (h.live c hc).cq, (h.live c hc).commandId⟩) h.installed h.rings

theorem processShutdownNotification (h : Inv acked s hand) (value : BitVec 32) :
    Inv acked (s.processShutdownNotification value) hand := by
  unfold Sys.processShutdownNotification
  dsimp only
  split
  · exact h
  · have hflush := h.kept (onPath_kept s fun d => d.flushAllNamespaces_backing)
    exact hflush.status rfl

end Inv

/-! ## Doorbells -/

/-- The guest acknowledges only entries that were posted. -/
def Acknowledges (ctrl : NvmeController) (offset value : Nat) : Prop :=
  (offset - NvmeController.regDoorbellBase) / 4 % 2 = 1 →
    ∀ cq, slot ctrl.cqs ((offset - NvmeController.regDoorbellBase) / 4 / 2) = some cq → value % 2 ^ 16 < cq.size →
      ringDist cq.size cq.head (value % 2 ^ 16) ≤ cq.unread

theorem RingOk.acknowledge {cq : CompletionQueue} {held val : Nat} (h : RingOk cq held) (hhead : cq.head < cq.size)
    (htail : cq.tail < cq.size) (hval : val < cq.size) (hack : ringDist cq.size cq.head val ≤ cq.unread) :
    RingOk { cq with head := val, unread := cq.unread - ringDist cq.size cq.head val } held := by
  obtain ⟨hunread, hroom⟩ := h
  refine ⟨?_, ?_⟩
  · show cq.unread - ringDist cq.size cq.head val = ringDist cq.size val cq.tail
    have hmoved := ringDist_add_head hhead htail (hunread ▸ hack)
    rw [ring_add_dist hhead hval] at hmoved
    rw [hmoved, hunread]
  · show cq.unread - ringDist cq.size cq.head val + held + 1 ≤ cq.size
    omega

namespace Inv

/-- A head doorbell of a completion queue. -/
theorem headDoorbell {cq : CompletionQueue} {val : Nat} (h : Inv acked s hand) (hcq : slot s.ctrl.cqs qid = some cq)
    (hval : val < cq.size) (hack : acked → ringDist cq.size cq.head val ≤ cq.unread) :
    Inv acked { s with ctrl := { s.ctrl with
      cqs := putSlot s.ctrl.cqs qid { cq with head := val, unread := cq.unread - ringDist cq.size cq.head val } }
        } hand := by
  have hother : ∀ i cq', slot (putSlot s.ctrl.cqs qid
      { cq with head := val, unread := cq.unread - ringDist cq.size cq.head val }) i = some cq' →
      i = qid ∧ cq' = { cq with head := val, unread := cq.unread - ringDist cq.size cq.head val } ∨
        slot s.ctrl.cqs i = some cq' := by
    intro i cq' hcq'
    rw [slot_putSlot] at hcq'
    split at hcq'
    · rename_i hi
      cases hcq'
      exact .inl ⟨hi, rfl⟩
    · exact .inr hcq'
  obtain ⟨hhead, htail, hborn, hle⟩ := h.queues.cqs qid cq hcq
  refine h.requeued (.inl rfl) rfl rfl rfl rfl (.refl _) ⟨?_, ?_, ?_, h.queues.maxIoQueues⟩ ?_ ?_ ?_
  · intro i sq hsq
    obtain ⟨hhead, htail, hborn, hle, hadmin, hpend⟩ := h.queues.sqs i sq hsq
    exact ⟨hhead, htail, hborn, hle, hadmin, hpend⟩
  · intro i cq' hcq'
    rcases hother i cq' hcq' with ⟨rfl, rfl⟩ | hold
    · exact ⟨hval, htail, hborn, hle⟩
    · obtain ⟨hhead, htail, hborn, hle⟩ := h.queues.cqs i cq' hold
      exact ⟨hhead, htail, hborn, hle⟩
  · intro hoff
    rw [(h.queues.off hoff qid).2] at hcq
    cases hcq
  · intro c hc
    obtain ⟨hsq, ⟨cq', hcq', hcqBorn⟩, hid⟩ := h.live c hc
    refine ⟨hsq, ?_, hid⟩
    show ∃ cq₁, slot (putSlot s.ctrl.cqs qid _) c.cqid = some cq₁ ∧ cq₁.born = c.cqBorn
    rw [slot_putSlot]
    split
    · rename_i hi
      rw [hi, hcq] at hcq'
      cases hcq'
      exact ⟨_, rfl, hcqBorn⟩
    · exact ⟨cq', hcq', hcqBorn⟩
  · intro i cq' hcq'
    rcases hother i cq' hcq' with ⟨rfl, rfl⟩ | hold
    · exact h.installed i cq hcq
    · exact h.installed i cq' hold
  · intro hacked i cq' hcq'
    rcases hother i cq' hcq' with ⟨rfl, rfl⟩ | hold
    · exact (h.rings hacked i cq hcq).acknowledge hhead htail hval (hack hacked)
    · exact h.rings hacked i cq' hold

/-- A tail doorbell of a submission queue marks the queue pending exactly when it has work. -/
theorem tailDoorbell {sq : SubmissionQueue} {val : Nat} (h : Inv acked s hand) (hsq : slot s.ctrl.sqs qid = some sq)
    (hval : val < sq.size) : Inv acked { s with ctrl :=
      if sq.head ≠ val then
        { s.ctrl with sqs := putSlot s.ctrl.sqs qid { sq with tailDoorbell := val } }.markSqPending qid
      else { s.ctrl with sqs := putSlot s.ctrl.sqs qid { sq with tailDoorbell := val } }.clearSqPending qid } hand := by
  obtain ⟨hhead, -, hborn, hle, hadmin, -⟩ := h.queues.sqs qid sq hsq
  have hon : ¬ s.ctrl.enabled = false := by
    intro hoff
    rw [(h.queues.off hoff qid).1] at hsq
    cases hsq
  have hrun : ∀ bits, (∀ i, i ≠ qid → bitAt bits i = s.ctrl.sqPending i) →
    (sq.head ≠ val → bitAt bits qid = true) →
      Inv acked { s with ctrl := { s.ctrl with
        sqs := putSlot s.ctrl.sqs qid { sq with tailDoorbell := val }, pendingSqBits := bits } } hand := by
    intro bits hothers hself
    refine h.requeued (.inl rfl) rfl rfl rfl rfl (.refl _)
      ⟨?_, ?_, fun hoff => absurd hoff hon, h.queues.maxIoQueues⟩ ?_
      h.installed h.rings
    · intro i sq' hsq'
      change slot (putSlot s.ctrl.sqs qid { sq with tailDoorbell := val }) i = some sq' at hsq'
      rw [slot_putSlot] at hsq'
      split at hsq'
      · rename_i hi
        cases hsq'
        subst hi
        exact ⟨hhead, hval, hborn, hle, hadmin, hself⟩
      · rename_i hi
        obtain ⟨hhead, htail, hborn, hle, hadmin, hpend⟩ := h.queues.sqs i sq' hsq'
        exact ⟨hhead, htail, hborn, hle, hadmin, fun hwork => (hothers i hi).trans (hpend hwork)⟩
    · intro i cq hcq
      obtain ⟨hhead, htail, hborn, hle⟩ := h.queues.cqs i cq hcq
      exact ⟨hhead, htail, hborn, hle⟩
    · intro c hc
      obtain ⟨⟨sq', hsq', hsqBorn, hcqid⟩, hcq, hid⟩ := h.live c hc
      refine ⟨?_, hcq, hid⟩
      show ∃ sq₁, slot (putSlot s.ctrl.sqs qid _) c.sqid = some sq₁ ∧ _
      rw [slot_putSlot]
      split
      · rename_i hi
        rw [hi, hsq] at hsq'
        cases hsq'
        exact ⟨_, rfl, hsqBorn, hcqid⟩
      · exact ⟨sq', hsq', hsqBorn, hcqid⟩
  split
  · refine hrun _ (fun i hi => ?_) fun _ => ?_
    · exact (bitAt_mark qid i).trans (by rw [decide_eq_false hi, Bool.or_false]; rfl)
    · exact (bitAt_mark qid qid).trans (by rw [decide_eq_true rfl, Bool.or_true])
  · rename_i hidle
    refine hrun _ (fun i hi => ?_) fun hwork => absurd hwork hidle
    exact (bitAt_clear qid i).trans (by rw [decide_eq_false hi, Bool.not_false, Bool.and_true]; rfl)

theorem writeDoorbell (h : Inv acked s hand) (offset value : Nat) (hack : acked → Acknowledges s.ctrl offset value) :
    Inv acked { s with ctrl := s.ctrl.writeDoorbell offset value } hand := by
  unfold NvmeController.writeDoorbell
  dsimp only
  split
  · rename_i hodd
    cases hcq : slot s.ctrl.cqs ((offset - NvmeController.regDoorbellBase) / 4 / 2) with
    | none => exact h
    | some cq =>
      dsimp only
      split
      · exact h
      · rename_i hval
        exact h.headDoorbell hcq (Nat.lt_of_not_le hval) fun hacked => hack hacked hodd cq hcq (Nat.lt_of_not_le hval)
  · cases hsq : slot s.ctrl.sqs ((offset - NvmeController.regDoorbellBase) / 4 / 2) with
    | none => exact h
    | some sq =>
      dsimp only
      split
      · exact h
      · rename_i hval
        exact h.tailDoorbell hsq (Nat.lt_of_not_le hval)

end Inv

/-! ## Resets -/

/-- Log entries of rings installed by a restore. -/
def AllInstalled (rings : List Event) : Prop := ∀ e ∈ rings, ∃ base size, e = .cqInstalled base size

namespace AllInstalled

variable {rings log : List Event}

theorem nil : AllInstalled [] := nofun

theorem fetchedIn (h : AllInstalled rings) (log : List Event) : fetchedIn (rings ++ log) = fetchedIn log := by
  induction rings with
  | nil => rfl
  | cons e rings ih =>
    obtain ⟨base, size, rfl⟩ := h e List.mem_cons_self
    exact ih fun e' he' => h e' (List.mem_cons_of_mem _ he')

theorem settledIn (h : AllInstalled rings) (log : List Event) : settledIn (rings ++ log) = settledIn log := by
  induction rings with
  | nil => rfl
  | cons e rings ih =>
    obtain ⟨base, size, rfl⟩ := h e List.mem_cons_self
    exact ih fun e' he' => h e' (List.mem_cons_of_mem _ he')

theorem since_reset (h : AllInstalled rings) {c : Fetched} :
    .fetched c ∉ since Event.isReset (rings ++ .reset :: log) := by
  induction rings with
  | nil => rw [List.nil_append, since_mark rfl]; nofun
  | cons e rings ih =>
    obtain ⟨base, size, rfl⟩ := h e List.mem_cons_self
    rw [List.cons_append, since_event rfl, List.mem_cons, not_or]
    exact ⟨nofun, ih fun e' he' => h e' (List.mem_cons_of_mem _ he')⟩

theorem traced {P : Event → List Event → Prop} (h : AllInstalled rings)
    (hP : ∀ base size log, P (.cqInstalled base size) log) (hlog : Traced P log) : Traced P (rings ++ log) := by
  induction rings with
  | nil => exact hlog
  | cons e rings ih =>
    obtain ⟨base, size, rfl⟩ := h e List.mem_cons_self
    exact ⟨hP _ _ _, ih fun e' he' => h e' (List.mem_cons_of_mem _ he')⟩

theorem old (h : AllInstalled rings) {e : Event} (he : e ∈ rings ++ .reset :: log)
    (hring : ∀ base size, e ≠ .cqInstalled base size)
    (hreset : e ≠ .reset) : e ∈ log := by
  rcases List.mem_append.1 he with hnew | hold
  · obtain ⟨base, size, heq⟩ := h e hnew
    exact absurd heq (hring base size)
  · exact (List.mem_cons.1 hold).elim (fun heq => absurd heq hreset) id

end AllInstalled

namespace Inv

/-- A reset drops what was in flight and in the hand; nothing is left of it. -/
theorem reset {rings : List Event} (h : Inv acked s hand) (hout : s'.outstanding = [])
    (hcount : s'.ctrl.flushWorker.inFlight = 0) (hslots : ∀ qid, s'.ctrl.flushReservedSlots qid = 0)
    (hfetches : s'.ctrl.fetches = s.ctrl.fetches) (hpath : s.path.SameBacking s'.path) (hall : AllInstalled rings)
    (hlog : s'.log = rings ++ .reset :: s.log) (hqueues : QueuesOk s'.ctrl)
    (hinstalled : ∀ qid cq, slot s'.ctrl.cqs qid = some cq → .cqInstalled cq.base cq.size ∈ s'.log)
    (hrings : acked → ∀ qid cq, slot s'.ctrl.cqs qid = some cq → RingOk cq 0) : Inv acked s' [] where
  inFlight := by
    rw [hout]
    exact hcount
  slots qid := by
    rw [hout]
    exact hslots qid
  live := by
    rw [hout]
    nofun
  deferred := by
    rw [hout]
    nofun
  queues := hqueues
  installed := hinstalled
  rings := by
    rw [hout]
    exact hrings
  ledger := by
    obtain ⟨dropped, hperm, -⟩ := h.ledger
    refine ⟨dropped ++ (s.outstanding ++ hand), ?_, fun c _ => ?_⟩
    · rw [hlog, hall.fetchedIn, hall.settledIn, hout, List.append_nil, List.append_nil]
      exact hperm
    · rw [hlog]
      exact hall.since_reset
  current := by
    rw [hout]
    nofun
  nodup := by
    rw [hlog, hall.fetchedIn]
    exact h.nodup
  serials := by
    rw [hlog, hall.fetchedIn, hfetches]
    exact h.serials
  unposted c hc := by
    rw [hlog] at hc ⊢
    obtain ⟨base, size, hring, hbacked⟩ := h.unposted c (hall.old hc nofun nofun)
    exact ⟨base, size, List.mem_append_right _ (List.mem_cons_of_mem _ hring),
      mt (RingBacked.of_backing hpath).1 hbacked⟩
  retained c hc := by
    rw [hlog] at hc
    exact h.retained c (hall.old hc nofun nofun)
  events := by
    rw [hlog]
    exact hall.traced (fun _ _ _ => trivial) ⟨trivial, h.events⟩

end Inv

/-- After `discard_flushes` nothing is in flight, and no slot is held. -/
structure Discarded (acked : Prop) (s s' : Sys) : Prop where
  inv : ∃ taken, Inv acked s' taken
  queues : SameQueues s.ctrl s'.ctrl
  outstanding : s'.outstanding = []
  batches : s'.batches = []

theorem Inv.discardFlushes (h : Inv acked s []) : Discarded acked s s.discardFlushes := by
  obtain ⟨htransfer, hout, -⟩ := takeFinished_wait s
  exact ⟨⟨_, h.takeFinished true⟩, takeFinished_queues s true, hout, htransfer.batches⟩

theorem Inv.noSlots (h : Inv acked s hand) (hout : s.outstanding = []) (qid : Nat) :
    s.ctrl.flushReservedSlots qid = 0 := by
  rw [h.slots, hout]
  rfl

theorem Inv.noCount (h : Inv acked s hand) (hout : s.outstanding = []) : s.ctrl.flushWorker.inFlight = 0 := by
  rw [h.inFlight, hout]
  rfl

theorem QueuesOk.none (hsqs : ctrl.sqs = [none]) (hcqs : ctrl.cqs = [none])
    (hmax : ctrl.maxIoQueues = maxIoQueuePairs) :
    QueuesOk ctrl where
  sqs i sq hsq := by
    rw [hsqs, slot_none] at hsq
    cases hsq
  cqs i cq hcq := by
    rw [hcqs, slot_none] at hcq
    cases hcq
  off _ i := by
    rw [hsqs, hcqs]
    exact ⟨slot_none i, slot_none i⟩
  maxIoQueues := hmax

namespace Inv

theorem dropQueues (h : Inv acked s hand) (hout : s.outstanding = []) (cc : BitVec 32) :
    Inv acked (Sys.dropQueues { s with ctrl := { s.ctrl with cc := cc } }) [] := by
  have hnone : ∀ qid, slot (Sys.dropQueues { s with ctrl := { s.ctrl with cc := cc } }).ctrl.cqs qid = none :=
    fun qid => slot_none qid
  refine h.reset hout (h.noCount hout) (h.noSlots hout) rfl (.refl _) .nil rfl
    (.none rfl rfl h.queues.maxIoQueues) ?_ ?_
  · intro qid cq hcq
    rw [hnone] at hcq
    cases hcq
  · intro _ qid cq hcq
    rw [hnone] at hcq
    cases hcq

theorem replaceController (h : Inv acked s hand) (hbatches : s.batches = []) (disk : DiskBackend)
    (disk2 : Option DiskBackend) : Inv acked (s.replaceController disk disk2) [] := by
  have hnone : ∀ qid, slot (s.replaceController disk disk2).ctrl.cqs qid = none := fun qid => slot_none qid
  refine h.reset ?_ rfl (fun _ => rfl) rfl (.refl _) .nil rfl (.none rfl rfl rfl) ?_ ?_
  · show ([] : List Fetched) ++ ([] ++ ([] ++ s.batches.flatten.map IoJob.command)) = []
    rw [hbatches]
    rfl
  · intro qid cq hcq
    rw [hnone] at hcq
    cases hcq
  · intro _ qid cq hcq
    rw [hnone] at hcq
    cases hcq

theorem resetRegistersKeepDisks (h : Inv acked s []) : Inv acked s.resetRegistersKeepDisks [] := by
  obtain ⟨⟨taken, hinv⟩, -, -, hbatches⟩ := h.discardFlushes
  exact hinv.replaceController hbatches _ _

theorem loadDisk (h : Inv acked s []) (disk : Option DiskBackend) : Inv acked (s.loadDisk disk) [] := by
  obtain ⟨⟨taken, hinv⟩, -, hout, hbatches⟩ := h.discardFlushes
  unfold Sys.loadDisk
  cases disk with
  | some disk => exact hinv.replaceController hbatches _ _
  | none =>
    refine hinv.reset hout (hinv.noCount hout) (hinv.noSlots hout) rfl (.refl _) .nil rfl hinv.queues ?_ ?_
    · exact fun qid cq hcq => List.mem_cons_of_mem _ (hinv.installed qid cq hcq)
    · intro hacked qid cq hcq
      obtain ⟨hunread, hroom⟩ := hinv.rings hacked qid cq hcq
      exact ⟨hunread, by omega⟩

/-! ## CC -/

/-- Enabling installs the admin queues, on a controller that has none. -/
theorem installAdminQueues (h : Inv acked s [])
    (hoff : ∀ qid, slot s.ctrl.sqs qid = none ∧ slot s.ctrl.cqs qid = none)
    {cc : BitVec 32} (hon : (cc &&& ccEnBit) != 0) :
    Inv acked (Sys.installAdminQueues { s with ctrl := { s.ctrl with cc := cc } }) [] := by
  have hnone : ∀ c ∈ s.outstanding ++ [], ∀ ctrl', Live ctrl' c := by
    intro c hc
    obtain ⟨sq, hsq, -⟩ := (h.live c hc).sq
    rw [(hoff c.sqid).1] at hsq
    cases hsq
  have hout : s.outstanding = [] := by
    rw [← List.append_nil s.outstanding]
    refine List.eq_nil_iff_forall_not_mem.2 fun c hc => ?_
    obtain ⟨sq, hsq, -⟩ := (h.live c hc).sq
    rw [(hoff c.sqid).1] at hsq
    cases hsq
  have hsq : ∀ i sq, slot (Sys.installAdminQueues { s with ctrl := { s.ctrl with cc := cc } }).ctrl.sqs i =
    some sq →
      i = 0 ∧ sq.head = 0 ∧ sq.tailDoorbell = 0 ∧ 0 < sq.size ∧ sq.born = s.ctrl.births ∧ sq.cqid = 0 := by
    intro i sq hsq
    unfold Sys.installAdminQueues at hsq
    dsimp only at hsq
    rw [slot_putSlot] at hsq
    split at hsq
    · rename_i hi
      cases hsq
      exact ⟨hi, rfl, rfl, Nat.succ_pos _, rfl, rfl⟩
    · rw [(hoff i).1] at hsq
      cases hsq
  have hcq : ∀ i cq, slot (Sys.installAdminQueues { s with ctrl := { s.ctrl with cc := cc } }).ctrl.cqs i =
    some cq →
      i = 0 ∧ CqNew s.ctrl cq ∧
        .cqInstalled cq.base cq.size ∈ (Sys.installAdminQueues { s with ctrl := { s.ctrl with cc := cc } }).log := by
    intro i cq hcq
    unfold Sys.installAdminQueues at hcq
    dsimp only at hcq
    rw [slot_putSlot] at hcq
    split at hcq
    · rename_i hi
      cases hcq
      exact ⟨hi, ⟨rfl, rfl, Nat.succ_pos _, rfl, rfl⟩, List.mem_cons_self⟩
    · rw [(hoff i).2] at hcq
      cases hcq
  refine h.requeued (.inr ⟨_, _, rfl⟩) rfl rfl rfl rfl (.refl _) ⟨?_, ?_, ?_, h.queues.maxIoQueues⟩
    (fun c hc => hnone c hc _) (fun i cq hi => (hcq i cq hi).2.2) ?_
  · intro i sq hi
    obtain ⟨rfl, hhead, htail, hsize, hborn, hcqid⟩ := hsq i sq hi
    refine ⟨by omega, by omega, ?_, Nat.zero_le _, fun _ => hcqid,
      fun hwork => absurd (hhead.trans htail.symm) hwork⟩
    rw [hborn]
    exact Nat.lt_succ_self _
  · intro i cq hi
    obtain ⟨rfl, hnew, -⟩ := hcq i cq hi
    refine ⟨?_, ?_, ?_, Nat.zero_le _⟩
    · rw [hnew.headZero]
      exact hnew.sizePos
    · rw [hnew.tailZero]
      exact hnew.sizePos
    · rw [hnew.bornNow]
      exact Nat.lt_succ_self _
  · intro hdisabled
    exact absurd (hdisabled.symm.trans hon) Bool.false_ne_true
  · intro _ i cq hi
    obtain ⟨rfl, hnew, -⟩ := hcq i cq hi
    rw [hout]
    refine ⟨?_, ?_⟩
    · rw [hnew.unreadZero, hnew.headZero, hnew.tailZero, ringDist_self hnew.sizePos]
    · rw [hnew.unreadZero]
      exact hnew.sizePos

theorem writeCc (h : Inv acked s []) (value : BitVec 32) : Inv acked (s.writeCc value) [] := by
  unfold Sys.writeCc
  dsimp only
  apply processShutdownNotification
  cases hnow : (value &&& ccEnBit) != 0 with
  | true =>
    have hwait := h.kept (waitForFlushes_kept s)
    have hsame := (waitForFlushes_kept s).queues
    cases hwas : s.ctrl.enabled with
    | true =>
      simp only [Bool.not_true, Bool.and_false, Bool.false_eq_true, if_false, Bool.false_and]
      exact hwait.status (hnow.trans (hwas.symm.trans hsame.enabled.symm))
    | false =>
      simp only [Bool.not_false, Bool.not_true, Bool.and_false, Bool.false_eq_true, if_false, Bool.and_true, if_true]
      refine hwait.installAdminQueues (fun qid => ?_) hnow
      rw [hsame.sqs, hsame.cqs]
      exact h.queues.off hwas qid
  | false =>
    cases hwas : s.ctrl.enabled with
    | true =>
      simp only [Bool.not_false, Bool.not_true, Bool.and_true, if_true, Bool.and_false, Bool.false_eq_true, if_false]
      obtain ⟨⟨taken, hinv⟩, hsame, hout, -⟩ := h.discardFlushes
      exact hinv.dropQueues hout value
    | false =>
      simp only [Bool.not_false, Bool.and_true, Bool.false_eq_true, if_false]
      have hsame := (waitForFlushes_kept s).queues
      exact (h.kept (waitForFlushes_kept s)).status (hnow.trans (hwas.symm.trans hsame.enabled.symm))

theorem mmioWrite (h : Inv acked s []) (offset size value : Nat)
    (hack : acked → NvmeController.isModelledDoorbell offset = true → Acknowledges s.ctrl offset value) :
    Inv acked (s.mmioWrite offset size value) [] := by
  have hset : ∀ ctrl' : NvmeController, SameQueues s.ctrl ctrl' → ctrl'.flushReserved = s.ctrl.flushReserved →
      ctrl'.flushWorker = s.ctrl.flushWorker → Inv acked { s with ctrl := ctrl' } [] := by
    intro ctrl' hsame hreserved hworker
    refine h.kept ⟨hsame, hreserved, congrArg _ hworker, .of_eq ?_, rfl, .refl _⟩
    rw [outstanding, outstanding, inbox, inbox]
    show _ ++ (ctrl'.flushWorker.finished.map _ ++ (ctrl'.flushWorker.io.map _ ++ _)) = _
    rw [hworker]
  unfold Sys.mmioWrite
  dsimp only
  split
  · exact hset _ ⟨rfl, rfl, rfl, rfl, rfl, rfl, rfl, rfl⟩ rfl rfl
  split
  · exact hset _ ⟨rfl, rfl, rfl, rfl, rfl, rfl, rfl, rfl⟩ rfl rfl
  split
  · exact h.writeCc _
  split
  · exact hset _ ⟨rfl, rfl, rfl, rfl, rfl, rfl, rfl, rfl⟩ rfl rfl
  split
  · exact hset _ ⟨rfl, rfl, rfl, rfl, rfl, rfl, rfl, rfl⟩ rfl rfl
  split
  · exact hset _ ⟨rfl, rfl, rfl, rfl, rfl, rfl, rfl, rfl⟩ rfl rfl
  split
  · exact hset _ ⟨rfl, rfl, rfl, rfl, rfl, rfl, rfl, rfl⟩ rfl rfl
  split
  · exact hset _ ⟨rfl, rfl, rfl, rfl, rfl, rfl, rfl, rfl⟩ rfl rfl
  split
  · rename_i hdoorbell
    exact h.writeDoorbell offset value fun hacked => hack hacked hdoorbell
  · exact h

/-! ## Restores -/

/-- A restored controller has the queues of the snapshot as new instances. -/
theorem restoreState {t : Sys} (h : Inv acked s []) (ht : Inv acked t [])
    (hs : s.restoreState t.snapshotState = some s') :
    Inv acked s' [] := by
  unfold Sys.restoreState at hs
  split at hs
  · cases hs
  obtain ⟨⟨taken, hinv⟩, -, hout, -⟩ := h.discardFlushes
  cases hs
  have hsq : ∀ i sq, slot (t.ctrl.sqs.map (Option.map fun sq => { sq with born := s.discardFlushes.ctrl.births })) i =
    some sq →
      ∃ old, slot t.ctrl.sqs i = some old ∧ sq = { old with born := s.discardFlushes.ctrl.births } := by
    intro i sq hsq
    rw [slot_map] at hsq
    obtain ⟨old, hold, rfl⟩ := Option.map_eq_some_iff.1 hsq
    exact ⟨old, hold, rfl⟩
  have hcq : ∀ i cq, slot (t.ctrl.cqs.map (Option.map fun cq => { cq with born := s.discardFlushes.ctrl.births })) i =
    some cq →
      ∃ old, slot t.ctrl.cqs i = some old ∧ cq = { old with born := s.discardFlushes.ctrl.births } := by
    intro i cq hcq
    rw [slot_map] at hcq
    obtain ⟨old, hold, rfl⟩ := Option.map_eq_some_iff.1 hcq
    exact ⟨old, hold, rfl⟩
  refine hinv.reset hout (hinv.noCount hout) (hinv.noSlots hout) rfl (.refl _) ?_ rfl ⟨?_, ?_, ?_,
    ht.queues.maxIoQueues⟩
    ?_ ?_
  · intro e he
    obtain ⟨cq, -, hcq⟩ := List.mem_filterMap.1 he
    obtain ⟨cq, -, rfl⟩ := Option.map_eq_some_iff.1 hcq
    exact ⟨_, _, rfl⟩
  · intro i sq hi
    obtain ⟨old, hold, rfl⟩ := hsq i sq hi
    obtain ⟨hhead, htail, -, hle, hadmin, hpend⟩ := ht.queues.sqs i old hold
    exact ⟨hhead, htail, Nat.lt_succ_self _, hle, hadmin, hpend⟩
  · intro i cq hi
    obtain ⟨old, hold, rfl⟩ := hcq i cq hi
    obtain ⟨hhead, htail, -, hle⟩ := ht.queues.cqs i old hold
    exact ⟨hhead, htail, Nat.lt_succ_self _, hle⟩
  · intro hoff i
    obtain ⟨hsqNone, hcqNone⟩ := ht.queues.off hoff i
    refine ⟨?_, ?_⟩
    · show slot (t.ctrl.sqs.map _) i = none
      rw [slot_map, hsqNone]
      rfl
    · show slot (t.ctrl.cqs.map _) i = none
      rw [slot_map, hcqNone]
      rfl
  · intro i cq hi
    obtain ⟨old, hold, rfl⟩ := hcq i cq hi
    exact List.mem_append_left _ (List.mem_filterMap.2 ⟨some old, slot_mem hold, rfl⟩)
  · intro hacked i cq hi
    obtain ⟨old, hold, rfl⟩ := hcq i cq hi
    obtain ⟨hunread, hroom⟩ := ht.rings hacked i old hold
    exact ⟨hunread, by show old.unread + 0 + 1 ≤ old.size; omega⟩

/-! ## One operation -/

theorem restartFlushWorker (h : Inv acked s []) : Inv acked s.restartFlushWorker [] := by
  refine (h.kept (waitForFlushes_kept s)).kept (.of_worker rfl rfl (.of_eq ?_) rfl (.refl _))
  rw [outstanding, outstanding, (waitForFlushes_finished s).inbox]
  rfl

theorem attachSecondNamespace (h : Inv acked s []) (disk2 : Option DiskBackend) :
    Inv acked (s.attachSecondNamespace disk2) [] := by
  unfold Sys.attachSecondNamespace
  cases disk2 with
  | none => exact h.restartFlushWorker
  | some disk2 => exact h.restartFlushWorker.kept (.of_path ⟨rfl, rfl⟩)

end Inv

/-- Completion-queue head doorbells only acknowledge entries that were posted. -/
def ackOp (s : Sys) : Op → Prop
  | .mmioWrite offset _ value => NvmeController.isModelledDoorbell offset = true → Acknowledges s.ctrl offset value
  | _ => True

theorem Sys.setting_kept (s : Sys) (asyncFlush unlockedIo : Bool) :
    Kept s { s with ctrl := { s.ctrl with asyncFlush := asyncFlush, unlockedIo := unlockedIo } } :=
  ⟨⟨rfl, rfl, rfl, rfl, rfl, rfl, rfl, rfl⟩, rfl, rfl, .refl _, rfl, .refl _⟩

theorem Inv.step (h : Inv acked s []) (op : Op) (hack : acked → ackOp s op) : Inv acked (s.step op) [] := by
  cases op with
  | mmioWrite offset size value => exact h.mmioWrite offset size value hack
  | process => exact h.processInto
  | completeFlushes wait => exact h.completeFlushes wait
  | takeIo => exact h.kept (takeIo_kept s)
  | thread a => exact h.kept (threadTurn_kept s a)
  | setAsyncFlush enabled => exact h.kept (setting_kept s enabled s.ctrl.unlockedIo)
  | setUnlockedIo enabled => exact h.kept (setting_kept s s.ctrl.asyncFlush enabled)
  | setDirectDmaEnabled enabled => exact h.kept (.of_path ⟨rfl, rfl⟩)
  | loadDisk disk => exact h.loadDisk disk
  | resetRegistersKeepDisks => exact h.resetRegistersKeepDisks
  | attachSecondNamespace disk2 => exact h.attachSecondNamespace disk2
  | flushDisk => exact h.kept ((waitForFlushes_kept s).trans (hostCall_kept _))

theorem Inv.initial (disk : DiskBackend) (mem : GuestMemory) (hostPtr : Nat → Nat → Bool)
    (host : Nat → HostCall) :
    Inv acked (.initial disk mem hostPtr host) [] where
  inFlight := rfl
  slots _ := rfl
  live := nofun
  deferred := nofun
  queues := .none rfl rfl rfl
  installed qid cq hcq := by
    rw [show (Sys.initial disk mem hostPtr host).ctrl.cqs = [Option.none] from rfl, slot_none] at hcq
    cases hcq
  rings _ qid cq hcq := by
    rw [show (Sys.initial disk mem hostPtr host).ctrl.cqs = [Option.none] from rfl, slot_none] at hcq
    cases hcq
  ledger := ⟨[], .refl _, nofun⟩
  current := nofun
  nodup := .nil
  serials := nofun
  unposted := nofun
  retained := nofun
  events := trivial

theorem Reached.inv {ok : Sys → Op → Prop} (h : Reached ok s) (hack : acked → ∀ s op, ok s op → ackOp s op) :
    Inv acked s [] := by
  induction h with
  | initial disk mem hostPtr host => exact .initial disk mem hostPtr host
  | step _ op hop ih => exact ih.step op fun hacked => hack hacked _ op hop
  | restore _ _ hs ih iht => exact ih.restoreState iht hs

end BridgeVm.Nvme
