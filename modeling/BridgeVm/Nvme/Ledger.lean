import BridgeVm.Nvme.InFlight

/-!
# The ledger of fetched commands

What holds between the operations of the controller, and inside them with the commands that are taken and not settled
yet (`hand`): every command fetched is settled, dropped by a reset, in flight or in the hand; the queues it was fetched
from are still installed; every slot held is held for a command in flight; and no ring is overfull while the guest only
acknowledges what was posted.
-/

namespace BridgeVm.Nvme

open Lib

/-! ## The log -/

def Event.isReset : Event → Bool
  | .reset => true
  | _ => false

def Event.fetchedOf : Event → Option Fetched
  | .fetched c => some c
  | _ => none

def Event.settledOf : Event → Option Fetched
  | .posted c _ _ _ => some c
  | .unposted c => some c
  | .retained c => some c
  | _ => none

def fetchedIn (log : List Event) : List Fetched := log.filterMap Event.fetchedOf

def settledIn (log : List Event) : List Fetched := log.filterMap Event.settledOf

/-- The guest memory of a completion ring is backed. -/
def RingBacked (mem : GuestMemory) (base size : Nat) : Prop :=
  ∀ i < size, mem.writable (base + i * cqEntrySize) cqEntrySize = true

/-- What holds when an entry is posted for `c`: the very queues of `c` are installed, `c` was fetched since the last
reset, the entry names it, and, when `acked`, its place holds no entry the guest has not acknowledged. -/
structure PostOk (acked : Prop) (c : Fetched) (sq : Option SubmissionQueue) (cq : CompletionQueue) (bytes : List UInt8)
    (earlier : List Event) : Prop where
  sqLive : ∃ q, sq = some q ∧ q.born = c.sqBorn ∧ q.cqid = c.cqid
  cqLive : cq.born = c.cqBorn
  fetched : .fetched c ∈ since Event.isReset earlier
  commandId : leField bytes 12 2 = c.cmd.commandId
  sqid : leField bytes 10 2 = c.sqid
  room : acked → cq.head < cq.size ∧ cq.tail < cq.size ∧ cq.unread = ringDist cq.size cq.head cq.tail ∧
    cq.unread + 1 < cq.size

def EventOk (acked : Prop) : Event → List Event → Prop
  | .posted c sq cq bytes, earlier => PostOk acked c sq cq bytes earlier
  | _, _ => True

/-! ## The queues -/

structure SqOk (ctrl : NvmeController) (qid : Nat) (sq : SubmissionQueue) : Prop where
  headLt : sq.head < sq.size
  tailLt : sq.tailDoorbell < sq.size
  bornLt : sq.born < ctrl.births
  qidLe : qid ≤ maxIoQueuePairs
  admin : qid = 0 → sq.cqid = 0
  pending : sq.head ≠ sq.tailDoorbell → ctrl.sqPending qid = true

structure CqOk (ctrl : NvmeController) (qid : Nat) (cq : CompletionQueue) : Prop where
  headLt : cq.head < cq.size
  tailLt : cq.tail < cq.size
  bornLt : cq.born < ctrl.births
  qidLe : qid ≤ maxIoQueuePairs

structure QueuesOk (ctrl : NvmeController) : Prop where
  sqs : ∀ qid sq, slot ctrl.sqs qid = some sq → SqOk ctrl qid sq
  cqs : ∀ qid cq, slot ctrl.cqs qid = some cq → CqOk ctrl qid cq
  off : ctrl.enabled = false → ∀ qid, slot ctrl.sqs qid = none ∧ slot ctrl.cqs qid = none
  maxIoQueues : ctrl.maxIoQueues = maxIoQueuePairs

/-- The queues a command was fetched from are installed. -/
structure Live (ctrl : NvmeController) (c : Fetched) : Prop where
  sq : ∃ sq, slot ctrl.sqs c.sqid = some sq ∧ sq.born = c.sqBorn ∧ sq.cqid = c.cqid
  cq : ∃ cq, slot ctrl.cqs c.cqid = some cq ∧ cq.born = c.cqBorn
  commandId : c.cmd.commandId < 2 ^ 16

/-- A ring with room for `held` more entries; `unread` of its entries are not acknowledged. -/
structure RingOk (cq : CompletionQueue) (held : Nat) : Prop where
  unread : cq.unread = ringDist cq.size cq.head cq.tail
  room : cq.unread + held + 1 ≤ cq.size

/-- The commands among these that complete to queue `qid`. -/
def toQueue (commands : List Fetched) (qid : Nat) : Nat := commands.countP fun c => c.cqid = qid

/-! ## The invariant -/

structure Inv (acked : Prop) (s : Sys) (hand : List Fetched) : Prop where
  inFlight : s.ctrl.flushWorker.inFlight = s.outstanding.length
  slots : ∀ qid, s.ctrl.flushReservedSlots qid = toQueue s.outstanding qid
  live : ∀ c ∈ s.outstanding ++ hand, Live s.ctrl c
  deferred : ∀ c ∈ s.outstanding, c.sqid ≠ 0
  queues : QueuesOk s.ctrl
  installed : ∀ qid cq, slot s.ctrl.cqs qid = some cq → .cqInstalled cq.base cq.size ∈ s.log
  rings : acked → ∀ qid cq, slot s.ctrl.cqs qid = some cq →
    RingOk cq (toQueue s.outstanding qid + toQueue hand qid)
  ledger : ∃ dropped, (fetchedIn s.log).Perm (settledIn s.log ++ (dropped ++ (s.outstanding ++ hand))) ∧
    ∀ c ∈ dropped, .fetched c ∉ since Event.isReset s.log
  current : ∀ c ∈ s.outstanding ++ hand, .fetched c ∈ since Event.isReset s.log
  nodup : (fetchedIn s.log).Nodup
  serials : ∀ c ∈ fetchedIn s.log, c.serial < s.ctrl.fetches
  unposted : ∀ c, .unposted c ∈ s.log → ∃ base size, .cqInstalled base size ∈ s.log ∧
    ¬ RingBacked s.path.mem base size
  retained : ∀ c, .retained c ∈ s.log → c.sqid = 0
  events : Traced (EventOk acked) s.log

variable {acked : Prop} {s s' : Sys} {hand : List Fetched} {c : Fetched} {ctrl ctrl' : NvmeController}

/-! ## Jobs that only moved -/

namespace Sys

theorem SameQueues.sqPending (h : SameQueues ctrl ctrl') (qid : Nat) : ctrl'.sqPending qid = ctrl.sqPending qid := by
  rw [NvmeController.sqPending, NvmeController.sqPending, h.pendingSqBits]

theorem SameQueues.enabled (h : SameQueues ctrl ctrl') : ctrl'.enabled = ctrl.enabled := by
  rw [NvmeController.enabled, NvmeController.enabled, h.cc]

theorem SameQueues.queuesOk (h : SameQueues ctrl ctrl') (hq : QueuesOk ctrl) : QueuesOk ctrl' := by
  refine ⟨fun qid sq hsq => ?_, fun qid cq hcq => ?_, fun hoff qid => ?_, h.maxIoQueues.trans hq.maxIoQueues⟩
  · obtain ⟨hhead, htail, hborn, hqid, hadmin, hpend⟩ := hq.sqs qid sq (h.sqs ▸ hsq)
    exact ⟨hhead, htail, h.births ▸ hborn, hqid, hadmin, fun hne => (h.sqPending qid).trans (hpend hne)⟩
  · obtain ⟨hhead, htail, hborn, hqid⟩ := hq.cqs qid cq (h.cqs ▸ hcq)
    exact ⟨hhead, htail, h.births ▸ hborn, hqid⟩
  · rw [h.sqs, h.cqs]
    exact hq.off (h.enabled ▸ hoff) qid

theorem SameQueues.live (h : SameQueues ctrl ctrl') (hc : Live ctrl c) : Live ctrl' c := by
  refine ⟨?_, ?_, hc.commandId⟩
  · rw [h.sqs]
    exact hc.sq
  · rw [h.cqs]
    exact hc.cq

/-- Commands moved between the hand and the worker, with the slots held for them. -/
structure Moved (s : Sys) (hand : List Fetched) (s' : Sys) (hand' : List Fetched) : Prop where
  queues : SameQueues s.ctrl s'.ctrl
  inFlight : s'.ctrl.flushWorker.inFlight = s'.outstanding.length
  slots : ∀ qid, s'.ctrl.flushReservedSlots qid = toQueue s'.outstanding qid
  commands : (s'.outstanding ++ hand').Perm (s.outstanding ++ hand)
  deferred : ∀ c ∈ s'.outstanding, c.sqid ≠ 0
  log : s'.log = s.log
  backing : s.path.SameBacking s'.path

end Sys

theorem RingBacked.of_backing {mem mem' : GuestMemory} {base size : Nat} (h : mem.SameBacking mem') :
    RingBacked mem' base size ↔ RingBacked mem base size := by
  rw [RingBacked, RingBacked, h.2]

theorem toQueue_append (l l' : List Fetched) (qid : Nat) : toQueue (l ++ l') qid = toQueue l qid + toQueue l' qid :=
  List.countP_append

theorem toQueue_perm {l l' : List Fetched} (h : l.Perm l') (qid : Nat) : toQueue l qid = toQueue l' qid := h.countP_eq _

namespace Inv

open Sys

variable {hand' : List Fetched}

theorem moved (h : Inv acked s hand) (hm : Moved s hand s' hand') : Inv acked s' hand' where
  inFlight := hm.inFlight
  slots := hm.slots
  live c hc := hm.queues.live (h.live c (hm.commands.mem_iff.1 hc))
  deferred := hm.deferred
  queues := hm.queues.queuesOk h.queues
  installed qid cq hcq := by
    rw [hm.log]
    exact h.installed qid cq (hm.queues.cqs ▸ hcq)
  rings hacked qid cq hcq := by
    rw [← toQueue_append, toQueue_perm hm.commands, toQueue_append]
    exact h.rings hacked qid cq (hm.queues.cqs ▸ hcq)
  ledger := by
    obtain ⟨dropped, hperm, hdropped⟩ := h.ledger
    rw [hm.log]
    exact ⟨dropped, hperm.trans ((hm.commands.symm.append_left dropped).append_left _), hdropped⟩
  current c hc := by
    rw [hm.log]
    exact h.current c (hm.commands.mem_iff.1 hc)
  nodup := by rw [hm.log]; exact h.nodup
  serials := by rw [hm.log, hm.queues.fetches]; exact h.serials
  unposted c hc := by
    rw [hm.log] at hc ⊢
    obtain ⟨base, size, hring, hbacked⟩ := h.unposted c hc
    exact ⟨base, size, hring, mt (RingBacked.of_backing hm.backing).1 hbacked⟩
  retained := by rw [hm.log]; exact h.retained
  events := by rw [hm.log]; exact h.events

theorem kept (h : Inv acked s hand) (hk : Kept s s') : Inv acked s' hand := by
  refine h.moved ⟨hk.queues, ?_, fun qid => ?_, hk.outstanding.append_right hand, ?_, hk.log, hk.backing⟩
  · rw [hk.inFlight, hk.outstanding.length_eq, h.inFlight]
  · rw [toQueue_perm hk.outstanding, NvmeController.flushReservedSlots, hk.flushReserved]
    exact h.slots qid
  · exact fun c hc => h.deferred c (hk.outstanding.mem_iff.1 hc)

theorem take (h : Inv acked s hand) : Inv acked s.take.2 (s.take.1.map Finished.command ++ hand) := by
  obtain ⟨hqueues, hslots, hinFlight, hout, hlog, hpath⟩ := take_taken s
  have hlen := hout.length_eq
  rw [List.length_append, List.length_map] at hlen
  refine h.moved ⟨hqueues, ?_, fun qid => ?_, ?_, fun c hc => ?_, hlog, ?_⟩
  · rw [hinFlight, h.inFlight, hlen]
    omega
  · rw [hslots, h.slots, toQueue_perm hout, toQueue_append]
    exact Nat.add_sub_cancel_left _ _
  · rw [← List.append_assoc]
    exact (List.perm_append_comm.trans hout.symm).append_right hand
  · exact h.deferred c (hout.mem_iff.2 (List.mem_append_right _ hc))
  · rw [hpath]
    exact .refl _

end Inv

/-! ## Deferring a command -/

namespace Sys

theorem enqueueFlush_outstanding {jobs : List FlushJob} {job : FlushJob} (h : s.ctrl.flushWorker.jobs = some jobs) :
    (s.enqueueFlush job).outstanding.Perm (job.command :: s.outstanding) := by
  have hinbox : (s.enqueueFlush job).inbox = s.inbox ++ [job] := by
    show (s.ctrl.flushWorker.jobs.map (· ++ [job])).getD [] = s.ctrl.flushWorker.jobs.getD [] ++ [job]
    rw [h]
    rfl
  rw [outstanding, hinbox]
  show (_ ++ (s.ctrl.flushWorker.finished.map Finished.command ++ (s.ctrl.flushWorker.io.map IoJob.command ++
    s.batches.flatten.map IoJob.command))).Perm _
  rw [outstanding, List.perm_iff_count]
  intro c
  simp only [List.map_append, List.map_cons, List.map_nil, List.count_append, List.count_cons, List.count_nil]
  omega

theorem enqueueIo_outstanding (s : Sys) (job : IoJob) :
    (s.enqueueIo job).outstanding.Perm (job.command :: s.outstanding) := by
  have hout : (s.enqueueIo job).outstanding = s.inbox.map FlushJob.command ++
      (s.ctrl.flushWorker.finished.map Finished.command ++ ((s.ctrl.flushWorker.io ++ [job]).map IoJob.command ++
        s.batches.flatten.map IoJob.command)) := rfl
  rw [hout, outstanding, List.perm_iff_count]
  intro c
  simp only [List.map_append, List.map_cons, List.map_nil, List.count_append, List.count_cons, List.count_nil]
  omega

theorem holdCompletionSlot_slots (ctrl : NvmeController) (cqid qid : Nat) :
    (ctrl.holdCompletionSlot cqid).flushReservedSlots qid =
      ctrl.flushReservedSlots qid + if cqid = qid then 1 else 0 := by
  have hone : (ctrl.holdCompletionSlot cqid).flushReservedSlots qid =
      if qid = cqid then ctrl.flushReservedSlots cqid + 1 else ctrl.flushReservedSlots qid :=
    entry_updateEntry 0 _ _ _ _
  rw [hone]
  by_cases h : qid = cqid
  · subst h
    simp
  · simp [h, Ne.symm h]

end Sys

namespace Inv

open Sys

theorem enqueue {worker : FlushWorker} (h : Inv acked s (c :: hand)) (hadmin : c.sqid ≠ 0)
    (hctrl : s'.ctrl = { s.ctrl with flushWorker := worker }.holdCompletionSlot c.cqid)
    (hcount : worker.inFlight = s.ctrl.flushWorker.inFlight + 1) (hout : s'.outstanding.Perm (c :: s.outstanding))
    (hlog : s'.log = s.log) (hpath : s.path.SameBacking s'.path) : Inv acked s' hand := by
  refine h.moved ⟨?_, ?_, fun qid => ?_, ?_, fun c' hc' => ?_, hlog, hpath⟩
  · rw [hctrl]
    exact ⟨rfl, rfl, rfl, rfl, rfl, rfl, rfl, rfl⟩
  · rw [hctrl, hout.length_eq, List.length_cons, ← h.inFlight]
    exact hcount
  · rw [hctrl, holdCompletionSlot_slots, toQueue_perm hout, toQueue, List.countP_cons]
    simp only [decide_eq_true_eq]
    exact congrArg (· + _) (h.slots qid)
  · exact (hout.append_right hand).trans List.perm_middle.symm
  · rcases List.mem_cons.1 (hout.mem_iff.1 hc') with rfl | hc'
    · exact hadmin
    · exact h.deferred c' hc'

end Inv

/-! ## Settling a command -/

/-- Completion queues after one settled: the same instances, each with its own room. -/
structure CqKept (acked : Prop) (cq cq' : CompletionQueue) (held held' : Nat) : Prop where
  base : cq'.base = cq.base
  size : cq'.size = cq.size
  born : cq'.born = cq.born
  headLt : cq.head < cq.size → cq'.head < cq.size
  tailLt : cq.tail < cq.size → cq'.tail < cq.size
  ring : acked → cq.head < cq.size → cq.tail < cq.size → RingOk cq held → RingOk cq' held'

theorem CqKept.same (cq : CompletionQueue) {held held' : Nat} (h : held' ≤ held) : CqKept acked cq cq held held' :=
  ⟨rfl, rfl, rfl, id, id, fun _ _ _ hring => ⟨hring.unread, Nat.le_trans (by omega) hring.room⟩⟩

theorem CqKept.posted (cq : CompletionQueue) {held held' : Nat} (h : held = held' + 1) :
    CqKept acked cq (Sys.CompletionQueue.posted cq) held held' := by
  refine ⟨rfl, rfl, rfl, id, fun htail => Nat.mod_lt _ (Nat.zero_lt_of_lt htail), fun _ hhead htail hring => ?_⟩
  obtain ⟨hunread, hroom⟩ := hring
  refine ⟨?_, ?_⟩
  · show cq.unread + 1 = ringDist cq.size cq.head ((cq.tail + 1) % cq.size)
    rw [ringDist_succ_tail hhead htail (by omega), hunread]
  · show cq.unread + 1 + held' + 1 ≤ cq.size
    omega

/-- The same instances in every slot. -/
def CqsKept (acked : Prop) (cqs cqs' : List (Option CompletionQueue)) (held held' : Nat → Nat) : Prop :=
  ∀ qid, Option.Rel (fun cq cq' => CqKept acked cq cq' (held qid) (held' qid)) (slot cqs qid) (slot cqs' qid)

namespace CqsKept

variable {cqs cqs' : List (Option CompletionQueue)} {held held' : Nat → Nat} {qid : Nat} {cq cq' : CompletionQueue}

theorem same (cqs : List (Option CompletionQueue)) (h : ∀ qid, held' qid ≤ held qid) :
    CqsKept acked cqs cqs held held' := by
  intro qid
  cases slot cqs qid with
  | none => exact .none
  | some cq => exact .some (.same cq (h qid))

theorem posted (hcq : slot cqs qid = some cq) (h : ∀ q, held' q ≤ held q) (hone : held qid = held' qid + 1) :
    CqsKept acked cqs (putSlot cqs qid (Sys.CompletionQueue.posted cq)) held held' := by
  intro q
  rw [slot_putSlot]
  split
  · rename_i hq
    subst hq
    rw [hcq]
    exact .some (.posted cq hone)
  · exact same cqs h q

theorem old (h : CqsKept acked cqs cqs' held held') (hcq : slot cqs' qid = some cq') :
    ∃ cq, slot cqs qid = some cq ∧ CqKept acked cq cq' (held qid) (held' qid) := by
  have hrel := h qid
  rw [hcq] at hrel
  cases hold : slot cqs qid with
  | none => rw [hold] at hrel; cases hrel
  | some cq =>
    rw [hold] at hrel
    cases hrel with
    | some hkept => exact ⟨cq, rfl, hkept⟩

theorem new (h : CqsKept acked cqs cqs' held held') (hcq : slot cqs qid = some cq) :
    ∃ cq', slot cqs' qid = some cq' ∧ CqKept acked cq cq' (held qid) (held' qid) := by
  have hrel := h qid
  rw [hcq] at hrel
  cases hnew : slot cqs' qid with
  | none => rw [hnew] at hrel; cases hrel
  | some cq' =>
    rw [hnew] at hrel
    cases hrel with
    | some hkept => exact ⟨cq', rfl, hkept⟩

theorem eq_none (h : CqsKept acked cqs cqs' held held') (hcq : slot cqs qid = none) : slot cqs' qid = none := by
  have hrel := h qid
  rw [hcq] at hrel
  cases hnew : slot cqs' qid with
  | none => rfl
  | some cq' => rw [hnew] at hrel; cases hrel

theorem live (h : CqsKept acked ctrl.cqs cqs' held held') (hc : Live ctrl c)
    (hctrl : ctrl' = { ctrl with cqs := cqs', lastFeatureResult := ctrl'.lastFeatureResult }) : Live ctrl' c := by
  obtain ⟨hsq, ⟨cq, hcq, hborn⟩, hid⟩ := hc
  obtain ⟨cq', hcq', hkept⟩ := h.new hcq
  rw [hctrl]
  exact ⟨hsq, ⟨cq', hcq', hkept.born.trans hborn⟩, hid⟩

theorem queuesOk (h : CqsKept acked ctrl.cqs cqs' held held') (hq : QueuesOk ctrl)
    (hctrl : ctrl' = { ctrl with cqs := cqs', lastFeatureResult := ctrl'.lastFeatureResult }) : QueuesOk ctrl' := by
  rw [hctrl]
  refine ⟨fun qid sq hsq => ?_, fun qid cq' hcq' => ?_, fun hoff qid => ?_, hq.maxIoQueues⟩
  · obtain ⟨hhead, htail, hborn, hqid, hadmin, hpend⟩ := hq.sqs qid sq hsq
    exact ⟨hhead, htail, hborn, hqid, hadmin, hpend⟩
  · obtain ⟨cq, hcq, hkept⟩ := h.old hcq'
    obtain ⟨hhead, htail, hborn, hqid⟩ := hq.cqs qid cq hcq
    exact ⟨hkept.size ▸ hkept.headLt hhead, hkept.size ▸ hkept.tailLt htail, hkept.born ▸ hborn, hqid⟩
  · exact ⟨(hq.off hoff qid).1, h.eq_none (hq.off hoff qid).2⟩

end CqsKept

namespace Inv

open Sys

variable {e : Event} {hand : List Fetched}

theorem since_cons {log : List Event} (he : e.isReset = false) {e' : Event} :
    e' ∈ since Event.isReset (e :: log) ↔ e' = e ∨ e' ∈ since Event.isReset log := by
  rw [since_event he, List.mem_cons]

theorem perm_settled {fetched settled dropped out : List Fetched}
    (h : fetched.Perm (settled ++ (dropped ++ (out ++ c :: hand)))) :
    fetched.Perm (c :: settled ++ (dropped ++ (out ++ hand))) := by
  refine h.trans (List.perm_iff_count.2 fun c' => ?_)
  simp only [List.count_append, List.count_cons]
  omega

/-- The command in the hand is settled by one event. -/
theorem settled (h : Inv acked s (c :: hand)) (hlog : s'.log = e :: s.log) (hsettled : e.settledOf = some c)
    (hok : EventOk acked e s.log)
    (hunposted : ∀ c, e = .unposted c → ∃ base size, .cqInstalled base size ∈ s.log ∧
      ¬ RingBacked s.path.mem base size)
    (hretained : ∀ c, e = .retained c → c.sqid = 0)
    (hctrl : s'.ctrl = { s.ctrl with cqs := s'.ctrl.cqs, lastFeatureResult := s'.ctrl.lastFeatureResult })
    (hbatches : s'.batches = s.batches) (hpath : s.path.SameBacking s'.path)
    (hcqs : CqsKept acked s.ctrl.cqs s'.ctrl.cqs (fun qid => toQueue s.outstanding qid + toQueue (c :: hand) qid)
      fun qid => toQueue s.outstanding qid + toQueue hand qid) : Inv acked s' hand := by
  have hout : s'.outstanding = s.outstanding := by
    rw [outstanding, inbox, hctrl, hbatches]
    rfl
  have hnotFetched : e.fetchedOf = none := by cases e <;> first | rfl | cases hsettled
  have hnotReset : e.isReset = false := by cases e <;> first | rfl | cases hsettled
  have hfetched : fetchedIn s'.log = fetchedIn s.log := by
    rw [hlog, fetchedIn, List.filterMap_cons, hnotFetched]
    rfl
  have hmem : ∀ c' ∈ s'.outstanding ++ hand, c' ∈ s.outstanding ++ c :: hand := fun c' hc' => by
    rw [hout] at hc'
    exact (List.mem_append.1 hc').elim (List.mem_append_left _) fun h =>
      List.mem_append_right _ (List.mem_cons_of_mem c h)
  refine ⟨?_, ?_, ?_, ?_, hcqs.queuesOk h.queues hctrl, ?_, ?_, ?_, ?_, ?_, ?_, ?_, ?_, ?_⟩
  · rw [hctrl, hout]
    exact h.inFlight
  · rw [hctrl, hout]
    exact h.slots
  · intro c' hc'
    exact hcqs.live (h.live c' (hmem c' hc')) hctrl
  · rw [hout]
    exact h.deferred
  · intro qid cq' hcq'
    obtain ⟨cq, hcq, hkept⟩ := hcqs.old hcq'
    rw [hkept.base, hkept.size, hlog]
    exact List.mem_cons_of_mem e (h.installed qid cq hcq)
  · intro hacked qid cq' hcq'
    obtain ⟨cq, hcq, hkept⟩ := hcqs.old hcq'
    have hok := h.queues.cqs qid cq hcq
    rw [hout]
    exact hkept.ring hacked hok.headLt hok.tailLt (h.rings hacked qid cq hcq)
  · obtain ⟨dropped, hperm, hdropped⟩ := h.ledger
    refine ⟨dropped, ?_, ?_⟩
    · rw [hfetched, hlog, settledIn, List.filterMap_cons, hsettled, hout]
      exact perm_settled hperm
    · intro c' hc'
      rw [hlog, since_cons hnotReset]
      rintro (rfl | hold)
      · cases hnotFetched
      · exact hdropped c' hc' hold
  · intro c' hc'
    rw [hlog, since_cons hnotReset]
    exact .inr (h.current c' (hmem c' hc'))
  · rw [hfetched]
    exact h.nodup
  · rw [hfetched, hctrl]
    exact h.serials
  · intro c' hc'
    rw [hlog] at hc' ⊢
    have hold : ∃ base size, .cqInstalled base size ∈ s.log ∧ ¬ RingBacked s.path.mem base size := by
      rcases List.mem_cons.1 hc' with heq | hold
      · exact hunposted c' heq.symm
      · exact h.unposted c' hold
    obtain ⟨base, size, hring, hbacked⟩ := hold
    exact ⟨base, size, List.mem_cons_of_mem e hring, mt (RingBacked.of_backing hpath).1 hbacked⟩
  · intro c' hc'
    rw [hlog] at hc'
    rcases List.mem_cons.1 hc' with heq | hold
    · exact hretained c' heq.symm
    · exact h.retained c' hold
  · rw [hlog]
    exact ⟨hok, h.events⟩

theorem toQueue_cons (c : Fetched) (l : List Fetched) (qid : Nat) :
    toQueue (c :: l) qid = toQueue l qid + if c.cqid = qid then 1 else 0 := by
  rw [toQueue, List.countP_cons]
  simp only [decide_eq_true_eq]
  rfl

theorem recorded (h : Inv acked s (c :: hand)) (hsettled : e.settledOf = some c) (hok : EventOk acked e s.log)
    (hunposted : ∀ c, e = .unposted c → ∃ base size, .cqInstalled base size ∈ s.log ∧
      ¬ RingBacked s.path.mem base size)
    (hretained : ∀ c, e = .retained c → c.sqid = 0) : Inv acked (s.record e) hand := by
  refine h.settled rfl hsettled hok hunposted hretained rfl rfl (.refl _) (.same _ fun qid => ?_)
  rw [toQueue_cons]
  omega

theorem retain (h : Inv acked s (c :: hand)) (hadmin : c.sqid = 0) : Inv acked (s.record (.retained c)) hand := by
  refine h.recorded rfl trivial nofun fun c' hc' => ?_
  cases hc'
  exact hadmin

theorem completionEntry_ids {dw0 sqHead sqid commandId status : Nat} {phase : Bool} (hsqid : sqid < 2 ^ 16)
    (hcommandId : commandId < 2 ^ 16) :
    leField (completionEntry dw0 sqHead sqid commandId status phase) 12 2 = commandId ∧
      leField (completionEntry dw0 sqHead sqid commandId status phase) 10 2 = sqid := by
  have hslice : ∀ bytes pos n, leField bytes pos n = ofLeBytes (slice bytes pos n) := fun _ _ _ => rfl
  rw [hslice, hslice, completionEntry]
  simp only [List.append_assoc]
  simp (disch := simp) only [slice_skip, slice_head, length_toLeBytes, ofLeBytes_toLeBytes, Nat.reduceSub]
  exact ⟨Nat.mod_eq_of_lt hcommandId, Nat.mod_eq_of_lt hsqid⟩

/-- Posting a completion settles its command. -/
theorem post (h : Inv acked s (c :: hand)) (status : Nat) : Inv acked (s.postCompletion c status) hand := by
  obtain ⟨⟨sq, hsq, hsqBorn, hcqid⟩, ⟨cq, hcq, hcqBorn⟩, hid⟩ :=
    h.live c (List.mem_append_right _ List.mem_cons_self)
  have hcqOk := h.queues.cqs _ cq hcq
  have hsqid : c.sqid < 2 ^ 16 := (h.queues.sqs _ sq hsq).qidLe.trans_lt (by decide)
  unfold postCompletion
  dsimp only
  rw [hcq]
  dsimp only
  cases hwrite : s.path.mem.writeBytes (cq.base + cq.tail * cqEntrySize) (completionEntry s.ctrl.lastFeatureResult
      (((slot s.ctrl.sqs c.sqid).map SubmissionQueue.head).getD 0) c.sqid c.cmd.commandId status cq.phase) with
  | mk mem ok =>
    have hbacking : s.path.mem.SameBacking mem := by
      have := @writeBytes_backing s.path.mem (cq.base + cq.tail * cqEntrySize) (completionEntry s.ctrl.lastFeatureResult
        (((slot s.ctrl.sqs c.sqid).map SubmissionQueue.head).getD 0) c.sqid c.cmd.commandId status cq.phase)
      rw [hwrite] at this
      exact this
    cases ok with
    | false =>
      refine h.settled rfl rfl trivial
        (fun c' hc' => ⟨cq.base, cq.size, h.installed _ cq hcq, fun hbacked => ?_⟩) nofun
        rfl rfl (.refl _) (.same _ fun qid => by rw [toQueue_cons]; omega)
      have hwritable := hbacked cq.tail hcqOk.tailLt
      unfold GuestMemory.writeBytes at hwrite
      split at hwrite
      · cases hwrite
      · rename_i hnot
        exact hnot hwritable
    | true =>
      refine h.settled rfl rfl ⟨⟨sq, hsq, hsqBorn, hcqid⟩, hcqBorn, h.current c (List.mem_append_right _
        List.mem_cons_self), ?_, ?_, fun hacked => ?_⟩ nofun nofun rfl rfl hbacking (.posted hcq (fun qid => ?_) ?_)
      · exact (completionEntry_ids hsqid hid).1
      · exact (completionEntry_ids hsqid hid).2
      · obtain ⟨hunread, hroom⟩ := h.rings hacked _ cq hcq
        rw [toQueue_cons, if_pos rfl] at hroom
        exact ⟨hcqOk.headLt, hcqOk.tailLt, hunread, by omega⟩
      · rw [toQueue_cons]
        omega
      · rw [toQueue_cons, if_pos rfl, Nat.add_assoc]

end Inv

/-! ## Fetching a command -/

namespace Inv

open Sys

variable {qid : Nat} {sq : SubmissionQueue} {buf : List UInt8}

theorem nextEntry_some (h : s.nextEntry qid = some (sq, buf)) : slot s.ctrl.sqs qid = some sq ∧
    sq.head ≠ sq.tailDoorbell ∧ s.ctrl.cqHasSpace sq.cqid = true := by
  unfold nextEntry at h
  cases hsq : slot s.ctrl.sqs qid with
  | none => rw [hsq] at h; cases h
  | some sq' =>
    rw [hsq, Option.bind_some] at h
    split at h
    · cases h
    · rename_i hgo
      obtain ⟨hwork, hspace⟩ := not_or.1 hgo
      cases hread : s.path.mem.readBytes (sq'.base + sq'.head * sqEntrySize) sqEntrySize with
      | none => rw [hread] at h; cases h
      | some bytes =>
        rw [hread] at h
        cases h
        exact ⟨rfl, hwork, by simpa using hspace⟩

theorem cqHasSpace_some {ctrl : NvmeController} {cqid : Nat} (h : ctrl.cqHasSpace cqid = true) :
    ∃ cq, slot ctrl.cqs cqid = some cq ∧
      ringDist cq.size cq.head cq.tail + 1 + ctrl.flushReservedSlots cqid < cq.size := by
  unfold NvmeController.cqHasSpace at h
  cases hcq : slot ctrl.cqs cqid with
  | none => rw [hcq] at h; cases h
  | some cq =>
    rw [hcq] at h
    obtain ⟨hsize, -, -, hspace⟩ := of_decide_eq_true h
    rw [Nat.max_eq_left (by omega)] at hspace
    exact ⟨cq, rfl, hspace⟩

/-- The queue, its head moved on. -/
def advanced (sq : SubmissionQueue) : SubmissionQueue := { sq with head := (sq.head + 1) % sq.size }

theorem fetch_outstanding (s : Sys) (qid : Nat) (sq : SubmissionQueue) (buf : List UInt8) :
    (s.fetch qid sq buf).2.outstanding = s.outstanding := rfl

theorem fetch_live {c : Fetched} (hsq : slot s.ctrl.sqs qid = some sq) (hc : Live s.ctrl c) :
    Live (s.fetch qid sq buf).2.ctrl c := by
  obtain ⟨⟨sq', hsq', hborn, hcqid⟩, hcq, hid⟩ := hc
  refine ⟨?_, hcq, hid⟩
  show ∃ q, slot (putSlot s.ctrl.sqs qid (advanced sq)) c.sqid = some q ∧ _
  rw [slot_putSlot]
  split
  · rename_i heq
    rw [heq, hsq] at hsq'
    cases hsq'
    exact ⟨advanced sq, rfl, hborn, hcqid⟩
  · exact ⟨sq', hsq', hborn, hcqid⟩

theorem fetch_queues (h : QueuesOk s.ctrl) (hsq : slot s.ctrl.sqs qid = some sq) (hwork : sq.head ≠ sq.tailDoorbell) :
    QueuesOk (s.fetch qid sq buf).2.ctrl := by
  obtain ⟨hhead, htail, hborn, hqid, hadmin, hpend⟩ := h.sqs qid sq hsq
  refine ⟨fun i sq' hsq' => ?_, fun i cq hcq => ?_, fun hoff => absurd hsq ?_, h.maxIoQueues⟩
  · change slot (putSlot s.ctrl.sqs qid (advanced sq)) i = some sq' at hsq'
    rw [slot_putSlot] at hsq'
    split at hsq'
    · rename_i hi
      subst hi
      cases hsq'
      exact ⟨Nat.mod_lt _ (Nat.zero_lt_of_lt hhead), htail, hborn, hqid, hadmin, fun _ => hpend hwork⟩
    · obtain ⟨hhead, htail, hborn, hqid, hadmin, hpend⟩ := h.sqs i sq' hsq'
      exact ⟨hhead, htail, hborn, hqid, hadmin, hpend⟩
  · obtain ⟨hhead, htail, hborn, hqid⟩ := h.cqs i cq hcq
    exact ⟨hhead, htail, hborn, hqid⟩
  · rw [(h.off hoff qid).1]
    nofun

/-- A fetched command comes into the hand; a place for its entry is left. -/
theorem fetch (h : Inv acked s []) (hnext : s.nextEntry qid = some (sq, buf)) :
    Inv acked (s.fetch qid sq buf).2 [(s.fetch qid sq buf).1] := by
  obtain ⟨hsq, hwork, hspace⟩ := nextEntry_some hnext
  obtain ⟨cq, hcq, hspace⟩ := cqHasSpace_some hspace
  have hnew : (s.fetch qid sq buf).1 ∉ fetchedIn s.log := fun hmem => Nat.lt_irrefl _ (h.serials _ hmem)
  have hfetched : fetchedIn (s.fetch qid sq buf).2.log = (s.fetch qid sq buf).1 :: fetchedIn s.log := rfl
  have hsettled : settledIn (s.fetch qid sq buf).2.log = settledIn s.log := rfl
  have hlog : (s.fetch qid sq buf).2.log = .fetched (s.fetch qid sq buf).1 :: s.log := rfl
  refine ⟨h.inFlight, h.slots, ?_, h.deferred, fetch_queues h.queues hsq hwork, ?_, ?_, ?_, ?_, ?_, ?_, ?_, ?_,
    ⟨trivial, h.events⟩⟩
  · intro c hc
    rcases List.mem_append.1 hc with hc | hc
    · exact fetch_live hsq (h.live c (List.mem_append_left _ hc))
    · cases List.mem_singleton.1 hc
      refine fetch_live hsq ⟨⟨sq, hsq, rfl, rfl⟩, ⟨cq, hcq, ?_⟩, fromBytes_commandId_lt buf⟩
      show cq.born = ((slot s.ctrl.cqs sq.cqid).map CompletionQueue.born).getD 0
      rw [hcq]
      rfl
  · exact fun i cq hcq => List.mem_cons_of_mem _ (h.installed i cq hcq)
  · intro hacked i cq' hcq'
    obtain ⟨hunread, hroom⟩ := h.rings hacked i cq' hcq'
    refine ⟨hunread, ?_⟩
    rw [fetch_outstanding, toQueue_cons]
    split
    · rename_i hi
      change sq.cqid = i at hi
      subst hi
      rw [show slot s.ctrl.cqs sq.cqid = some cq' from hcq'] at hcq
      cases hcq
      rw [h.slots] at hspace
      simp only [toQueue, List.countP_nil] at hroom hspace ⊢
      omega
    · simpa using hroom
  · obtain ⟨dropped, hperm, hdropped⟩ := h.ledger
    have hold : ∀ c ∈ dropped, c ≠ (s.fetch qid sq buf).1 := by
      rintro c hc rfl
      exact hnew (hperm.mem_iff.2 (List.mem_append_right _ (List.mem_append_left _ hc)))
    refine ⟨dropped, ?_, ?_⟩
    · rw [hfetched, hsettled, fetch_outstanding]
      rw [List.append_nil] at hperm
      refine (hperm.cons _).trans ?_
      rw [List.perm_iff_count]
      intro c
      simp only [List.count_append, List.count_cons, List.count_nil]
      omega
    · intro c hc
      rw [hlog, since_cons rfl]
      rintro (heq | hmem)
      · cases heq
        exact hold _ hc rfl
      · exact hdropped c hc hmem
  · intro c hc
    rw [hlog, since_cons rfl]
    rcases List.mem_append.1 hc with hc | hc
    · exact .inr (h.current c (List.mem_append_left _ hc))
    · rw [List.mem_singleton.1 hc]
      exact .inl rfl
  · rw [hfetched]
    exact List.nodup_cons.2 ⟨hnew, h.nodup⟩
  · intro c hc
    rw [hfetched] at hc
    rcases List.mem_cons.1 hc with rfl | hc
    · exact Nat.lt_succ_self _
    · exact Nat.lt_succ_of_lt (h.serials c hc)
  · intro c hc
    rcases List.mem_cons.1 hc with heq | hc
    · cases heq
    · obtain ⟨base, size, hring, hbacked⟩ := h.unposted c hc
      exact ⟨base, size, List.mem_cons_of_mem _ hring, hbacked⟩
  · intro c hc
    rcases List.mem_cons.1 hc with heq | hc
    · cases heq
    · exact h.retained c hc

end Inv

/-! ## Changing the queues -/

/-- At most one ring was installed. -/
def InstalledOne (log log' : List Event) : Prop := log' = log ∨ ∃ base size, log' = .cqInstalled base size :: log

namespace InstalledOne

variable {log log' : List Event} {e : Event}

theorem mem (h : InstalledOne log log') (he : e ∈ log) : e ∈ log' := by
  rcases h with rfl | ⟨base, size, rfl⟩
  · exact he
  · exact List.mem_cons_of_mem _ he

theorem old (h : InstalledOne log log') (he : e ∈ log') (hring : ∀ base size, e ≠ .cqInstalled base size) :
    e ∈ log := by
  rcases h with rfl | ⟨base, size, rfl⟩
  · exact he
  · exact (List.mem_cons.1 he).elim (fun heq => absurd heq (hring base size)) id

theorem fetchedIn (h : InstalledOne log log') : fetchedIn log' = fetchedIn log := by
  rcases h with rfl | ⟨base, size, rfl⟩ <;> rfl

theorem settledIn (h : InstalledOne log log') : settledIn log' = settledIn log := by
  rcases h with rfl | ⟨base, size, rfl⟩ <;> rfl

theorem mem_since (h : InstalledOne log log') {c : Fetched} :
    .fetched c ∈ since Event.isReset log' ↔ .fetched c ∈ since Event.isReset log := by
  rcases h with rfl | ⟨base, size, rfl⟩
  · exact Iff.rfl
  · rw [since_event rfl, List.mem_cons, or_iff_right nofun]

end InstalledOne

namespace Inv

open Sys

variable {hand : List Fetched}

/-- Queues are changed; what is in flight and in the hand stays live. -/
theorem requeued (h : Inv acked s hand) (hlog : InstalledOne s.log s'.log) (hout : s'.outstanding = s.outstanding)
    (hcount : s'.ctrl.flushWorker.inFlight = s.ctrl.flushWorker.inFlight)
    (hslots : s'.ctrl.flushReserved = s.ctrl.flushReserved) (hfetches : s'.ctrl.fetches = s.ctrl.fetches)
    (hpath : s.path.SameBacking s'.path) (hqueues : QueuesOk s'.ctrl)
    (hlive : ∀ c ∈ s.outstanding ++ hand, Live s'.ctrl c)
    (hinstalled : ∀ qid cq, slot s'.ctrl.cqs qid = some cq → .cqInstalled cq.base cq.size ∈ s'.log)
    (hrings : acked → ∀ qid cq, slot s'.ctrl.cqs qid = some cq →
      RingOk cq (toQueue s.outstanding qid + toQueue hand qid)) : Inv acked s' hand where
  inFlight := by rw [hcount, hout, h.inFlight]
  slots qid := by
    rw [hout, NvmeController.flushReservedSlots, hslots]
    exact h.slots qid
  live c hc := hlive c (hout ▸ hc)
  deferred := by
    rw [hout]
    exact h.deferred
  queues := hqueues
  installed := hinstalled
  rings := by
    rw [hout]
    exact hrings
  ledger := by
    obtain ⟨dropped, hperm, hdropped⟩ := h.ledger
    refine ⟨dropped, ?_, fun c hc => mt hlog.mem_since.1 (hdropped c hc)⟩
    rw [hlog.fetchedIn, hlog.settledIn, hout]
    exact hperm
  current c hc := hlog.mem_since.2 (h.current c (hout ▸ hc))
  nodup := by
    rw [hlog.fetchedIn]
    exact h.nodup
  serials := by
    rw [hlog.fetchedIn, hfetches]
    exact h.serials
  unposted c hc := by
    obtain ⟨base, size, hring, hbacked⟩ := h.unposted c (hlog.old hc nofun)
    exact ⟨base, size, hlog.mem hring, mt (RingBacked.of_backing hpath).1 hbacked⟩
  retained c hc := h.retained c (hlog.old hc nofun)
  events := by
    rcases hlog with heq | ⟨base, size, heq⟩
    · rw [heq]
      exact h.events
    · rw [heq]
      exact ⟨trivial, h.events⟩

end Inv
end BridgeVm.Nvme
