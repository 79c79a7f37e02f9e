import BridgeVm.Nvme.Registers
import Mathlib.Data.List.Nodup

/-!
# Completions

In every run each fetched I/O command is completed once or still in flight, unless a reset dropped it
(`each_command_completes_once`); no completion overwrites an entry the guest has not acknowledged
(`completion_rings_never_overflow`); and a completion is posted only while the very queues of its command are installed
(`completions_stay_with_their_queues`).
-/

namespace BridgeVm.Nvme

open Lib Sys

variable {s : Sys} {c : Fetched}

/-! ## Runs -/

/-- The operations one after the other. -/
def Sys.run (s : Sys) (ops : List Op) : Sys := ops.foldl Sys.step s

theorem Reached.run {ok : Sys → Op → Prop} {ops : List Op} (h : Reached ok s)
    (hops : ∀ s, ∀ op ∈ ops, ok s op) :
    Reached ok (s.run ops) := by
  induction ops generalizing s with
  | nil => exact h
  | cons op ops ih =>
    exact ih (.step h op (hops s op List.mem_cons_self)) fun s op' hop => hops s op' (List.mem_cons_of_mem _ hop)

theorem Reached.mono {ok ok' : Sys → Op → Prop} (h : Reached ok s) (hok : ∀ s op, ok s op → ok' s op) :
    Reached ok' s := by
  induction h with
  | initial disk mem hostPtr host => exact .initial disk mem hostPtr host
  | step _ op hop ih => exact .step ih op (hok _ _ hop)
  | restore _ _ hs ih iht => exact .restore ih iht hs

/-! ## A sample run

Two admin commands create an I/O queue pair of two entries each; the guest then queues one FLUSH, which the flush thread
completes.
-/

/-- A submission entry with these fields. -/
def submission (opcode commandId nsid prp1 cdw10 cdw11 : Nat) : List UInt8 :=
  toLeBytes 1 opcode ++ [0] ++ toLeBytes 2 commandId ++ toLeBytes 4 nsid ++ List.replicate 16 0 ++ toLeBytes 8 prp1 ++
    List.replicate 8 0 ++ toLeBytes 4 cdw10 ++ toLeBytes 4 cdw11 ++ List.replicate 16 0

/-- Admin commands at 0, an I/O completion ring at 512, and one I/O command at 1024. -/
def sampleMemory : GuestMemory where
  bytes a :=
    if a < 128 then
      ((submission adminOpCreateIoCq 1 0 512 0x10001 1 ++
        submission adminOpCreateIoSq 2 0 1024 0x10001 0x10001)[a]?).getD 0
    else if 1024 ≤ a then ((submission nvmOpFlush 7 1 0 0 0)[a - 1024]?).getD 0
    else 0
  readable gpa len := gpa + len ≤ 4096
  writable gpa len := gpa + len ≤ 4096

def sampleDisk : DiskBackend := .rawFile (.rawFile [] 0 true)

/-- Every host call succeeds, and no other thread runs meanwhile. -/
def calmHost : Nat → HostCall := fun _ =>
  { ok := true, io := .fine, stops := none, fsBlock := none, punches := 0, others := [] }

def sampleOps : List Op :=
  [.setAsyncFlush true, .mmioWrite 0x24 4 0x30003, .mmioWrite 0x28 8 0, .mmioWrite 0x30 8 256, .mmioWrite 0x14 4 1,
    .mmioWrite 0x1000 4 2, .process, .mmioWrite 0x1008 4 1, .process, .thread (.flushBatch 1), .process]

theorem sampleOps_ack : ∀ s, ∀ op ∈ sampleOps, ackOp s op := by
  intro s op hop
  have heven : ∀ offset size value, Op.mmioWrite offset size value ∈ sampleOps →
      ¬ (offset - NvmeController.regDoorbellBase) / 4 % 2 = 1 := by
    intro offset size value hmem
    simp only [sampleOps, List.mem_cons, reduceCtorEq, Op.mmioWrite.injEq, List.not_mem_nil, or_false, false_or] at hmem
    rcases hmem with ⟨rfl, -⟩ | ⟨rfl, -⟩ | ⟨rfl, -⟩ | ⟨rfl, -⟩ | ⟨rfl, -⟩ | ⟨rfl, -⟩ <;> decide
  cases op with
  | mmioWrite offset size value => exact fun _ hodd => absurd hodd (heven offset size value hop)
  | _ => trivial

def sampleSys : Sys := (Sys.initial sampleDisk sampleMemory (fun _ _ => true) calmHost).run sampleOps

theorem sampleSys_reached : Reached ackOp sampleSys :=
  (Reached.initial sampleDisk sampleMemory (fun _ _ => true) calmHost).run sampleOps_ack

theorem sampleSys_backed : ∀ base size, .cqInstalled base size ∈ sampleSys.log →
    RingBacked sampleSys.path.mem base size := by
  have hall : ∀ e ∈ sampleSys.log, (match e with
      | .cqInstalled base size => decide (∀ i < size, base + i * cqEntrySize + cqEntrySize ≤ 4096)
      | _ => true) = true := by decide +kernel
  intro base size hring i hi
  exact decide_eq_true (of_decide_eq_true (hall _ hring) i hi)

/-- The FLUSH. -/
def sampleFlush : Fetched where
  sqid := 1
  cqid := 1
  cmd := .fromBytes (submission nvmOpFlush 7 1 0 0 0)
  sqBorn := 2
  cqBorn := 1
  serial := 2

/-! ## Exactly one completion -/

/-- The entry was posted for `c`. -/
def Event.isEntryFor (c : Fetched) : Event → Bool
  | .posted c' _ _ _ => c' = c
  | _ => false

/-- How many entries were posted for `c`. -/
def entriesFor (c : Fetched) (log : List Event) : Nat := log.countP (Event.isEntryFor c)

theorem settledIn_cons (e : Event) (log : List Event) : settledIn (e :: log) = e.settledOf.toList ++ settledIn log := by
  rw [settledIn, settledIn, List.filterMap_cons]
  cases e.settledOf <;> rfl

theorem count_settledIn {log : List Event} (hposted : .unposted c ∉ log) (hretained : .retained c ∉ log) :
    (settledIn log).count c = entriesFor c log := by
  induction log with
  | nil => rfl
  | cons e log ih =>
    obtain ⟨hunposted, hlogUnposted⟩ := not_or.1 (mt List.mem_cons.2 hposted)
    obtain ⟨hkept, hlogKept⟩ := not_or.1 (mt List.mem_cons.2 hretained)
    rw [settledIn_cons, List.count_append, ih hlogUnposted hlogKept, entriesFor, entriesFor, List.countP_cons,
      Nat.add_comm]
    congr 1
    cases e with
    | posted c' sq cq entry => simp [Event.settledOf, Event.isEntryFor, List.count_singleton]
    | unposted c' =>
      have hne : c' ≠ c := fun heq => hunposted (heq ▸ rfl)
      simp [Event.settledOf, Event.isEntryFor, hne]
    | retained c' =>
      have hne : c' ≠ c := fun heq => hkept (heq ▸ rfl)
      simp [Event.settledOf, Event.isEntryFor, hne]
    | _ => rfl

theorem Inv.count_once {acked : Prop} (h : Inv acked s []) (hc : .fetched c ∈ s.log) :
    (settledIn s.log).count c + s.outstanding.count c ≤ 1 ∧
      (.fetched c ∈ since Event.isReset s.log → (settledIn s.log).count c + s.outstanding.count c = 1) := by
  obtain ⟨dropped, hperm, hdropped⟩ := h.ledger
  have hmem : c ∈ fetchedIn s.log := List.mem_filterMap.2 ⟨_, hc, rfl⟩
  have hcount := hperm.count_eq c
  rw [List.nodup_iff_count_eq_one.1 h.nodup c hmem] at hcount
  simp only [List.count_append, List.count_nil, Nat.add_zero] at hcount
  refine ⟨by omega, fun hsince => ?_⟩
  have hzero : dropped.count c = 0 := List.count_eq_zero_of_not_mem fun hin => hdropped c hin hsince
  omega

/-- Each fetched I/O command is completed once, with its identifiers and on its queues, or is among the commands in
flight, unless a reset came since. -/
theorem each_command_completes_once (h : Reached anyOp s)
    (hbacked : ∀ base size, .cqInstalled base size ∈ s.log → RingBacked s.path.mem base size)
      (hc : .fetched c ∈ s.log)
    (hio : c.sqid ≠ 0) :
    entriesFor c s.log + s.outstanding.count c ≤ 1 ∧
    (.fetched c ∈ since Event.isReset s.log → entriesFor c s.log + s.outstanding.count c = 1) ∧
    s.ctrl.flushWorker.inFlight = s.outstanding.length ∧
    ∀ sq cq entry, .posted c sq cq entry ∈ s.log →
      leField entry 12 2 = c.cmd.commandId ∧ leField entry 10 2 = c.sqid ∧ cq.born = c.cqBorn ∧
        ∃ q, sq = some q ∧ q.born = c.sqBorn ∧ q.cqid = c.cqid := by
  have hinv : Inv False s [] := h.inv nofun
  have hposted : .unposted c ∉ s.log := by
    intro hmem
    obtain ⟨base, size, hring, hno⟩ := hinv.unposted c hmem
    exact hno (hbacked base size hring)
  have hcount := count_settledIn hposted fun hmem => hio (hinv.retained c hmem)
  obtain ⟨hle, hone⟩ := hinv.count_once hc
  rw [hcount] at hle hone
  refine ⟨hle, hone, hinv.inFlight, fun sq cq entry hmem => ?_⟩
  obtain ⟨later, earlier, heq⟩ := List.append_of_mem hmem
  have hevents := hinv.events
  rw [heq] at hevents
  obtain ⟨hsq, hcq, -, hid, hsqid, -⟩ : PostOk False c sq cq entry earlier := hevents.at
  exact ⟨hid, hsqid, hcq, hsq⟩

/-! ## No entry is overwritten -/

/-- While the guest only acknowledges what was posted, each ring holds its unread entries and the slots held, with one
entry free; and an entry is posted to none of the places of unread ones. -/
theorem completion_rings_never_overflow (h : Reached ackOp s) :
    (∀ qid cq, slot s.ctrl.cqs qid = some cq →
      cq.unread = ringDist cq.size cq.head cq.tail ∧ cq.unread + s.ctrl.flushReservedSlots qid + 1 ≤ cq.size) ∧
    ∀ later c sq cq entry earlier, s.log = later ++ .posted c sq cq entry :: earlier →
      cq.unread + 1 < cq.size ∧ ∀ i < cq.unread, (cq.head + i) % cq.size ≠ cq.tail := by
  have hinv : Inv True s [] := h.inv fun _ _ _ hop => hop
  refine ⟨fun qid cq hcq => ?_, fun later c sq cq entry earlier heq => ?_⟩
  · obtain ⟨hunread, hroom⟩ := hinv.rings trivial qid cq hcq
    rw [hinv.slots]
    exact ⟨hunread, hroom⟩
  · have hevents := hinv.events
    rw [heq] at hevents
    have hpost : PostOk True c sq cq entry earlier := hevents.at
    obtain ⟨hhead, htail, hunread, hfree⟩ := hpost.room trivial
    refine ⟨hfree, fun i hi => ?_⟩
    rw [hunread] at hi
    exact ring_slot_ne hhead htail hi

/-! ## Completions and the lifetime of queues -/

/-- An entry is posted while the instances of its command's queues are installed, with no reset since the fetch; and a
new instance is none of those before it. -/
theorem completions_stay_with_their_queues (h : Reached anyOp s) :
    (∀ later c sq cq entry earlier, s.log = later ++ .posted c sq cq entry :: earlier →
      (∃ q, sq = some q ∧ q.born = c.sqBorn ∧ q.cqid = c.cqid) ∧ cq.born = c.cqBorn ∧
        .fetched c ∈ since Event.isReset earlier) ∧
    (∀ qid sq, slot s.ctrl.sqs qid = some sq → sq.born < s.ctrl.births) ∧
    ∀ qid cq, slot s.ctrl.cqs qid = some cq → cq.born < s.ctrl.births := by
  have hinv : Inv False s [] := h.inv nofun
  refine ⟨fun later c sq cq entry earlier heq => ?_, fun qid sq hsq => (hinv.queues.sqs qid sq hsq).bornLt,
    fun qid cq hcq => (hinv.queues.cqs qid cq hcq).bornLt⟩
  have hevents := hinv.events
  rw [heq] at hevents
  have hpost : PostOk False c sq cq entry earlier := hevents.at
  exact ⟨hpost.sqLive, hpost.cqLive, hpost.fetched⟩

/-- The FLUSH was fetched once, deferred, and completed once. -/
theorem sampleFlush_completes_once : Reached anyOp sampleSys ∧ entriesFor sampleFlush sampleSys.log = 1 ∧
    entriesFor sampleFlush sampleSys.log + sampleSys.outstanding.count sampleFlush ≤ 1 :=
  ⟨sampleSys_reached.mono fun _ _ _ => trivial, by decide +kernel,
    (each_command_completes_once (sampleSys_reached.mono fun _ _ _ => trivial) sampleSys_backed (c := sampleFlush)
      (by decide +kernel) (by decide)).1⟩

/-- The I/O completion ring has two entries, and room for one. -/
theorem sampleSys_never_overflows : ∃ cq, slot sampleSys.ctrl.cqs 1 = some cq ∧
    cq.unread + sampleSys.ctrl.flushReservedSlots 1 + 1 ≤ cq.size := by
  obtain ⟨cq, hcq⟩ := Option.isSome_iff_exists.1 (show (slot sampleSys.ctrl.cqs 1).isSome = true by decide +kernel)
  exact ⟨cq, hcq, ((completion_rings_never_overflow sampleSys_reached).1 1 cq hcq).2⟩

/-- Its completion found the queues it was fetched from. -/
theorem sampleFlush_stays_with_its_queues : ∃ later sq cq entry earlier,
    sampleSys.log = later ++ .posted sampleFlush sq cq entry :: earlier ∧
      (∃ q, sq = some q ∧ q.born = sampleFlush.sqBorn ∧ q.cqid = sampleFlush.cqid) ∧
      cq.born = sampleFlush.cqBorn ∧
        .fetched sampleFlush ∈ since Event.isReset earlier := by
  have hposted : sampleSys.log.any (fun
      | .posted c .. => decide (c = sampleFlush)
      | _ => false) = true := by decide +kernel
  obtain ⟨event, hmem, hevent⟩ := List.any_eq_true.mp hposted
  obtain ⟨later, earlier, hlog⟩ := List.append_of_mem hmem
  cases event with
  | posted c sq cq entry =>
    obtain rfl := of_decide_eq_true hevent
    have hstays := completions_stay_with_their_queues (sampleSys_reached.mono fun _ _ _ => trivial)
    exact ⟨later, sq, cq, entry, earlier, hlog, hstays.1 _ _ _ _ _ _ hlog⟩
  | _ => cases hevent

end BridgeVm.Nvme
