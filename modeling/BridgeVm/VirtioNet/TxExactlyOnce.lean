import BridgeVm.Lib.Walk
import BridgeVm.VirtioNet.Datapath

/-!
# Every available chain is transmitted once, in order

- `frame_iff`: the packet of a chain, against chains as finite walks of the descriptor table;
- `Consumed.Ok`: what one consumed chain reads, sends and publishes;
- `turn_spec`, `drain_spec`: a turn and a whole drain;
- `tx_run_exactly_once`: any run of doorbells, whatever the guest writes to its memory in between.
-/

namespace BridgeVm.Virtio

open Lib

universe u

variable {mem : GuestMemory} {queue queue' : VirtioNetQueue} {head fuel index : Nat} {descs : List Descriptor}
  {packet : List UInt8}

/-! ## Chains -/

/-- The descriptor table: each descriptor with its link. -/
def tableNode (mem : GuestMemory) (queue : VirtioNetQueue) (index : Nat) : Option (Descriptor × Option Nat) :=
  (mem.readDescriptor queue.desc index).map fun d => (d, if d.hasNext then some d.next else none)

/-- A descriptor chain: a finite walk inside the table. -/
def Chain (mem : GuestMemory) (queue : VirtioNetQueue) (head : Nat) (descs : List Descriptor) : Prop :=
  Walk (tableNode mem queue) queue.size head descs

/-- The walk of the source follows the links of the table. -/
theorem walkDescriptors_eq (h : index < queue.size) :
    walkDescriptors mem queue fuel index = follow (tableNode mem queue) queue.size fuel index := by
  induction fuel generalizing index with
  | zero => rfl
  | succ fuel ih =>
    unfold walkDescriptors follow
    rw [if_pos h]
    cases hd : mem.readDescriptor queue.desc index with
    | none => simp [tableNode, hd]
    | some desc =>
      simp only [tableNode, hd, Option.map_some]
      cases hn : desc.hasNext with
      | false => rfl
      | true =>
        simp only [Bool.not_true, Bool.false_eq_true, if_false, if_true]
        by_cases hlt : desc.next ≥ queue.size
        · rw [if_pos hlt]
          cases fuel with
          | zero => rfl
          | succ fuel => rw [follow, if_neg (by omega), Option.map_none]
        · rw [if_neg hlt, ih (by omega)]

theorem descriptorChainInto_iff : descriptorChainInto mem queue head = some descs ↔ Chain mem queue head descs := by
  unfold descriptorChainInto Chain
  by_cases h : head ≥ queue.size
  · rw [if_pos h]
    constructor
    · intro h'
      cases h'
    · intro hw
      cases hw with
      | last hlt _ => omega
      | link hlt _ _ => omega
  · rw [if_neg h, walkDescriptors_eq (by omega), follow_iff]

/-- The bytes of a list of descriptors, all of them backed. -/
def chainBytes (mem : GuestMemory) : List Descriptor → Option (List UInt8)
  | [] => some []
  | d :: ds => (mem.readBytes d.addr d.len).bind fun bs => (chainBytes mem ds).map fun rest => bs ++ rest

theorem length_readBytes {gpa len : Nat} {bs : List UInt8} (h : mem.readBytes gpa len = some bs) : bs.length = len := by
  unfold GuestMemory.readBytes at h
  split at h
  · cases h
    exact length_span
  · cases h

/-- Gathering appends the chain's bytes while they fit. -/
theorem gather_iff {p : List UInt8} (h : packet.length ≤ maxTxPacketLen) :
    gather mem descs packet = some p ↔
      ∃ bs, chainBytes mem descs = some bs ∧ p = packet ++ bs ∧ p.length ≤ maxTxPacketLen := by
  induction descs generalizing packet with
  | nil =>
    simp only [gather, chainBytes, Option.some.injEq, exists_eq_left', List.append_nil]
    constructor
    · rintro rfl
      exact ⟨rfl, h⟩
    · rintro ⟨rfl, -⟩
      rfl
  | cons d ds ih =>
    unfold gather chainBytes appendGuestBytesBounded
    cases hr : mem.readBytes d.addr d.len with
    | none => by_cases hmax : packet.length + d.len > maxTxPacketLen <;> simp [hmax]
    | some bs =>
      have hlen := length_readBytes hr
      by_cases hmax : packet.length + d.len > maxTxPacketLen
      · rw [if_pos hmax]
        simp only [Option.bind_none, Option.bind_some, reduceCtorEq, false_iff]
        rintro ⟨cs, hcs, rfl, hle⟩
        obtain ⟨rest, -, rfl⟩ := Option.map_eq_some_iff.mp hcs
        rw [List.length_append, List.length_append] at hle
        omega
      · rw [if_neg hmax, Option.map_some, Option.bind_some, Option.bind_some,
          ih (by rw [List.length_append]; omega)]
        constructor
        · rintro ⟨rest, hrest, rfl, hle⟩
          exact ⟨bs ++ rest, by rw [hrest, Option.map_some], List.append_assoc .., hle⟩
        · rintro ⟨cs, hcs, rfl, hle⟩
          obtain ⟨rest, hrest, rfl⟩ := Option.map_eq_some_iff.mp hcs
          exact ⟨rest, hrest, (List.append_assoc ..).symm, hle⟩

/-- A chain with a packet to send: only readable descriptors, all backed, at least a header and at most a header with
65535 bytes. -/
structure Sendable (mem : GuestMemory) (queue : VirtioNetQueue) (head : Nat) (descs : List Descriptor)
    (packet : List UInt8) : Prop where
  chain : Chain mem queue head descs
  readOnly : ∀ d ∈ descs, d.isWrite = false
  backed : chainBytes mem descs = some packet
  header : virtioNetHdrLen ≤ packet.length
  bounded : packet.length ≤ maxTxPacketLen

/-- **The packet of a head** is that of its chain, when the chain has one to send. -/
theorem frame_iff : txFrameFromChainInto mem queue head = some packet ↔
    ∃ descs, Sendable mem queue head descs packet := by
  unfold txFrameFromChainInto
  cases hc : descriptorChainInto mem queue head with
  | none =>
    constructor
    · intro h
      cases h
    · rintro ⟨descs, hs⟩
      rw [descriptorChainInto_iff.mpr hs.chain] at hc
      cases hc
  | some descs =>
    have hchain := descriptorChainInto_iff.mp hc
    have hdescs : ∀ descs', Sendable mem queue head descs' packet → descs' = descs :=
      fun _ hs => Walk.unique hs.chain hchain
    dsimp only
    by_cases hw : descs.any Descriptor.isWrite = true
    · rw [if_pos hw]
      constructor
      · intro h
        cases h
      · rintro ⟨descs', hs⟩
        obtain ⟨d, hd, hwd⟩ := List.any_eq_true.mp hw
        have hs' := hs.readOnly d (hdescs _ hs ▸ hd)
        rw [hs'] at hwd
        cases hwd
    · have hro : ∀ d ∈ descs, d.isWrite = false := by
        intro d hd
        by_contra hwd
        exact hw (List.any_eq_true.mpr ⟨d, hd, by simpa using hwd⟩)
      have hg : ∀ p, gather mem descs [] = some p ↔ chainBytes mem descs = some p ∧
        p.length ≤ maxTxPacketLen := by
        intro p
        rw [gather_iff (Nat.zero_le _)]
        constructor
        · rintro ⟨bs, hbs, rfl, hle⟩
          exact ⟨hbs, hle⟩
        · rintro ⟨hbs, hle⟩
          exact ⟨p, hbs, rfl, hle⟩
      rw [if_neg hw]
      constructor
      · intro h
        split at h
        · cases h
        · rename_i p hp
          split at h
          · rename_i hlen
            cases h
            obtain ⟨hbs, hle⟩ := (hg _).mp hp
            exact ⟨descs, hchain, hro, hbs, hlen, hle⟩
          · cases h
      · rintro ⟨descs', hs⟩
        obtain rfl := hdescs _ hs
        rw [(hg packet).mpr ⟨hs.backed, hs.bounded⟩]
        exact if_pos hs.header

/-! ## One consumed chain -/

/-- The same rings. -/
structure VirtioNetQueue.SameRings (q q' : VirtioNetQueue) : Prop where
  size : q'.size = q.size
  ready : q'.ready = q.ready
  desc : q'.desc = q.desc
  driver : q'.driver = q.driver
  device : q'.device = q.device

theorem VirtioNetQueue.SameRings.refl (q : VirtioNetQueue) : q.SameRings q := ⟨rfl, rfl, rfl, rfl, rfl⟩

theorem VirtioNetQueue.SameRings.symm (h : queue.SameRings queue') : queue'.SameRings queue :=
  ⟨h.size.symm, h.ready.symm, h.desc.symm, h.driver.symm, h.device.symm⟩

theorem VirtioNetQueue.SameRings.trans {q₁ q₂ q₃ : VirtioNetQueue} (h : q₁.SameRings q₂)
    (h' : q₂.SameRings q₃) :
    q₁.SameRings q₃ :=
  ⟨h'.size.trans h.size, h'.ready.trans h.ready, h'.desc.trans h.desc, h'.driver.trans h.driver,
    h'.device.trans h.device⟩

/-- What consuming one chain does: its head is that of its ring slot, a frame is sent exactly when the chain has a
packet, without the header, and a mapped used ring takes the head and advances by one. -/
structure Consumed.Ok (queue : VirtioNetQueue) (c : Consumed) : Prop where
  head : c.before.readU16At queue.driver (ringOff c.availIdx queue.size) = some c.head
  frame : ∀ f, c.frame = some f ↔
    ∃ descs packet, Sendable c.before queue c.head descs packet ∧ f = packet.drop virtioNetHdrLen
  backing : c.before.SameBacking c.after
  used : c.before.UsedMapped queue.device queue.size → ∀ used, c.before.readU16At queue.device 2 = some used →
    c.after.readU16At queue.device 2 = some ((used + 1) % 65536) ∧
      c.after.span (queue.device + 4 + used % queue.size * 8) 8 = toLeBytes 4 c.head ++ toLeBytes 4 0

theorem VirtioNetQueue.SameRings.sendable (h : queue.SameRings queue')
    (hs : Sendable mem queue head descs packet) : Sendable mem queue' head descs packet := by
  refine ⟨?_, hs.readOnly, hs.backed, hs.header, hs.bounded⟩
  unfold Chain tableNode
  rw [h.size, h.desc]
  exact hs.chain

theorem Consumed.Ok.of_rings {c : Consumed} (hc : c.Ok queue) (h : queue.SameRings queue') : c.Ok queue' where
  head := by rw [h.driver, h.size]; exact hc.head
  frame f := by
    rw [hc.frame f]
    exact ⟨fun ⟨ds, p, hs, hf⟩ => ⟨ds, p, h.sendable hs, hf⟩,
      fun ⟨ds, p, hs, hf⟩ => ⟨ds, p, h.symm.sendable hs, hf⟩⟩
  backing := hc.backing
  used := by rw [h.device, h.size]; exact hc.used

section Drain

variable {β : Type u} [NetBackend β] {s s' : TxState β} {c : Consumed} {cs : List Consumed}

/-- The backend after a list of frames. -/
def sendAll (b : β) (frames : List (List UInt8)) : β := frames.foldl NetBackend.transmit b

/-- **One turn** of the drain. -/
theorem turn_spec (h : s.turn queue = some (s', c)) :
    c.Ok queue ∧ c.availIdx = s.dev.tx.lastAvailIdx ∧ c.before = s.mem ∧ s'.mem = c.after ∧
      s'.dev.tx.lastAvailIdx = (s.dev.tx.lastAvailIdx + 1) % 65536 ∧ s.dev.tx.SameRings s'.dev.tx ∧
      s'.dev.status = s.dev.status ∧ s'.dev.backend = sendAll s.dev.backend c.frame.toList := by
  unfold TxState.turn at h
  obtain ⟨head, hhead, heq⟩ := Option.map_eq_some_iff.mp h
  obtain ⟨rfl, rfl⟩ := Prod.mk.inj heq
  refine ⟨⟨hhead, fun f => ?_, writeUsed_backing .., fun hm used hu => ?_⟩, rfl, rfl, rfl, rfl, ?_⟩
  · dsimp only
    rw [Option.map_eq_some_iff]
    constructor
    · rintro ⟨packet, hp, rfl⟩
      obtain ⟨descs, hs⟩ := frame_iff.mp hp
      exact ⟨descs, packet, hs, rfl⟩
    · rintro ⟨descs, packet, hs, rfl⟩
      exact ⟨packet, frame_iff.mpr ⟨descs, hs⟩, rfl⟩
  · exact writeUsed_mapped hm hu
  · cases txFrameFromChainInto s.mem queue head with
    | none => exact ⟨⟨rfl, rfl, rfl, rfl, rfl⟩, rfl, rfl⟩
    | some packet => exact ⟨⟨rfl, rfl, rfl, rfl, rfl⟩, rfl, rfl⟩

/-- Every slot of the available ring is backed. -/
def AvailMapped (mem : GuestMemory) (queue : VirtioNetQueue) : Prop :=
  ∀ slot < queue.size, (mem.readU16At queue.driver (4 + slot * 2)).isSome = true

theorem AvailMapped.of_backing {mem' : GuestMemory} (h : AvailMapped mem queue) (hb : mem.SameBacking mem') :
    AvailMapped mem' queue := fun slot hslot => by rw [readU16At_isSome hb]; exact h slot hslot

theorem turn_isSome (hsize : 0 < queue.size) (h : AvailMapped s.mem queue) : (s.turn queue).isSome = true := by
  unfold TxState.turn
  rw [Option.isSome_map]
  exact h _ (Nat.mod_lt _ hsize)

/-- **A drain of at most `n` turns** consumes consecutive indices, sends the frames in their order and advances a
mapped used ring by the chains consumed. -/
theorem drain_spec (n : Nat) (hlast : s.dev.tx.lastAvailIdx < 65536) (h : s.drain queue n = (s', cs)) :
    cs.length ≤ n ∧ (∀ c ∈ cs, c.Ok queue) ∧
      cs.map Consumed.availIdx = (List.range cs.length).map (fun k => (s.dev.tx.lastAvailIdx + k) % 65536) ∧
      s'.dev.tx.lastAvailIdx = (s.dev.tx.lastAvailIdx + cs.length) % 65536 ∧ s.dev.tx.SameRings s'.dev.tx ∧
      s'.dev.status = s.dev.status ∧ s'.dev.backend = sendAll s.dev.backend (cs.filterMap Consumed.frame) ∧
      s.mem.SameBacking s'.mem ∧
      (0 < queue.size → AvailMapped s.mem queue → cs.length = n) ∧
      (s.mem.UsedMapped queue.device queue.size → ∀ used, s.mem.readU16At queue.device 2 = some used →
        s'.mem.readU16At queue.device 2 = some ((used + cs.length) % 65536)) := by
  induction n generalizing s cs with
  | zero =>
    obtain ⟨rfl, rfl⟩ := Prod.mk.inj h
    exact ⟨le_rfl, by simp, rfl, (Nat.mod_eq_of_lt hlast).symm, VirtioNetQueue.SameRings.refl _, rfl, rfl,
      GuestMemory.SameBacking.refl _,
      fun _ _ => rfl, fun _ used hu => by rw [hu, List.length_nil, Nat.add_zero, Nat.mod_eq_of_lt (readU16At_lt hu)]⟩
  | succ n ih =>
    unfold TxState.drain at h
    cases ht : s.turn queue with
    | none =>
      rw [ht] at h
      obtain ⟨rfl, rfl⟩ := Prod.mk.inj h
      refine ⟨Nat.zero_le _, by simp, rfl, (Nat.mod_eq_of_lt hlast).symm, VirtioNetQueue.SameRings.refl _, rfl, rfl,
        GuestMemory.SameBacking.refl _, fun hsize hmap => ?_,
        fun _ used hu => by rw [hu, List.length_nil, Nat.add_zero, Nat.mod_eq_of_lt (readU16At_lt hu)]⟩
      have := turn_isSome (s := s) hsize hmap
      rw [ht] at this
      cases this
    | some r =>
      obtain ⟨s₁, c⟩ := r
      rw [ht] at h
      dsimp only at h
      obtain ⟨s₂, cs₂, hd⟩ : ∃ s₂ cs₂, TxState.drain queue n s₁ = (s₂, cs₂) := ⟨_, _, rfl⟩
      rw [hd] at h
      obtain ⟨rfl, rfl⟩ := Prod.mk.inj h
      obtain ⟨hok, havail, hbefore, hmem, hlast₁, hrings, hstatus, hback⟩ := turn_spec ht
      obtain ⟨hlen, hoks, havails, hlast₂, hrings₂, hstatus₂, hback₂, hbacking₂, hall, hused₂⟩ :=
        ih (by rw [hlast₁]; omega) hd
      have hbacking : s.mem.SameBacking s₁.mem := by rw [hmem, ← hbefore]; exact hok.backing
      have hstep : ∀ k, ((s.dev.tx.lastAvailIdx + 1) % 65536 + k) % 65536 =
          (s.dev.tx.lastAvailIdx + (k + 1)) % 65536 := fun k => by omega
      refine ⟨Nat.succ_le_succ hlen, List.forall_mem_cons.mpr ⟨hok, hoks⟩, ?_, ?_, hrings.trans hrings₂,
        hstatus₂.trans hstatus, ?_, hbacking.trans hbacking₂, fun hsize hmap => ?_,
        fun hmap used hu => ?_⟩
      · rw [List.map_cons, havails, havail, List.length_cons, List.range_succ_eq_map, List.map_cons, List.map_map,
          Nat.add_zero, Nat.mod_eq_of_lt hlast]
        refine congrArg _ (List.map_congr_left fun k _ => ?_)
        rw [Function.comp_apply, hlast₁, hstep]
      · rw [hlast₂, hlast₁, List.length_cons, hstep]
      · rw [hback₂, hback]
        cases hf : c.frame with
        | none => rw [List.filterMap_cons_none hf]; rfl
        | some f => rw [List.filterMap_cons_some hf]; rfl
      · rw [List.length_cons, hall hsize (hmap.of_backing hbacking)]
      · have hnext : s₁.mem.readU16At queue.device 2 = some ((used + 1) % 65536) := by
          rw [hmem]
          exact (hok.used (hbefore ▸ hmap) used (hbefore ▸ hu)).1
        rw [hused₂ (hmap.of_backing hbacking) _ hnext, List.length_cons]
        refine congrArg some ?_
        dsimp only
        omega

/-! ## Runs of doorbells -/

/-- Doorbells served from `dev₀`, with the guest free to rewrite and remap its memory in between, and the chains
consumed so far. -/
inductive TxRun (dev₀ : VirtioNet β) : TxState β → List Consumed → Prop
  | start (mem : GuestMemory) : TxRun dev₀ ⟨dev₀, mem⟩ []
  | guest {s : TxState β} {log : List Consumed} (mem : GuestMemory) :
    TxRun dev₀ s log → TxRun dev₀ { s with mem := mem } log
  | notify {s : TxState β} {log : List Consumed} (queueIndex : Nat) :
    TxRun dev₀ s log → TxRun dev₀ (s.notifyQueue queueIndex).1 (log ++ (s.notifyQueue queueIndex).2)

/-- The queue would be drained: the driver is ready and the rings are set up. -/
def VirtioNet.TxReady (dev : VirtioNet β) : Prop :=
  dev.status &&& driverOk ≠ 0 ∧ dev.tx.ready = true ∧ dev.tx.size ≠ 0 ∧ dev.tx.desc ≠ 0

theorem notify_cases (queueIndex : Nat) :
    s.notifyQueue queueIndex = (s.countNotify, []) ∨
      ∃ n ≤ s.dev.tx.size, s.notifyQueue queueIndex = s.countNotify.drain s.dev.tx n := by
  unfold TxState.notifyQueue TxState.processTxQueue
  split
  · split
    · exact Or.inl rfl
    · dsimp only
      split
      · exact Or.inl rfl
      · split
        · exact Or.inl rfl
        · exact Or.inr ⟨_, Nat.min_le_right _ _, rfl⟩
  · exact Or.inl rfl

theorem notify_ready {availIdx : Nat} (hr : s.dev.TxReady) (ha : s.mem.readU16At s.dev.tx.driver 2 = some availIdx) :
    s.notifyQueue queueTx =
      s.countNotify.drain s.dev.tx (pendingEntries s.dev.tx.lastAvailIdx availIdx s.dev.tx.size) := by
  obtain ⟨hs, hready, hsize, hdesc⟩ := hr
  unfold TxState.notifyQueue TxState.processTxQueue
  have hstatus : ¬s.countNotify.dev.status &&& driverOk = 0 := hs
  rw [if_pos rfl, if_neg hstatus]
  dsimp only [TxState.countNotify]
  rw [if_neg (by simp [hready, hsize, hdesc]), ha]

/-- What a run keeps, and what it has consumed. -/
theorem tx_run_log {dev₀ : VirtioNet β} {log : List Consumed} (hlast : dev₀.tx.lastAvailIdx < 65536)
    (h : TxRun dev₀ s log) :
    log.map Consumed.availIdx = (List.range log.length).map (fun k => (dev₀.tx.lastAvailIdx + k) % 65536) ∧
      s.dev.tx.lastAvailIdx = (dev₀.tx.lastAvailIdx + log.length) % 65536 ∧ dev₀.tx.SameRings s.dev.tx ∧
      s.dev.status = dev₀.status ∧ s.dev.backend = sendAll dev₀.backend (log.filterMap Consumed.frame) ∧
      ∀ c ∈ log, c.Ok dev₀.tx := by
  induction h with
  | start mem =>
    exact ⟨rfl, (Nat.mod_eq_of_lt hlast).symm, VirtioNetQueue.SameRings.refl _, rfl, rfl, by simp⟩
  | guest mem _ ih => exact ih
  | @notify s log queueIndex _ ih =>
    obtain ⟨havail, hidx, hrings, hstatus, hback, hok⟩ := ih
    rcases notify_cases (s := s) queueIndex with heq | ⟨n, -, heq⟩
    · rw [heq, List.append_nil]
      exact ⟨havail, hidx, hrings, hstatus, hback, hok⟩
    · rw [heq]
      obtain ⟨s', cs, hd⟩ : ∃ s' cs, s.countNotify.drain s.dev.tx n = (s', cs) := ⟨_, _, rfl⟩
      rw [hd]
      have hlt : s.countNotify.dev.tx.lastAvailIdx < 65536 := by
        rw [show s.countNotify.dev.tx.lastAvailIdx = s.dev.tx.lastAvailIdx from rfl, hidx]
        exact Nat.mod_lt _ (by decide)
      obtain ⟨-, hoks, havails, hidx', hrings', hstatus', hback', -⟩ := drain_spec n hlt hd
      have hbase : s.countNotify.dev.tx.lastAvailIdx = (dev₀.tx.lastAvailIdx + log.length) % 65536 := hidx
      refine ⟨?_, ?_, hrings.trans hrings', hstatus'.trans hstatus, ?_, ?_⟩
      · rw [List.map_append, havail, havails, List.length_append, List.range_add, List.map_append, List.map_map]
        refine congrArg _ (List.map_congr_left fun k _ => ?_)
        rw [Function.comp_apply, hbase]
        omega
      · rw [hidx', hbase, List.length_append]
        dsimp only
        omega
      · rw [hback', List.filterMap_append, sendAll, sendAll, List.foldl_append]
        exact congrArg (fun b => sendAll b (cs.filterMap Consumed.frame)) hback
      · intro c hc
        rcases List.mem_append.mp hc with hc | hc
        · exact hok c hc
        · exact (hoks c hc).of_rings hrings.symm

/-- **Exactly once, in order**: in any run of doorbells the `k`-th chain consumed is that of available index
`start + k`, the backend has been handed the frames of the consumed chains in that order, one for each chain with a
packet to send and none for any other, and each publication advances the used index by one. The next doorbell of a
ready device consumes everything pending, up to the queue size. -/
theorem tx_run_exactly_once {dev₀ : VirtioNet β} {log : List Consumed} (hlast : dev₀.tx.lastAvailIdx < 65536)
    (h : TxRun dev₀ s log) :
    log.map Consumed.availIdx = (List.range log.length).map (fun k => (dev₀.tx.lastAvailIdx + k) % 65536) ∧
      s.dev.tx.lastAvailIdx = (dev₀.tx.lastAvailIdx + log.length) % 65536 ∧
      s.dev.backend = sendAll dev₀.backend (log.filterMap Consumed.frame) ∧
      (∀ c ∈ log, c.Ok dev₀.tx) ∧
      ∀ availIdx, s.dev.TxReady → s.mem.readU16At s.dev.tx.driver 2 = some availIdx →
        (s.notifyQueue queueTx).2.length ≤ pendingEntries s.dev.tx.lastAvailIdx availIdx s.dev.tx.size ∧
        (AvailMapped s.mem s.dev.tx → (s.notifyQueue queueTx).2.length =
          pendingEntries s.dev.tx.lastAvailIdx availIdx s.dev.tx.size) ∧
        (s.mem.UsedMapped s.dev.tx.device s.dev.tx.size → ∀ used, s.mem.readU16At s.dev.tx.device 2 = some used →
          (s.notifyQueue queueTx).1.mem.readU16At s.dev.tx.device 2 =
            some ((used + (s.notifyQueue queueTx).2.length) % 65536)) := by
  obtain ⟨havail, hidx, -, -, hback, hok⟩ := tx_run_log hlast h
  refine ⟨havail, hidx, hback, hok, fun availIdx hr ha => ?_⟩
  have hlt : s.countNotify.dev.tx.lastAvailIdx < 65536 := by
    rw [show s.countNotify.dev.tx.lastAvailIdx = s.dev.tx.lastAvailIdx from rfl, hidx]
    exact Nat.mod_lt _ (by decide)
  obtain ⟨s', cs, hd⟩ : ∃ s' cs, s.notifyQueue queueTx = (s', cs) := ⟨_, _, rfl⟩
  rw [hd]
  rw [notify_ready hr ha] at hd
  obtain ⟨hle, -, -, -, -, -, -, -, hall, hused⟩ := drain_spec _ hlt hd
  exact ⟨hle, fun hmap => hall (Nat.pos_of_ne_zero hr.2.2.1) hmap, hused⟩

end Drain

/-! ## Chains without a packet -/

/-- A backend that keeps what it was handed. -/
instance : NetBackend (List (List UInt8)) := ⟨fun frames frame => frames ++ [frame]⟩

/-- A table of one descriptor at `0x1000`, made available once at `0x2000`, with `readable` spans. -/
def oneDescriptor (addr len : Nat) (readable : Nat → Nat → Bool) : GuestMemory where
  bytes := fun a =>
    if a = 0x2002 then 1
    else if 0x1000 ≤ a then ((toLeBytes 8 addr ++ toLeBytes 4 len)[a - 0x1000]?).getD 0
    else 0
  readable := readable
  writable := fun _ _ => true

def oneSlotQueue : VirtioNetQueue := ⟨1, true, 0x1000, 0x2000, 0x3000, 0, false⟩

/-- A ready device over `oneSlotQueue`. -/
def readyDevice : VirtioNet (List (List UInt8)) := ⟨[], ⟨0, 0, 0⟩, oneSlotQueue, 0, driverOk, 0⟩

/-- One doorbell with one chain available: its two bytes after the header are sent. -/
theorem tx_run_exactly_once_one :
    (TxState.notifyQueue ⟨readyDevice, oneDescriptor 0x10000 14 fun _ _ => true⟩ queueTx).1.dev.backend =
      [[0, 0]] := by
  have hstart : TxRun readyDevice ⟨readyDevice, oneDescriptor 0x10000 14 fun _ _ => true⟩ [] := TxRun.start _
  have h := tx_run_exactly_once (by decide) (TxRun.notify queueTx hstart)
  rw [h.2.2.1]
  decide +kernel

/-- Chains that end in the table with device-readable descriptors only, and yet no frame: one byte more than a header
with 65535 bytes, less than a header, and a buffer outside guest memory. -/
theorem chains_without_frame :
    (Chain (oneDescriptor 0x10000 65548 fun _ _ => true) oneSlotQueue 0 [⟨0x10000, 65548, 0, 0⟩] ∧
      txFrameFromChainInto (oneDescriptor 0x10000 65548 fun _ _ => true) oneSlotQueue 0 = none) ∧
    (Chain (oneDescriptor 0x10000 11 fun _ _ => true) oneSlotQueue 0 [⟨0x10000, 11, 0, 0⟩] ∧
      txFrameFromChainInto (oneDescriptor 0x10000 11 fun _ _ => true) oneSlotQueue 0 = none) ∧
    (Chain (oneDescriptor 0x10000 60 fun gpa _ => decide (gpa < 0x10000)) oneSlotQueue 0 [⟨0x10000, 60, 0, 0⟩] ∧
      txFrameFromChainInto (oneDescriptor 0x10000 60 fun gpa _ => decide (gpa < 0x10000)) oneSlotQueue 0 = none) := by
  refine ⟨⟨descriptorChainInto_iff.mp ?_, ?_⟩, ⟨descriptorChainInto_iff.mp ?_, ?_⟩,
    ⟨descriptorChainInto_iff.mp ?_, ?_⟩⟩ <;> decide +kernel

end BridgeVm.Virtio
