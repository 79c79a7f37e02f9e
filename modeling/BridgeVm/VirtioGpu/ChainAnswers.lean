import BridgeVm.VirtioGpu.ControlBooks

/-!
# Every control chain is answered once

Every step keeps the books of the control queue. Within one timeline the answers come in the order of submission as far
as the fence ids do (`chains_answered`); a completion for a later chain with a smaller id answers that one first
(`submission_order_broken`).
-/

namespace BridgeVm.VirtioGpu

open Lib

/-! ## What each step does to the books -/

section Steps

variable {start : VirtioGpuQueue} {s : GpuState} {g : GpuQueues} {handler : Handler} {queue : VirtioGpuQueue}
  {head : Nat}
  {completed : List CompletedFence}

@[simp] theorem books_markQueueInterrupt (queueIndex : Nat) : (g.markQueueInterrupt queueIndex).books = g.books := by
  unfold GpuQueues.markQueueInterrupt GpuQueues.modifyQueue GpuQueues.books
  dsimp only
  split <;> rfl

@[simp] theorem books_answer (queueIndex usedLen id : Nat) (route : Route) :
    (s.answer queueIndex queue head usedLen id route).gpu.books =
      { s.gpu.books with
        log := .answered ⟨id, head, queue, usedLen, s.mem,
          s.mem.writeUsed queue.device queue.effectiveSize head usedLen, route⟩
          :: s.gpu.log } := by
  have hmark := books_markQueueInterrupt (g := s.gpu) queueIndex
  unfold GpuState.answer GpuQueues.books at *
  simp only [Books.mk.injEq] at hmark ⊢
  exact ⟨hmark.1, hmark.2.1, hmark.2.2.1, trivial, hmark.2.2.2.2⟩

theorem answer_pendingFenced (s : GpuState) (queueIndex : Nat) (queue : VirtioGpuQueue) (head usedLen id : Nat)
    (route : Route) : (s.answer queueIndex queue head usedLen id route).gpu.pendingFenced = s.gpu.pendingFenced := by
  have hbooks := congrArg Books.fenced (@books_answer s queue head queueIndex usedLen id route)
  exact hbooks

@[simp] theorem books_advance_control :
    (s.advance queueControl).gpu.books =
      { s.gpu.books with lastAvailIdx := (s.gpu.control.lastAvailIdx + 1) % 65536 } := rfl

@[simp] theorem books_advance_cursor : (s.advance queueCursor).gpu.books = s.gpu.books := rfl

theorem processControlChain_cases (s : GpuState) (handler : Handler) (queue : VirtioGpuQueue) (head : Nat) :
    ∃ mem, (∃ usedLen, s.processControlChain handler queue head =
      (⟨s.gpu.take s.mem head none, mem⟩, .immediate usedLen)) ∨
      ∃ parking descs response, s.processControlChain handler queue head =
        (⟨(s.gpu.take s.mem head (some parking)).park
          ⟨queueControl, queue, head, descs, response, s.gpu.taken⟩ parking, mem⟩,
          .parked) := by
  unfold GpuState.processControlChain
  split
  · exact ⟨s.mem, .inl ⟨0, rfl⟩⟩
  · rename_i descs _
    dsimp only
    split
    · rename_i hparking
      rw [hparking]
      exact ⟨_, .inl ⟨_, rfl⟩⟩
    · rename_i parking hparking
      rw [hparking]
      exact ⟨_, .inr ⟨parking, descs, _, rfl⟩⟩

/-- The chain that the next turn takes. -/
def nextChain (s : GpuState) (head : Nat) (parking : Option Parking) : TakenChain :=
  ⟨s.gpu.taken, s.gpu.control.lastAvailIdx, head, s.mem, parking⟩

/-- **A turn of the control queue** takes one chain, and answers it at once or parks its response. -/
theorem controlTurn_books (s : GpuState) (handler : Handler) (queue : VirtioGpuQueue) (head : Nat) :
    (∃ mem usedLen, (s.controlTurn handler queue head).gpu.books =
      { s.gpu.books.take (nextChain s head none) with
        log := .answered ⟨s.gpu.taken, head, queue, usedLen, mem,
          mem.writeUsed queue.device queue.effectiveSize head usedLen,
          .atOnce⟩ :: .taken (nextChain s head none) :: s.gpu.log }) ∨
    ∃ parking descs response, (s.controlTurn handler queue head).gpu.books =
      (s.gpu.books.take (nextChain s head (some parking))).park
        ⟨queueControl, queue, head, descs, response, s.gpu.taken⟩ parking := by
  obtain ⟨mem, ⟨usedLen, hchain⟩ | ⟨parking, descs, response, hchain⟩⟩ :=
    processControlChain_cases s handler queue head
  · refine .inl ⟨mem, usedLen, ?_⟩
    unfold GpuState.controlTurn
    rw [hchain]
    dsimp only
    rw [books_answer]
    rfl
  · refine .inr ⟨parking, descs, response, ?_⟩
    unfold GpuState.controlTurn
    rw [hchain]
    dsimp only
    rw [books_advance_control]
    cases parking <;> rfl

theorem cursorTurn_books (s : GpuState) (handler : Handler) (queue : VirtioGpuQueue) (head : Nat) :
    (s.cursorTurn handler queue head).gpu.books = s.gpu.books := by
  have hchain : (s.processCursorChain handler queue head).1.gpu = s.gpu := by
    unfold GpuState.processCursorChain
    split <;> rfl
  unfold GpuState.cursorTurn
  dsimp only
  rw [books_markQueueInterrupt, books_advance_cursor, hchain]

/-- What every step keeps. -/
structure Kept (start : VirtioGpuQueue) (s : GpuState) : Prop where
  accounts : Accounts start s.gpu.books
  parked : AllParked s.gpu.books
  order : FencedInOrder s.gpu.books

theorem Kept.congr {s' : GpuState} (h : Kept start s) (hbooks : s'.gpu.books = s.gpu.books) : Kept start s' := by
  refine ⟨?_, ?_, ?_⟩ <;> rw [hbooks]
  · exact h.accounts
  · exact h.parked
  · exact h.order

theorem nextChain_ok (h : Accounts start s.gpu.books)
    (hhead : s.mem.readU16At start.driver (GpuState.ringOff s.gpu.control.lastAvailIdx start.effectiveSize) = some head)
    (parking : Option Parking) : TakenOk start (nextChain s head parking) s.gpu.log :=
  ⟨h.count.symm, h.next, hhead⟩

theorem Accounts.waits_lt {p : PendingResponse} {parking : Parking} (h : Accounts start s.gpu.books)
    (hp : Waits start s.gpu.log p parking) : p.id < s.gpu.taken := by
  have hlt : p.id < takenCount s.gpu.log := hp.lt h.events
  have hcount : takenCount s.gpu.log = s.gpu.taken := h.count
  omega

/-- A chain that is answered at once. -/
theorem Kept.atOnce {mem : GuestMemory} {usedLen : Nat} (h : Kept start s) (hqueue : queue.registers = start.registers)
    (hhead : s.mem.readU16At start.driver (GpuState.ringOff s.gpu.control.lastAvailIdx start.effectiveSize) = some head)
    {b : Books} (hb : b = { s.gpu.books.take (nextChain s head none) with
      log := .answered ⟨s.gpu.taken, head, queue, usedLen, mem,
        mem.writeUsed queue.device queue.effectiveSize head usedLen,
        .atOnce⟩ :: .taken (nextChain s head none) :: s.gpu.log }) :
    Accounts start b ∧ AllParked b ∧ FencedInOrder b := by
  subst hb
  have hevents := h.accounts.events
  have hok := nextChain_ok h.accounts hhead none
  obtain ⟨-, hdevice, hsize⟩ := registers_congr hqueue
  have hwritten : mem.writeUsed queue.device queue.effectiveSize head usedLen =
      mem.writeUsed start.device start.effectiveSize head usedLen := by rw [hdevice, hsize]
  have hanswer : AnsweredOk start ⟨s.gpu.taken, head, queue, usedLen, mem,
      mem.writeUsed queue.device queue.effectiveSize head usedLen,
      .atOnce⟩ (.taken (nextChain s head none) :: s.gpu.log) := by
    refine ⟨⟨nextChain s head none, (outstanding_taken hevents hok).mpr (.inl rfl), rfl, rfl, trivial, ?_⟩,
      fun _ => ⟨_, _, rfl, rfl⟩, hwritten, published_of_mapped hwritten⟩
    -- nothing comes before a chain that is not parked
    intro c' _ _ hprecedes
    rcases hc' : c'.parking with _ | _ | f <;> rw [hc'] at hprecedes <;> exact hprecedes
  have hv : ∀ p ∈ s.gpu.pendingVblank, p.id ≠ s.gpu.taken := fun p hp =>
    Nat.ne_of_lt (h.accounts.waits_lt (h.accounts.vblankWaits p hp))
  have hf : ∀ p ∈ s.gpu.pendingFenced, p.id ≠ s.gpu.taken := fun p hp =>
    Nat.ne_of_lt (h.accounts.waits_lt (h.accounts.fencedWaits p hp))
  refine ⟨(h.accounts.take hok).answer hanswer (List.Sublist.refl _) (fun p hp => hp) (Nat.le_refl _) hv hf,
    ?_, h.order⟩
  intro c hc
  obtain ⟨hout, hne⟩ := outstanding_answered.mp hc
  rcases (outstanding_taken hevents hok).mp hout with rfl | hout
  · exact absurd rfl hne
  · exact h.parked c hout

/-- A chain whose response is parked. -/
theorem Kept.park {parking : Parking} {descs : List Descriptor} {response : List UInt8} (h : Kept start s)
    (hqueue : queue.registers = start.registers)
    (hroom : s.gpu.pendingVblank.length + s.gpu.pendingFenced.length < start.effectiveSize)
    (hhead : s.mem.readU16At start.driver (GpuState.ringOff s.gpu.control.lastAvailIdx start.effectiveSize) = some head)
    {b : Books} (hb : b = (s.gpu.books.take (nextChain s head (some parking))).park
      ⟨queueControl, queue, head, descs, response, s.gpu.taken⟩ parking) :
    Accounts start b ∧ AllParked b ∧ FencedInOrder b := by
  subst hb
  have hevents := h.accounts.events
  have hok := nextChain_ok h.accounts hhead (some parking)
  have hlast : ∀ q ∈ s.gpu.pendingVblank, q.id < s.gpu.taken :=
    fun q hq => h.accounts.waits_lt (h.accounts.vblankWaits q hq)
  have hlastFenced : ∀ q ∈ s.gpu.pendingFenced, q.id < s.gpu.taken := fun q hq =>
    h.accounts.waits_lt (h.accounts.fencedWaits q hq)
  have hwaits : Waits start (.taken (nextChain s head (some parking)) :: s.gpu.log)
      ⟨queueControl, queue, head, descs, response, s.gpu.taken⟩ parking :=
    ⟨hqueue, _, (outstanding_taken hevents hok).mpr (.inl rfl), rfl, rfl, rfl⟩
  refine ⟨(h.accounts.take hok).park hwaits hlast hroom, ?_, ?_⟩
  · intro c hc
    cases parking with
    | vblank =>
      rcases (outstanding_taken hevents hok).mp hc with rfl | hout
      · exact .inl ⟨_, List.mem_append_right _ (List.mem_singleton.mpr rfl), rfl⟩
      · exact (h.parked c hout).imp_left fun ⟨p, hp, hid⟩ => ⟨p, List.mem_append_left _ hp, hid⟩
    | fence f =>
      rcases (outstanding_taken hevents hok).mp hc with rfl | hout
      · exact .inr ⟨_, List.mem_append_right _ (List.mem_singleton.mpr rfl), rfl⟩
      · exact (h.parked c hout).imp_right fun ⟨p, hp, hid⟩ => ⟨p, List.mem_append_left _ hp, hid⟩
  · cases parking with
    | vblank => exact h.order
    | fence f =>
      refine List.pairwise_append.mpr ⟨h.order, List.pairwise_singleton _ _, fun q hq r hr => ?_⟩
      rw [List.mem_singleton.mp hr]
      exact hlastFenced q hq

/-- **A turn of the control queue** keeps the books. -/
theorem controlTurn_kept (h : Kept start s) (hqueue : queue.registers = start.registers)
    (hroom : s.gpu.pendingVblank.length + s.gpu.pendingFenced.length < start.effectiveSize)
    (hhead : s.mem.readU16At start.driver (GpuState.ringOff s.gpu.control.lastAvailIdx start.effectiveSize) =
      some head) :
    Kept start (s.controlTurn handler queue head) := by
  rcases controlTurn_books s handler queue head with ⟨mem, usedLen, hbooks⟩ | ⟨parking, descs, response, hbooks⟩
  · obtain ⟨haccounts, hparked, horder⟩ := h.atOnce hqueue hhead hbooks
    exact ⟨haccounts, hparked, horder⟩
  · obtain ⟨haccounts, hparked, horder⟩ := h.park hqueue hroom hhead hbooks
    exact ⟨haccounts, hparked, horder⟩

/-- **The turns of a notification** keep the books. -/
theorem turns_kept (handler : Handler) (queueIndex : Nat) {n : Nat} (h : Kept start s)
    (hqueue : queueIndex = queueControl → queue.registers = start.registers) :
    Kept start (GpuState.turns handler queueIndex queue n s).1 := by
  induction n generalizing s with
  | zero => exact h
  | succ n ih =>
    unfold GpuState.turns
    split
    · exact h
    rename_i hroom
    split
    · exact h
    rename_i head hhead
    refine ih ?_
    split
    · rename_i hcontrol
      subst hcontrol
      obtain ⟨hdriver, -, hsize⟩ := registers_congr (hqueue rfl)
      rw [hdriver, hsize] at hhead
      refine controlTurn_kept h (hqueue rfl) ?_ hhead
      unfold GpuQueues.parkedChainsFillQueue at hroom
      simp only [true_and, decide_eq_true_eq] at hroom
      omega
    · exact h.congr (cursorTurn_books s handler queue head)

/-! ### The pass over the fenced responses -/

/-- In the middle of a pass: the responses still to be looked at stand before those that were kept, which no completion
retires. -/
structure Pass (completed : List CompletedFence) (todo kept : List PendingFencedResponse) (s : GpuState) : Prop where
  fenced : s.gpu.pendingFenced = todo ++ kept
  todoOrder : todo.Pairwise fun p q => p.id < q.id
  keptOrder : kept.Pairwise fun p q => p.id < q.id
  before : ∀ q ∈ kept, ∀ p ∈ todo, q.id < p.id
  waits : ∀ q ∈ kept, ∀ d ∈ completed, d.retires q.fence = false

theorem retires_of_precedes {d f g : CompletedFence} (hd : d.retires g = true) (hsame : f.sameRing g = true)
    (hle : f.fenceId ≤ g.fenceId) : d.retires f = true := by
  simp only [CompletedFence.retires, CompletedFence.sameRing, Bool.and_eq_true, beq_iff_eq, decide_eq_true_eq] at *
  omega

/-- The first response of a pass is answered after those before it in its line. -/
theorem Pass.inOrder {todo kept : List PendingFencedResponse} {p : PendingFencedResponse} {d : CompletedFence}
    {c : TakenChain}
    (h : Pass completed (p :: todo) kept s) (haccounts : Accounts start s.gpu.books) (hall : AllParked s.gpu.books)
    (hd : d ∈ completed) (hretires : d.retires p.fence = true) (hc : Outstanding s.gpu.log c) (hlt : c.id < p.id) :
    ¬Precedes c.parking (some (.fence p.fence)) := by
  intro hprecedes
  rcases hall.cases haccounts hc with ⟨hvblank, -⟩ | ⟨f, hfence, q, hq, hid, rfl⟩
  · rw [hvblank] at hprecedes
    exact hprecedes
  · rw [hfence] at hprecedes
    obtain ⟨hsame, hle⟩ := hprecedes
    change q ∈ s.gpu.pendingFenced at hq
    rw [h.fenced] at hq
    rcases List.mem_append.mp hq with hq | hq
    · -- those to be looked at later were submitted later
      rcases List.mem_cons.mp hq with rfl | hq
      · omega
      · have hlater := (List.pairwise_cons.mp h.todoOrder).1 q hq
        omega
    · -- the completion would have retired this one too
      have hkept := h.waits q hq d hd
      rw [retires_of_precedes hretires hsame hle] at hkept
      cases hkept

/-- **One response of a pass.** -/
theorem retireFirst_pass {todo kept : List PendingFencedResponse} {p : PendingFencedResponse}
    (h : Pass completed (p :: todo) kept s) (haccounts : Accounts start s.gpu.books) (hall : AllParked s.gpu.books) :
    ∃ kept', Pass completed todo kept' (GpuState.retireFirst completed s) ∧
      Accounts start (GpuState.retireFirst completed s).gpu.books ∧
      AllParked (GpuState.retireFirst completed s).gpu.books := by
  obtain ⟨hfirst, htodo⟩ := List.pairwise_cons.mp h.todoOrder
  have hfenced : s.gpu.pendingFenced = p :: (todo ++ kept) := h.fenced
  have hmem : ∀ q, q ∈ s.gpu.books.fenced ↔ q = p ∨ q ∈ todo ++ kept := by
    intro q
    change q ∈ s.gpu.pendingFenced ↔ _
    rw [hfenced, List.mem_cons]
  unfold GpuState.retireFirst
  rw [hfenced]
  dsimp only
  split
  · rename_i hwaits
    have hnone : ∀ d ∈ completed, d.retires p.fence = false := by simpa using hwaits
    have hmoved : ∀ q, q ∈ todo ++ kept ++ [p] ↔ q ∈ s.gpu.books.fenced := by
      intro q
      rw [hmem, List.mem_append, List.mem_singleton, or_comm]
    have hlen : (todo ++ kept ++ [p]).length = s.gpu.books.fenced.length := by
      change _ = s.gpu.pendingFenced.length
      rw [hfenced]
      simp only [List.length_append, List.length_cons, List.length_nil, Nat.add_assoc]
    refine ⟨kept ++ [p], ⟨by simp, htodo, ?_, ?_, ?_⟩, ?_, fun c hc => ?_⟩
    · refine List.pairwise_append.mpr ⟨h.keptOrder, List.pairwise_singleton _ _, fun q hq r hr => ?_⟩
      rw [List.mem_singleton.mp hr]
      exact h.before q hq p List.mem_cons_self
    · intro q hq r hr
      rcases List.mem_append.mp hq with hq | hq
      · exact h.before q hq r (List.mem_cons_of_mem _ hr)
      · rw [List.mem_singleton.mp hq]
        exact hfirst r hr
    · intro q hq
      rcases List.mem_append.mp hq with hq | hq
      · exact h.waits q hq
      · rw [List.mem_singleton.mp hq]
        exact hnone
    · have hbound := haccounts.bounded
      refine ⟨haccounts.events, haccounts.registers, haccounts.count, haccounts.next, haccounts.vblankWaits,
        fun q hq => ?_,
        haccounts.vblankOrder, ?_⟩
      · exact haccounts.fencedWaits q ((hmoved q).mp hq)
      · change s.gpu.pendingVblank.length + (todo ++ kept ++ [p]).length ≤ _
        rw [hlen]
        exact hbound
    · exact (hall c hc).imp_right fun ⟨q, hq, hid⟩ => ⟨q, (hmoved q).mpr hq, hid⟩
  · rename_i hready
    obtain ⟨d, hd, hretires⟩ : ∃ d ∈ completed, d.retires p.fence = true := by simpa using hready
    rw [books_answer]
    have hwaits : Waits start s.gpu.log p.toPendingResponse (.fence p.fence) :=
      haccounts.fencedWaits p ((hmem p).mpr (.inl rfl))
    have hne : ∀ q ∈ todo ++ kept, q.id ≠ p.id := by
      intro q hq
      rcases List.mem_append.mp hq with hq | hq
      · exact Nat.ne_of_gt (hfirst q hq)
      · exact Nat.ne_of_lt (h.before q hq p List.mem_cons_self)
    have hserves : (Route.fence completed).Serves (some (.fence p.fence)) := ⟨d, hd, hretires⟩
    have hroute : Route.fence completed ≠ .atOnce := nofun
    have horder : ∀ c, Outstanding s.gpu.log c → c.id < p.id → ¬Precedes c.parking (some (.fence p.fence)) :=
      fun c hc hlt => h.inOrder haccounts hall hd hretires hc hlt
    refine ⟨kept, ⟨answer_pendingFenced .., htodo, h.keptOrder, fun q hq r hr => h.before q hq r
      (List.mem_cons_of_mem _ hr), h.waits⟩, ?_, ?_⟩
    · refine haccounts.answer (answeredOk_of_waits hwaits hserves hroute horder rfl) (List.Sublist.refl _)
        (fun q hq => (hmem q).mpr (.inr hq)) ?_ (fun q hq => ?_) hne
      · change _ ≤ s.gpu.pendingFenced.length
        rw [hfenced, List.length_cons]
        exact Nat.le_succ _
      · exact (haccounts.vblankWaits q hq).id_ne haccounts.events hwaits (by simp)
    · refine hall.answer (fun q hq _ => hq) fun q hq hid => ?_
      rcases (hmem q).mp hq with rfl | hq
      · exact absurd rfl hid
      · exact hq

/-- **A pass** looks at each response once. -/
theorem retireFenced_pass {todo kept : List PendingFencedResponse} (h : Pass completed todo kept s)
    (haccounts : Accounts start s.gpu.books) (hall : AllParked s.gpu.books) :
    ∃ kept', Pass completed [] kept' (GpuState.retireFenced completed todo.length s) ∧
      Accounts start (GpuState.retireFenced completed todo.length s).gpu.books ∧
        AllParked (GpuState.retireFenced completed todo.length s).gpu.books := by
  induction todo generalizing s kept with
  | nil => exact ⟨kept, h, haccounts, hall⟩
  | cons p todo ih =>
    obtain ⟨kept', hpass, haccounts, hall⟩ := retireFirst_pass h haccounts hall
    exact ih hpass haccounts hall

theorem Kept.drained (h : Kept start s)
    (hdone : ∀ p ∈ s.gpu.pendingFenced, ∀ d ∈ completed, d.retires p.fence = false) :
    Kept start { s with gpu := { s.gpu with log := .drained completed :: s.gpu.log } } := by
  have hok : DrainedOk completed s.gpu.log := by
    rintro c f hc hparking ⟨d, hd, hretires⟩
    by_contra hwaits
    rcases h.parked.cases h.accounts ⟨hc, hwaits⟩ with ⟨hvblank, -⟩ | ⟨g, hfence, p, hp, -, rfl⟩
    · rw [hparking] at hvblank
      cases hvblank
    · rw [hparking, Option.some.injEq, Parking.fence.injEq] at hfence
      have hkept := hdone p hp d hd
      rw [← hfence, hretires] at hkept
      cases hkept
  have haccounts := h.accounts
  refine ⟨⟨⟨hok, haccounts.events⟩, haccounts.registers, haccounts.count, haccounts.next, fun p hp => ?_,
    fun p hp => ?_,
    haccounts.vblankOrder, haccounts.bounded⟩, fun c hc => h.parked c (outstanding_drained.mp hc), h.order⟩
  · exact (haccounts.vblankWaits p hp).drained
  · exact (haccounts.fencedWaits p hp).drained

/-- **`drain_completed_fences_inner`** keeps the books. -/
theorem drainCompletedFencesInner_kept (h : Kept start s) : Kept start (s.drainCompletedFencesInner completed) := by
  unfold GpuState.drainCompletedFencesInner
  dsimp only
  split
  · rename_i hidle
    refine h.drained fun p hp d hd => ?_
    rw [Bool.or_eq_true, List.isEmpty_iff, List.isEmpty_iff] at hidle
    rcases hidle with hempty | hempty
    · rw [hempty] at hd
      cases hd
    · rw [hempty] at hp
      cases hp
  · have hpass : Pass completed s.gpu.pendingFenced [] s :=
      ⟨(List.append_nil _).symm, h.order, List.Pairwise.nil, by simp, by simp⟩
    obtain ⟨kept, hpass, haccounts, hall⟩ := retireFenced_pass hpass h.accounts h.parked
    have hfenced : (GpuState.retireFenced completed s.gpu.pendingFenced.length s).gpu.pendingFenced = kept :=
      hpass.fenced
    have hkept : Kept start (GpuState.retireFenced completed s.gpu.pendingFenced.length s) := by
      refine ⟨haccounts, hall, ?_⟩
      unfold FencedInOrder
      change List.Pairwise _ (GpuState.retireFenced completed s.gpu.pendingFenced.length s).gpu.pendingFenced
      rw [hfenced]
      exact hpass.keptOrder
    refine hkept.drained fun p hp => ?_
    rw [hfenced] at hp
    exact hpass.waits p hp

/-! ### Steps and runs -/

theorem drainHostVblankAt_due {now : Nat} {p : PendingResponse} {rest : List PendingResponse}
    (hpending : s.gpu.pendingVblank = p :: rest) (hdue : s.vblankDue now = true) :
    ∃ mem usedLen, (s.drainHostVblankAt now).gpu.books =
      { s.gpu.books with
        vblank := rest
        log := .answered ⟨p.id, p.head, p.queue, usedLen, mem,
          mem.writeUsed p.queue.device p.queue.effectiveSize p.head usedLen,
          .vblank⟩ :: s.gpu.log } := by
  refine ⟨(scatterWrite s.mem p.descs p.response).1, (scatterWrite s.mem p.descs p.response).2, ?_⟩
  unfold GpuState.drainHostVblankAt
  rw [hpending]
  dsimp only
  rw [hdue, Bool.not_true, if_neg Bool.false_ne_true, books_answer]
  rfl

theorem drainHostVblankAt_idle {now : Nat} (h : s.gpu.pendingVblank = [] ∨ s.vblankDue now = false) :
    s.drainHostVblankAt now = s := by
  unfold GpuState.drainHostVblankAt
  split
  · rfl
  · rename_i p rest hpending
    rcases h with hnil | hwait
    · rw [hpending] at hnil
      cases hnil
    · rw [hwait]
      rfl

/-- **A host vblank** keeps the books. -/
theorem drainHostVblankAt_kept (h : Kept start s) (now : Nat) : Kept start (s.drainHostVblankAt now) := by
  rcases hpending : s.gpu.pendingVblank with _ | ⟨p, rest⟩
  · rw [drainHostVblankAt_idle (.inl hpending)]
    exact h
  cases hdue : s.vblankDue now with
  | false =>
    rw [drainHostVblankAt_idle (.inr hdue)]
    exact h
  | true =>
    obtain ⟨mem, usedLen, hbooks⟩ := drainHostVblankAt_due hpending hdue
    have hvblank : s.gpu.books.vblank = p :: rest := hpending
    have horder := h.accounts.vblankOrder
    rw [hvblank] at horder
    obtain ⟨hfirst, -⟩ := List.pairwise_cons.mp horder
    have hmem : p ∈ s.gpu.books.vblank := by
      rw [hvblank]
      exact List.mem_cons_self
    have hwaits : Waits start s.gpu.log p .vblank := h.accounts.vblankWaits p hmem
    have hroute : Route.vblank ≠ .atOnce := nofun
    -- those before it in the line were answered before
    have hline : ∀ c, Outstanding s.gpu.log c → c.id < p.id → ¬Precedes c.parking (some .vblank) := by
      intro c hc hlt hprecedes
      rcases h.parked.cases h.accounts hc with ⟨-, q, hq, hid⟩ | ⟨f, hfence, -⟩
      · rw [hvblank] at hq
        rcases List.mem_cons.mp hq with rfl | hq
        · omega
        · have hlater := hfirst q hq
          omega
      · rw [hfence] at hprecedes
        exact hprecedes
    refine ⟨?_, ?_, ?_⟩ <;> rw [hbooks]
    · refine h.accounts.answer (answeredOk_of_waits hwaits trivial hroute hline rfl) ?_ (fun q hq => hq)
        (Nat.le_refl _)
        (fun q hq => Nat.ne_of_gt (hfirst q hq)) fun q hq => ?_
      · rw [hvblank]
        exact List.sublist_cons_self p rest
      · exact (h.accounts.fencedWaits q hq).id_ne h.accounts.events hwaits (by simp)
    · refine h.parked.answer (fun q hq hid => ?_) fun q hq _ => hq
      rw [hvblank] at hq
      rcases List.mem_cons.mp hq with rfl | hq
      · exact absurd rfl hid
      · exact hq
    · exact h.order

/-- **Every step** keeps the books. -/
theorem step_kept (h : Kept start s) (op : GpuOp) : Kept start (s.step op) := by
  cases op with
  | notify queueIndex handler completed =>
    show Kept start (s.notifyQueue handler completed queueIndex)
    unfold GpuState.notifyQueue
    split
    · have hqueue : queueIndex = queueControl → (s.gpu.queue queueIndex).registers = start.registers := by
        rintro rfl
        exact h.accounts.registers
      rcases s.processQueue_turns handler completed queueIndex with heq | ⟨n, heq | heq⟩
      · rw [heq]
        exact h
      · rw [heq]
        exact turns_kept handler queueIndex h hqueue
      · rw [heq]
        exact drainCompletedFencesInner_kept (turns_kept handler queueIndex h hqueue)
    · exact h
  | drainFences completed =>
    show Kept start (s.drainCompletedFences completed)
    unfold GpuState.drainCompletedFences
    split
    · exact h
    · exact drainCompletedFencesInner_kept h
  | drainVblank now => exact drainHostVblankAt_kept h now
  | guest mem => exact h.congr rfl

theorem start_kept (control cursor : VirtioGpuQueue) (vblankInterval : Nat) (mem : GuestMemory) :
    Kept control (GpuState.start control cursor vblankInterval mem) where
  accounts :=
    ⟨trivial, rfl, rfl, rfl, by simp [GpuState.start, GpuQueues.books], by simp [GpuState.start, GpuQueues.books],
    List.Pairwise.nil, Nat.zero_le _⟩
  parked c hc := by cases hc.taken
  order := List.Pairwise.nil

theorem run_kept (h : Kept start s) (ops : List GpuOp) : Kept start (s.run ops) := by
  induction ops generalizing s with
  | nil => exact h
  | cons op ops ih => exact ih (step_kept h op)

/-! ## The answers -/

/-- **The answers of the control queue**: each event of the log is as it should be, the chains that are not answered are
parked, no more of them than the queue has room for, and the first that waits for a vblank is answered by the next. -/
structure Served (start : VirtioGpuQueue) (s : GpuState) : Prop where
  events : Traced (EventOk start) s.gpu.log
  allTaken : s.gpu.control.lastAvailIdx % 65536 = (start.lastAvailIdx + takenCount s.gpu.log) % 65536
  parked : ∀ c, Outstanding s.gpu.log c →
    (c.parking = some .vblank ∧ ∃ p ∈ s.gpu.pendingVblank, p.id = c.id) ∨
    ∃ f, c.parking = some (.fence f) ∧ ∃ p ∈ s.gpu.pendingFenced, p.id = c.id ∧ p.fence = f
  bounded : s.gpu.pendingVblank.length + s.gpu.pendingFenced.length ≤ start.effectiveSize
  vblankTurn : ∀ now c, s.vblankDue now = true → Outstanding s.gpu.log c → c.parking = some .vblank →
    (∀ c', Outstanding s.gpu.log c' → c'.parking = some .vblank → c.id ≤ c'.id) →
      Answered (s.drainHostVblankAt now).gpu.log c.id

theorem Kept.served (h : Kept start s) : Served start s where
  events := h.accounts.events
  allTaken := by
    have hnext := h.accounts.next
    rw [← h.accounts.count] at hnext
    exact hnext
  parked _ hc := h.parked.cases h.accounts hc
  bounded := h.accounts.bounded
  vblankTurn now c hdue hc hparking hfirst := by
    rcases h.parked.cases h.accounts hc with ⟨-, q, hq, hid⟩ | ⟨f, hfence, -⟩
    · change q ∈ s.gpu.pendingVblank at hq
      rcases hpending : s.gpu.pendingVblank with _ | ⟨p, rest⟩
      · rw [hpending] at hq
        cases hq
      have hmem : p ∈ s.gpu.books.vblank := by
        change p ∈ s.gpu.pendingVblank
        rw [hpending]
        exact List.mem_cons_self
      obtain ⟨-, c', hout, hid', -, hparking'⟩ := h.accounts.vblankWaits p hmem
      have hle := hfirst c' hout hparking'
      have hge : p.id ≤ q.id := by
        have horder := h.accounts.vblankOrder
        change List.Pairwise _ s.gpu.pendingVblank at horder
        rw [hpending] at horder hq
        rcases List.mem_cons.mp hq with rfl | hq
        · exact Nat.le_refl _
        · exact Nat.le_of_lt ((List.pairwise_cons.mp horder).1 q hq)
      obtain ⟨mem, usedLen, hbooks⟩ := drainHostVblankAt_due hpending hdue
      have hlog := congrArg Books.log hbooks
      change (s.drainHostVblankAt now).gpu.log = _ at hlog
      rw [hlog]
      refine answered_answered.mpr (.inl ?_)
      dsimp only
      omega
    · rw [hparking] at hfence
      cases hfence

end Steps

/-- **Every control chain is answered once**: over every run, each chain is taken from the next slot of the available
ring, an answer is the first of its chain and carries its head, chains of one timeline with fence ids that do not
decrease, and those that wait for vblanks, are answered in the order of submission, and no chain waits for a completion
that was drained. -/
theorem chains_answered (control cursor : VirtioGpuQueue) (vblankInterval : Nat) (mem : GuestMemory)
    (ops : List GpuOp) :
    Served control ((GpuState.start control cursor vblankInterval mem).run ops) :=
  (run_kept (start_kept control cursor vblankInterval mem) ops).served

/-! ## Fence ids that go back -/

/-- The chains of a log that were taken. -/
def takenChains (log : List ChainEvent) : List TakenChain :=
  log.filterMap fun e =>
    match e with
    | .taken c => some c
    | _ => none

/-- The numbers of the chains that were answered. -/
def answeredIds (log : List ChainEvent) : List Nat :=
  log.filterMap fun e =>
    match e with
    | .answered a => some a.id
    | _ => none

/-- Parked on the same timeline. -/
def sameTimeline : Option Parking → Option Parking → Bool
  | some (.fence f), some (.fence g) => f.sameRing g
  | _, _ => false

/-- The answers of a timeline come in the order of submission, whatever the fence ids are. -/
def SubmissionOrder (e : ChainEvent) (earlier : List ChainEvent) : Prop :=
  ∀ id ∈ answeredIds [e], ∀ c ∈ takenChains earlier, ∀ c' ∈ takenChains earlier, c.id = id →
  c'.id < c.id →
    sameTimeline c'.parking c.parking = true → c'.id ∈ answeredIds earlier

instance (e : ChainEvent) (earlier : List ChainEvent) : Decidable (SubmissionOrder e earlier) :=
  inferInstanceAs (Decidable (∀ id ∈ answeredIds [e], ∀ c ∈ takenChains earlier, ∀ c' ∈ takenChains earlier,
    c.id = id →
    c'.id < c.id → sameTimeline c'.parking c.parking = true → c'.id ∈ answeredIds earlier))

/-- An answer moves the index of the used ring on. -/
def usedMoves (start : VirtioGpuQueue) : ChainEvent → Bool
  | .answered a =>
    a.after.readU16At start.device 2 == (a.before.readU16At start.device 2).map fun used => (used + 1) % 65536
  | _ => true

/-- A queue of two entries. -/
def smallQueue : VirtioGpuQueue := ⟨2, true, 0x1000, 0x2000, 0x3000, 0, false⟩

/-- SUBMIT_3D of context 1, with a fence. -/
def submit (fenceId : Nat) : List UInt8 := CtrlHdr.toBytes ⟨cmdSubmit3d, flagFence, fenceId, 1, 0⟩

/-- Two requests in the ring, with the fence ids 10 and 7. -/
def twoSubmits (writable : Bool) : GuestMemory :=
  ((((⟨fun _ => 0, fun _ _ => true, fun _ _ => writable⟩ : GuestMemory).store 0x1000
    (toLeBytes 8 0x4000 ++ toLeBytes 4 24 ++ toLeBytes 4 0 ++
      (toLeBytes 8 0x4100 ++ toLeBytes 4 24 ++ toLeBytes 4 0))).store 0x2000
      (toLeBytes 2 0 ++ toLeBytes 2 2 ++ toLeBytes 2 0 ++ toLeBytes 2 1)).store 0x4000
        (submit 10)).store 0x4100 (submit 7)

/-- Each request has a renderer, which takes its fence or not. -/
def renderer (createsFence : Bool) : Handler := ⟨fun _ _ mem => ⟨[], mem, true, createsFence⟩, fun _ _ => []⟩

/-- **Fence ids that go back**: a completion for the later chain alone answers it first. **A used ring that is not
mapped**: nothing is published. -/
theorem submission_order_broken :
    (¬∀ (control cursor : VirtioGpuQueue) (vblankInterval : Nat) (mem : GuestMemory) (ops : List GpuOp),
      Traced SubmissionOrder ((GpuState.start control cursor vblankInterval mem).run ops).gpu.log) ∧
    ¬∀ (control cursor : VirtioGpuQueue) (vblankInterval : Nat) (mem : GuestMemory) (ops : List GpuOp),
      ∀ e ∈ ((GpuState.start control cursor vblankInterval mem).run ops).gpu.log, usedMoves control e = true := by
  constructor
  · intro hall
    have horder := hall smallQueue smallQueue 0 (twoSubmits true) [.notify 0 (renderer true) [],
      .drainFences [⟨1, 0, 7⟩]]
    have hbroken : ¬Traced SubmissionOrder ((GpuState.start smallQueue smallQueue 0 (twoSubmits true)).run
        [.notify 0 (renderer true) [], .drainFences [⟨1, 0, 7⟩]]).gpu.log := by decide +kernel
    exact hbroken horder
  · intro hall
    have hmoves := hall smallQueue smallQueue 0 (twoSubmits false) [.notify 0 (renderer false) []]
    have hstill : ¬∀ e ∈ ((GpuState.start smallQueue smallQueue 0 (twoSubmits false)).run
        [.notify 0 (renderer false) []]).gpu.log, usedMoves smallQueue e = true := by decide +kernel
    exact hstill hmoves

end BridgeVm.VirtioGpu
