import BridgeVm.Lib.EventLog
import BridgeVm.VirtioGpu.Virtqueue

/-!
# The books of the control queue

The log of the control queue is read back: which chains were taken from the available ring, which answer belongs to
which chain, and in which order. `Accounts` is what ties the log to the parked responses.
-/

namespace BridgeVm.VirtioGpu

open Lib

/-! ## Reading the log -/

/-- How many chains were taken. -/
def takenCount : List ChainEvent → Nat
  | [] => 0
  | .taken _ :: log => takenCount log + 1
  | .answered _ :: log => takenCount log
  | .drained _ :: log => takenCount log

/-- A chain was answered. -/
def Answered (log : List ChainEvent) (id : Nat) : Prop := ∃ a, ChainEvent.answered a ∈ log ∧ a.id = id

/-- A chain was taken and is not answered. -/
structure Outstanding (log : List ChainEvent) (c : TakenChain) : Prop where
  taken : .taken c ∈ log
  waits : ¬Answered log c.id

/-- A chain that is parked this way is answered by this route. -/
def Route.Serves : Route → Option Parking → Prop
  | .atOnce, none => True
  | .vblank, some .vblank => True
  | .fence completed, some (.fence f) => ∃ c ∈ completed, c.retires f = true
  | _, _ => False

/-- Parked in one line: all vblanks, or the fences of one timeline whose ids do not decrease. -/
def Precedes : Option Parking → Option Parking → Prop
  | some .vblank, some .vblank => True
  | some (.fence earlier), some (.fence later) => earlier.sameRing later = true ∧ earlier.fenceId ≤ later.fenceId
  | _, _ => False

/-- The used ring has one more element, with the head of the chain. -/
def Published (start : VirtioGpuQueue) (a : AnsweredChain) : Prop :=
  ∃ used, a.before.readU16At start.device 2 = some used ∧
    a.after.readU16At start.device 2 = some ((used + 1) % 65536) ∧
      a.after.span (start.device + 4 + used % start.effectiveSize * 8) 8 = toLeBytes 4 a.head ++ toLeBytes 4 a.usedLen

/-- A chain is taken from the next slot of the available ring. -/
structure TakenOk (start : VirtioGpuQueue) (c : TakenChain) (earlier : List ChainEvent) : Prop where
  number : c.id = takenCount earlier
  slot : c.availIdx % 65536 = (start.lastAvailIdx + c.id) % 65536
  head : c.mem.readU16At start.driver (GpuState.ringOff c.availIdx start.effectiveSize) = some c.head

/-- An answer is that of a chain which has none yet, by its route, after those before it in its line. -/
structure AnsweredOk (start : VirtioGpuQueue) (a : AnsweredChain) (earlier : List ChainEvent) : Prop where
  chain : ∃ c, Outstanding earlier c ∧ c.id = a.id ∧ c.head = a.head ∧ a.route.Serves c.parking ∧
    ∀ c', Outstanding earlier c' → c'.id < c.id → ¬Precedes c'.parking c.parking
  atOnce : a.route = .atOnce → ∃ c rest, earlier = .taken c :: rest ∧ c.id = a.id
  written : a.after = a.before.writeUsed start.device start.effectiveSize a.head a.usedLen
  published : a.before.UsedMapped start.device start.effectiveSize → Published start a

/-- After completions were drained, no chain waits for one of them. -/
def DrainedOk (completed : List CompletedFence) (earlier : List ChainEvent) : Prop :=
  ∀ c fence, .taken c ∈ earlier → c.parking = some (.fence fence) →
  (∃ d ∈ completed, d.retires fence = true) →
    Answered earlier c.id

def EventOk (start : VirtioGpuQueue) : ChainEvent → List ChainEvent → Prop
  | .taken c, earlier => TakenOk start c earlier
  | .answered a, earlier => AnsweredOk start a earlier
  | .drained completed, earlier => DrainedOk completed earlier

section Log

variable {start q q' : VirtioGpuQueue} {log : List ChainEvent} {c c' : TakenChain} {a : AnsweredChain} {id : Nat}
  {completed : List CompletedFence}

theorem registers_congr (h : q.registers = q'.registers) :
    q.driver = q'.driver ∧ q.device = q'.device ∧ q.effectiveSize = q'.effectiveSize := by
  have hsize := congrArg VirtioGpuQueue.size h
  have hdriver := congrArg VirtioGpuQueue.driver h
  have hdevice := congrArg VirtioGpuQueue.device h
  change q.size = q'.size at hsize
  refine ⟨hdriver, hdevice, ?_⟩
  unfold VirtioGpuQueue.effectiveSize
  rw [hsize]

@[simp] theorem answered_taken : Answered (.taken c :: log) id ↔ Answered log id := by simp [Answered]

@[simp] theorem answered_drained : Answered (.drained completed :: log) id ↔ Answered log id := by simp [Answered]

@[simp] theorem answered_answered : Answered (.answered a :: log) id ↔ a.id = id ∨ Answered log id := by
  simp only [Answered, List.mem_cons, ChainEvent.answered.injEq]
  constructor
  · rintro ⟨a', rfl | hmem, hid⟩
    · exact .inl hid
    · exact .inr ⟨a', hmem, hid⟩
  · rintro (hid | ⟨a', hmem, hid⟩)
    · exact ⟨a, .inl rfl, hid⟩
    · exact ⟨a', .inr hmem, hid⟩

theorem taken_lt (h : Traced (EventOk start) log) (hc : .taken c ∈ log) : c.id < takenCount log := by
  induction log with
  | nil => cases hc
  | cons e log ih =>
    rcases List.mem_cons.mp hc with rfl | hc
    · have hnumber : c.id = takenCount log := h.1.number
      rw [takenCount]
      omega
    · have hlt := ih h.2 hc
      cases e with
      | taken _ =>
        rw [takenCount]
        omega
      | answered _ => exact hlt
      | drained _ => exact hlt

theorem taken_unique (h : Traced (EventOk start) log) (hc : .taken c ∈ log) (hc' : .taken c' ∈ log)
    (hid : c.id = c'.id) :
    c = c' := by
  induction log with
  | nil => cases hc
  | cons e log ih =>
    rcases List.mem_cons.mp hc with hhead | hin
    · rcases List.mem_cons.mp hc' with hhead' | hin'
      · rw [← hhead] at hhead'
        exact (ChainEvent.taken.inj hhead').symm
      · subst hhead
        have hnumber : c.id = takenCount log := h.1.number
        have hlt := taken_lt h.2 hin'
        omega
    · rcases List.mem_cons.mp hc' with hhead' | hin'
      · subst hhead'
        have hnumber : c'.id = takenCount log := h.1.number
        have hlt := taken_lt h.2 hin
        omega
      · exact ih h.2 hin hin'

theorem answered_lt (h : Traced (EventOk start) log) (hanswered : Answered log id) : id < takenCount log := by
  induction log with
  | nil =>
    obtain ⟨a, hmem, -⟩ := hanswered
    cases hmem
  | cons e log ih =>
    cases e with
    | taken c =>
      have hlt := ih h.2 (answered_taken.mp hanswered)
      rw [takenCount]
      omega
    | answered a =>
      rcases answered_answered.mp hanswered with hid | hanswered
      · obtain ⟨c, hc, hsame, -⟩ := h.1.chain
        have hlt := taken_lt h.2 hc.taken
        rw [takenCount]
        omega
      · exact ih h.2 hanswered
    | drained _ => exact ih h.2 (answered_drained.mp hanswered)

theorem outstanding_taken (h : Traced (EventOk start) log) (hc : TakenOk start c log) :
    Outstanding (.taken c :: log) c' ↔ c' = c ∨ Outstanding log c' := by
  constructor
  · rintro ⟨htaken, hwaits⟩
    rw [answered_taken] at hwaits
    rcases List.mem_cons.mp htaken with hhead | hin
    · exact .inl (ChainEvent.taken.inj hhead)
    · exact .inr ⟨hin, hwaits⟩
  · rintro (rfl | hout)
    · refine ⟨List.mem_cons_self, fun hanswered => ?_⟩
      have hlt := answered_lt h (answered_taken.mp hanswered)
      have hnumber := hc.number
      omega
    · exact ⟨List.mem_cons_of_mem _ hout.taken, fun hanswered => hout.waits (answered_taken.mp hanswered)⟩

theorem outstanding_answered : Outstanding (.answered a :: log) c ↔ Outstanding log c ∧ c.id ≠ a.id := by
  constructor
  · rintro ⟨htaken, hwaits⟩
    rw [answered_answered, not_or] at hwaits
    refine ⟨⟨?_, hwaits.2⟩, fun h => hwaits.1 h.symm⟩
    simpa using htaken
  · rintro ⟨hout, hne⟩
    refine ⟨List.mem_cons_of_mem _ hout.taken, fun hanswered => ?_⟩
    rcases answered_answered.mp hanswered with hid | hanswered
    · exact hne hid.symm
    · exact hout.waits hanswered

theorem outstanding_drained : Outstanding (.drained completed :: log) c ↔ Outstanding log c := by
  constructor
  · rintro ⟨htaken, hwaits⟩
    rw [answered_drained] at hwaits
    exact ⟨by simpa using htaken, hwaits⟩
  · rintro ⟨htaken, hwaits⟩
    exact ⟨List.mem_cons_of_mem _ htaken, fun hanswered => hwaits (answered_drained.mp hanswered)⟩

end Log

/-! ## The books of the control queue -/

/-- What the answers of the control queue depend on. -/
structure Books where
  registers : VirtioGpuQueue
  lastAvailIdx : Nat
  taken : Nat
  log : List ChainEvent
  vblank : List PendingResponse
  fenced : List PendingFencedResponse

def GpuQueues.books (g : GpuQueues) : Books :=
  ⟨g.control.registers, g.control.lastAvailIdx, g.taken, g.log, g.pendingVblank, g.pendingFenced⟩

/-- The books after the next chain was taken. -/
def Books.take (b : Books) (c : TakenChain) : Books :=
  { b with taken := b.taken + 1, log := .taken c :: b.log, lastAvailIdx := (b.lastAvailIdx + 1) % 65536 }

/-- A response joins the parked ones of the books. -/
def Books.park (b : Books) (p : PendingResponse) : Parking → Books
  | .vblank => { b with vblank := b.vblank ++ [p] }
  | .fence f => { b with fenced := b.fenced ++ [{ p with fence := f }] }

/-- A parked response is that of a chain which has no answer. -/
def Waits (start : VirtioGpuQueue) (log : List ChainEvent) (p : PendingResponse) (parking : Parking) : Prop :=
  p.queue.registers = start.registers ∧
    ∃ c, Outstanding log c ∧ c.id = p.id ∧ c.head = p.head ∧ c.parking = some parking

/-- The log and the parked responses belong together. -/
structure Accounts (start : VirtioGpuQueue) (b : Books) : Prop where
  events : Traced (EventOk start) b.log
  registers : b.registers = start.registers
  count : takenCount b.log = b.taken
  next : b.lastAvailIdx % 65536 = (start.lastAvailIdx + b.taken) % 65536
  vblankWaits : ∀ p ∈ b.vblank, Waits start b.log p .vblank
  fencedWaits : ∀ p ∈ b.fenced, Waits start b.log p.toPendingResponse (.fence p.fence)
  vblankOrder : b.vblank.Pairwise fun p q => p.id < q.id
  bounded : b.vblank.length + b.fenced.length ≤ start.effectiveSize

/-- Every chain that has no answer is parked. -/
def AllParked (b : Books) : Prop :=
  ∀ c, Outstanding b.log c → (∃ p ∈ b.vblank, p.id = c.id) ∨ ∃ p ∈ b.fenced, p.id = c.id

/-- The fenced responses stand in the order of submission. -/
def FencedInOrder (b : Books) : Prop := b.fenced.Pairwise fun p q => p.id < q.id

section Accounts

variable {start : VirtioGpuQueue} {b : Books} {c c' : TakenChain} {a : AnsweredChain} {p q : PendingResponse}
  {parking parking' : Parking} {completed : List CompletedFence} {log : List ChainEvent}

theorem Waits.parking_eq (h : Traced (EventOk start) log) (hp : Waits start log p parking) (hc : Outstanding log c)
    (hid : p.id = c.id) : c.parking = some parking := by
  obtain ⟨-, c', hout, hid', -, hparking⟩ := hp
  have hsame := taken_unique h hout.taken hc.taken (hid'.trans hid)
  rw [← hsame]
  exact hparking

theorem Waits.id_ne (h : Traced (EventOk start) log) (hp : Waits start log p parking) (hq : Waits start log q parking')
    (hne : parking ≠ parking') : p.id ≠ q.id := by
  intro hid
  obtain ⟨-, c, hout, hcid, -, hparking⟩ := hq
  have hother := hp.parking_eq h hout (hid.trans hcid.symm)
  rw [hparking] at hother
  exact hne (Option.some.inj hother).symm

theorem Waits.taken (h : Traced (EventOk start) log) (hc : TakenOk start c log) (hp : Waits start log p parking) :
    Waits start (.taken c :: log) p parking := by
  obtain ⟨hqueue, c', hout, hrest⟩ := hp
  exact ⟨hqueue, c', (outstanding_taken h hc).mpr (.inr hout), hrest⟩

theorem Waits.answered (hp : Waits start log p parking) (hne : p.id ≠ a.id) :
    Waits start (.answered a :: log) p parking := by
  obtain ⟨hqueue, c, hout, hid, hrest⟩ := hp
  exact ⟨hqueue, c, outstanding_answered.mpr ⟨hout, fun h => hne (hid.symm.trans h)⟩, hid, hrest⟩

theorem Waits.drained (hp : Waits start log p parking) : Waits start (.drained completed :: log) p parking := by
  obtain ⟨hqueue, c, hout, hrest⟩ := hp
  exact ⟨hqueue, c, outstanding_drained.mpr hout, hrest⟩

theorem AllParked.cases (hall : AllParked b) (h : Accounts start b) (hc : Outstanding b.log c) :
    (c.parking = some .vblank ∧ ∃ p ∈ b.vblank, p.id = c.id) ∨
      ∃ f, c.parking = some (.fence f) ∧ ∃ p ∈ b.fenced, p.id = c.id ∧ p.fence = f := by
  rcases hall c hc with ⟨p, hp, hid⟩ | ⟨p, hp, hid⟩
  · exact .inl ⟨(h.vblankWaits p hp).parking_eq h.events hc hid, p, hp, hid⟩
  · exact .inr ⟨p.fence, (h.fencedWaits p hp).parking_eq h.events hc hid, p, hp, hid, rfl⟩

theorem Accounts.take (h : Accounts start b) (hc : TakenOk start c b.log) : Accounts start (b.take c) where
  events := ⟨hc, h.events⟩
  registers := h.registers
  count := by
    unfold Books.take
    rw [takenCount, h.count]
  next := by
    have hnext := h.next
    unfold Books.take
    dsimp only
    omega
  vblankWaits p hp := (h.vblankWaits p hp).taken h.events hc
  fencedWaits p hp := (h.fencedWaits p hp).taken h.events hc
  vblankOrder := h.vblankOrder
  bounded := h.bounded

/-- The response of the last chain is parked. -/
theorem Accounts.park (h : Accounts start b) (hp : Waits start b.log p parking)
    (hlast : ∀ q ∈ b.vblank, q.id < p.id)
    (hroom : b.vblank.length + b.fenced.length < start.effectiveSize) : Accounts start (b.park p parking) := by
  cases parking with
  | vblank =>
    refine ⟨h.events, h.registers, h.count, h.next, fun q hq => ?_, h.fencedWaits, ?_, ?_⟩
    · rcases List.mem_append.mp hq with hq | hq
      · exact h.vblankWaits q hq
      · rw [List.mem_singleton.mp hq]
        exact hp
    · refine List.pairwise_append.mpr ⟨h.vblankOrder, List.pairwise_singleton _ _, fun q hq r hr => ?_⟩
      rw [List.mem_singleton.mp hr]
      exact hlast q hq
    · show (b.vblank ++ [p]).length + b.fenced.length ≤ _
      rw [List.length_append, List.length_singleton]
      omega
  | fence f =>
    refine ⟨h.events, h.registers, h.count, h.next, h.vblankWaits, fun q hq => ?_, h.vblankOrder, ?_⟩
    · rcases List.mem_append.mp hq with hq | hq
      · exact h.fencedWaits q hq
      · rw [List.mem_singleton.mp hq]
        exact hp
    · show b.vblank.length + (b.fenced ++ [_]).length ≤ _
      rw [List.length_append, List.length_singleton]
      omega

theorem Waits.lt (h : Traced (EventOk start) log) (hp : Waits start log p parking) : p.id < takenCount log := by
  obtain ⟨-, c, hout, hid, -⟩ := hp
  rw [← hid]
  exact taken_lt h hout.taken

theorem Accounts.answer {vblank : List PendingResponse} {fenced : List PendingFencedResponse} (h : Accounts start b)
    (ha : AnsweredOk start a b.log) (hvblank : vblank.Sublist b.vblank) (hfenced : ∀ p ∈ fenced, p ∈ b.fenced)
    (hlen : fenced.length ≤ b.fenced.length) (hv : ∀ p ∈ vblank, p.id ≠ a.id) (hf : ∀ p ∈ fenced,
      p.id ≠ a.id) :
    Accounts start { b with log := .answered a :: b.log, vblank, fenced } where
  events := ⟨ha, h.events⟩
  registers := h.registers
  count := h.count
  next := h.next
  vblankWaits p hp := (h.vblankWaits p (hvblank.subset hp)).answered (hv p hp)
  fencedWaits p hp := (h.fencedWaits p (hfenced p hp)).answered (hf p hp)
  vblankOrder := h.vblankOrder.sublist hvblank
  bounded := by
    have hbound := h.bounded
    have hle := hvblank.length_le
    dsimp only
    omega

theorem AllParked.answer {vblank : List PendingResponse} {fenced : List PendingFencedResponse} (h : AllParked b)
    (hv : ∀ p ∈ b.vblank, p.id ≠ a.id → p ∈ vblank) (hf : ∀ p ∈ b.fenced, p.id ≠ a.id →
      p ∈ fenced) :
    AllParked { b with log := .answered a :: b.log, vblank, fenced } := by
  intro c hc
  obtain ⟨hout, hne⟩ := outstanding_answered.mp hc
  rcases h c hout with ⟨p, hp, hid⟩ | ⟨p, hp, hid⟩
  · exact .inl ⟨p, hv p hp (hid ▸ hne), hid⟩
  · exact .inr ⟨p, hf p hp (hid ▸ hne), hid⟩

theorem published_of_mapped (hafter : a.after = a.before.writeUsed start.device start.effectiveSize a.head a.usedLen)
    (hmapped : a.before.UsedMapped start.device start.effectiveSize) : Published start a := by
  have hfits := hmapped.fits
  obtain ⟨used, hused⟩ : ∃ used, a.before.readU16At start.device 2 = some used :=
    ⟨_, readU16At_eq (by omega) hmapped.indexRead⟩
  obtain ⟨hindex, hspan⟩ := writeUsed_mapped hmapped hused
  rw [← hafter] at hindex hspan
  exact ⟨used, hused, hindex, hspan⟩

theorem answeredOk_of_waits {usedLen : Nat} {before after : GuestMemory} {route : Route}
    (h : Waits start b.log p parking)
    (hserves : route.Serves (some parking)) (hroute : route ≠ .atOnce)
    (horder : ∀ c', Outstanding b.log c' → c'.id < p.id → ¬Precedes c'.parking (some parking))
    (hafter : after = before.writeUsed p.queue.device p.queue.effectiveSize p.head usedLen) :
    AnsweredOk start ⟨p.id, p.head, p.queue, usedLen, before, after, route⟩ b.log := by
  obtain ⟨hqueue, c, hout, hid, hhead, hparking⟩ := h
  obtain ⟨-, hdevice, hsize⟩ := registers_congr hqueue
  rw [hdevice, hsize] at hafter
  refine ⟨⟨c, hout, hid, hhead, ?_, fun c' hc' hlt => ?_⟩, fun hat => absurd hat hroute, hafter,
    published_of_mapped hafter⟩
  · rw [hparking]
    exact hserves
  · rw [hparking]
    exact horder c' hc' (hid ▸ hlt)

end Accounts

end BridgeVm.VirtioGpu
