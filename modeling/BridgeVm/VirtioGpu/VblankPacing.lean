import Mathlib.Data.List.Induction
import BridgeVm.Lib.Schedule
import BridgeVm.VirtioGpu.Virtqueue

/-!
# The pace of the host vblanks

A retirement falls within one interval after its anchor, and anchors are an interval or more apart, whatever the
instants of the drains are. While some response is parked and each deadline finds its drain before the next deadline,
the anchors stay on the schedule, and the retirements with them.
-/

namespace BridgeVm.VirtioGpu

open Lib

namespace GpuState

/-- Nothing that paces the vblanks has changed. -/
structure SamePace (s s' : GpuState) : Prop where
  interval : s'.gpu.vblankInterval = s.gpu.vblankInterval
  last : s'.gpu.lastVblank = s.gpu.lastVblank

theorem SamePace.refl (s : GpuState) : SamePace s s := ⟨rfl, rfl⟩

theorem SamePace.trans {s s₁ s' : GpuState} (h : SamePace s s₁) (h' : SamePace s₁ s') : SamePace s s' :=
  ⟨h'.interval.trans h.interval, h'.last.trans h.last⟩

theorem modifyQueue_pace (g : GpuQueues) (queueIndex : Nat) (f : VirtioGpuQueue → VirtioGpuQueue) :
    (g.modifyQueue queueIndex f).vblankInterval = g.vblankInterval ∧
      (g.modifyQueue queueIndex f).lastVblank = g.lastVblank := by
  unfold GpuQueues.modifyQueue
  split <;> exact ⟨rfl, rfl⟩

theorem answer_pace (s : GpuState) (queueIndex : Nat) (queue : VirtioGpuQueue) (head usedLen id : Nat) (route : Route) :
    SamePace s (s.answer queueIndex queue head usedLen id route) :=
  have h := modifyQueue_pace s.gpu queueIndex fun q => { q with pendingMsix := true }
  ⟨h.1, h.2⟩

theorem advance_pace (s : GpuState) (queueIndex : Nat) : SamePace s (s.advance queueIndex) :=
  have h := modifyQueue_pace s.gpu queueIndex fun q => { q with lastAvailIdx := (q.lastAvailIdx + 1) % 65536 }
  ⟨h.1, h.2⟩

theorem park_pace (g : GpuQueues) (pending : PendingResponse) (parking : Parking) :
    (g.park pending parking).vblankInterval = g.vblankInterval ∧
      (g.park pending parking).lastVblank = g.lastVblank := by
  cases parking <;> exact ⟨rfl, rfl⟩

theorem processControlChain_pace (s : GpuState) (handler : Handler) (queue : VirtioGpuQueue) (head : Nat) :
    SamePace s (s.processControlChain handler queue head).1 := by
  unfold processControlChain
  split
  · exact ⟨rfl, rfl⟩
  · dsimp only
    split
    · exact ⟨rfl, rfl⟩
    · rename_i descs _ parking _
      have h := park_pace
      exact ⟨(h _ _ parking).1, (h _ _ parking).2⟩

theorem controlTurn_pace (s : GpuState) (handler : Handler) (queue : VirtioGpuQueue) (head : Nat) :
    SamePace s (s.controlTurn handler queue head) := by
  have h := processControlChain_pace s handler queue head
  unfold controlTurn
  split
  · rename_i s' hchain
    rw [hchain] at h
    exact h.trans (advance_pace _ _)
  · rename_i s' usedLen hchain
    rw [hchain] at h
    exact (h.trans (advance_pace _ _)).trans (answer_pace ..)

theorem cursorTurn_pace (s : GpuState) (handler : Handler) (queue : VirtioGpuQueue) (head : Nat) :
    SamePace s (s.cursorTurn handler queue head) := by
  have hchain : SamePace s (s.processCursorChain handler queue head).1 := by
    unfold processCursorChain
    split
    · exact .refl s
    · exact ⟨rfl, rfl⟩
  have h := hchain.trans (advance_pace _ queueCursor)
  have hmark := modifyQueue_pace ((s.processCursorChain handler queue head).1.advance queueCursor).gpu queueCursor
    fun q => { q with pendingMsix := true }
  exact ⟨hmark.1.trans h.interval, hmark.2.trans h.last⟩

theorem turns_pace (handler : Handler) (queueIndex : Nat) (queue : VirtioGpuQueue) (n : Nat) (s : GpuState) :
    SamePace s (turns handler queueIndex queue n s).1 := by
  induction n generalizing s with
  | zero => exact .refl s
  | succ n ih =>
    unfold turns
    split
    · exact .refl s
    split
    · exact .refl s
    · rename_i head _
      refine .trans ?_ (ih _)
      split
      · exact controlTurn_pace s handler queue head
      · exact cursorTurn_pace s handler queue head

theorem retireFirst_pace (completed : List CompletedFence) (s : GpuState) :
    SamePace s (retireFirst completed s) := by
  unfold retireFirst
  split
  · exact .refl s
  · dsimp only
    split
    · exact ⟨rfl, rfl⟩
    · refine .trans ?_ (answer_pace ..)
      exact ⟨rfl, rfl⟩

theorem drainCompletedFencesInner_pace (s : GpuState) (completed : List CompletedFence) :
    SamePace s (s.drainCompletedFencesInner completed) := by
  have hretire : ∀ n s, SamePace s (retireFenced completed n s) := by
    intro n
    induction n with
    | zero => exact SamePace.refl
    | succ n ih => exact fun s => (retireFirst_pace completed s).trans (ih _)
  unfold drainCompletedFencesInner
  dsimp only
  split
  · exact ⟨rfl, rfl⟩
  · have h := hretire s.gpu.pendingFenced.length s
    exact ⟨h.interval, h.last⟩

/-- Only a drain of the vblanks paces them. -/
theorem step_pace (s : GpuState) {op : GpuOp} (hop : ∀ now, op ≠ .drainVblank now) : SamePace s (s.step op) := by
  cases op with
  | notify queueIndex handler completed =>
    show SamePace s (s.notifyQueue handler completed queueIndex)
    unfold notifyQueue
    split
    · rcases s.processQueue_turns handler completed queueIndex with h | ⟨n, h | h⟩
      · rw [h]
        exact .refl s
      · rw [h]
        exact turns_pace handler queueIndex (s.gpu.queue queueIndex) n s
      · rw [h]
        exact (turns_pace handler queueIndex (s.gpu.queue queueIndex) n s).trans
          (drainCompletedFencesInner_pace _ completed)
    · exact .refl s
  | drainFences completed =>
    show SamePace s (s.drainCompletedFences completed)
    unfold drainCompletedFences
    split
    · exact .refl s
    · exact drainCompletedFencesInner_pace s completed
  | drainVblank now => exact absurd rfl (hop now)
  | guest mem => exact ⟨rfl, rfl⟩

/-- A drain leaves everything before the next vblank is due, and takes the first parked response after. -/
theorem drainHostVblankAt_cases (s : GpuState) (now : Nat) (hpos : 0 < s.gpu.vblankInterval) :
    (s.drainHostVblankAt now = s ∧
        (s.gpu.pendingVblank = [] ∨ ∃ last, s.gpu.lastVblank = some last ∧ now < last + s.gpu.vblankInterval)) ∨
      ((∀ last, s.gpu.lastVblank = some last → last + s.gpu.vblankInterval ≤ now) ∧
        ∃ pending rest, s.gpu.pendingVblank = pending :: rest ∧
          (s.drainHostVblankAt now).gpu.pendingVblank = rest ∧
          (s.drainHostVblankAt now).gpu.vblankInterval = s.gpu.vblankInterval ∧
          (s.drainHostVblankAt now).gpu.lastVblank =
            some (nextVblank s.gpu.lastVblank s.gpu.vblankInterval now)) := by
  unfold drainHostVblankAt
  split
  · rename_i hpending
    exact .inl ⟨rfl, .inl hpending⟩
  rename_i pending rest hpending
  have hne : (s.gpu.vblankInterval != 0) = true := by simp; omega
  by_cases hdue : s.vblankDue now = true
  · right
    refine ⟨?_, pending, rest, hpending, ?_⟩
    · intro last hlast
      simp only [vblankDue, hne, hlast, Bool.true_and, decide_eq_true_eq] at hdue
      omega
    · rw [if_neg (by simp [hdue])]
      dsimp only
      have hpace := answer_pace ⟨{ s.gpu with
          pendingVblank := rest
          lastVblank := some (nextVblank s.gpu.lastVblank s.gpu.vblankInterval now) },
        (scatterWrite s.mem pending.descs pending.response).1⟩ pending.queueIndex pending.queue pending.head
        (scatterWrite s.mem pending.descs pending.response).2 pending.id .vblank
      refine ⟨?_, hpace.interval, hpace.last⟩
      unfold answer GpuQueues.markQueueInterrupt GpuQueues.modifyQueue
      dsimp only
      split <;> rfl
  · left
    refine ⟨if_pos (by simp [hdue]), .inr ?_⟩
    rcases hlast : s.gpu.lastVblank with _ | last
    · simp [vblankDue, hne, hlast] at hdue
    · simp only [vblankDue, hne, hlast, Bool.true_and, decide_eq_true_eq] at hdue
      exact ⟨last, rfl, by omega⟩

/-! ## Retirements -/

/-- The instants at which parked responses were retired, one for each of them. -/
def retirements : GpuState → List GpuOp → List Nat
  | _, [] => []
  | s, op :: ops =>
    (match op with
      | .drainVblank now => List.replicate (s.gpu.pendingVblank.length - (s.step op).gpu.pendingVblank.length) now
      | _ => []) ++ retirements (s.step op) ops

theorem retirements_append (s : GpuState) (ops ops' : List GpuOp) :
    s.retirements (ops ++ ops') = s.retirements ops ++ (s.run ops).retirements ops' := by
  induction ops generalizing s with
  | nil => rfl
  | cons op ops ih =>
    show _ ++ (s.step op).retirements (ops ++ ops') = (_ ++ (s.step op).retirements ops) ++ _
    rw [ih, List.append_assoc]
    rfl

theorem run_concat (s : GpuState) (ops : List GpuOp) (op : GpuOp) : s.run (ops ++ [op]) = (s.run ops).step op := by
  simp [run]

/-- What one step retires. -/
theorem retirements_step (s : GpuState) (op : GpuOp) (hpos : 0 < s.gpu.vblankInterval) :
    (s.retirements [op] = [] ∧ SamePace s (s.step op) ∧
        ∀ now, op = .drainVblank now →
          s.gpu.pendingVblank = [] ∨ ∃ last, s.gpu.lastVblank = some last ∧ now < last + s.gpu.vblankInterval) ∨
      ∃ now, op = .drainVblank now ∧ s.retirements [op] = [now] ∧
        (∀ last, s.gpu.lastVblank = some last → last + s.gpu.vblankInterval ≤ now) ∧
        (s.step op).gpu.vblankInterval = s.gpu.vblankInterval ∧
        (s.step op).gpu.lastVblank = some (nextVblank s.gpu.lastVblank s.gpu.vblankInterval now) := by
  by_cases hop : ∀ now, op ≠ .drainVblank now
  · refine .inl ⟨?_, step_pace s hop, fun now hnow => absurd hnow (hop now)⟩
    cases op with
    | drainVblank now => exact absurd rfl (hop now)
    | _ => rfl
  push Not at hop
  obtain ⟨now, rfl⟩ := hop
  have hstep : s.step (.drainVblank now) = s.drainHostVblankAt now := rfl
  have hretire : s.retirements [.drainVblank now] =
      List.replicate (s.gpu.pendingVblank.length - (s.drainHostVblankAt now).gpu.pendingVblank.length) now := by
    simp [retirements, hstep]
  rcases drainHostVblankAt_cases s now hpos with ⟨hsame, hwhy⟩ |
    ⟨hdue, pending, rest, hpending, hrest, hinterval, hlast⟩
  · left
    rw [hretire, hstep, hsame]
    refine ⟨by simp, .refl s, ?_⟩
    intro now' hnow
    cases hnow
    exact hwhy
  · right
    refine ⟨now, rfl, ?_, hdue, hinterval, hlast⟩
    rw [hretire, hpending, hrest]
    simp

theorem nextVblank_bounds (last : Option Nat) (interval now : Nat)
    (hdue : ∀ l, last = some l → l + interval ≤ now) :
    nextVblank last interval now ≤ now ∧ now ≤ nextVblank last interval now + interval ∧
      ∀ l, last = some l → l + interval ≤ nextVblank last interval now := by
  cases last with
  | none => simp [nextVblank]
  | some last =>
    have hle := hdue last rfl
    simp only [nextVblank, Option.some.injEq, forall_eq']
    split <;> omega

theorem retirements_paced (s : GpuState) (ops : List GpuOp) (hpos : 0 < s.gpu.vblankInterval) :
    Paced s.gpu.vblankInterval s.gpu.lastVblank (s.retirements ops) := by
  induction ops generalizing s with
  | nil => trivial
  | cons op ops ih =>
    have hsplit : s.retirements (op :: ops) = s.retirements [op] ++ (s.step op).retirements ops := by
      simp [retirements]
    rw [hsplit]
    rcases retirements_step s op hpos with ⟨hnone, hpace, _⟩ | ⟨now, _, hone, hdue, hinterval, hlast⟩
    · rw [hnone, List.nil_append, ← hpace.interval, ← hpace.last]
      exact ih _ (by rw [hpace.interval]; exact hpos)
    · have hih := ih (s.step op) (by rw [hinterval]; exact hpos)
      rw [hinterval, hlast] at hih
      obtain ⟨hlow, hhigh, hapart⟩ := nextVblank_bounds _ _ now hdue
      rw [hone]
      exact ⟨_, hlow, hhigh, hapart, hih⟩

/-- The instants of the drains. -/
def drains : List GpuOp → List Nat
  | [] => []
  | .drainVblank now :: ops => now :: drains ops
  | _ :: ops => drains ops

theorem drains_append (ops ops' : List GpuOp) : drains (ops ++ ops') = drains ops ++ drains ops' := by
  induction ops with
  | nil => rfl
  | cons op ops ih =>
    cases op with
    | drainVblank now => exact congrArg (now :: ·) ih
    | _ => exact ih

/-- The first of the instants that is at or after a time. -/
def firstFrom (time : Nat) (instants : List Nat) : Option Nat := instants.find? fun t => decide (time ≤ t)

/-- The first drain at or after each deadline of the schedule from `anchor` is less than an interval late. -/
def Timely (anchor interval : Nat) (ops : List GpuOp) : Prop :=
  ∀ k d, 1 ≤ k → firstFrom (anchor + k * interval) (drains ops) = some d → d < anchor + k * interval + interval

/-- Each drain finds a parked response. -/
def Busy (s : GpuState) (ops : List GpuOp) : Prop :=
  ∀ before d, before ++ [.drainVblank d] <+: ops → (s.run before).gpu.pendingVblank ≠ []

/-- The anchor and the drains so far, on the schedule from the first anchor. -/
structure OnSchedule (s : GpuState) (anchor interval retired : Nat) (instants : List Nat) : Prop where
  same : s.gpu.vblankInterval = interval
  anchored : s.gpu.lastVblank = some (anchor + retired * interval)
  drained : ∀ d ∈ instants, d < anchor + retired * interval + interval

theorem schedule_run {s : GpuState} {anchor : Nat} {ops : List GpuOp} (hpos : 0 < s.gpu.vblankInterval)
    (hlast : s.gpu.lastVblank = some anchor) (htimely : Timely anchor s.gpu.vblankInterval ops) (hbusy : Busy s ops)
    {before : List GpuOp} (hbefore : before <+: ops) :
    OnSchedule (s.run before) anchor s.gpu.vblankInterval (s.retirements before).length (drains before) := by
  induction before using List.reverseRecOn with
  | nil =>
    refine ⟨rfl, by simpa [run, retirements] using hlast, ?_⟩
    intro d hd
    cases hd
  | append_singleton before op ih =>
    obtain ⟨hinterval, hlast', hdrained⟩ := ih ((List.prefix_append ..).trans hbefore)
    rw [run_concat, retirements_append, drains_append, List.length_append]
    have hpos' : 0 < (s.run before).gpu.vblankInterval := by rw [hinterval]; exact hpos
    rcases retirements_step (s.run before) op hpos' with ⟨hnone, hpace, hwhy⟩ |
      ⟨now, rfl, hone, hdue, hinterval', hnext⟩
    · rw [hnone]
      refine ⟨hpace.interval.trans hinterval, hpace.last.trans hlast', ?_⟩
      intro d hd
      rcases List.mem_append.mp hd with hd | hd
      · exact hdrained d hd
      · cases op with
        | drainVblank now =>
          obtain rfl : d = now := by simpa [drains] using hd
          rcases hwhy d rfl with hempty | ⟨last, hsome, hearly⟩
          · exact absurd hempty (hbusy before d hbefore)
          · rw [hlast'] at hsome
            cases hsome
            rw [hinterval] at hearly
            exact hearly
        | _ => cases hd
    · have hlow := hdue _ hlast'
      rw [hinterval] at hlow
      have hmul : ((s.retirements before).length + 1) * s.gpu.vblankInterval =
          (s.retirements before).length * s.gpu.vblankInterval + s.gpu.vblankInterval := Nat.add_one_mul ..
      -- no earlier drain reached this deadline, so the retirement is at the first one that did
      have hfirst : firstFrom (anchor + ((s.retirements before).length + 1) * s.gpu.vblankInterval) (drains ops) =
          some now := by
        obtain ⟨rest, rfl⟩ := hbefore
        rw [drains_append, drains_append, firstFrom, List.append_assoc, List.find?_append, Option.or_eq_some_iff]
        refine .inr ⟨?_, ?_⟩
        · rw [List.find?_eq_none]
          intro d hd
          have hlt := hdrained d hd
          simp only [decide_eq_true_eq]
          omega
        · show List.find? _ (now :: _) = some now
          rw [List.find?_cons_of_pos]
          simp only [decide_eq_true_eq]
          omega
      have hlate := htimely _ _ (by omega) hfirst
      rw [hone]
      refine ⟨hinterval'.trans hinterval, ?_, ?_⟩
      · rw [hnext, hlast', hinterval]
        have hsoon : now - (anchor + (s.retirements before).length * s.gpu.vblankInterval + s.gpu.vblankInterval) ≤
            s.gpu.vblankInterval := by omega
        simp only [nextVblank, if_pos hsoon, List.length_singleton, Option.some.injEq]
        omega
      · intro d hd
        rw [List.length_singleton]
        rcases List.mem_append.mp hd with hd | hd
        · have hlt := hdrained d hd
          omega
        · obtain rfl : d = now := by simpa [drains] using hd
          omega

/-- **The vblanks neither burst nor drift.** -/
theorem vblank_paced (s : GpuState) (hpos : 0 < s.gpu.vblankInterval) :
    (∀ now, s.gpu.pendingVblank.length ≤ (s.drainHostVblankAt now).gpu.pendingVblank.length + 1) ∧
      (∀ ops start width, ((s.retirements ops).countP fun t => decide (start ≤ t ∧ t ≤ start + width)) ≤
        width / s.gpu.vblankInterval + 2) ∧
      ∀ anchor ops, s.gpu.lastVblank = some anchor → Timely anchor s.gpu.vblankInterval ops → Busy s ops →
        ∀ before d k, before ++ [.drainVblank d] <+: ops → anchor + k * s.gpu.vblankInterval ≤ d →
          k ≤ (s.retirements (before ++ [.drainVblank d])).length := by
  refine ⟨?_, ?_, ?_⟩
  · intro now
    rcases drainHostVblankAt_cases s now hpos with ⟨hsame, _⟩ | ⟨_, pending, rest, hpending, hrest, _⟩
    · rw [hsame]
      exact Nat.le_succ _
    · rw [hpending, hrest]
      simp
  · intro ops start width
    exact (retirements_paced s ops hpos).window hpos start width
  · intro anchor ops hlast htimely hbusy before d k hbefore hle
    have hschedule := schedule_run hpos hlast htimely hbusy hbefore
    have hlt := hschedule.drained d (by rw [drains_append]; simp [drains])
    by_contra hgt
    have hmul : ((s.retirements (before ++ [.drainVblank d])).length + 1) * s.gpu.vblankInterval ≤
        k * s.gpu.vblankInterval := Nat.mul_le_mul_right _ (by omega)
    rw [Nat.add_one_mul] at hmul
    omega

/-- Three parked responses, an interval of eight, and an anchor. -/
def threeParked : GpuState :=
  let queue : VirtioGpuQueue := ⟨0, true, 0x1000, 0x2000, 0x3000, 3, false⟩
  let s := start queue queue 8 ⟨fun _ => 0, fun _ _ => true, fun _ _ => true⟩
  { s with gpu := { s.gpu with
      pendingVblank := [⟨queueControl, queue, 0, [], [], 0⟩, ⟨queueControl, queue, 1, [], [], 1⟩,
        ⟨queueControl, queue, 2, [], [], 2⟩]
      lastVblank := some 0 } }

theorem busy_two {s : GpuState} {t t' : Nat} (h : s.gpu.pendingVblank ≠ [])
    (h' : (s.run [.drainVblank t]).gpu.pendingVblank ≠ []) : Busy s [.drainVblank t, .drainVblank t'] := by
  rintro before d ⟨rest, hsplit⟩
  rcases before with _ | ⟨op, _ | ⟨op', before⟩⟩
  · exact h
  · obtain rfl : op = .drainVblank t := by simpa using congrArg List.head? hsplit
    exact h'
  · simp at hsplit

/-- Two drains, each a little late. -/
theorem vblank_paced_threeParked : 2 ≤ (threeParked.retirements [.drainVblank 9, .drainVblank 17]).length := by
  have htimely : Timely 0 8 [.drainVblank 9, .drainVblank 17] := by
    intro k d hk hfirst
    by_cases hle : 0 + k * 8 ≤ 9
    · simp only [firstFrom, drains, List.find?_cons, hle, decide_true, Option.some.injEq] at hfirst
      omega
    · have hmem : d ∈ [9, 17] := List.mem_of_find?_eq_some hfirst
      simp only [List.mem_cons, List.not_mem_nil, or_false] at hmem
      omega
  exact (vblank_paced threeParked (by decide)).2.2 0 [.drainVblank 9, .drainVblank 17] rfl htimely
    (busy_two (by decide) (by decide)) [.drainVblank 9] 17 2 (List.prefix_refl _) (by decide)

/-- A drain that is one whole interval late is the first one after two deadlines, and retires one response. -/
theorem late_by_an_interval :
    (∀ k d, 1 ≤ k → firstFrom (0 + k * 8) (drains [.drainVblank 16, .drainVblank 24]) = some d →
      d ≤ 0 + k * 8 + 8) ∧
      Busy threeParked [.drainVblank 16, .drainVblank 24] ∧
        firstFrom (0 + 2 * 8) (drains [.drainVblank 16, .drainVblank 24]) = some 16 ∧
          threeParked.retirements [.drainVblank 16] = [16] := by
  refine ⟨?_, busy_two (by decide) (by decide), rfl, rfl⟩
  intro k d hk hfirst
  by_cases hle : 0 + k * 8 ≤ 16
  · simp only [firstFrom, drains, List.find?_cons, hle, decide_true, Option.some.injEq] at hfirst
    omega
  · have hmem : d ∈ [16, 24] := List.mem_of_find?_eq_some hfirst
    simp only [List.mem_cons, List.not_mem_nil, or_false] at hmem
    omega

end GpuState

end BridgeVm.VirtioGpu
