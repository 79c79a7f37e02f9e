import BridgeVm.Xhci.EventRing

/-!
# Where events are written (`xhci/event.rs`)

The view of a ring is what was posted to it since it was programmed and where the next event goes (`RingView`). While
the size the guest keeps in the segment table stays the same, the `n`-th event goes to TRB `n % size` with the cycle of
its pass (`RingView.Placed`): registers, resets and posts keep it (`step_placed`), so every run does (`run_placed`).
The ERDP decides nothing: an event is written over one that is not consumed as soon as a whole ring of them is left
(`posted_in_order`, `unread_event_overwritten`).
-/

namespace BridgeVm.Xhci

open Lib

/-- What programs the ring of an interrupter. -/
def RingEvent.programs (index : Fin interrupterCount) : RingEvent → Bool
  | .programmed i => decide (i = index)
  | .reset => true
  | _ => false

/-- An event posted to an interrupter. -/
def RingEvent.postedTo (index : Fin interrupterCount) : RingEvent → Option EventPostTrace
  | .posted trace => if trace.interrupter = index then some trace else none
  | _ => none

/-- The events posted to an interrupter since its ring was programmed, newest first. -/
def postsSince (index : Fin interrupterCount) (log : List RingEvent) : List EventPostTrace :=
  (since (RingEvent.programs index) log).filterMap (RingEvent.postedTo index)

/-- How many events of a ring at `base` the guest has consumed: every ERDP moves on to the TRB it points at. -/
def consumed (index : Fin interrupterCount) (base size : Nat) : List RingEvent → Nat
  | [] => 0
  | .erdp i erdp :: earlier =>
    let n := consumed index base size earlier
    if i = index then n + ringDist size (n % size) ((erdp.toNat - base) / trbSizeBytes % size) else n
  | _ :: earlier => consumed index base size earlier

/-- An event is written in the place and with the cycle of its number, and over an event that is not consumed exactly
when a whole ring of them is left. -/
structure InOrder (trace : EventPostTrace) (earlier : List RingEvent) : Prop where
  place : trace.enqueue = (postsSince trace.interrupter earlier).length % trace.segmentTrbs
  gpa : trace.eventGpa = trace.segmentBase +
    (postsSince trace.interrupter earlier).length % trace.segmentTrbs * trbSizeBytes
  cycle : trace.control &&& trbCycle =
    cycleBit (decide ((postsSince trace.interrupter earlier).length / trace.segmentTrbs % 2 = 0))
  unread : (∃ k,
      consumed trace.interrupter trace.segmentBase trace.segmentTrbs
          (since (RingEvent.programs trace.interrupter) earlier) ≤ k ∧
        k < (postsSince trace.interrupter earlier).length ∧ k % trace.segmentTrbs = trace.enqueue) ↔
    trace.segmentTrbs ≤ (postsSince trace.interrupter earlier).length -
      consumed trace.interrupter trace.segmentBase trace.segmentTrbs
        (since (RingEvent.programs trace.interrupter) earlier)

/-- A posted event is in order, when the size in the segment table has not changed since its ring was programmed. -/
def PostOk (e : RingEvent) (earlier : List RingEvent) : Prop :=
  ∀ trace, e = .posted trace →
    (∀ t ∈ postsSince trace.interrupter earlier, t.segmentTrbs = trace.segmentTrbs) → InOrder trace earlier

/-- A ring: the events posted since it was programmed, newest first, and the place and cycle of the next. -/
structure RingView where
  posts : List EventPostTrace
  enqueue : Nat
  cycle : Bool

/-- Where the next event goes, for any size all posts found in the segment table. -/
def RingView.Placed (r : RingView) : Prop :=
  ∀ size, (∀ trace ∈ r.posts, trace.segmentTrbs = size) →
    r.enqueue = r.posts.length % size ∧ r.cycle = decide (r.posts.length / size % 2 = 0)

/-- A ring nothing was posted to since it was programmed. -/
def RingView.start : RingView := ⟨[], 0, true⟩

/-- The ring after an event was posted to it. -/
def RingView.post (r : RingView) (trace : EventPostTrace) : RingView where
  posts := trace :: r.posts
  enqueue := if r.enqueue + 1 = trace.segmentTrbs then 0 else r.enqueue + 1
  cycle := if r.enqueue + 1 = trace.segmentTrbs then !r.cycle else r.cycle

theorem RingView.start_placed : RingView.start.Placed := by
  intro size _
  simp [RingView.start]

theorem RingView.post_placed {r : RingView} {trace : EventPostTrace} (h : r.Placed)
    (hlt : r.enqueue < trace.segmentTrbs) : (r.post trace).Placed := by
  intro size hsize
  have htrace : trace.segmentTrbs = size := hsize trace (List.mem_cons_self ..)
  obtain ⟨henqueue, hcycle⟩ := h size fun t ht => hsize t (List.mem_cons_of_mem _ ht)
  rw [htrace, henqueue] at hlt
  have hlen : (r.post trace).posts.length = r.posts.length + 1 := rfl
  rw [hlen]
  simp only [RingView.post, htrace, henqueue, hcycle]
  by_cases hlast : r.posts.length % size + 1 = size
  · obtain ⟨hmod, hdiv⟩ := pass_last hlast
    rw [if_pos hlast, if_pos hlast, hmod, hdiv]
    refine ⟨rfl, ?_⟩
    rw [← decide_not, decide_eq_decide]
    omega
  · obtain ⟨hmod, hdiv⟩ := pass_inner (by omega : r.posts.length % size + 1 < size)
    rw [if_neg hlast, if_neg hlast, hmod, hdiv]
    exact ⟨rfl, rfl⟩

namespace XhciController

variable {c : XhciController} {index i : Fin interrupterCount}

/-- The ring of an interrupter. -/
def ring (c : XhciController) (index : Fin interrupterCount) : RingView where
  posts := postsSince index c.log
  enqueue := (getElem c.interrupters index index.isLt).eventEnqueue
  cycle := (getElem c.interrupters index index.isLt).eventCycle

/-- Every ring has its next event in place, and every event that was posted was. -/
structure Placed (c : XhciController) : Prop where
  rings : ∀ index, (c.ring index).Placed
  posts : Traced PostOk c.log

/-- No ring changed. -/
structure KeepsRings (c c' : XhciController) : Prop where
  rings : ∀ index, c'.ring index = c.ring index
  posts : Traced PostOk c.log → Traced PostOk c'.log

theorem KeepsRings.trans {c₁ c₂ c₃ : XhciController} (h₁ : c₁.KeepsRings c₂) (h₂ : c₂.KeepsRings c₃) :
    c₁.KeepsRings c₃ := ⟨fun index => (h₂.rings index).trans (h₁.rings index),
      fun h => h₂.posts (h₁.posts h)⟩

theorem KeepsRings.placed {c' : XhciController} (h : c.KeepsRings c') (hc : c.Placed) : c'.Placed where
  rings := fun index => by
    rw [h.rings index]
    exact hc.rings index
  posts := h.posts hc.posts

theorem KeepsRings.of_eq {c' : XhciController} (hlog : c'.log = c.log)
    (h : ∀ i : Fin interrupterCount,
      (getElem c'.interrupters i i.isLt).eventEnqueue = (getElem c.interrupters i i.isLt).eventEnqueue ∧
        (getElem c'.interrupters i i.isLt).eventCycle = (getElem c.interrupters i i.isLt).eventCycle) :
          c.KeepsRings c' where
  rings := fun i => by simp only [ring, hlog, h i]
  posts := fun ht => hlog ▸ ht

theorem setInterrupter_get (f : Interrupter → Interrupter) (i : Fin interrupterCount) :
    getElem (c.setInterrupter index f).interrupters i i.isLt =
      if i = index then f (getElem c.interrupters index index.isLt) else getElem c.interrupters i i.isLt := by
  simp only [setInterrupter, Fin.getElem_fin, Vector.getElem_set, Fin.ext_iff, eq_comm]

theorem setInterrupter_keepsRings (f : Interrupter → Interrupter)
    (h : ∀ i, (f i).eventEnqueue = i.eventEnqueue ∧ (f i).eventCycle = i.eventCycle) :
    c.KeepsRings (c.setInterrupter index f) := by
  refine KeepsRings.of_eq rfl fun i => ?_
  rw [setInterrupter_get]
  split
  · rename_i heq
    subst heq
    exact h _
  · exact ⟨rfl, rfl⟩

theorem refreshInterrupterPendingBits_keepsRings : c.KeepsRings (c.refreshInterrupterPendingBits index) :=
  KeepsRings.of_eq rfl fun _ => ⟨rfl, rfl⟩

theorem setInterrupterPending_keepsRings : c.KeepsRings (c.setInterrupterPending index) :=
  (setInterrupter_keepsRings (fun i => { i with iman := i.iman ||| imanInterruptPending }) fun _ =>
    ⟨rfl, rfl⟩).trans
    refreshInterrupterPendingBits_keepsRings

theorem clearInterrupterPending_keepsRings : c.KeepsRings (c.clearInterrupterPending index) :=
  (setInterrupter_keepsRings (fun i => { i with iman := i.iman &&& ~~~imanInterruptPending }) fun _ =>
    ⟨rfl, rfl⟩).trans refreshInterrupterPendingBits_keepsRings

theorem writeIman_keepsRings (value : UInt32) : c.KeepsRings (c.writeIman index value) := by
  have hset : ∀ iman, c.KeepsRings (c.setInterrupter index fun i => { i with iman }) := fun iman =>
    setInterrupter_keepsRings (fun i => { i with iman }) fun _ => ⟨rfl, rfl⟩
  exact (hset _).trans refreshInterrupterPendingBits_keepsRings

theorem postsSince_cons {e : RingEvent} {log : List RingEvent} (hprog : e.programs index = false)
    (hpost : e.postedTo index = none) : postsSince index (e :: log) = postsSince index log := by
  rw [postsSince, since_event hprog, List.filterMap_cons_none hpost, postsSince]

theorem storeErdp_keepsRings (erdp : UInt64) : c.KeepsRings (c.storeErdp index erdp) := by
  have hset : c.KeepsRings (c.setInterrupter index fun i => { i with erdp }) :=
    setInterrupter_keepsRings _ fun _ => ⟨rfl, rfl⟩
  refine hset.trans ⟨fun i => ?_, fun ht => ⟨fun _ h => (nomatch h), ht⟩⟩
  simp only [ring, storeErdp]
  rw [postsSince_cons rfl rfl]
  rfl

theorem writeErdpLow_keepsRings (value : UInt32) : c.KeepsRings (c.writeErdpLow index value) := by
  unfold writeErdpLow
  dsimp only
  split
  · have hbusy : c.KeepsRings (c.setInterrupter index fun i => { i with eventHandlerBusy := false }) :=
      setInterrupter_keepsRings _ fun _ => ⟨rfl, rfl⟩
    exact (hbusy.trans clearInterrupterPending_keepsRings).trans (storeErdp_keepsRings _)
  · exact storeErdp_keepsRings _

theorem resetEventRing_placed (hc : c.Placed) : (c.resetEventRing index).Placed := by
  refine ⟨fun i => ?_, fun _ h => (nomatch h), hc.posts⟩
  by_cases heq : i = index
  · subst heq
    have hstart : (c.resetEventRing i).ring i = RingView.start := by
      simp only [ring, resetEventRing, setInterrupter_get, RingView.start, postsSince]
      rw [since_mark (by simp [RingEvent.programs])]
      simp
    rw [hstart]
    exact RingView.start_placed
  · have hkeep : (c.resetEventRing index).ring i = c.ring i := by
      simp only [ring, resetEventRing, setInterrupter_get, if_neg heq]
      rw [postsSince_cons (by simpa [RingEvent.programs] using Ne.symm heq) rfl]
    rw [hkeep]
    exact hc.rings i

theorem resetProgrammedState_placed (hposts : Traced PostOk c.log) : c.resetProgrammedState.Placed := by
  refine ⟨fun i => ?_, fun _ h => (nomatch h), hposts⟩
  have hstart : c.resetProgrammedState.ring i = RingView.start := by
    simp only [ring, resetProgrammedState, RingView.start, postsSince]
    rw [since_mark rfl]
    simp [Interrupter.new]
  rw [hstart]
  exact RingView.start_placed

theorem writeInterrupter_placed (hc : c.Placed) (reg : Nat) (value : UInt32) :
    (c.writeInterrupter index reg value).Placed := by
  unfold writeInterrupter
  split
  · exact (writeIman_keepsRings value).placed hc
  · exact (setInterrupter_keepsRings (fun i => { i with imod := value }) fun _ => ⟨rfl, rfl⟩).placed hc
  · exact resetEventRing_placed
      ((setInterrupter_keepsRings (fun i => { i with erstsz := value }) fun _ => ⟨rfl, rfl⟩).placed hc)
  · exact resetEventRing_placed
      ((setInterrupter_keepsRings (fun i => { i with erstba := withLow i.erstba value }) fun _ =>
        ⟨rfl, rfl⟩).placed hc)
  · exact resetEventRing_placed
      ((setInterrupter_keepsRings (fun i => { i with erstba := withHigh i.erstba value }) fun _ =>
        ⟨rfl, rfl⟩).placed hc)
  · exact (writeErdpLow_keepsRings value).placed hc
  · exact (storeErdp_keepsRings _).placed hc
  · exact hc

theorem writePort_keepsRings (port : Fin portCount) (value : UInt32) : c.KeepsRings (c.writePort port value).1 := by
  unfold writePort
  dsimp only
  split
  · exact KeepsRings.of_eq rfl fun _ => ⟨rfl, rfl⟩
  · exact KeepsRings.of_eq rfl fun _ => ⟨rfl, rfl⟩

theorem writeUsbCommand_placed (hc : c.Placed) (value : UInt32) : (c.writeUsbCommand value).Placed := by
  unfold writeUsbCommand
  dsimp only
  split
  · have hreset : { c with ports := c.ports.map PortState.postHcrst }.resetProgrammedState.Placed :=
      resetProgrammedState_placed hc.posts
    split
    · exact ⟨hreset.rings, hreset.posts⟩
    · exact ⟨hreset.rings, hreset.posts⟩
  · exact ⟨hc.rings, hc.posts⟩

theorem writeDword_placed (hc : c.Placed) (offset : Nat) (value : UInt32) : (c.writeDword offset value).1.Placed := by
  unfold writeDword
  split
  · split
    · exact (writePort_keepsRings _ value).placed hc
    · exact hc
  · split
    · exact writeInterrupter_placed hc _ value
    · split
      · exact writeUsbCommand_placed hc value
      all_goals exact ⟨hc.rings, hc.posts⟩

theorem writeRegisters_placed (offset bytes : Nat) (value : UInt64) (rounds : Nat) :
    ∀ (consumed : Nat) {c : XhciController}, c.Placed →
      (writeRegisters offset bytes value rounds consumed c).1.Placed := by
  induction rounds with
  | zero => exact fun _ _ hc => hc
  | succ rounds ih =>
    intro consumed c hc
    unfold writeRegisters
    split
    · exact hc
    · exact ih _ (writeDword_placed hc _ _)

theorem mmioWrite_placed (hc : c.Placed) (offset size : Nat) (value : UInt64) :
    (c.mmioWrite offset size value).1.Placed := by
  unfold mmioWrite
  split
  · exact hc
  · exact writeRegisters_placed _ _ _ _ _ hc

/-- An event that was posted: its place and cycle are those of the ring, its bytes are in memory, and the ring has one
event more. -/
structure Posted (c : XhciController) (mem : GuestMemory) (parameter : UInt64) (status controlWithoutCycle : UInt32)
    (trace : EventPostTrace) (c' : XhciController) (mem' : GuestMemory) : Prop where
  enqueue : trace.enqueue = (c.ring trace.interrupter).enqueue
  cycle : trace.cycle = (c.ring trace.interrupter).cycle
  inside : trace.enqueue < trace.segmentTrbs
  gpa : trace.eventGpa = trace.segmentBase + trace.enqueue * trbSizeBytes
  sent : trace.parameter = parameter ∧ trace.status = status
  control : trace.control = controlWithoutCycle ||| cycleBit trace.cycle
  written : mem' = mem.store trace.eventGpa (eventTrb parameter status trace.control)
  ring : ∀ i, c'.ring i = if i = trace.interrupter then (c.ring trace.interrupter).post trace else c.ring i
  log : c'.log = .posted trace :: c.log

theorem ring_posted (c : XhciController) (trace : EventPostTrace) (i : Fin interrupterCount) :
    (c.eventPosted trace).ring i =
      if i = trace.interrupter then (c.ring trace.interrupter).post trace else c.ring i := by
  have hpending : (c.eventWritten trace.interrupter trace.segmentTrbs).ring i = _ :=
    setInterrupterPending_keepsRings.rings i
  have henqueue := congrArg RingView.enqueue hpending
  have hcycle := congrArg RingView.cycle hpending
  simp only [ring, setInterrupter_get] at henqueue hcycle
  simp only [ring, eventPosted, henqueue, hcycle]
  rw [postsSince, since_event rfl]
  by_cases heq : i = trace.interrupter
  · subst heq
    rw [List.filterMap_cons_some (by rw [RingEvent.postedTo, if_pos rfl]), if_pos rfl]
    simp only [if_true]
    rfl
  · rw [List.filterMap_cons_none (by rw [RingEvent.postedTo, if_neg (Ne.symm heq)])]
    simp only [if_neg heq]
    rfl

/-- What `postEventToInterrupter` does: nothing, or an event is posted. -/
theorem postEventToInterrupter_cases {mem mem' : GuestMemory} {n : Nat} {parameter : UInt64} {status control : UInt32}
    {c' : XhciController} {result : Option EventPostTrace}
    (h : c.postEventToInterrupter mem n parameter status control = (c', mem', result)) :
    (c' = c ∧ mem' = mem ∧ result = none) ∨
      ∃ trace, result = some trace ∧ c.Posted mem parameter status control trace c' mem' := by
  unfold postEventToInterrupter at h
  dsimp only at h
  split at h
  · cases h
    exact Or.inl ⟨rfl, rfl, rfl⟩
  · split at h
    · cases h
      exact Or.inl ⟨rfl, rfl, rfl⟩
    · split at h
      · cases h
        exact Or.inl ⟨rfl, rfl, rfl⟩
      · rename_i eventGpa hgpa
        split at h
        · cases h
          exact Or.inl ⟨rfl, rfl, rfl⟩
        · rename_i hinside
          split at h
          · cases h
            exact Or.inl ⟨rfl, rfl, rfl⟩
          · rename_i hwritten
            obtain ⟨hc, hrest⟩ := Prod.mk.inj h
            obtain ⟨hmem, hresult⟩ := Prod.mk.inj hrest
            have hgpaEq : eventGpa = _ := checkedAdd_some hgpa
            have hstore := writeBytes_store (by simpa using hwritten)
            refine Or.inr ⟨_, hresult.symm, rfl, rfl, ?_, hgpaEq, ⟨rfl, rfl⟩, rfl,
              hmem.symm.trans hstore, ?_, ?_⟩
            · exact Nat.lt_of_not_le fun hle => hinside (Or.inr (Or.inr hle))
            · rw [← hc]
              exact ring_posted c _
            · rw [← hc]
              rfl

theorem or_and_cycle (a b : UInt32) : (a ||| b) &&& trbCycle = (a &&& trbCycle) ||| (b &&& trbCycle) := by
  apply UInt32.toBitVec_inj.mp
  ext i
  simp [Bool.and_or_distrib_right]

theorem Posted.inOrder {mem mem' : GuestMemory} {parameter : UInt64} {status control : UInt32} {trace : EventPostTrace}
    {c' : XhciController} (h : c.Posted mem parameter status control trace c' mem') (hc : c.Placed)
    (hcontrol : control &&& trbCycle = 0)
    (hsize : ∀ t ∈ postsSince trace.interrupter c.log, t.segmentTrbs = trace.segmentTrbs) :
      InOrder trace c.log := by
  obtain ⟨henqueue, hcycle⟩ := hc.rings trace.interrupter trace.segmentTrbs hsize
  have hplace : trace.enqueue = (postsSince trace.interrupter c.log).length % trace.segmentTrbs :=
    h.enqueue.trans henqueue
  have hpos : 0 < trace.segmentTrbs := Nat.lt_of_le_of_lt (Nat.zero_le _) h.inside
  refine ⟨hplace, ?_, ?_, ?_⟩
  · rw [h.gpa, hplace]
  · show _ = cycleBit (decide ((c.ring trace.interrupter).posts.length / trace.segmentTrbs % 2 = 0))
    rw [h.control, h.cycle, hcycle, or_and_cycle, hcontrol]
    cases decide ((c.ring trace.interrupter).posts.length / trace.segmentTrbs % 2 = 0) <;> rfl
  · rw [hplace]
    exact exists_same_place hpos

theorem postEventToInterrupter_placed (hc : c.Placed) {mem mem' : GuestMemory} {n : Nat} {parameter : UInt64}
    {status control : UInt32} {c' : XhciController} {result : Option EventPostTrace}
    (hcontrol : control &&& trbCycle = 0)
    (h : c.postEventToInterrupter mem n parameter status control = (c', mem', result)) : c'.Placed := by
  obtain ⟨rfl, -, -⟩ | ⟨trace, -, hposted⟩ := postEventToInterrupter_cases h
  · exact hc
  · constructor
    · intro i
      rw [hposted.ring]
      split
      · exact RingView.post_placed (hc.rings _) (hposted.enqueue ▸ hposted.inside)
      · exact hc.rings i
    · rw [hposted.log]
      refine ⟨fun t ht hsize => ?_, hc.posts⟩
      obtain rfl := RingEvent.posted.inj ht
      exact hposted.inOrder hc hcontrol hsize

/-- The control word of every kind of event leaves the cycle bit open. -/
theorem control_cycle (kind : EventKind) : kind.control &&& trbCycle = 0 := by
  have hshift : ∀ v : UInt32, (v <<< 24) &&& trbCycle = 0 ∧ (v <<< 16) &&& trbCycle = 0 := by
    intro v
    have hone : trbCycle.toNat = 1 := rfl
    constructor
    · apply UInt32.toNat_inj.mp
      have h24 : (24 : UInt32).toNat % 32 = 24 := rfl
      rw [UInt32.toNat_and, UInt32.toNat_shiftLeft, hone, Nat.and_one_is_mod, Nat.shiftLeft_eq, h24, UInt32.toNat_zero]
      omega
    · apply UInt32.toNat_inj.mp
      have h16 : (16 : UInt32).toNat % 32 = 16 := rfl
      rw [UInt32.toNat_and, UInt32.toNat_shiftLeft, hone, Nat.and_one_is_mod, Nat.shiftLeft_eq, h16, UInt32.toNat_zero]
      omega
  cases kind with
  | portStatusChange => rfl
  | commandCompletion slotId =>
    rw [EventKind.control, or_and_cycle, (hshift slotId).1]
    rfl
  | transfer endpointId eventData =>
    rw [EventKind.control, or_and_cycle, or_and_cycle, or_and_cycle, (hshift slot1).1, (hshift endpointId).2]
    cases eventData <;> rfl

theorem postPendingPortStatusChangeEvent_placed (hc : c.Placed) (mem : GuestMemory) :
    (c.postPendingPortStatusChangeEvent mem).1.Placed := by
  unfold postPendingPortStatusChangeEvent
  split
  · exact hc
  · rcases hpost : c.postEvent mem portStatusChangeEventPortId 0 EventKind.portStatusChange.control with ⟨c',
      mem', posted⟩
    have hevent : c.postEventToInterrupter mem 0 portStatusChangeEventPortId 0 EventKind.portStatusChange.control =
      (c', mem', posted) := hpost
    have hplaced := postEventToInterrupter_placed hc (control_cycle _) hevent
    dsimp only
    split
    · exact ⟨hplaced.rings, hplaced.posts⟩
    · exact hplaced

theorem mmioWriteWithMem_placed (hc : c.Placed) (mem : GuestMemory) (offset size : Nat) (value : UInt64) :
    (c.mmioWriteWithMem mem offset size value).1.Placed := by
  have hwritten := mmioWrite_placed hc offset size value
  unfold mmioWriteWithMem
  dsimp only
  have hpending : (if (c.mmioWrite offset size value).2 then
      { (c.mmioWrite offset size value).1 with portStatusChangePending := true }
    else (c.mmioWrite offset size value).1).Placed := by
    split
    · exact ⟨hwritten.rings, hwritten.posts⟩
    · exact hwritten
  split
  · exact postPendingPortStatusChangeEvent_placed hpending mem
  · exact hpending

theorem new_placed : XhciController.new.Placed := by
  refine ⟨fun i => ?_, trivial⟩
  have hstart : XhciController.new.ring i = RingView.start := by
    simp only [ring, XhciController.new, RingView.start, postsSince, since]
    simp [Interrupter.new]
  rw [hstart]
  exact RingView.start_placed

end XhciController

namespace Machine

open XhciController

variable {m : Machine}

/-- One action keeps the rings in place. -/
theorem step_placed (hm : m.xhci.Placed) (a : Action) : (m.step a).xhci.Placed := by
  cases a with
  | mmioWrite offset size value => exact mmioWriteWithMem_placed hm m.mem offset size value
  | post interrupter parameter status kind =>
    rcases hpost : m.xhci.postEventToInterrupter m.mem interrupter parameter status kind.control with ⟨c',
      mem', result⟩
    have hplaced := postEventToInterrupter_placed hm (control_cycle kind) hpost
    unfold step
    dsimp only
    rw [hpost]
    exact hplaced
  | memory mem => exact hm
  | messageSent vector =>
    unfold step
    dsimp only
    split
    · rename_i hvector
      have hkeeps : m.xhci.KeepsRings (m.xhci.clearInterrupterPending ⟨vector, hvector⟩) :=
        clearInterrupterPending_keepsRings
      exact hkeeps.placed hm
    · exact hm

theorem run_placed (hm : m.xhci.Placed) (actions : List Action) : (m.run actions).xhci.Placed := by
  induction actions generalizing m with
  | nil => exact hm
  | cons a actions ih => exact ih (step_placed hm a)

/-- A controller and a memory at power on. -/
def powerOn (mem : GuestMemory) : Machine := ⟨XhciController.new, mem⟩

/-- **Events in order.** In every run from power on, every event posted to a ring whose segment table has kept one size
since the ring was programmed goes to the TRB and has the cycle of its number, and is written over an event that is not
consumed exactly when a whole ring of them is left; and posting writes the event there and nothing else. -/
theorem events_in_order :
    (∀ mem actions later trace earlier,
      ((powerOn mem).run actions).xhci.log = later ++ .posted trace :: earlier →
      (∀ t ∈ postsSince trace.interrupter earlier, t.segmentTrbs = trace.segmentTrbs) → InOrder trace earlier) ∧
    (∀ (c : XhciController) mem interrupter parameter status control c' mem' trace,
      c.postEventToInterrupter mem interrupter parameter status control = (c', mem', some trace) →
      c'.log = .posted trace :: c.log ∧
        mem' = mem.store trace.eventGpa (eventTrb parameter status trace.control)) := by
  constructor
  · intro mem actions later trace earlier hlog hsize
    have hplaced := run_placed (m := powerOn mem) new_placed actions
    have hposts := hplaced.posts
    rw [hlog] at hposts
    exact hposts.at trace rfl hsize
  · intro c mem interrupter parameter status control c' mem' trace h
    obtain ⟨-, -, hnone⟩ | ⟨t, ht, hposted⟩ := postEventToInterrupter_cases h
    · cases hnone
    · obtain rfl := Option.some.inj ht
      exact ⟨hposted.log, hposted.written⟩

/-! ## A ring that fills up -/

/-- RAM with a segment table at `0x2000`: one segment at `0x3000` of sixteen TRBs. -/
def segmentTable : GuestMemory where
  bytes := fun a => if a = 0x2001 then 0x30 else if a = 0x2008 then 16 else 0
  readable := fun gpa len => decide (gpa + len ≤ 0x5000)
  writable := fun gpa len => decide (gpa + len ≤ 0x5000)

/-- The guest programs ring 0: its size, its dequeue pointer, its table. -/
def programRing : List Action := [.mmioWrite 0x1028 4 1, .mmioWrite 0x1038 8 0x3000, .mmioWrite 0x1030 8 0x2000]

/-- The guest resets the first port. -/
def resetPort : Action := .mmioWrite 0x440 4 0x10

/-- Sixteen port resets fill the ring. -/
def filled : Machine := (powerOn segmentTable).run (programRing ++ List.replicate 16 resetPort)

/-- The event of one port reset more. -/
def seventeenth : EventPostTrace where
  segmentBase := 0x3000
  segmentTrbs := 16
  enqueue := 0
  cycle := false
  interrupter := eventTarget 0
  parameter := portStatusChangeEventPortId
  status := 0
  control := portStatusChangeControl
  eventGpa := 0x3000

theorem seventeenth_in_order : InOrder seventeenth filled.xhci.log :=
  events_in_order.1 segmentTable (programRing ++ List.replicate 16 resetPort ++ [resetPort]) [] seventeenth
    filled.xhci.log (by decide +kernel) (by decide +kernel)

/-- With the dequeue pointer still at the first of sixteen events, the seventeenth is written over it. -/
theorem unread_event_overwritten : ¬ ∀ mem actions later trace earlier,
    ((powerOn mem).run actions).xhci.log = later ++ .posted trace :: earlier →
    (∀ t ∈ postsSince trace.interrupter earlier, t.segmentTrbs = trace.segmentTrbs) →
    ¬ ∃ k, consumed trace.interrupter trace.segmentBase trace.segmentTrbs
          (since (RingEvent.programs trace.interrupter) earlier) ≤ k ∧
        k < (postsSince trace.interrupter earlier).length ∧ k % trace.segmentTrbs = trace.enqueue := by
  intro h
  refine h segmentTable (programRing ++ List.replicate 16 resetPort ++ [resetPort]) [] seventeenth filled.xhci.log
    (by decide +kernel) (by decide +kernel) ⟨0, ?_, ?_, rfl⟩
  · decide +kernel
  · decide +kernel

end Machine

end BridgeVm.Xhci
