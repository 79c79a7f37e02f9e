import BridgeVm.Pause.Gate

/-!
# A paused guest is stopped

`Held` is what every step of any thread keeps: the two counters count the threads they name, `requested` is what the
call of vCPU0 says it is, and from the end of `pause` until `resume` clears the request every thread stands at the gate
or before it. A thread that waits when no pause is under way has been notified, and its next step ends the wait.
-/

namespace BridgeVm.Pause

open Lib

/-! ## What one thread can do -/

/-- The steps of a secondary's thread, each with where it leads. -/
inductive Moves (locked : Bool) (gate : PauseGate) (v : Vcpu) : Moved → Prop
  | create (hplace : v.place = .outside) (hnew : v.created = false) :
      Moves locked gate v ⟨gate, { v with created := true, vtimer := 0 }, false⟩
  | destroy (hplace : v.place = .outside) : Moves locked gate v ⟨gate, { v with created := false }, false⟩
  | enter (hplace : v.place = .outside) (hmade : v.created = true) (hfree : locked = false) :
      Moves locked gate v (enterRunLoop gate v)
  | seen (hplace : v.place = .top) (hreq : gate.requested = true) :
      Moves locked gate v ⟨gate, { v with place := .requestSeen }, false⟩
  | unseen (hplace : v.place = .top) (hreq : gate.requested = false) :
      Moves locked gate v ⟨gate, { v with place := .takeOffset }, false⟩
  | park (hplace : v.place = .requestSeen) (hfree : locked = false) (hreq : gate.requested = true) :
      Moves locked gate v ⟨{ gate with state.parked := gate.state.parked + 1 }, { v with place := .waiting }, true⟩
  | pass (hplace : v.place = .requestSeen) (hfree : locked = false) (hreq : gate.requested = false) :
      Moves locked gate v ⟨gate, { v with place := .takeOffset }, true⟩
  | wake (hplace : v.place = .waiting) : Moves locked gate v ⟨gate, { v with place := .woken }, false⟩
  | waitOn (hplace : v.place = .woken) (hfree : locked = false) (hreq : gate.requested = true) :
      Moves locked gate v ⟨gate, { v with place := .waiting }, false⟩
  | unpark (hplace : v.place = .woken) (hfree : locked = false) (hreq : gate.requested = false) :
      Moves locked gate v ⟨{ gate with state.parked := gate.state.parked - 1 },
        { v with place := .takeOffset }, false⟩
  | current (hplace : v.place = .takeOffset) (hver : gate.version = v.applied) :
      Moves locked gate v ⟨gate, { v with place := .running }, false⟩
  | changed (hplace : v.place = .takeOffset) (hver : gate.version ≠ v.applied) :
      Moves locked gate v ⟨gate, { v with place := .loadOffset gate.version }, false⟩
  | load {version : Nat} (hplace : v.place = .loadOffset version) :
      Moves locked gate v ⟨gate, { v with place := .setOffset version gate.offset }, false⟩
  | apply {version offset : Nat} (hplace : v.place = .setOffset version offset) :
      Moves locked gate v ⟨gate, applyOffset v version offset, false⟩
  | next (hplace : v.place = .running) : Moves locked gate v ⟨gate, { v with place := .top }, false⟩
  | leave (hplace : v.place = .top ∨ v.place = .running) (hfree : locked = false) :
      Moves locked gate v (leaveRunLoop gate v)

section Moves

variable {locked : Bool} {gate : PauseGate} {v : Vcpu} {a : SecondaryAct} {m : Moved}

theorem takeOffsetStep_moves {v' : Vcpu} (h : takeOffsetStep gate v = some v') :
    Moves locked gate v ⟨gate, v', false⟩ := by
  unfold takeOffsetStep at h
  split at h
  · rename_i hplace
    cases h
    unfold loadVersion
    split
    · exact .current hplace ‹_›
    · exact .changed hplace ‹_›
  · cases h
    exact .load ‹_›
  · cases h
    exact .apply ‹_›
  · cases h

theorem secondaryStep_moves (h : secondaryStep locked gate v a = some m) : Moves locked gate v m := by
  cases a with
  | create =>
    obtain ⟨⟨hplace, hnew⟩, rfl⟩ := by simpa [secondaryStep] using h
    exact .create hplace hnew
  | destroy =>
    obtain ⟨⟨hplace, -⟩, rfl⟩ := by simpa [secondaryStep] using h
    exact .destroy hplace
  | enterRunLoop =>
    obtain ⟨⟨hplace, hmade, hfree⟩, rfl⟩ := by simpa [secondaryStep] using h
    exact .enter hplace hmade hfree
  | loadRequested =>
    obtain ⟨hplace, rfl⟩ := by simpa [secondaryStep] using h
    unfold loadRequested
    cases hreq : gate.requested with
    | false => exact .unseen hplace hreq
    | true => exact .seen hplace hreq
  | park =>
    obtain ⟨⟨hplace, hfree⟩, rfl⟩ := by simpa [secondaryStep] using h
    unfold Pause.park
    split
    · exact .park hplace hfree ‹_›
    · exact .pass hplace hfree (Bool.eq_false_iff.mpr ‹_›)
  | wake =>
    obtain ⟨hplace, rfl⟩ := by simpa [secondaryStep] using h
    exact .wake hplace
  | reacquire =>
    obtain ⟨⟨hplace, hfree⟩, rfl⟩ := by simpa [secondaryStep] using h
    unfold Pause.reacquire
    split
    · exact .waitOn hplace hfree ‹_›
    · exact .unpark hplace hfree (Bool.eq_false_iff.mpr ‹_›)
  | takeOffset =>
    obtain ⟨v', hv', rfl⟩ := by simpa [secondaryStep] using h
    exact takeOffsetStep_moves hv'
  | next =>
    obtain ⟨hplace, rfl⟩ := by simpa [secondaryStep] using h
    exact .next hplace
  | leaveRunLoop =>
    obtain ⟨⟨hplace, hfree⟩, rfl⟩ := by simpa [secondaryStep] using h
    exact .leave hplace hfree

theorem Moves.gate_eq (h : Moves locked gate v m) : ∃ inLoop parked,
    m.gate = { gate with state.inLoop := inLoop, state.parked := parked } := by
  cases h <;> exact ⟨_, _, rfl⟩

theorem Moves.inLoop_add (h : Moves locked gate v m) (hpos : v.place.inLoop = true → 0 < gate.state.inLoop) :
    m.gate.state.inLoop + (if v.place.inLoop then 1 else 0) =
      gate.state.inLoop + if m.vcpu.place.inLoop then 1 else 0 := by
  cases h with
  | leave hplace _ =>
    have hin : v.place.inLoop = true := by rcases hplace with h | h <;> simp [h, Place.inLoop]
    have := hpos hin
    simp only [leaveRunLoop, hin, if_true]
    simp only [Place.inLoop, Bool.false_eq_true, if_false]
    omega
  | _ => simp_all [Place.inLoop, enterRunLoop, applyOffset]

theorem Moves.parked_add (h : Moves locked gate v m) (hpos : v.place.parked = true → 0 < gate.state.parked) :
    m.gate.state.parked + (if v.place.parked then 1 else 0) =
      gate.state.parked + if m.vcpu.place.parked then 1 else 0 := by
  cases h with
  | unpark hplace _ _ =>
    have := hpos (by simp [hplace, Place.parked])
    simp only [hplace, Place.parked, if_true, Bool.false_eq_true, if_false]
    omega
  | leave hplace _ => rcases hplace with h | h <;> simp [h, Place.parked, leaveRunLoop]
  | _ => simp_all [Place.parked, enterRunLoop, applyOffset]

theorem Moves.stopped (h : Moves locked gate v m) (hreq : gate.requested = true) (hstop : v.place.stopped = true) :
    m.vcpu.place.stopped = true := by
  cases h <;> simp_all [Place.stopped, enterRunLoop, leaveRunLoop]

theorem Moves.notified_self (h : Moves locked gate v m) (hnotify : m.notify = true) : v.notified = v := by
  unfold Vcpu.notified
  rw [if_neg]
  cases h with
  | leave hplace _ => rcases hplace with h | h <;> simp [h]
  | _ => simp_all [enterRunLoop]

theorem Moves.not_waiting (h : Moves locked gate v m) (hreq : gate.requested = false)
    (hwait : v.place ≠ .waiting) : m.vcpu.place ≠ .waiting := by
  cases h <;> simp_all [enterRunLoop, leaveRunLoop, applyOffset]

theorem Moves.not_parked (h : Moves locked gate v m) (hreq : gate.requested = false)
    (hpark : v.place.parked = false) : m.vcpu.place.parked = false := by
  cases h <;> simp_all [Place.parked, enterRunLoop, leaveRunLoop, applyOffset]

end Moves

/-! ## A notified thread -/

section Notified

variable (v : Vcpu)

theorem notified_cases : v.notified = v ∨ v.place = .waiting ∧ v.notified = { v with place := .woken } := by
  unfold Vcpu.notified
  split
  · exact .inr ⟨‹_›, rfl⟩
  · exact .inl rfl

@[simp] theorem notified_inLoop : v.notified.place.inLoop = v.place.inLoop := by
  rcases notified_cases v with h | ⟨hplace, h⟩ <;> simp [*, Place.inLoop]

@[simp] theorem notified_parked : v.notified.place.parked = v.place.parked := by
  rcases notified_cases v with h | ⟨hplace, h⟩ <;> simp [*, Place.parked]

@[simp] theorem notified_stopped : v.notified.place.stopped = v.place.stopped := by
  rcases notified_cases v with h | ⟨hplace, h⟩ <;> simp [*, Place.stopped]

@[simp] theorem notified_not_waiting : v.notified.place ≠ .waiting := by
  unfold Vcpu.notified
  split <;> simp [*]

end Notified

/-! ## The invariant -/

/-- What every step keeps. -/
structure Held (s : Vm) : Prop where
  inLoop : s.gate.state.inLoop = s.secondaries.countP fun v => v.place.inLoop
  parked : s.gate.state.parked = s.secondaries.countP fun v => v.place.parked
  requested : s.gate.requested = s.call.requesting
  pausedAt : s.gate.state.pausedAt.isSome = decide (s.call = .paused)
  stopped : s.call.stops = true → ∀ v ∈ s.secondaries, v.place.stopped = true
  heard : s.call = .none → ∀ v ∈ s.secondaries, v.place ≠ .waiting
  primary : s.call ≠ .none → s.primary.place = .top

theorem held_start (n mach raw : Nat) : Held (Vm.start n mach raw) where
  inLoop := by simp [Vm.start, PauseGate.new, List.countP_replicate, Place.inLoop]
  parked := by simp [Vm.start, PauseGate.new, List.countP_replicate, Place.parked]
  requested := rfl
  pausedAt := rfl
  stopped := nofun
  heard := by
    intro _ v hv
    obtain ⟨-, rfl⟩ := List.mem_replicate.mp hv
    simp
  primary := fun _ => rfl

section Step

variable {s s' : Vm} {i : Nat} {v : Vcpu} {m : Moved} {a : Act}

theorem Held.notifyAll (h : Held s) : Held s.notifyAll where
  inLoop := by
    rw [show s.notifyAll.secondaries = s.secondaries.map Vcpu.notified from rfl,
      countP_map_of_same (fun v : Vcpu => v.place.inLoop) _ notified_inLoop]
    exact h.inLoop
  parked := by
    rw [show s.notifyAll.secondaries = s.secondaries.map Vcpu.notified from rfl,
      countP_map_of_same (fun v : Vcpu => v.place.parked) _ notified_parked]
    exact h.parked
  requested := h.requested
  pausedAt := h.pausedAt
  stopped := by
    intro hstops v hv
    obtain ⟨u, hu, rfl⟩ := List.mem_map.mp hv
    rw [notified_stopped]
    exact h.stopped hstops u hu
  heard := by
    intro _ v hv
    obtain ⟨u, -, rfl⟩ := List.mem_map.mp hv
    exact notified_not_waiting u
  primary := h.primary

/-- The counters of the others, and of the one that moves. -/
theorem Held.set (h : Held s) (hi : s.secondaries[i]? = some v) (hm : Moves s.call.locked s.gate v m) :
    Held { s with gate := m.gate, secondaries := s.secondaries.set i m.vcpu } := by
  have hmem := List.mem_of_getElem? hi
  obtain ⟨inLoop, parked, hgate⟩ := hm.gate_eq
  refine ⟨?_, ?_, ?_, ?_, ?_, ?_, h.primary⟩
  · have hcount := countP_set_add m.vcpu (fun v => v.place.inLoop) hi
    have hmove := hm.inLoop_add fun hv => by
      rw [h.inLoop]
      exact countP_pos_of_getElem? hi hv
    have := h.inLoop
    show m.gate.state.inLoop = (s.secondaries.set i m.vcpu).countP fun v => v.place.inLoop
    omega
  · have hcount := countP_set_add m.vcpu (fun v => v.place.parked) hi
    have hmove := hm.parked_add fun hv => by
      rw [h.parked]
      exact countP_pos_of_getElem? hi hv
    have := h.parked
    show m.gate.state.parked = (s.secondaries.set i m.vcpu).countP fun v => v.place.parked
    omega
  · show m.gate.requested = s.call.requesting
    rw [hgate]
    exact h.requested
  · show m.gate.state.pausedAt.isSome = decide (s.call = .paused)
    rw [hgate]
    exact h.pausedAt
  · intro hstops
    have hreq : s.gate.requested = true := by
      rw [h.requested]
      cases hcall : s.call <;> simp_all [Call.stops, Call.requesting]
    exact forall_mem_set (h.stopped hstops) (hm.stopped hreq (h.stopped hstops v hmem))
  · intro hcall
    have hreq : s.gate.requested = false := by
      rw [h.requested, show s.call = .none from hcall]
      rfl
    exact forall_mem_set (h.heard hcall) (hm.not_waiting hreq (h.heard hcall v hmem))

theorem Held.put (h : Held s) (hi : s.secondaries[i]? = some v) (hm : Moves s.call.locked s.gate v m) :
    Held (s.put i m) := by
  unfold Vm.put
  cases hnotify : m.notify with
  | false => exact h.set hi hm
  | true =>
    have hself : s.notifyAll.secondaries[i]? = some v := by
      rw [show s.notifyAll.secondaries = s.secondaries.map Vcpu.notified from rfl, List.getElem?_map, hi]
      exact congrArg some (hm.notified_self hnotify)
    exact h.notifyAll.set hself hm

/-! ## The calls of vCPU0 -/

theorem Held.pause (h : Held s) (hidle : s.idle = true) : Held s.pause := by
  obtain ⟨hplace, hcall⟩ : s.primary.place = .top ∧ s.call = .none := by simpa [Vm.idle] using hidle
  have hat : s.gate.state.pausedAt.isSome = false := by
    rw [h.pausedAt, hcall]
    rfl
  unfold Vm.pause
  rw [if_neg (by simp [hat])]
  exact ⟨h.inLoop, h.parked, rfl, hat, nofun, nofun, fun _ => hplace⟩

theorem Held.paused (h : Held s) (hcall : s.call = .pausing) (hle : s.gate.state.inLoop ≤ s.gate.state.parked) :
    Held s.paused where
  inLoop := h.inLoop
  parked := h.parked
  requested := by
    show s.gate.requested = true
    rw [h.requested, hcall]
    rfl
  pausedAt := rfl
  stopped := by
    intro _ v hv
    rw [h.inLoop, h.parked] at hle
    have hsub : ∀ v ∈ s.secondaries, v.place.parked = true → v.place.inLoop = true := fun v _ hp => by
      cases hplace : v.place <;> simp_all [Place.parked, Place.inLoop]
    have hparked := forall_of_countP_le (fun v => v.place.inLoop) (fun v => v.place.parked) hsub hle v hv
    cases hplace : v.place <;> simp_all [Place.parked, Place.inLoop, Place.stopped]
  heard := nofun
  primary := by
    intro _
    exact h.primary (by simp [hcall])

theorem Held.resume (h : Held s) : Held s.resume := by
  unfold Vm.resume PauseGate.resumed
  cases hat : s.gate.state.pausedAt with
  | none => exact h
  | some counters =>
    have hcall : s.call = .paused := by simpa [hat] using h.pausedAt.symm
    have hstops := h.stopped (by rw [hcall]; rfl)
    have hreq : s.gate.requested = true := by
      rw [h.requested, hcall]
      rfl
    exact ⟨h.inLoop, h.parked, hreq, rfl, fun _ => hstops, (by rintro ⟨⟩), fun _ => h.primary (by simp [hcall])⟩

theorem Held.proceed (h : Held s) (hs : s.proceed = some s') : Held s' := by
  unfold Vm.proceed at hs
  have hat := h.pausedAt
  have hreq := h.requested
  have hplace := h.primary
  split at hs <;> rename_i hcall <;> rw [hcall] at hat hreq hplace
  · split at hs
    · cases hs
    · cases hs
      exact h.paused hcall (by omega)
  · cases hs
    exact ⟨h.inLoop, h.parked, hreq, hat, fun _ => h.stopped (by rw [hcall]; rfl), (by rintro ⟨⟩),
      fun _ => hplace (by rintro ⟨⟩)⟩
  · cases hs
    exact ⟨h.inLoop, h.parked, hreq, hat, fun _ => h.stopped (by rw [hcall]; rfl), (by rintro ⟨⟩),
      fun _ => hplace (by rintro ⟨⟩)⟩
  · cases hs
    exact ⟨h.inLoop, h.parked, rfl, hat, (by rintro ⟨⟩), (by rintro ⟨⟩), fun _ => hplace (by rintro ⟨⟩)⟩
  · cases hs
    have hall := h.notifyAll
    refine ⟨hall.inLoop, hall.parked, hreq, hat, (by rintro ⟨⟩), fun _ v hv => ?_, fun hne => absurd rfl hne⟩
    obtain ⟨u, -, rfl⟩ := List.mem_map.mp hv
    exact notified_not_waiting u
  · cases hs
  · cases hs

theorem Held.restore (h : Held s) (offset : Nat) : Held (s.restore offset) := by
  have hplace : ∀ v : Vcpu, (if v.created then { v with vtimer := offset } else v).place = v.place := fun v => by
    split <;> rfl
  refine ⟨?_, ?_, h.requested, h.pausedAt, ?_, ?_, h.primary⟩
  · exact h.inLoop.trans (countP_map_of_same (fun v : Vcpu => v.place.inLoop) _ fun v => by rw [hplace]).symm
  · exact h.parked.trans (countP_map_of_same (fun v : Vcpu => v.place.parked) _ fun v => by rw [hplace]).symm
  · intro hstops v hv
    obtain ⟨u, hu, rfl⟩ := List.mem_map.mp hv
    rw [hplace]
    exact h.stopped hstops u hu
  · intro hcall v hv
    obtain ⟨u, hu, rfl⟩ := List.mem_map.mp hv
    rw [hplace]
    exact h.heard hcall u hu

/-- Every step keeps the invariant. -/
theorem Held.step (h : Held s) (hs : Pause.step s a = some s') : Held s' := by
  cases a with
  | secondary i a =>
    simp only [Pause.step] at hs
    split at hs
    · cases hs
    · rename_i v hi
      obtain ⟨m, hm, rfl⟩ := Option.map_eq_some_iff.mp hs
      exact h.put hi (secondaryStep_moves hm)
  | pause =>
    obtain ⟨henabled, rfl⟩ := by simpa [Pause.step] using hs
    rcases henabled with hidle | hcall
    · exact h.pause hidle
    · -- a repeated pause finds the VM paused
      have hat : s.gate.state.pausedAt.isSome = true := by simp [h.pausedAt, hcall]
      unfold Vm.pause
      rw [if_pos hat]
      exact h
  | proceed => exact h.proceed hs
  | timeout =>
    obtain ⟨⟨hcall, -⟩, rfl⟩ := by simpa [Pause.step] using hs
    have hat := h.pausedAt
    rw [hcall] at hat
    exact ⟨h.inLoop, h.parked, rfl, hat, nofun, nofun, fun _ => h.primary (by simp [hcall])⟩
  | resume =>
    obtain ⟨-, rfl⟩ := by simpa [Pause.step] using hs
    exact h.resume
  | waitForInput =>
    obtain ⟨-, rfl⟩ := by simpa [Pause.step] using hs
    exact ⟨h.inLoop, h.parked, h.requested, h.pausedAt, h.stopped, h.heard, h.primary⟩
  | notifyInput =>
    simp only [Pause.step] at hs
    split at hs
    · cases hs
    · split at hs <;> cases hs
      · have hall := h.notifyAll
        exact ⟨hall.inLoop, hall.parked, hall.requested, hall.pausedAt, hall.stopped, hall.heard, hall.primary⟩
      · exact h
  | primaryTop =>
    obtain ⟨hidle, rfl⟩ := by simpa [Pause.step] using hs
    have hcall : s.call = .none := by simp_all [Vm.idle]
    exact ⟨h.inLoop, h.parked, h.requested, h.pausedAt, h.stopped, h.heard, fun hc => absurd hcall hc⟩
  | primaryTakeOffset =>
    obtain ⟨v, hv, rfl⟩ := by simpa [Pause.step] using hs
    refine ⟨h.inLoop, h.parked, h.requested, h.pausedAt, h.stopped, h.heard, fun hc => ?_⟩
    simp [takeOffsetStep, h.primary hc] at hv
  | primaryExit =>
    obtain ⟨-, rfl⟩ := by simpa [Pause.step] using hs
    exact ⟨h.inLoop, h.parked, h.requested, h.pausedAt, h.stopped, h.heard, fun _ => rfl⟩
  | reboot =>
    obtain ⟨-, rfl⟩ := by simpa [Pause.step] using hs
    exact ⟨h.inLoop, h.parked, h.requested, h.pausedAt, h.stopped, h.heard, h.primary⟩
  | restore offset =>
    obtain ⟨-, rfl⟩ := by simpa [Pause.step] using hs
    exact h.restore offset
  | tick mach raw =>
    obtain ⟨-, rfl⟩ := by simpa [Pause.step] using hs
    exact ⟨h.inLoop, h.parked, h.requested, h.pausedAt, h.stopped, h.heard, h.primary⟩

/-! ## The end of the wait -/

/-- What a step does to one secondary: nothing, a notification, or a step of its own thread. -/
def Follows (s : Vm) (a : Act) (i : Nat) (v v' : Vcpu) : Prop :=
  v'.place = v.place ∨ v'.place = v.notified.place ∨
    ∃ act m, a = .secondary i act ∧ secondaryStep s.call.locked s.gate v act = some m ∧ v' = m.vcpu

theorem put_secondary (s : Vm) (i j : Nat) (m : Moved) : ∃ f : Vcpu → Vcpu,
    (s.put j m).secondaries[i]? = s.secondaries[i]?.map f ∧
      ∀ v, if j = i then f v = m.vcpu else f v = v ∨ f v = v.notified := by
  unfold Vm.put
  by_cases hj : j = i
  · refine ⟨fun _ => m.vcpu, ?_, fun v => by rw [if_pos hj]⟩
    cases m.notify <;> cases hv : s.secondaries[i]? <;> simp [hj, Vm.notifyAll, List.getElem?_set]
    · exact List.getElem?_eq_none_iff.mp hv
    · exact (List.getElem?_eq_some_iff.mp hv).1
    · exact List.getElem?_eq_none_iff.mp hv
    · exact (List.getElem?_eq_some_iff.mp hv).1
  · cases m.notify with
    | false => exact ⟨id, by simp [List.getElem?_set_ne hj], fun v => by rw [if_neg hj]; exact .inl rfl⟩
    | true =>
      refine ⟨Vcpu.notified, ?_, fun v => by rw [if_neg hj]; exact .inr rfl⟩
      simp [Vm.notifyAll, List.getElem?_set_ne hj]

/-- What each step does to the secondaries. -/
theorem step_secondary (hs : Pause.step s a = some s') (i : Nat) : ∃ f : Vcpu → Vcpu,
    s'.secondaries[i]? = s.secondaries[i]?.map f ∧ ∀ v, s.secondaries[i]? = some v → Follows s a i v (f v) := by
  have hsame : s'.secondaries = s.secondaries → ∃ f : Vcpu → Vcpu,
      s'.secondaries[i]? = s.secondaries[i]?.map f ∧ ∀ v, s.secondaries[i]? = some v → Follows s a i v (f v) :=
    fun heq => ⟨id, by simp [heq], fun v _ => .inl rfl⟩
  have hnotify : s'.secondaries = s.notifyAll.secondaries → ∃ f : Vcpu → Vcpu,
      s'.secondaries[i]? = s.secondaries[i]?.map f ∧ ∀ v, s.secondaries[i]? = some v → Follows s a i v (f v) :=
    fun heq => ⟨Vcpu.notified, by simp [heq, Vm.notifyAll], fun v _ => .inr (.inl rfl)⟩
  cases a with
  | secondary j a =>
    simp only [Pause.step] at hs
    split at hs
    · cases hs
    · rename_i u hu
      obtain ⟨m, hm, rfl⟩ := Option.map_eq_some_iff.mp hs
      obtain ⟨f, hf, hmove⟩ := put_secondary s i j m
      refine ⟨f, hf, fun v hv => ?_⟩
      have hthis := hmove v
      by_cases hj : j = i
      · subst hj
        obtain rfl : u = v := Option.some_inj.mp (hu.symm.trans hv)
        rw [if_pos rfl] at hthis
        exact .inr (.inr ⟨a, m, rfl, hm, hthis⟩)
      · rw [if_neg hj] at hthis
        rcases hthis with h | h
        · exact .inl (by rw [h])
        · exact .inr (.inl (by rw [h]))
  | proceed =>
    simp only [Pause.step, Vm.proceed] at hs
    split at hs
    · split at hs <;> cases hs
      exact hsame rfl
    · cases hs
      exact hsame rfl
    · cases hs
      exact hsame rfl
    · cases hs
      exact hsame rfl
    · cases hs
      exact hnotify rfl
    · cases hs
    · cases hs
  | pause =>
    obtain ⟨-, rfl⟩ := by simpa [Pause.step] using hs
    refine hsame ?_
    unfold Vm.pause
    split <;> rfl
  | resume =>
    obtain ⟨-, rfl⟩ := by simpa [Pause.step] using hs
    refine hsame ?_
    unfold Vm.resume
    split <;> rfl
  | notifyInput =>
    simp only [Pause.step] at hs
    split at hs
    · cases hs
    · split at hs <;> cases hs
      · exact hnotify rfl
      · exact hsame rfl
  | restore offset =>
    obtain ⟨-, rfl⟩ := by simpa [Pause.step] using hs
    refine ⟨fun v => if v.created then { v with vtimer := offset } else v, by simp [Vm.restore], fun v _ => .inl ?_⟩
    show (if v.created then { v with vtimer := offset } else v).place = v.place
    split <;> rfl
  | primaryTakeOffset =>
    obtain ⟨v, -, rfl⟩ := by simpa [Pause.step] using hs
    exact hsame rfl
  | _ =>
    obtain ⟨-, rfl⟩ := by simpa [Pause.step] using hs
    exact hsame rfl

/-- Only a pause starts a call that sets the request. -/
theorem Held.call_none (h : Held s) (hcall : s.call = .none) (ha : a ≠ .pause) (hs : Pause.step s a = some s') :
    s'.call = .none := by
  have hat : s.gate.state.pausedAt = none := by
    have := h.pausedAt
    simpa [hcall] using this
  cases a with
  | secondary j a =>
    simp only [Pause.step] at hs
    split at hs
    · cases hs
    · obtain ⟨m, -, rfl⟩ := Option.map_eq_some_iff.mp hs
      exact (put_call s j m).trans hcall
  | pause => exact absurd rfl ha
  | resume =>
    obtain ⟨-, rfl⟩ := by simpa [Pause.step] using hs
    simpa [Vm.resume, PauseGate.resumed, hat] using hcall
  | notifyInput =>
    simp only [Pause.step] at hs
    split at hs
    · cases hs
    · split at hs <;> cases hs <;> exact hcall
  | primaryTakeOffset =>
    obtain ⟨v, -, rfl⟩ := by simpa [Pause.step] using hs
    exact hcall
  | proceed => simp [Pause.step, Vm.proceed, hcall] at hs
  | timeout => simp [Pause.step, hcall] at hs
  | waitForInput => simp [Pause.step, hcall] at hs
  | _ =>
    obtain ⟨-, rfl⟩ := by simpa [Pause.step] using hs
    exact hcall

theorem Follows.not_parked {v' : Vcpu} (h : Follows s a i v v') (hreq : s.gate.requested = false)
    (hpark : v.place.parked = false) : v'.place.parked = false := by
  rcases h with h | h | ⟨act, m, -, hm, rfl⟩
  · rw [h, hpark]
  · rw [h, notified_parked, hpark]
  · exact (secondaryStep_moves hm).not_parked hreq hpark

theorem Follows.parked {v' : Vcpu} (h : Follows s a i v v') (ha : a ≠ .secondary i .reacquire)
    (hpark : v.place.parked = true) : v'.place.parked = true := by
  rcases h with h | h | ⟨act, m, rfl, hm, rfl⟩
  · rw [h, hpark]
  · rw [h, notified_parked, hpark]
  · have hplace : v.place = .waiting ∨ v.place = .woken := by cases hv : v.place <;> simp_all [Place.parked]
    cases act with
    | reacquire => exact absurd rfl ha
    | wake =>
      obtain ⟨-, rfl⟩ := by simpa [secondaryStep] using hm
      rfl
    | takeOffset =>
      obtain ⟨u, hu, -⟩ := by simpa [secondaryStep] using hm
      rcases hplace with hv | hv <;> simp [takeOffsetStep, hv] at hu
    | _ => rcases hplace with hv | hv <;> simp [secondaryStep, hv] at hm

theorem unparked_of_reacquire (h : secondaryStep s.call.locked s.gate v .reacquire = some m)
    (hreq : s.gate.requested = false) : m.vcpu.place.parked = false := by
  obtain ⟨-, rfl⟩ := by simpa [secondaryStep] using h
  simp [Pause.reacquire, hreq, Place.parked]

end Step

/-! ## Executions -/

section Executions

variable {e : Execution step} {n mach raw t : Nat}

theorem held_reaches {ok : Vm → Act → Prop} {s : Vm} (h : Reaches step ok (Vm.start n mach raw) s) : Held s :=
  h.invariant (held_start n mach raw) fun _ _ _ hheld _ hstep => hheld.step hstep

theorem call_none_from (hheld : ∀ k, Held (e.state k)) (hcall : (e.state t).call = .none)
    (hpause : ∀ k, t ≤ k → e.act k ≠ .pause) : ∀ k, t ≤ k → (e.state k).call = .none :=
  e.from_then_on (P := fun s => s.call = .none)
    (fun k hk h => (hheld k).call_none h (hpause k hk) (e.next k)) hcall

theorem not_parked_from (hheld : ∀ k, Held (e.state k)) (hnone : ∀ k, t ≤ k → (e.state k).call = .none)
    {i : Nat}
    (h : ∀ v, (e.state t).secondaries[i]? = some v → v.place.parked = false) :
    ∀ k, t ≤ k → ∀ v, (e.state k).secondaries[i]? = some v → v.place.parked = false := by
  refine e.from_then_on (P := fun s => ∀ v, s.secondaries[i]? = some v → v.place.parked = false) ?_ h
  intro k hk hall v' hv'
  obtain ⟨f, hf, hfollows⟩ := step_secondary (e.next k) i
  rw [hf] at hv'
  obtain ⟨v, hv, rfl⟩ := Option.map_eq_some_iff.mp hv'
  have hreq : (e.state k).gate.requested = false := by
    rw [(hheld k).requested, hnone k hk]
    rfl
  exact (hfollows v hv).not_parked hreq (hall v hv)

/-- A parked secondary has been notified; a fair one takes the mutex again, and its wait ends. -/
theorem wait_ends (hheld : ∀ k, Held (e.state k)) (hnone : ∀ k, t ≤ k → (e.state k).call = .none) {i : Nat}
    (hfair : e.WeaklyFair (.secondary i .reacquire)) :
    ∃ later, t ≤ later ∧ ∀ v, (e.state later).secondaries[i]? = some v → v.place.parked = false := by
  by_cases hparked : ∃ v, (e.state t).secondaries[i]? = some v ∧ v.place.parked = true
  · have hwoken : ∀ k, t ≤ k → ∀ v, (e.state k).secondaries[i]? = some v → v.place.parked = true →
        v.place = .woken := by
      intro k hk v hv hp
      have := (hheld k).heard (hnone k hk) v (List.mem_of_getElem? hv)
      cases hplace : v.place <;> simp_all [Place.parked]
    have htaken := hfair.taken (n := t)
      (P := fun k => ∃ v, (e.state k).secondaries[i]? = some v ∧ v.place.parked = true) ?_ ?_ hparked
    · obtain ⟨k, hk, ⟨v, hv, hp⟩, hact⟩ := htaken
      have hreq : (e.state k).gate.requested = false := by
        rw [(hheld k).requested, hnone k hk]
        rfl
      refine ⟨k + 1, by omega, ?_⟩
      intro v' hv'
      have hstep := e.next k
      simp only [hact, Pause.step, hv] at hstep
      obtain ⟨m, hm, hput⟩ := Option.map_eq_some_iff.mp hstep
      obtain ⟨f, hf, hmove⟩ := put_secondary (e.state k) i i m
      rw [← hput, hf, hv] at hv'
      have hself := hmove v
      rw [if_pos rfl] at hself
      obtain rfl : m.vcpu = v' := by simpa [hself] using hv'
      exact unparked_of_reacquire hm hreq
    · rintro k hk ⟨v, hv, hp⟩
      simp [Pause.step, hv, secondaryStep, hwoken k hk v hv hp, hnone k hk, Call.locked]
    · rintro k hk ⟨v, hv, hp⟩ hact
      obtain ⟨f, hf, hfollows⟩ := step_secondary (e.next k) i
      exact ⟨f v, by rw [hf, hv]; rfl, (hfollows v hv).parked hact hp⟩
  · push Not at hparked
    exact ⟨t, Nat.le_refl t, fun v hv => Bool.eq_false_iff.mpr (hparked v hv)⟩

end Executions

/-- While the guest is paused no vCPU runs, and no more secondaries are parked than are in the loop; and in a fair
execution with no further pause every secondary leaves its wait for good. -/
theorem paused_guest_stopped (n mach raw : Nat) :
    (∀ s, Reaches step (fun _ _ => True) (Vm.start n mach raw) s →
      (s.gate.state.pausedAt.isSome = true →
        s.primary.place ≠ .running ∧ ∀ v ∈ s.secondaries, v.place ≠ .running) ∧
      s.gate.state.parked ≤ s.gate.state.inLoop) ∧
    ∀ e : Execution step, e.state 0 = Vm.start n mach raw →
    (∀ i : Nat, e.WeaklyFair (.secondary i .reacquire)) →
      ∀ t, (e.state t).call = .none → (∀ k, t ≤ k → e.act k ≠ .pause) → ∀ i : Nat, ∃ later,
      t ≤ later ∧
        ∀ k, later ≤ k → ∀ v : Vcpu, (e.state k).secondaries[i]? = some v → v.place.parked = false := by
  constructor
  · intro s hreach
    have h := held_reaches hreach
    constructor
    · intro hat
      have hcall : s.call = .paused := by simpa [hat] using h.pausedAt.symm
      constructor
      · rw [h.primary (by simp [hcall])]
        nofun
      · intro v hv hrun
        have := h.stopped (by rw [hcall]; rfl) v hv
        simp [hrun, Place.stopped] at this
    · rw [h.parked, h.inLoop]
      refine List.countP_mono_left fun v _ hp => ?_
      cases hplace : v.place <;> simp_all [Place.parked, Place.inLoop]
  · intro e hstart hfair t hcall hpause i
    have hheld : ∀ k, Held (e.state k) := fun k => held_reaches (e.reaches (by rw [hstart]; exact .start) k)
    have hnone := call_none_from hheld hcall hpause
    obtain ⟨later, hlater, hout⟩ := wait_ends hheld hnone (hfair i)
    have hnone' : ∀ k, later ≤ k → (e.state k).call = .none := fun k hk => hnone k (by omega)
    exact ⟨later, hlater, not_parked_from hheld hnone' hout⟩

end BridgeVm.Pause
