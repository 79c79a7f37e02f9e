import BridgeVm.Pause.Stopped

/-!
# One counter on every vCPU

A vCPU takes the gate's offset when the gate's version is not the one its thread applied; `Coherent` says of one vCPU
what makes this enough. `seed_offset` stores an offset without a new version, so a vCPU created between a restore and
the first resume never takes it: `Orderly` runs have no such vCPU.
-/

namespace BridgeVm.Pause

open Lib

/-- No vCPU is created while a restored offset has no version, and the version counter does not wrap. -/
def Orderly (s : Vm) : Act → Prop
  | .secondary _ .create => s.gate.version = 0 → s.gate.offset = 0 ∨ s.call.stops = true
  | .proceed => s.call = .bumpVersion → s.gate.version + 1 < 2 ^ 64
  | _ => True

instance (s : Vm) (a : Act) : Decidable (Orderly s a) := by
  unfold Orderly
  split <;> infer_instance

/-! ## The offset of one vCPU -/

/-- What a thread between its loads in `take_offset` holds of the gate. -/
def Place.holds (gate : PauseGate) (applied : Nat) : Place → Prop
  | .loadOffset version => version = gate.version
  | .setOffset version offset => version = gate.version ∧ offset = gate.offset
  | .running => applied = gate.version
  | _ => True

/-- One vCPU beside the gate. -/
structure Coherent (gate : PauseGate) (call : Call) (v : Vcpu) : Prop where
  made : v.place ≠ .outside → v.created = true
  applied : v.applied ≤ gate.version
  behind : call = .clearRequest → v.applied < gate.version
  vtimer : call.stops = false → v.created = true → (v.place ≠ .outside ∧ v.applied = gate.version) ∨
    gate.version = 0 →
    v.vtimer = gate.offset
  holds : v.place.holds gate v.applied

section Coherent

variable {gate gate' : PauseGate} {call call' : Call} {v : Vcpu} {m : Moved} {locked : Bool}

theorem holds_of_stopped {place : Place} {applied : Nat} (h : place.stopped = true) : place.holds gate applied := by
  cases place <;> simp_all [Place.stopped, Place.holds]

theorem Coherent.running (h : Coherent gate call v) (hstops : call.stops = false) (hplace : v.place = .running) :
    v.vtimer = gate.offset := by
  have hholds := h.holds
  rw [hplace] at hholds
  exact h.vtimer hstops (h.made (by simp [hplace])) (.inl ⟨by simp [hplace], hholds⟩)

theorem Coherent.frame (h : Coherent gate call v) (hoffset : gate'.offset = gate.offset)
    (hversion : gate'.version = gate.version) : Coherent gate' call v := by
  refine ⟨h.made, ?_, ?_, ?_, ?_⟩
  · rw [hversion]
    exact h.applied
  · rw [hversion]
    exact h.behind
  · rw [hversion, hoffset]
    exact h.vtimer
  · have hholds := h.holds
    cases hplace : v.place <;> simp_all [Place.holds]

theorem Coherent.of_call (h : Coherent gate call v) (hbehind : call' = .clearRequest → call = .clearRequest)
    (hstops : call'.stops = false → call.stops = false) : Coherent gate call' v :=
  ⟨h.made, h.applied, fun hc => h.behind (hbehind hc), fun hs => h.vtimer (hstops hs), h.holds⟩

/-- One vCPU after a step of its thread. -/
theorem Coherent.moves (h : Coherent gate call v) (hm : Moves locked gate v m)
    (hcreate : v.created = false → m.vcpu.created = true → gate.version = 0 → gate.offset = 0 ∨
      call.stops = true)
    (hstopped : call.stops = true → v.place.stopped = true) : Coherent gate call m.vcpu := by
  have hholds := h.holds
  have hmade := h.made
  have happlied := h.applied
  have hbehind := h.behind
  have hvtimer := h.vtimer
  cases hm with
  | create hplace hnew =>
    refine ⟨fun hp => absurd hplace hp, happlied, hbehind, fun hs _ hver => ?_, by simp [hplace, Place.holds]⟩
    have hzero : gate.version = 0 := hver.resolve_left fun h => h.1 hplace
    rcases hcreate hnew rfl hzero with hoff | hstops
    · exact hoff.symm
    · rw [hs] at hstops
      cases hstops
  | destroy hplace =>
    exact ⟨fun hp => absurd hplace hp, happlied, hbehind, fun _ hc => by simp at hc, by simp [hplace, Place.holds]⟩
  | enter hplace hnew _ =>
    refine ⟨fun _ => hnew, Nat.zero_le _, fun hc => ?_, fun hs hc hver => ?_, trivial⟩
    · exact Nat.zero_lt_of_lt (hbehind hc)
    · -- the thread has applied nothing, which is the version of no resume
      have hzero : gate.version = 0 := hver.elim (fun h => h.2.symm) id
      exact hvtimer hs hc (.inr hzero)
  | current hplace hver =>
    refine ⟨fun _ => hmade (by simp [hplace]), happlied, hbehind, fun hs hc _ => ?_, hver.symm⟩
    exact hvtimer hs hc (.inl ⟨by simp [hplace], hver.symm⟩)
  | load hplace =>
    rw [hplace] at hholds
    refine ⟨fun _ => hmade (by simp [hplace]), happlied, hbehind, fun hs hc hver => ?_, ⟨hholds, rfl⟩⟩
    exact hvtimer hs hc (by simpa [hplace] using hver)
  | apply hplace =>
    obtain ⟨hver, hoff⟩ : _ = gate.version ∧ _ = gate.offset := by simpa [hplace, Place.holds] using hholds
    refine ⟨fun _ => hmade (by simp [hplace]), Nat.le_of_eq hver, fun hc => ?_, fun _ _ _ => hoff, hver⟩
    have := hstopped (by rw [hc]; rfl)
    simp [hplace, Place.stopped] at this
  | leave hplace _ =>
    have hin : v.place ≠ .outside := by rcases hplace with h | h <;> simp [h]
    refine ⟨fun _ => hmade hin, happlied, hbehind, fun hs hc hver => ?_, trivial⟩
    exact hvtimer hs hc (.inr (by simpa [leaveRunLoop] using hver))
  | _ =>
    refine ⟨fun _ => hmade (by simp_all), happlied, hbehind, fun hs hc hver => ?_, by simp [Place.holds]⟩
    exact hvtimer hs hc (by simp_all)

/-- Only `create` creates a vCPU. -/
theorem created_of_step {act : SecondaryAct} (h : secondaryStep locked gate v act = some m) (hact : act ≠ .create)
    (hnew : v.created = false) : m.vcpu.created = false := by
  cases act with
  | create => exact absurd rfl hact
  | enterRunLoop => simp [secondaryStep, hnew] at h
  | park =>
    obtain ⟨-, rfl⟩ := by simpa [secondaryStep] using h
    unfold Pause.park
    split <;> exact hnew
  | reacquire =>
    obtain ⟨-, rfl⟩ := by simpa [secondaryStep] using h
    unfold Pause.reacquire
    split <;> exact hnew
  | takeOffset =>
    obtain ⟨u, hu, rfl⟩ := by simpa [secondaryStep] using h
    unfold takeOffsetStep at hu
    split at hu <;> cases hu <;> exact hnew
  | destroy =>
    obtain ⟨-, rfl⟩ := by simpa [secondaryStep] using h
    rfl
  | _ =>
    obtain ⟨-, rfl⟩ := by simpa [secondaryStep] using h
    exact hnew

theorem notified_coherent (h : Coherent gate call v) : Coherent gate call v.notified := by
  rcases notified_cases v with hv | ⟨hplace, hv⟩
  · rw [hv]
    exact h
  · rw [hv]
    refine ⟨fun _ => h.made (by simp [hplace]), h.applied, h.behind, fun hs hc hver => ?_, trivial⟩
    exact h.vtimer hs hc (by simpa [hplace] using hver)

end Coherent

/-! ## Every vCPU -/

/-- Every vCPU of the VM beside the gate. -/
structure AllCoherent (s : Vm) : Prop where
  primary : Coherent s.gate s.call s.primary
  secondaries : ∀ v ∈ s.secondaries, Coherent s.gate s.call v

section Step

variable {s s' : Vm} {a : Act}

theorem allCoherent_start (n mach raw : Nat) : AllCoherent (Vm.start n mach raw) where
  primary := ⟨fun _ => rfl, Nat.le_refl _, nofun, fun _ _ _ => rfl, trivial⟩
  secondaries := by
    intro v hv
    obtain ⟨-, rfl⟩ := List.mem_replicate.mp hv
    exact ⟨fun h => absurd rfl h, Nat.le_refl _, nofun, fun _ _ _ => rfl, trivial⟩

theorem AllCoherent.same (h : AllCoherent s) (hprimary : s'.primary = s.primary)
    (hsecondaries : s'.secondaries = s.secondaries) (hoffset : s'.gate.offset = s.gate.offset)
    (hversion : s'.gate.version = s.gate.version) (hbehind : s'.call = .clearRequest → s.call = .clearRequest)
    (hstops : s'.call.stops = false → s.call.stops = false) : AllCoherent s' where
  primary := by
    rw [hprimary]
    exact (h.primary.frame hoffset hversion).of_call hbehind hstops
  secondaries := by
    rw [hsecondaries]
    exact fun v hv => ((h.secondaries v hv).frame hoffset hversion).of_call hbehind hstops

theorem AllCoherent.notifyAll (h : AllCoherent s) : AllCoherent s.notifyAll where
  primary := h.primary
  secondaries := by
    intro v hv
    obtain ⟨u, hu, rfl⟩ := List.mem_map.mp hv
    exact notified_coherent (h.secondaries u hu)

theorem AllCoherent.put {i : Nat} {act : SecondaryAct} {v : Vcpu} {m : Moved} (h : AllCoherent s) (hheld : Held s)
    (hi : s.secondaries[i]? = some v) (hm : secondaryStep s.call.locked s.gate v act = some m)
    (hok : Orderly s (.secondary i act)) : AllCoherent (s.put i m) := by
  have hmem := List.mem_of_getElem? hi
  obtain ⟨inLoop, parked, hgate⟩ := (secondaryStep_moves hm).gate_eq
  have hcreate : v.created = false → m.vcpu.created = true → s.gate.version = 0 →
      s.gate.offset = 0 ∨ s.call.stops = true := by
    intro hnew hmade
    by_cases hact : act = .create
    · subst hact
      exact hok
    · rw [created_of_step hm hact hnew] at hmade
      cases hmade
  have hself := (h.secondaries v hmem).moves (secondaryStep_moves hm) hcreate fun hs => hheld.stopped hs v hmem
  have hoffset : m.gate.offset = s.gate.offset := by rw [hgate]
  have hversion : m.gate.version = s.gate.version := by rw [hgate]
  have hself' : Coherent m.gate s.call m.vcpu := hself.frame hoffset hversion
  have hprimary : Coherent m.gate s.call s.primary := h.primary.frame hoffset hversion
  unfold Vm.put
  cases m.notify with
  | false => exact ⟨hprimary, forall_mem_set (fun v hv => (h.secondaries v hv).frame hoffset hversion) hself'⟩
  | true =>
    exact ⟨hprimary, forall_mem_set (fun v hv => (h.notifyAll.secondaries v hv).frame hoffset hversion) hself'⟩

theorem AllCoherent.proceed (h : AllCoherent s) (hheld : Held s) (hok : Orderly s .proceed)
    (hs : s.proceed = some s') : AllCoherent s' := by
  unfold Vm.proceed at hs
  split at hs <;> rename_i hcall
  · split at hs <;> cases hs
    exact h.same rfl rfl rfl rfl nofun nofun
  · -- the offset changes while every vCPU is stopped
    cases hs
    have hstops := hheld.stopped (by rw [hcall]; rfl)
    have hprimary := hheld.primary (by simp [hcall])
    refine ⟨⟨h.primary.made, h.primary.applied, nofun, nofun, by rw [hprimary]; trivial⟩, fun v hv => ?_⟩
    have := h.secondaries v hv
    exact ⟨this.made, this.applied, nofun, nofun, holds_of_stopped (hstops v hv)⟩
  · -- every vCPU is behind the new version
    cases hs
    have hver : (s.gate.version + 1) % 2 ^ 64 = s.gate.version + 1 := Nat.mod_eq_of_lt (hok hcall)
    have hstops := hheld.stopped (by rw [hcall]; rfl)
    have hprimary := hheld.primary (by simp [hcall])
    have hbehind : ∀ v, Coherent s.gate s.call v → v.place.stopped = true →
        Coherent { s.gate with version := (s.gate.version + 1) % 2 ^ 64 } .clearRequest v := fun v hv hstop => by
      rw [hver]
      have := hv.applied
      exact ⟨hv.made, by show v.applied ≤ s.gate.version + 1; omega,
        fun _ => by show v.applied < s.gate.version + 1; omega,
        nofun, holds_of_stopped hstop⟩
    exact ⟨hbehind s.primary h.primary (by rw [hprimary]; rfl),
      fun v hv => hbehind v (h.secondaries v hv) (hstops v hv)⟩
  · cases hs
    have hbehind : ∀ v, Coherent s.gate s.call v → Coherent { s.gate with requested := false } .release v :=
      fun v hv => by
      have := hv.behind hcall
      refine ⟨hv.made, hv.applied, nofun, fun _ _ hver => ?_, ?_⟩
      · rcases hver with ⟨-, hver⟩ | hver <;> simp only at hver <;> omega
      · have hframe : Coherent { s.gate with requested := false } s.call v := hv.frame rfl rfl
        exact hframe.holds
    exact ⟨hbehind s.primary h.primary, fun v hv => hbehind v (h.secondaries v hv)⟩
  · cases hs
    exact h.notifyAll.same rfl rfl rfl rfl nofun
      (by rw [show s.notifyAll.call = .release from hcall]; exact fun _ => rfl)
  · cases hs
  · cases hs

theorem AllCoherent.restore (h : AllCoherent s) (hrestorable : s.restorable = true) (offset : Nat) :
    AllCoherent (s.restore offset) := by
  obtain ⟨⟨hplace, hcall⟩, hall⟩ : (s.primary.place = .top ∧ s.call = .none) ∧
      ∀ v ∈ s.secondaries, v.place = .outside ∨ v.place = .top := by
        simpa [Vm.restorable, Vm.idle] using hrestorable
  refine ⟨⟨h.primary.made, h.primary.applied, h.primary.behind, fun _ _ _ => rfl, ?_⟩, fun v hv => ?_⟩
  · show s.primary.place.holds _ _
    rw [hplace]
    trivial
  · obtain ⟨u, hu, rfl⟩ := List.mem_map.mp hv
    have hcoh := h.secondaries u hu
    have hholds : u.place.holds (s.restore offset).gate u.applied := by
      apply holds_of_stopped
      rcases hall u hu with h | h <;> rw [h] <;> rfl
    split
    · exact ⟨hcoh.made, hcoh.applied, hcoh.behind, fun _ _ _ => rfl, hholds⟩
    · exact ⟨hcoh.made, hcoh.applied, hcoh.behind, fun _ hc => absurd hc ‹_›, hholds⟩

/-- Every step of an orderly run keeps every vCPU. -/
theorem AllCoherent.step (h : AllCoherent s) (hheld : Held s) (hok : Orderly s a) (hs : Pause.step s a = some s') :
    AllCoherent s' := by
  cases a with
  | secondary i a =>
    simp only [Pause.step] at hs
    split at hs
    · cases hs
    · obtain ⟨m, hm, rfl⟩ := Option.map_eq_some_iff.mp hs
      exact h.put hheld ‹_› hm hok
  | pause =>
    obtain ⟨henabled, rfl⟩ := by simpa [Pause.step] using hs
    unfold Vm.pause
    split
    · exact h
    · refine h.same rfl rfl rfl rfl (by rintro ⟨⟩) fun _ => ?_
      rcases henabled with hidle | hcall
      · have hcall : s.call = .none := by simp_all [Vm.idle]
        rw [hcall]
        rfl
      · have := hheld.pausedAt
        simp_all
  | proceed => exact h.proceed hheld hok hs
  | timeout =>
    obtain ⟨⟨hcall, -⟩, rfl⟩ := by simpa [Pause.step] using hs
    exact h.same rfl rfl rfl rfl (by rintro ⟨⟩) fun _ => by rw [hcall]; rfl
  | resume =>
    obtain ⟨-, rfl⟩ := by simpa [Pause.step] using hs
    unfold Vm.resume
    split
    · exact h
    · exact h.same rfl rfl rfl rfl (by rintro ⟨⟩) (by rintro ⟨⟩)
  | waitForInput =>
    obtain ⟨-, rfl⟩ := by simpa [Pause.step] using hs
    exact h.same rfl rfl rfl rfl id id
  | notifyInput =>
    simp only [Pause.step] at hs
    split at hs
    · cases hs
    · split at hs <;> cases hs
      · exact h.notifyAll.same rfl rfl rfl rfl id id
      · exact h
  | primaryTop =>
    obtain ⟨hidle, rfl⟩ := by simpa [Pause.step] using hs
    have hplace : s.primary.place = .top := by simp_all [Vm.idle]
    refine ⟨⟨fun _ => h.primary.made (by simp [hplace]), h.primary.applied, h.primary.behind, fun hs hc hver => ?_,
      trivial⟩, h.secondaries⟩
    exact h.primary.vtimer hs hc (by simpa [hplace] using hver)
  | primaryTakeOffset =>
    obtain ⟨v, hv, rfl⟩ := by simpa [Pause.step] using hs
    have hm : Moves s.call.locked s.gate s.primary ⟨s.gate, v, false⟩ := takeOffsetStep_moves hv
    refine ⟨h.primary.moves hm (fun hnew _ _ => ?_) fun hstops => ?_, h.secondaries⟩
    · -- vCPU0 exists
      have hin : s.primary.place ≠ .outside := by
        intro hout
        simp [takeOffsetStep, hout] at hv
      rw [h.primary.made hin] at hnew
      cases hnew
    · have hplace : s.primary.place = .top := by
        apply hheld.primary
        intro hcall
        simp [hcall, Call.stops] at hstops
      rw [hplace]
      rfl
  | primaryExit =>
    obtain ⟨hplace, rfl⟩ := by simpa [Pause.step] using hs
    refine ⟨⟨fun _ => h.primary.made (by simp [hplace]), h.primary.applied, h.primary.behind, fun hs hc hver => ?_,
      trivial⟩, h.secondaries⟩
    exact h.primary.vtimer hs hc (by simpa [hplace] using hver)
  | reboot =>
    obtain ⟨hidle, rfl⟩ := by simpa [Pause.step] using hs
    obtain ⟨hplace, hcall⟩ : s.primary.place = .top ∧ s.call = .none := by simpa [Vm.idle] using hidle
    refine ⟨⟨h.primary.made, Nat.zero_le _, fun hc => ?_, fun hs hc hver => ?_, ?_⟩, h.secondaries⟩
    · simp [hcall] at hc
    · have hzero : s.gate.version = 0 := hver.elim (fun h => h.2.symm) id
      exact h.primary.vtimer hs hc (.inr hzero)
    · show s.primary.place.holds _ _
      rw [hplace]
      trivial
  | restore offset =>
    obtain ⟨⟨hrestorable, -⟩, rfl⟩ := by simpa [Pause.step] using hs
    exact h.restore hrestorable offset
  | tick mach raw =>
    obtain ⟨-, rfl⟩ := by simpa [Pause.step] using hs
    exact h.same rfl rfl rfl rfl id id

end Step

/-! ## The guest's time -/

/-- The offset in effect: the one a `resume` is about to store, or the gate's. -/
def Vm.effective (s : Vm) : Nat :=
  match s.call with
  | .storeOffset offset => offset
  | _ => s.gate.offset

/-- The host time of the guest's instant: it stands still while the guest is paused. -/
def Vm.instant (s : Vm) : Nat :=
  match s.gate.state.pausedAt with
  | some (machAt, _) => machAt
  | none => s.mach

/-- The guest's count at its instant. -/
def Vm.guestNow (s : Vm) : Nat := (s.instant + 2 ^ 64 - s.effective) % 2 ^ 64

/-- The counters fit their registers, and no pause lies ahead. -/
structure Clocked (s : Vm) : Prop where
  mach : s.mach < 2 ^ 64
  effective : s.effective < 2 ^ 64
  offset : s.gate.offset < 2 ^ 64
  pausedAt : ∀ machAt rawAt, s.gate.state.pausedAt = some (machAt, rawAt) → machAt ≤ s.mach

/-- The guest's count goes on by `d`, and does not wrap where the offset is not ahead of the host. -/
structure Advances (s s' : Vm) (d : Nat) : Prop where
  mach : s.mach + d ≤ s'.mach
  guestNow : s'.guestNow = (s.guestNow + d) % 2 ^ 64
  exact : s.effective ≤ s.instant → s'.effective ≤ s'.instant ∧ s'.guestNow = s.guestNow + d

section Time

variable {s s' s'' : Vm} {a : Act} {d d' : Nat}

theorem guestNow_lt (s : Vm) : s.guestNow < 2 ^ 64 := Nat.mod_lt _ (by decide)

theorem Advances.trans (h : Advances s s' d) (h' : Advances s' s'' d') : Advances s s'' (d + d') where
  mach := by
    have := h.mach
    have := h'.mach
    omega
  guestNow := by rw [h'.guestNow, h.guestNow, Nat.mod_add_mod, Nat.add_assoc]
  exact := by
    intro hle
    obtain ⟨hle', heq⟩ := h.exact hle
    obtain ⟨hle'', heq'⟩ := h'.exact hle'
    exact ⟨hle'', by omega⟩

theorem Advances.same (heff : s'.effective = s.effective) (hinst : s'.instant = s.instant)
    (hmach : s.mach ≤ s'.mach) :
    Advances s s' 0 := by
  have hnow : s'.guestNow = s.guestNow := by
    unfold Vm.guestNow
    rw [heff, hinst]
  refine ⟨hmach, ?_, fun hle => ?_⟩
  · rw [hnow, Nat.add_zero, Nat.mod_eq_of_lt (guestNow_lt s)]
  · rw [heff, hinst, hnow, Nat.add_zero]
    exact ⟨hle, rfl⟩

/-- A resume at its instant: the paused ticks that the host counted are added to the offset. -/
theorem advances_resume (h : Clocked s) (hheld : Held s) : Advances s s.resume 0 := by
  unfold Vm.resume PauseGate.resumed
  cases hat : s.gate.state.pausedAt with
  | none => exact .same rfl rfl (Nat.le_refl _)
  | some counters =>
    obtain ⟨machAt, rawAt⟩ := counters
    have hcall : s.call = .paused := by simpa [hat] using hheld.pausedAt.symm
    have heff : s.effective = s.gate.offset := by simp [Vm.effective, hcall]
    have hinst : s.instant = machAt := by simp [Vm.instant, hat]
    have hle := h.pausedAt machAt rawAt hat
    have hoff := h.offset
    have hmach := h.mach
    refine ⟨Nat.le_refl _, ?_, fun hno => ?_⟩
    · rw [Vm.guestNow, Vm.guestNow, heff, hinst]
      show (s.mach + 2 ^ 64 - (s.gate.offset + (s.mach - machAt)) % 2 ^ 64) % 2 ^ 64 =
        ((machAt + 2 ^ 64 - s.gate.offset) % 2 ^ 64 + 0) % 2 ^ 64
      omega
    · rw [heff, hinst] at hno
      rw [Vm.guestNow, Vm.guestNow, heff, hinst]
      show (s.gate.offset + (s.mach - machAt)) % 2 ^ 64 ≤ s.mach ∧
        (s.mach + 2 ^ 64 - (s.gate.offset + (s.mach - machAt)) % 2 ^ 64) % 2 ^ 64 =
          (machAt + 2 ^ 64 - s.gate.offset) % 2 ^ 64 + 0
      omega

theorem Clocked.same (h : Clocked s) (heff : s'.effective = s.effective) (hoff : s'.gate.offset = s.gate.offset)
    (hat : s'.gate.state.pausedAt = s.gate.state.pausedAt) (hmach : s'.mach = s.mach) : Clocked s' := by
  refine ⟨?_, ?_, ?_, ?_⟩
  · rw [hmach]
    exact h.mach
  · rw [heff]
    exact h.effective
  · rw [hoff]
    exact h.offset
  · rw [hat, hmach]
    exact h.pausedAt

theorem clocked_start (n : Nat) {mach : Nat} (raw : Nat) (hmach : mach < 2 ^ 64) : Clocked (Vm.start n mach raw) :=
  ⟨hmach, Nat.two_pow_pos 64, Nat.two_pow_pos 64, nofun⟩

/-- The steps of a call, and how far the guest's count goes in each. -/
theorem clocked_proceed (h : Clocked s) (hheld : Held s) (hs : s.proceed = some s') : Clocked s' ∧
    Advances s s' 0 := by
  have hat : s.call ≠ .paused → s.gate.state.pausedAt = none := by
    intro hne
    have := hheld.pausedAt
    simpa [hne] using this
  unfold Vm.proceed at hs
  split at hs <;> rename_i hcall
  · split at hs <;> cases hs
    have heff : s.paused.effective = s.effective := by simp [Vm.effective, Vm.paused, hcall]
    have hinst : s.paused.instant = s.instant := by simp [Vm.instant, Vm.paused, hat (by simp [hcall])]
    refine ⟨⟨h.mach, ?_, h.offset, fun machAt rawAt hnow => ?_⟩, .same heff hinst (Nat.le_refl _)⟩
    · rw [heff]
      exact h.effective
    · obtain ⟨rfl, -⟩ : s.mach = machAt ∧ s.raw = rawAt := by simpa [Vm.paused] using hnow
      exact Nat.le_refl _
  · rename_i offset
    cases hs
    have heff : s.effective = offset := by rw [Vm.effective, hcall]
    have hlt := h.effective
    rw [heff] at hlt
    exact ⟨⟨h.mach, hlt, hlt, h.pausedAt⟩, .same heff.symm rfl (Nat.le_refl _)⟩
  · cases hs
    have heff : s.effective = s.gate.offset := by rw [Vm.effective, hcall]
    exact ⟨h.same heff.symm rfl rfl rfl, .same heff.symm rfl (Nat.le_refl _)⟩
  · cases hs
    have heff : s.effective = s.gate.offset := by rw [Vm.effective, hcall]
    exact ⟨h.same heff.symm rfl rfl rfl, .same heff.symm rfl (Nat.le_refl _)⟩
  · cases hs
    have heff : s.effective = s.gate.offset := by rw [Vm.effective, hcall]
    exact ⟨h.same heff.symm rfl rfl rfl, .same heff.symm rfl (Nat.le_refl _)⟩
  · cases hs
  · cases hs

/-- Every step but a restore takes the guest's count on; in the paused wait it stands still. -/
theorem advances_step (h : Clocked s) (hheld : Held s) (hs : step s a = some s')
    (hrestore : ∀ offset, a ≠ .restore offset) :
    Clocked s' ∧ ∃ d, Advances s s' d ∧ (s.call = .paused → d = 0) := by
  have hsame : s'.call = s.call → s'.gate.offset = s.gate.offset →
      s'.gate.state.pausedAt = s.gate.state.pausedAt → s'.mach = s.mach →
      Clocked s' ∧ ∃ d, Advances s s' d ∧ (s.call = .paused → d = 0) := by
    intro hcall hoff hat hmach
    have heff : s'.effective = s.effective := by rw [Vm.effective, hcall, hoff, Vm.effective]
    have hinst : s'.instant = s.instant := by rw [Vm.instant, hat, hmach, Vm.instant]
    exact ⟨h.same heff hoff hat hmach, 0, .same heff hinst (Nat.le_of_eq hmach.symm), fun _ => rfl⟩
  cases a with
  | secondary i a =>
    simp only [step] at hs
    split at hs
    · cases hs
    · obtain ⟨m, hm, rfl⟩ := Option.map_eq_some_iff.mp hs
      obtain ⟨inLoop, parked, hgate⟩ := (secondaryStep_moves hm).gate_eq
      exact hsame (put_call s i m) (by simp [hgate]) (by simp [hgate]) (put_mach s i m)
  | pause =>
    obtain ⟨henabled, rfl⟩ := by simpa [step] using hs
    unfold Vm.pause
    split
    · exact ⟨h, 0, .same rfl rfl (Nat.le_refl _), fun _ => rfl⟩
    · have hcall : s.call = .none := by
        rcases henabled with hidle | hcall
        · simp_all [Vm.idle]
        · have := hheld.pausedAt
          simp_all
      have heff : s.effective = s.gate.offset := by rw [Vm.effective, hcall]
      exact ⟨h.same heff.symm rfl rfl rfl, 0, .same heff.symm rfl (Nat.le_refl _), fun _ => rfl⟩
  | proceed =>
    obtain ⟨hclocked, hadv⟩ := clocked_proceed h hheld hs
    exact ⟨hclocked, 0, hadv, fun _ => rfl⟩
  | timeout =>
    obtain ⟨⟨hcall, -⟩, rfl⟩ := by simpa [step] using hs
    have heff : s.effective = s.gate.offset := by rw [Vm.effective, hcall]
    exact ⟨h.same heff.symm rfl rfl rfl, 0, .same heff.symm rfl (Nat.le_refl _), fun _ => rfl⟩
  | resume =>
    obtain ⟨-, rfl⟩ := by simpa [step] using hs
    refine ⟨?_, 0, advances_resume h hheld, fun _ => rfl⟩
    unfold Vm.resume PauseGate.resumed
    cases s.gate.state.pausedAt with
    | none => exact h
    | some counters => exact ⟨h.mach, Nat.mod_lt _ (by decide), h.offset, fun _ _ hnow => by cases hnow⟩
  | waitForInput =>
    obtain ⟨-, rfl⟩ := by simpa [step] using hs
    exact hsame rfl rfl rfl rfl
  | notifyInput =>
    simp only [step] at hs
    split at hs
    · cases hs
    · split at hs <;> cases hs <;> exact hsame rfl rfl rfl rfl
  | primaryTakeOffset =>
    obtain ⟨v, -, rfl⟩ := by simpa [step] using hs
    exact hsame rfl rfl rfl rfl
  | restore offset => exact absurd rfl (hrestore offset)
  | tick mach raw =>
    obtain ⟨hfits, rfl⟩ := by simpa [step] using hs
    refine ⟨⟨hfits, h.effective, h.offset, fun machAt rawAt hnow => ?_⟩, ?_⟩
    · exact Nat.le_trans (h.pausedAt machAt rawAt hnow) (Nat.le_add_right _ _)
    · cases hat : s.gate.state.pausedAt with
      | some counters =>
        have hinst : { s with mach := s.mach + mach, raw := s.raw + raw }.instant = s.instant := by
          simp only [Vm.instant, hat]
        exact ⟨0, .same rfl hinst (Nat.le_add_right _ _), fun _ => rfl⟩
      | none =>
        have hne : s.call ≠ .paused := by
          have := hheld.pausedAt
          simp_all
        have heff := h.effective
        have hmach := h.mach
        have hinst : s.instant = s.mach := by simp [Vm.instant, hat]
        refine ⟨mach, ⟨Nat.le_refl _, ?_, fun hle => ?_⟩, fun hc => absurd hc hne⟩
        · rw [Vm.guestNow, Vm.guestNow, hinst]
          simp only [Vm.instant, hat, Vm.effective] at heff ⊢
          omega
        · rw [Vm.guestNow, Vm.guestNow, hinst]
          rw [hinst] at hle
          simp only [Vm.instant, hat, Vm.effective] at heff hle ⊢
          omega
  | _ =>
    obtain ⟨-, rfl⟩ := by simpa [step] using hs
    exact hsame rfl rfl rfl rfl

theorem advances_runs (h : Clocked s) (hheld : Held s) {acts : List Act} (hs : runs step s acts = some s')
    (hrestore : ∀ a ∈ acts, ∀ offset, a ≠ .restore offset) : ∃ d, Advances s s' d := by
  induction acts generalizing s with
  | nil =>
    cases hs
    exact ⟨0, .same rfl rfl (Nat.le_refl _)⟩
  | cons a acts ih =>
    obtain ⟨mid, hstep, hrest⟩ := runs_cons hs
    obtain ⟨hclocked, d, hadv, -⟩ := advances_step h hheld hstep (hrestore a List.mem_cons_self)
    obtain ⟨d', hadv'⟩ := ih hclocked (hheld.step hstep) hrest fun a ha => hrestore a (List.mem_cons_of_mem _ ha)
    exact ⟨d + d', hadv.trans hadv'⟩

/-- Nothing but a resume ends the paused wait, and no restore is done in it. -/
theorem paused_step (hheld : Held s) (hcall : s.call = .paused) (hs : step s a = some s') (ha : a ≠ .resume) :
    s'.call = .paused ∧ ∀ offset, a ≠ .restore offset := by
  have hat : s.gate.state.pausedAt.isSome = true := by simp [hheld.pausedAt, hcall]
  cases a with
  | secondary i a =>
    simp only [step] at hs
    split at hs
    · cases hs
    · obtain ⟨m, -, rfl⟩ := Option.map_eq_some_iff.mp hs
      unfold Vm.put
      cases m.notify <;> exact ⟨hcall, by rintro _ ⟨⟩⟩
  | pause =>
    obtain ⟨-, rfl⟩ := by simpa [step] using hs
    simp [Vm.pause, hat, hcall]
  | notifyInput =>
    obtain ⟨-, rfl⟩ := by simpa [step, hat] using hs
    exact ⟨hcall, by rintro _ ⟨⟩⟩
  | primaryTakeOffset =>
    obtain ⟨v, -, rfl⟩ := by simpa [step] using hs
    exact ⟨hcall, by rintro _ ⟨⟩⟩
  | resume => exact absurd rfl ha
  | proceed => simp [step, Vm.proceed, hcall] at hs
  | timeout => simp [step, hcall] at hs
  | restore offset => simp [step, Vm.restorable, Vm.idle, hcall] at hs
  | _ =>
    obtain ⟨-, rfl⟩ := by simpa [step] using hs
    exact ⟨hcall, by rintro _ ⟨⟩⟩

theorem paused_runs (h : Clocked s) (hheld : Held s) (hcall : s.call = .paused) {acts : List Act}
    (hs : runs step s acts = some s') (hresume : ∀ a ∈ acts, a ≠ .resume) :
    Clocked s' ∧ Held s' ∧ s'.guestNow = s.guestNow := by
  induction acts generalizing s with
  | nil =>
    cases hs
    exact ⟨h, hheld, rfl⟩
  | cons a acts ih =>
    obtain ⟨mid, hstep, hrest⟩ := runs_cons hs
    obtain ⟨hmid, hrestore⟩ := paused_step hheld hcall hstep (hresume a List.mem_cons_self)
    obtain ⟨hclocked, d, hadv, hzero⟩ := advances_step h hheld hstep hrestore
    obtain ⟨hclocked', hheld', hsame⟩ :=
      ih hclocked (hheld.step hstep) hmid hrest fun a ha => hresume a (List.mem_cons_of_mem _ ha)
    refine ⟨hclocked', hheld', ?_⟩
    rw [hsame, hadv.guestNow, hzero hcall, Nat.add_zero, Nat.mod_eq_of_lt (guestNow_lt s)]

theorem clocked_reaches {ok : Vm → Act → Prop} {n mach raw : Nat} (hmach : mach < 2 ^ 64)
    (h : Reaches step ok (Vm.start n mach raw) s) : Clocked s := by
  induction h with
  | start => exact clocked_start n raw hmach
  | @next s s' a hreach _ hstep ih =>
    by_cases hrestore : ∀ offset, a ≠ .restore offset
    · exact (advances_step ih (held_reaches hreach) hstep hrestore).1
    · push Not at hrestore
      obtain ⟨offset, rfl⟩ := hrestore
      obtain ⟨⟨hrestorable, hfits⟩, rfl⟩ := by simpa [step] using hstep
      have hcall : s.call = .none := by simp_all [Vm.restorable, Vm.idle]
      refine ⟨ih.mach, ?_, hfits, ih.pausedAt⟩
      simp only [Vm.effective, Vm.restore, hcall]
      exact hfits

end Time

/-! ## Runs -/

theorem allCoherent_reaches {n mach raw : Nat} {s : Vm} (h : Reaches step Orderly (Vm.start n mach raw) s) :
    AllCoherent s := by
  induction h with
  | start => exact allCoherent_start n mach raw
  | next a hreach hok hstep ih => exact ih.step (held_reaches hreach) hok hstep

/-- In an orderly run every vCPU that runs counts with the gate's offset. The guest's count at a resume is its count at
the pause, and it only goes on until a restore sets another. -/
theorem counters_coherent (n raw : Nat) {mach : Nat} (hmach : mach < 2 ^ 64) {s : Vm}
    (h : Reaches step Orderly (Vm.start n mach raw) s) :
    (∀ v ∈ s.primary :: s.secondaries, v.place = .running →
      v.vtimer = s.gate.offset ∧ ∀ now, v.cntvct now = s.gate.guestCount now) ∧
    (∀ machAt rawAt, s.gate.state.pausedAt = some (machAt, rawAt) → ∀ acts s', (∀ a ∈ acts, a ≠ .resume) →
      runs step s acts = some s' → ∀ resumed, s'.gate.resumed s'.mach s'.raw = some resumed →
        { s'.gate with offset := resumed.offset }.guestCount s'.mach = s.gate.guestCount machAt) ∧
    ∀ acts s', (∀ a ∈ acts, ∀ offset, a ≠ .restore offset) → runs step s acts =
      some s' → ∃ d, Advances s s' d := by
  have hheld := held_reaches h
  have hclocked := clocked_reaches hmach h
  have hall := allCoherent_reaches h
  refine ⟨?_, ?_, fun acts s' hrestore hs => advances_runs hclocked hheld hs hrestore⟩
  · intro v hv hplace
    have hvtimer : v.vtimer = s.gate.offset := by
      rcases List.mem_cons.mp hv with rfl | hv
      · refine hall.primary.running ?_ hplace
        by_cases hcall : s.call = .none
        · rw [hcall]
          rfl
        · rw [hheld.primary hcall] at hplace
          cases hplace
      · refine (hall.secondaries v hv).running ?_ hplace
        by_contra hstops
        have := hheld.stopped (by simpa using hstops) v hv
        simp [hplace, Place.stopped] at this
    refine ⟨hvtimer, fun now => ?_⟩
    rw [Vcpu.cntvct, hvtimer, PauseGate.guestCount]
  · intro machAt rawAt hat acts s' hresume hs resumed hresumed
    have hcall : s.call = .paused := by simpa [hat] using hheld.pausedAt.symm
    obtain ⟨hclocked', hheld', hsame⟩ := paused_runs hclocked hheld hcall hs hresume
    have hadv := advances_resume hclocked' hheld'
    have hnow : s'.resume.guestNow = { s'.gate with offset := resumed.offset }.guestCount s'.mach := by
      simp [Vm.resume, hresumed, Vm.guestNow, Vm.instant, Vm.effective, PauseGate.guestCount]
    have hpaused : s.guestNow = s.gate.guestCount machAt := by
      simp [Vm.guestNow, Vm.instant, Vm.effective, PauseGate.guestCount, hat, hcall]
    rw [← hnow, hadv.guestNow, hsame, Nat.add_zero, Nat.mod_eq_of_lt (guestNow_lt s), hpaused]

/-- A vCPU that parked while the guest was paused, at the end of the pause. -/
def pausedActs : List Act :=
  [.secondary 0 .create, .secondary 0 .enterRunLoop, .pause, .secondary 0 .loadRequested, .secondary 0 .park, .proceed]

def pausedVm : Vm :=
  { gate := ⟨true, 0, 0, ⟨1, 1, some (5000, 9000), false⟩⟩, primary := ⟨.top, true, 0, 0⟩, call := .paused
    secondaries := [⟨.waiting, true, 0, 0⟩], mach := 5000, raw := 9000 }

theorem pausedVm_reached : Reaches step Orderly (Vm.start 1 5000 9000) pausedVm := by
  have hrun : runs (guarded step Orderly) (Vm.start 1 5000 9000) pausedActs = some pausedVm := by
    decide +kernel
  exact Reaches.start.of_runs hrun

theorem counters_coherent_paused :
    ({ pausedVm.gate with offset := 200 }).guestCount 5200 = pausedVm.gate.guestCount 5000 :=
  (counters_coherent 1 9000 (by decide) pausedVm_reached).2.1 5000 9000 rfl [.tick 200 300]
    { pausedVm with mach := 5200, raw := 9300 } (by simp) (by decide +kernel) ⟨200, 200, 100⟩ (by decide +kernel)

/-- A vCPU created after a restore, before the first resume, runs at offset 0. -/
theorem late_vcpu_runs_at_offset_zero : ∃ s v, Reaches step (fun _ _ => True) (Vm.start 1 5000 9000) s ∧
    v ∈ s.secondaries ∧ v.place = .running ∧ v.vtimer = 0 ∧ s.gate.offset = 1000 ∧
      v.cntvct s.mach ≠ s.gate.guestCount s.mach := by
  let acts : List Act := [.restore 1000, .secondary 0 .create, .secondary 0 .enterRunLoop, .secondary 0 .loadRequested,
    .secondary 0 .takeOffset]
  let late : Vcpu := ⟨.running, true, 0, 0⟩
  let s : Vm := { gate := ⟨false, 1000, 0, ⟨1, 0, none, false⟩⟩, primary :=
    ⟨.top, true, 0, 1000⟩, call := .none
                  secondaries := [late], mach := 5000, raw := 9000 }
  have hrun : runs (guarded step fun _ _ => True) (Vm.start 1 5000 9000) acts = some s := by
    decide +kernel
  exact ⟨s, late, Reaches.start.of_runs hrun, by decide +kernel⟩

end BridgeVm.Pause
