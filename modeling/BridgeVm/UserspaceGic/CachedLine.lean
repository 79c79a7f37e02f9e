import BridgeVm.UserspaceGic.Kick

/-!
# The run loop's cached IRQ lines

- `SilentFall`: the three writes that withdraw interrupts and return no kick, and exactly when one of them lowers a
  line (`unkicked_iff`);
- no rising line goes unkicked (`rise_kicked`);
- in a run without a silent fall the cached lines are the lines of the controller (`quiet_run_cached`); setting the
  active bit of the interrupt that holds a line up leaves a stale one (`stale_line_after_isactiver0`).
-/

namespace BridgeVm.Gic

open Machine Lib

/-! ## Writes that return no kick -/

section Silent

variable {g : UserspaceGic} {op : Op} {k : Nat}

/-- The INTIDs an operation withdraws at a vCPU by one of the paths that never kick it: a falling edge input whose
latch is clear, a vtimer that stops firing, and a write of `GICR_ISACTIVER0`. -/
def UserspaceGic.withdrawn (g : UserspaceGic) : Op → Nat → Option (Nat → Bool)
  | .setSpi intid false, _ =>
    if spiBase ≤ intid ∧ intid < gicIntidCount ∧ g.dist.edge intid = true then
      some fun i => i == intid && !bankBit g.dist.pending intid
    else none
  | .setVtimerPpi cpu false, k => if cpu = k then some fun i => i == vtimerIntid else none
  | .mmio ipa _ (some value), k =>
    if g.isactiver0At ipa = some k then some fun i => decide (i < 32) && (value.setWidth 32).getLsbD i else none
  | _, _ => none

/-- The line is up and the operation silently withdraws everything that holds it up. -/
def UserspaceGic.SilentFall (g : UserspaceGic) (op : Op) (k : Nat) : Prop :=
  g.lineAsserted k = true ∧ ∃ W, g.withdrawn op k = some W ∧ ∀ i, g.Deliverable k i → W i = true

/-- Outside the silent paths, every operation covers the lines of the vCPUs that do not perform it. -/
theorem apply_covered (hv : op.Valid g) (hk : k < g.numCpus) (hactor : op.actor ≠ some k)
    (hw : g.withdrawn op k = none) : Covered g (g.apply op).1 (g.apply op).2 k := by
  cases op with
  | setSpi intid level =>
    by_cases hedge : (g.dist.edge intid && !level) = false
    · exact setSpi_covered hk hedge
    · obtain ⟨he, hl⟩ := Bool.and_eq_true_iff.mp (Bool.eq_true_of_not_eq_false hedge)
      have hlevel : level = false := by simpa using hl
      subst hlevel
      have hr : ¬(spiBase ≤ intid ∧ intid < gicIntidCount) := by
        intro hr
        simp [UserspaceGic.withdrawn, hr.1, hr.2, he] at hw
      refine covered_of_eq ?_
      simp only [UserspaceGic.apply, UserspaceGic.setSpi, if_pos hr]
  | sendMsi address data => exact sendMsi_covered _ _ hk
  | setVtimerPpi cpu fired =>
    cases fired with
    | true => exact setVtimerPpi_covered _ hk
    | false =>
      have hc : k ≠ cpu := by
        rintro rfl
        simp [UserspaceGic.withdrawn] at hw
      exact covered_of_eq (lineAsserted_setRedist_ne _ hc)
  | mmio ipa width write =>
    refine mmio_covered hk fun hsome hat => ?_
    obtain ⟨value, rfl⟩ := Option.isSome_iff_exists.mp hsome
    simp only [UserspaceGic.withdrawn, hat, if_true] at hw
    cases hw
  | sysreg cpu sysReg isRead value =>
    have hc : k ≠ cpu := fun h => hactor (by rw [h]; rfl)
    simp only [UserspaceGic.apply]
    cases hs : g.sysreg cpu sysReg isRead value with
    | none => exact covered_of_eq rfl
    | some p => exact sysreg_covered hk hv hc hs

theorem vtimer_withdraws (cpu i : Nat) :
    ((g.setVtimerPpi cpu false).1).Deliverable cpu i ↔ g.Deliverable cpu i ∧ ¬(i == vtimerIntid) = true := by
  have hv : ¬(spiBase ≤ vtimerIntid) := by decide
  simp only [UserspaceGic.setVtimerPpi, Bool.false_eq_true, if_false, UserspaceGic.Deliverable, setRedist_self,
    setRedist_ifaces, setRedist_dist, beq_iff_eq]
  rw [or_and_right]
  refine or_congr ?_ ?_
  · rw [and_assoc]
    refine and_congr_right fun hi => ?_
    simp only [redist_ready_eq _ hi]
    rw [getLsbD_and_not_shiftLeft_one _ (by decide), getLsbD_and_not_shiftLeft_one _ (by decide)]
    by_cases h : i = vtimerIntid <;> simp [h]
  · constructor
    · intro h
      exact ⟨h, fun e => hv (e ▸ h.1)⟩
    · exact fun h => h.1

theorem edge_withdraws {intid : Nat} (hlo : spiBase ≤ intid) (he : g.dist.edge intid = true) (i : Nat) :
    (g.setDist (g.dist.sample intid false)).Deliverable k i ↔
      g.Deliverable k i ∧ ¬(i == intid && !bankBit g.dist.pending intid) = true := by
  obtain ⟨hroute, -, hprio, -, -, -⟩ := sample_same g.dist intid false
  have hr : (g.setDist (g.dist.sample intid false)).spiRoutesToCpu i k = g.spiRoutesToCpu i k := by
    simp only [UserspaceGic.spiRoutesToCpu, setDist_dist, setDist_numCpus, hroute]
  simp only [UserspaceGic.Deliverable, hr, setDist_dist, setDist_redists, setDist_ifaces, hprio]
  by_cases h : i = intid
  · subst h
    rw [sample_ready_low _ he]
    have hi : ¬i < 32 := by unfold spiBase at hlo; omega
    cases bankBit g.dist.pending i <;> simp [hi]
  · rw [sample_ready_ne _ _ _ h]
    simp [h]

theorem isactiver_withdraws (value : BitVec 32) (i : Nat) :
    (g.setRedist k { g.redists k with active0 := (g.redists k).active0 ||| value }).Deliverable k i ↔
      g.Deliverable k i ∧ ¬(decide (i < 32) && value.getLsbD i) = true := by
  simp only [UserspaceGic.Deliverable, setRedist_self, setRedist_ifaces, setRedist_dist]
  rw [or_and_right]
  refine or_congr ?_ ?_
  · rw [and_assoc]
    refine and_congr_right fun hi => ?_
    simp only [redist_ready_eq _ hi, BitVec.getLsbD_or]
    cases value.getLsbD i <;> simp [hi]
  · constructor
    · intro h
      have hi : ¬i < 32 := by have := h.1; unfold spiBase at this; omega
      exact ⟨h, by simp [hi]⟩
    · exact fun h => h.1

theorem redistMmio_isactiver0 {offset width : Nat} {value : BitVec 64} (h : RedistReg.ofOffset offset = .isactiver0) :
    g.redistMmio k offset width (some value) =
      (g.setRedist k { g.redists k with active0 := (g.redists k).active0 ||| value.setWidth 32 }, ⟨0, 0⟩) := by
  simp only [UserspaceGic.redistMmio, h, Redistributor.write, Bool.false_eq_true, if_false]

theorem mmio_isactiver0 {ipa width : Nat} {value : BitVec 64} (h : g.isactiver0At ipa = some k) :
    g.mmio ipa width (some value) =
      (g.setRedist k { g.redists k with active0 := (g.redists k).active0 ||| value.setWidth 32 }, ⟨0, 0⟩) := by
  unfold UserspaceGic.isactiver0At at h
  split at h
  · rename_i hc
    obtain ⟨hd, hr, hcpu, hreg⟩ := hc
    cases Option.some.inj h
    rw [mmio_redist hd hr, if_pos hcpu]
    exact redistMmio_isactiver0 hreg
  · cases h

/-- The silent paths: no kick, the same gates, and the withdrawn interrupts are gone. -/
theorem apply_withdraws {W : Nat → Bool} (hw : g.withdrawn op k = some W) :
    (g.apply op).2.getLsbD k = false ∧ ((g.apply op).1.Gated k ↔ g.Gated k) ∧
      ∀ i, (g.apply op).1.Deliverable k i ↔ g.Deliverable k i ∧ ¬W i = true := by
  cases op with
  | setSpi intid level =>
    cases level with
    | true => simp [UserspaceGic.withdrawn] at hw
    | false =>
      simp only [UserspaceGic.withdrawn] at hw
      split at hw
      · rename_i h
        obtain ⟨hlo, hhi, he⟩ := h
        cases hw
        have happ : g.apply (.setSpi intid false) = (g.setDist (g.dist.sample intid false), 0) := by
          simp [UserspaceGic.apply, UserspaceGic.setSpi, hlo, hhi, he]
        rw [happ]
        obtain ⟨-, hctlr, -⟩ := sample_same g.dist intid false
        exact ⟨BitVec.getLsbD_zero, by simp only [UserspaceGic.Gated, setDist_ifaces, setDist_dist, hctlr],
          edge_withdraws hlo he⟩
      · cases hw
  | sendMsi address data => cases hw
  | setVtimerPpi cpu fired =>
    cases fired with
    | true => cases hw
    | false =>
      simp only [UserspaceGic.withdrawn] at hw
      split at hw
      · rename_i h
        subst h
        cases hw
        exact ⟨BitVec.getLsbD_zero, Iff.rfl, vtimer_withdraws cpu⟩
      · cases hw
  | mmio ipa width write =>
    cases write with
    | none => cases hw
    | some value =>
      simp only [UserspaceGic.withdrawn] at hw
      split at hw
      · rename_i h
        cases hw
        simp only [UserspaceGic.apply, mmio_isactiver0 h]
        exact ⟨BitVec.getLsbD_zero, Iff.rfl, isactiver_withdraws _⟩
      · cases hw
  | sysreg cpu sysReg isRead value => cases hw

/-- **Which changed lines go unkicked**: exactly the silent falls. -/
theorem unkicked_iff (hv : op.Valid g) (hk : k < g.numCpus) (hactor : op.actor ≠ some k) :
    ((g.apply op).1.lineAsserted k ≠ g.lineAsserted k ∧ (g.apply op).2.getLsbD k = false) ↔
    g.SilentFall op k := by
  unfold UserspaceGic.SilentFall
  cases hw : g.withdrawn op k with
  | none =>
    constructor
    · rintro ⟨hne, hbit⟩
      rw [apply_covered hv hk hactor hw hne] at hbit
      cases hbit
    · rintro ⟨-, W, hW, -⟩
      cases hW
  | some W =>
    obtain ⟨hbit, hgate, hdel⟩ := apply_withdraws hw
    rw [lineAsserted_ne_iff (W := fun i => W i = true) hgate hdel]
    constructor
    · rintro ⟨⟨hline, hall⟩, -⟩
      exact ⟨hline, W, rfl, hall⟩
    · rintro ⟨hline, W', hW', hall⟩
      cases hW'
      exact ⟨⟨hline, hall⟩, hbit⟩

/-- **A rising line is kicked**: in any state and by any operation. -/
theorem rise_kicked (hv : op.Valid g) (hk : k < g.numCpus) (hactor : op.actor ≠ some k)
    (hbefore : g.lineAsserted k = false) (hafter : (g.apply op).1.lineAsserted k = true) :
    (g.apply op).2.getLsbD k = true := by
  by_contra hbit
  have hsilent := (unkicked_iff hv hk hactor).mp ⟨by rw [hbefore, hafter]; decide, by simpa using hbit⟩
  rw [hsilent.1] at hbefore
  cases hbefore

end Silent

/-! ## The number of vCPUs -/

section NumCpus

variable (g : UserspaceGic)

theorem setSpi_numCpus (intid : Nat) (level : Bool) : (g.setSpi intid level).1.numCpus = g.numCpus := by
  unfold UserspaceGic.setSpi
  dsimp only
  split_ifs <;> rfl

theorem sendMsi_numCpus (address data : Nat) : (g.sendMsi address data).1.numCpus = g.numCpus := by
  unfold UserspaceGic.sendMsi
  split_ifs <;> rfl

theorem setVtimerPpi_numCpus (cpu : Nat) (fired : Bool) : (g.setVtimerPpi cpu fired).1.numCpus = g.numCpus := by
  unfold UserspaceGic.setVtimerPpi
  dsimp only
  split_ifs <;> rfl

theorem distBankedMmio_numCpus {offset width : Nat} {write : Option (BitVec 64)} {p : UserspaceGic × AccessResult}
    (h : g.distBankedMmio offset width write = some p) : p.1.numCpus = g.numCpus := by
  unfold UserspaceGic.distBankedMmio at h
  split at h
  · cases write <;> cases h <;> rfl
  · split at h
    · unfold UserspaceGic.distPriorityAccess at h
      obtain ⟨q, -, rfl⟩ := Option.map_eq_some_iff.mp h
      rfl
    · obtain ⟨row, -, hrow⟩ := List.exists_of_findSome?_eq_some h
      obtain ⟨index, -, rfl⟩ := Option.map_eq_some_iff.mp hrow
      cases write <;> rfl

theorem distMmio_numCpus (offset width : Nat) (write : Option (BitVec 64)) :
    (g.distMmio offset width write).1.numCpus = g.numCpus := by
  have hbank : ∀ w, ((g.distBankedMmio offset width w).getD (g, ⟨0, 0⟩)).1.numCpus = g.numCpus := by
    intro w
    cases hb : g.distBankedMmio offset width w with
    | none => rfl
    | some p => exact distBankedMmio_numCpus g hb
  unfold UserspaceGic.distMmio
  cases DistReg.ofOffset offset with
  | ctlr => cases write <;> rfl
  | statusr => rfl
  | other => exact hbank _
  | typer | iidr | pidr2 =>
    cases write with
    | none => rfl
    | some value => exact hbank _

theorem redistMmio_numCpus (cpu offset width : Nat) (write : Option (BitVec 64)) :
    (g.redistMmio cpu offset width write).1.numCpus = g.numCpus := by
  unfold UserspaceGic.redistMmio
  cases RedistReg.ofOffset offset with
  | other =>
    dsimp only
    split
    · cases hp : g.redistPriorityAccess cpu offset width write with
      | none => rfl
      | some p =>
        obtain ⟨q, -, rfl⟩ := Option.map_eq_some_iff.mp hp
        rfl
    · rfl
  | _ => cases write <;> rfl

theorem msiFrameMmio_numCpus (offset : Nat) (write : Option (BitVec 64)) :
    (g.msiFrameMmio offset write).1.numCpus = g.numCpus := by
  unfold UserspaceGic.msiFrameMmio
  cases write with
  | some value =>
    dsimp only
    split
    · exact sendMsi_numCpus g _ _
    · rfl
  | none =>
    dsimp only
    split_ifs <;> rfl

theorem mmio_numCpus (ipa width : Nat) (write : Option (BitVec 64)) :
    (g.mmio ipa width write).1.numCpus = g.numCpus := by
  cases hd : gicDist.contains ipa with
  | true =>
    rw [UserspaceGic.mmio, if_pos hd]
    exact distMmio_numCpus g _ _ _
  | false =>
    cases hr : gicRedist.contains ipa with
    | true =>
      rw [mmio_redist hd hr]
      split
      · exact redistMmio_numCpus g _ _ _ _
      · rfl
    | false =>
      simp only [UserspaceGic.mmio, hd, hr, Bool.false_eq_true, if_false]
      split
      · exact msiFrameMmio_numCpus g _ _
      · rfl

theorem acknowledge_numCpus (cpu : Nat) : (g.acknowledge cpu).1.numCpus = g.numCpus := by
  unfold UserspaceGic.acknowledge UserspaceGic.activate
  dsimp only
  split
  · rfl
  · split
    · rfl
    · rw [setIface_numCpus]
      split <;> rfl

theorem deactivate_numCpus (cpu intid : Nat) : (g.deactivate cpu intid).1.numCpus = g.numCpus := by
  unfold UserspaceGic.deactivate UserspaceGic.clearActive
  dsimp only
  split_ifs <;> rfl

theorem raiseSgis_numCpus (intid cpu : Nat) (irm : Bool) (targets : List Nat) (m : BitVec 64) :
    (UserspaceGic.raiseSgis intid cpu irm targets g m).1.numCpus = g.numCpus := by
  induction targets generalizing g m with
  | nil => rfl
  | cons target rest ih =>
    unfold UserspaceGic.raiseSgis
    split
    · exact ih g m
    · exact ih _ _

theorem sysregWrite_numCpus {cpu : Nat} {reg : SysReg} {value : BitVec 64} {p : UserspaceGic × BitVec 64}
    (h : g.sysregWrite cpu reg value = some p) : p.1.numCpus = g.numCpus := by
  cases sysregWrite_cases h with
  | ignored => rfl
  | setting iface kick => rfl
  | drop intid => rfl
  | dropDeactivate intid => exact deactivate_numCpus _ _ _
  | deactivate intid => exact deactivate_numCpus g _ _
  | sgis intid irm targets => exact raiseSgis_numCpus g _ _ _ _ _
  | apr group1 n value kick => rfl

theorem sysreg_numCpus {cpu sysReg : Nat} {isRead : Bool} {value : BitVec 64} {p : UserspaceGic × AccessResult}
    (h : g.sysreg cpu sysReg isRead value = some p) : p.1.numCpus = g.numCpus := by
  unfold UserspaceGic.sysreg at h
  split at h
  · cases h
  · split at h
    · rename_i reg _ _
      cases reg <;> cases h <;> first
        | rfl
        | exact acknowledge_numCpus g cpu
    · obtain ⟨q, hq, rfl⟩ := Option.map_eq_some_iff.mp h
      exact sysregWrite_numCpus g hq

theorem apply_numCpus (op : Op) : (g.apply op).1.numCpus = g.numCpus := by
  cases op with
  | setSpi intid level => exact setSpi_numCpus g _ _
  | sendMsi address data => exact sendMsi_numCpus g _ _
  | setVtimerPpi cpu fired => exact setVtimerPpi_numCpus g _ _
  | mmio ipa width write => exact mmio_numCpus g _ _ _
  | sysreg cpu sysReg isRead value =>
    simp only [UserspaceGic.apply]
    cases hs : g.sysreg cpu sysReg isRead value with
    | none => rfl
    | some p => exact sysreg_numCpus g hs

end NumCpus

/-! ## The run loop's cached lines -/

/-- The run loop: the controller and the IRQ level last handed to each vCPU. -/
structure RunLoop where
  gic : UserspaceGic
  cached : Nat → Bool

/-- A machine before its first access. -/
def RunLoop.boot (numCpus : Nat) (hpos : 1 ≤ numCpus) (hle : numCpus ≤ 16) : RunLoop where
  gic := UserspaceGic.new numCpus hpos hle
  cached := fun _ => false

/-- One operation; the kicked vCPUs and the one that performs a system-register access refresh their line. -/
def RunLoop.step (r : RunLoop) (op : Op) : RunLoop :=
  let (gic, kickMask) := r.gic.apply op
  ⟨gic, fun k => if kickMask.getLsbD k || op.actor == some k then gic.lineAsserted k else r.cached k⟩

/-- Operations one after the other. -/
def RunLoop.run (r : RunLoop) (ops : List Op) : RunLoop := ops.foldl RunLoop.step r

/-- Group 1 on at both ends, SGI 0 enabled, every priority let through. -/
def enableSgi : List Op :=
  [.mmio gicDist.base 4 (some 0x2#64), .mmio (gicRedist.base + 0x10100) 4 (some 1#64),
    .sysreg 0 0xc230 false 0xff#64, .sysreg 0 0xc667 false 1#64]

/-- `GICR_ISPENDR0` write for SGI 0 of vCPU 0. -/
def pendSgi : Op := .mmio (gicRedist.base + 0x10200) 4 (some 1#64)

/-- `GICR_ISACTIVER0` write for SGI 0 of vCPU 0. -/
def activateSgi : Op := .mmio (gicRedist.base + 0x10300) 4 (some 1#64)

/-- Making an enabled interrupt pending raises the line and kicks. -/
theorem rise_kicked_pendSgi :
    (((RunLoop.boot 1 (by decide) (by decide)).run enableSgi).gic.apply pendSgi).2.getLsbD 0 = true :=
  rise_kicked (by decide) (by decide +kernel) (by decide) (by decide +kernel) (by decide +kernel)

/-- The operation is valid and silently lowers no line. -/
def Op.Quiet (g : UserspaceGic) (op : Op) : Prop := op.Valid g ∧ ∀ k < g.numCpus, ¬g.SilentFall op k

/-- Runs of the machine whose operations are quiet. -/
inductive QuietRun : RunLoop → Prop
  | boot (numCpus : Nat) (hpos : 1 ≤ numCpus) (hle : numCpus ≤ 16) : QuietRun (RunLoop.boot numCpus hpos hle)
  | step {r : RunLoop} {op : Op} : QuietRun r → op.Quiet r.gic → QuietRun (r.step op)

section Runs

variable {r : RunLoop} {op : Op} {k : Nat}

theorem boot_line (numCpus : Nat) (hpos : 1 ≤ numCpus) (hle : numCpus ≤ 16) :
    (RunLoop.boot numCpus hpos hle).gic.lineAsserted k = false := rfl

theorem quiet_step_cached (hq : op.Quiet r.gic) (hcached : ∀ k < r.gic.numCpus, r.cached k = r.gic.lineAsserted k)
    (hk : k < r.gic.numCpus) : (r.step op).cached k = (r.step op).gic.lineAsserted k := by
  obtain ⟨hv, hsilent⟩ := hq
  simp only [RunLoop.step]
  split
  · rfl
  · rename_i h
    obtain ⟨hbit, hactor⟩ := Bool.or_eq_false_iff.mp (Bool.eq_false_of_not_eq_true h)
    have hne : op.actor ≠ some k := by simpa using hactor
    rw [hcached k hk]
    by_contra hline
    exact hsilent k hk ((unkicked_iff hv hk hne).mp ⟨fun e => hline e.symm, hbit⟩)

/-- **Cached lines along a run**: while no operation silently withdraws all that holds a line up, every cached line
is the line, and the next operation kicks each changed vCPU exactly when it is no silent fall there. -/
theorem quiet_run_cached (h : QuietRun r) :
    (∀ k < r.gic.numCpus, r.cached k = r.gic.lineAsserted k) ∧
    ∀ op : Op, op.Valid r.gic → ∀ k < r.gic.numCpus, op.actor ≠ some k →
      (((r.gic.apply op).1.lineAsserted k ≠ r.gic.lineAsserted k → (r.gic.apply op).2.getLsbD k = true) ↔
        ¬r.gic.SilentFall op k) := by
  refine ⟨?_, fun op hv k hk hactor => ?_⟩
  · induction h with
    | boot numCpus hpos hle => exact fun k _ => (boot_line numCpus hpos hle).symm
    | @step r op hr hq ih =>
      intro k hk
      have hn : (r.step op).gic.numCpus = r.gic.numCpus := apply_numCpus r.gic op
      exact quiet_step_cached hq ih (hn ▸ hk)
  · rw [← unkicked_iff hv hk hactor, not_and, Bool.not_eq_false]

/-- The cached lines after the first write of a machine. -/
theorem quiet_run_cached_enable :
    let r := (RunLoop.boot 1 (by decide) (by decide)).step (.mmio gicDist.base 4 (some 0x2#64))
    ∀ k < r.gic.numCpus, r.cached k = r.gic.lineAsserted k := by
  have hquiet : Op.Quiet (RunLoop.boot 1 (by decide) (by decide)).gic (.mmio gicDist.base 4 (some 0x2#64)) := by
    refine ⟨trivial, fun k _ hsilent => ?_⟩
    rw [UserspaceGic.SilentFall, boot_line] at hsilent
    exact Bool.false_ne_true hsilent.1
  exact (quiet_run_cached (QuietRun.step (QuietRun.boot 1 (by decide) (by decide)) hquiet)).1

/-- The redistributor's set-active write lowers the line of its vCPU and kicks nobody. -/
theorem stale_line_after_isactiver0 :
    let before := (RunLoop.boot 1 (by decide) (by decide)).run (enableSgi ++ [pendSgi])
    before.gic.lineAsserted 0 = true ∧ (before.gic.apply activateSgi).1.lineAsserted 0 = false ∧
      (before.gic.apply activateSgi).2.getLsbD 0 = false ∧
      (before.step activateSgi).cached 0 ≠ (before.step activateSgi).gic.lineAsserted 0 := by
  decide +kernel

end Runs

end BridgeVm.Gic
