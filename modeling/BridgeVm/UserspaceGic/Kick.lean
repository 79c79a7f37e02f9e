import BridgeVm.UserspaceGic.Line

/-!
# Kick masks of the userspace GICv3

- `Covered`: a kick mask names a vCPU whose line moved; it composes along a sequence of changes (`covered_trans`),
  and every kicking path of the source has it;
- device inputs (`setSpi_covered`, `sendMsi_covered`, `setVtimerPpi_covered`), memory-mapped accesses
  (`mmio_covered`) and system registers (`sysreg_covered`), each with the one path it leaves out.
-/

namespace BridgeVm.Gic

open Machine Lib

/-! ## Operations -/

/-- The entry points of the run loop. -/
inductive Op
  | setSpi (intid : Nat) (level : Bool)
  | sendMsi (address data : Nat)
  | setVtimerPpi (cpu : Nat) (fired : Bool)
  | mmio (ipa width : Nat) (write : Option (BitVec 64))
  | sysreg (cpu sysReg : Nat) (isRead : Bool) (writeValue : BitVec 64)
deriving DecidableEq, Repr

/-- The vCPU performing a system-register access. -/
def Op.actor : Op → Option Nat
  | .sysreg cpu _ _ _ => some cpu
  | _ => none

/-- The vCPU arguments are vCPUs of the machine. -/
def Op.Valid (g : UserspaceGic) : Op → Prop
  | .setVtimerPpi cpu _ => cpu < g.numCpus
  | .sysreg cpu _ _ _ => cpu < g.numCpus
  | _ => True

instance (g : UserspaceGic) (op : Op) : Decidable (op.Valid g) := by
  cases op <;> unfold Op.Valid <;> infer_instance

/-- The state after an operation, and its kick mask. -/
def UserspaceGic.apply (g : UserspaceGic) : Op → UserspaceGic × BitVec 64
  | .setSpi intid level => g.setSpi intid level
  | .sendMsi address data => g.sendMsi address data
  | .setVtimerPpi cpu fired => g.setVtimerPpi cpu fired
  | .mmio ipa width write =>
    let (g', result) := g.mmio ipa width write
    (g', result.kickMask)
  | .sysreg cpu sysReg isRead writeValue =>
    match g.sysreg cpu sysReg isRead writeValue with
    | some (g', result) => (g', result.kickMask)
    | none => (g, 0)

/-! ## Masks that cover the lines that moved -/

section Covered

variable {g g₁ g₂ : UserspaceGic} {k cpu : Nat} {m m₁ m₂ : BitVec 64}

/-- If the line of `k` moved from `g` to `g₁`, the mask names `k`. -/
def Covered (g g₁ : UserspaceGic) (m : BitVec 64) (k : Nat) : Prop :=
  g₁.lineAsserted k ≠ g.lineAsserted k → m.getLsbD k = true

theorem covered_of_eq (h : g₁.lineAsserted k = g.lineAsserted k) : Covered g g₁ m k := fun hne => absurd h hne

theorem covered_of_bit (h : m.getLsbD k = true) : Covered g g₁ m k := fun _ => h

theorem covered_mono (h : Covered g g₁ m₁ k) (hm : m₁.getLsbD k = true → m₂.getLsbD k = true) :
    Covered g g₁ m₂ k := fun hne => hm (h hne)

theorem covered_or_left (h : Covered g g₁ m₁ k) : Covered g g₁ (m₁ ||| m₂) k :=
  covered_mono h fun hb => by rw [BitVec.getLsbD_or, hb, Bool.true_or]

theorem covered_trans (h₁ : Covered g g₁ m₁ k) (h₂ : Covered g₁ g₂ m₂ k) :
    Covered g g₂ (m₁ ||| m₂) k := by
  intro hne
  rw [BitVec.getLsbD_or]
  by_cases h : g₁.lineAsserted k = g.lineAsserted k
  · rw [h₂ (by rwa [h]), Bool.or_true]
  · rw [h₁ h, Bool.true_or]

theorem covered_after_eq (h : g₁.lineAsserted k = g.lineAsserted k) (h₂ : Covered g₁ g₂ m k) :
    Covered g g₂ m k :=
  fun hne => h₂ (by rwa [h])

theorem kickMaskFor_self (hk : k < g.numCpus) : (kickMaskFor k).getLsbD k = true := by
  have := g.cpus_le
  rw [kickMaskFor, getLsbD_one_shiftLeft (by omega), decide_eq_true rfl]

theorem allCpusMask_getLsbD (hk : k < g.numCpus) : (allCpusMask g.numCpus).getLsbD k = true := by
  have := g.cpus_le
  rw [allCpusMask, show (1 : BitVec 64) = 1#64 from rfl, getLsbD_low_ones (by omega), decide_eq_true hk]

theorem covered_kickIfLineChanged (hk : k < g.numCpus) :
    Covered g g₁ (g₁.kickIfLineChanged k (g.lineAsserted k)) k := by
  intro hne
  have h : (g.lineAsserted k != g₁.lineAsserted k) = true := bne_iff_ne.mpr (Ne.symm hne)
  rw [UserspaceGic.kickIfLineChanged, if_pos h]
  exact kickMaskFor_self hk

theorem covered_kickTarget {intid : Nat} (hk : k < g.numCpus)
    (hframe : g.routeTarget intid ≠ some k → g₁.lineAsserted k = g.lineAsserted k) :
    Covered g g₁ (g₁.kickTarget ((g.routeTarget intid).map fun cpu => (cpu, g.lineAsserted cpu))) k := by
  by_cases h : g.routeTarget intid = some k
  · rw [h]
    exact covered_kickIfLineChanged hk
  · exact covered_of_eq (hframe h)

theorem getLsbD_foldl_or {f : Nat → BitVec 64} (l : List Nat) (m : BitVec 64)
    (h : m.getLsbD k = true ∨ ∃ c ∈ l, (f c).getLsbD k = true) :
    (l.foldl (fun m c => m ||| f c) m).getLsbD k = true := by
  induction l generalizing m with
  | nil => simpa using h
  | cons c l ih =>
    refine ih _ ?_
    rcases h with h | ⟨c', hc', h⟩
    · exact Or.inl (by rw [BitVec.getLsbD_or, h, Bool.true_or])
    · rcases List.mem_cons.mp hc' with rfl | hmem
      · exact Or.inl (by rw [BitVec.getLsbD_or, h, Bool.or_true])
      · exact Or.inr ⟨c', hmem, h⟩

theorem covered_kickAllChanged (hk : k < g.numCpus) (hn : g₁.numCpus = g.numCpus) :
    Covered g g₁ (g₁.kickAllChanged g.lineAsserted) k := by
  intro hne
  refine getLsbD_foldl_or _ _ (Or.inr ⟨k, ?_, covered_kickIfLineChanged hk hne⟩)
  rw [hn]
  exact List.mem_range.mpr hk

end Covered

/-! ## Device inputs -/

section Inputs

variable {g : UserspaceGic} {k : Nat}

theorem sample_same (d : Distributor) (j : Nat) (level : Bool) :
    (d.sample j level).route = d.route ∧ (d.sample j level).ctlr = d.ctlr ∧
      (d.sample j level).priority = d.priority ∧ (d.sample j level).group = d.group ∧
      (d.sample j level).enabled = d.enabled ∧ (d.sample j level).active = d.active := by
  unfold Distributor.sample
  by_cases he : d.edge j = true <;> cases level <;>
    simp [he, Distributor.clearLevel, Distributor.raiseInput, Distributor.lowerInput, Distributor.bit]

theorem sample_level (d : Distributor) (j : Nat) (level : Bool) (i : Nat) :
    bankBit (d.sample j level).level i = if i = j then level && !d.edge j else bankBit d.level i := by
  unfold Distributor.sample
  by_cases he : d.edge j = true <;> cases level <;>
    simp only [he, Distributor.clearLevel, Distributor.raiseInput, Distributor.lowerInput, Distributor.bit,
      bankBit_set, bankBit_clear, if_true, if_false, Bool.false_eq_true] <;>
    by_cases hi : i = j <;> simp [hi]

theorem sample_pending (d : Distributor) (j : Nat) (level : Bool) (i : Nat) :
    bankBit (d.sample j level).pending i =
      (bankBit d.pending i || (decide (i = j) && level && d.edge j && !bankBit d.inputLevel j)) := by
  have hw : ((d.inputLevel (j / 32) &&& (1#32 <<< (j % 32))) != 0) = bankBit d.inputLevel j :=
    and_shiftLeft_one_bne_zero _ (Nat.mod_lt j (by decide))
  unfold Distributor.sample
  by_cases he : d.edge j = true <;> cases level <;>
    simp only [he, Distributor.clearLevel, Distributor.raiseInput, Distributor.lowerInput, Distributor.bit, hw,
      if_true, if_false, Bool.false_eq_true, Bool.true_and, Bool.false_and, Bool.and_true, Bool.and_false,
      Bool.or_false]
  -- a high sample of an edge input
  cases bankBit d.inputLevel j <;> simp [bankBit_set]

theorem sample_ready_ne (d : Distributor) (j : Nat) (level : Bool) {i : Nat} (h : i ≠ j) :
    (d.sample j level).ready i = d.ready i := by
  obtain ⟨-, -, -, hgroup, henabled, hactive⟩ := sample_same d j level
  simp only [dist_ready_eq, hgroup, henabled, hactive, sample_level, sample_pending, h, decide_false,
    Bool.false_and, Bool.or_false, if_false]

theorem sample_ready_low (d : Distributor) {j : Nat} (he : d.edge j = true) :
    (d.sample j false).ready j = (d.ready j && bankBit d.pending j) := by
  obtain ⟨-, -, -, hgroup, henabled, hactive⟩ := sample_same d j false
  simp only [dist_ready_eq, hgroup, henabled, hactive, sample_level, sample_pending, he, decide_true,
    Bool.and_false, Bool.false_and, Bool.or_false, if_true, Bool.not_true]
  cases bankBit d.pending j <;> simp

theorem sample_line_frame {j : Nat} {level : Bool} (hk : k < g.numCpus) (hnot : g.routeTarget j ≠ some k) :
    (g.setDist (g.dist.sample j level)).lineAsserted k = g.lineAsserted k := by
  obtain ⟨hroute, hctlr, hprio, -, -, -⟩ := sample_same g.dist j level
  exact lineAsserted_setDist_at j hroute hctlr hprio (fun i h => sample_ready_ne _ _ _ h) hk hnot

theorem setSpi_covered {j : Nat} {level : Bool} (hk : k < g.numCpus) (h : (g.dist.edge j && !level) = false) :
    Covered g (g.setSpi j level).1 (g.setSpi j level).2 k := by
  unfold UserspaceGic.setSpi
  by_cases hr : spiBase ≤ j ∧ j < gicIntidCount
  · rw [if_neg (not_not_intro hr)]
    simp only [h, Bool.false_eq_true, if_false]
    exact covered_kickTarget hk (sample_line_frame hk)
  · rw [if_pos hr]
    exact covered_of_eq rfl

theorem sendMsi_covered (address data : Nat) (hk : k < g.numCpus) :
    Covered g (g.sendMsi address data).1 (g.sendMsi address data).2 k := by
  unfold UserspaceGic.sendMsi
  split
  · exact covered_of_eq rfl
  · split
    · exact covered_of_eq rfl
    · refine covered_kickTarget hk fun hnot => lineAsserted_setDist_at _ rfl rfl rfl (fun i h => ?_) hk hnot
      simp only [dist_ready_eq, Distributor.bit, bankBit_set, h, decide_false, Bool.or_false]

/-- A firing vtimer covers every line. -/
theorem setVtimerPpi_covered (cpu : Nat) (hk : k < g.numCpus) :
    Covered g (g.setVtimerPpi cpu true).1 (g.setVtimerPpi cpu true).2 k := by
  by_cases hc : k = cpu
  · subst hc
    unfold UserspaceGic.setVtimerPpi
    simp only [if_true]
    split
    · exact covered_kickIfLineChanged hk
    · rename_i hwas
      -- the latch was set already: the write changes nothing
      refine covered_of_eq (lineAsserted_setRedist_of_same (fun i hi => ?_) rfl)
      have hbit : (g.redists k).pending0.getLsbD vtimerIntid = true := by
        rw [← and_shiftLeft_one_bne_zero _ (by decide : vtimerIntid < 32)]
        simpa using hwas
      rw [redist_ready_eq _ hi, redist_ready_eq _ hi]
      dsimp only
      rw [getLsbD_or_shiftLeft_one _ (by decide)]
      by_cases hv : i = vtimerIntid
      · simp [hv, hbit]
      · simp [hv]
  · refine covered_of_eq ?_
    unfold UserspaceGic.setVtimerPpi
    simp only [if_true]
    split <;> exact lineAsserted_setRedist_ne _ hc

end Inputs

/-! ## Memory-mapped accesses -/

section Mmio

variable {g : UserspaceGic} {k : Nat}

theorem setBank_silent {b : DistBank} (hb : b = .icfgr ∨ b = .grpmod) (words : Nat → BitVec 32) :
    (g.setDist (g.dist.setBank b words)).lineAsserted k = g.lineAsserted k := by
  rcases hb with rfl | rfl
  · exact lineAsserted_setDist_of_same rfl rfl rfl fun _ => rfl
  · exact lineAsserted_setDist_of_same rfl rfl rfl fun _ => rfl

theorem bankTable_silent {row : BankRow} (h : row ∈ distBankTable) (hk : row.kicks = false) :
    row.bank = .icfgr ∨ row.bank = .grpmod := by
  simp only [distBankTable, List.mem_cons, List.not_mem_nil, or_false] at h
  rcases h with rfl | rfl | rfl | rfl | rfl | rfl | rfl | rfl | rfl <;> simp_all

theorem tryBank_covered {row : BankRow} {offset : Nat} {write : Option (BitVec 64)} {p : UserspaceGic × AccessResult}
    (hrow : row ∈ distBankTable) (hk : k < g.numCpus) (h : g.tryBank row offset write = some p) :
    Covered g p.1 p.2.kickMask k := by
  unfold UserspaceGic.tryBank at h
  obtain ⟨index, -, rfl⟩ := Option.map_eq_some_iff.mp h
  cases write with
  | none => exact covered_of_eq rfl
  | some value =>
    cases hkick : row.kicks with
    | true => exact covered_of_bit (by simp only [if_true, allCpusMask_getLsbD hk])
    | false => exact covered_of_eq (setBank_silent (bankTable_silent hrow hkick) _)

theorem priorityBytesAccess_read {priorities priorities' : Nat → Nat} {len base offset width : Nat}
    {value : BitVec 64} (h : priorityBytesAccess priorities len base offset width none = some (priorities', value)) :
    priorities' = priorities := by
  unfold priorityBytesAccess at h
  split at h
  · cases h
  · dsimp only at h
    split at h
    · cases h
    · cases h
      rfl

theorem distPriorityAccess_covered {offset width : Nat} {write : Option (BitVec 64)}
    {p : UserspaceGic × AccessResult} (hk : k < g.numCpus) (h : g.distPriorityAccess offset width write = some p) :
    Covered g p.1 p.2.kickMask k := by
  unfold UserspaceGic.distPriorityAccess at h
  obtain ⟨⟨priorities, value⟩, hacc, rfl⟩ := Option.map_eq_some_iff.mp h
  cases write with
  | some v => exact covered_kickAllChanged hk rfl
  | none =>
    have hp : priorities = g.dist.priority := priorityBytesAccess_read hacc
    subst hp
    exact covered_of_eq rfl

theorem distBankedMmio_covered {offset width : Nat} {write : Option (BitVec 64)} {p : UserspaceGic × AccessResult}
    (hk : k < g.numCpus) (h : g.distBankedMmio offset width write = some p) : Covered g p.1 p.2.kickMask k := by
  unfold UserspaceGic.distBankedMmio at h
  split at h
  · cases write with
    | none => cases h; exact covered_of_eq rfl
    | some value => cases h; exact covered_of_bit (allCpusMask_getLsbD hk)
  · split at h
    · exact distPriorityAccess_covered hk h
    · obtain ⟨row, hmem, hrow⟩ := List.exists_of_findSome?_eq_some h
      exact tryBank_covered hmem hk hrow

theorem distMmio_covered (offset width : Nat) (write : Option (BitVec 64)) (hk : k < g.numCpus) :
    Covered g (g.distMmio offset width write).1 (g.distMmio offset width write).2.kickMask k := by
  have hbank : ∀ w, Covered g ((g.distBankedMmio offset width w).getD (g, ⟨0, 0⟩)).1
      ((g.distBankedMmio offset width w).getD (g, ⟨0, 0⟩)).2.kickMask k := by
    intro w
    cases hb : g.distBankedMmio offset width w with
    | none => exact covered_of_eq rfl
    | some p => exact distBankedMmio_covered hk hb
  unfold UserspaceGic.distMmio
  cases DistReg.ofOffset offset with
  | ctlr =>
    cases write with
    | none => exact covered_of_eq rfl
    | some value => exact covered_of_bit (allCpusMask_getLsbD hk)
  | statusr => exact covered_of_eq rfl
  | other => exact hbank _
  | typer | iidr | pidr2 =>
    cases write with
    | none => exact covered_of_eq rfl
    | some value => exact hbank _

theorem redistWrite_silent (r : Redistributor) {reg : RedistReg} (value : BitVec 64)
    (hkick : (r.write reg value).2 = false) (hreg : reg ≠ .isactiver0) :
    (∀ i, (r.write reg value).1.ready i = r.ready i) ∧ (r.write reg value).1.priority = r.priority := by
  cases reg <;> first
    | exact ⟨fun _ => rfl, rfl⟩
    | exact absurd rfl hreg
    | simp [Redistributor.write] at hkick

theorem redistStore_covered {reg : RedistReg} {value : BitVec 64} (hk : k < g.numCpus) (hreg : reg ≠ .isactiver0) :
    Covered g (g.setRedist k ((g.redists k).write reg value).1)
      (if ((g.redists k).write reg value).2 then kickMaskFor k else 0) k := by
  cases hkick : ((g.redists k).write reg value).2 with
  | true => exact covered_of_bit (kickMaskFor_self hk)
  | false =>
    obtain ⟨hready, hprio⟩ := redistWrite_silent _ value hkick hreg
    exact covered_of_eq (lineAsserted_setRedist_of_same (fun i _ => hready i) hprio)

theorem redistPriorityAccess_covered {cpu offset width : Nat} {write : Option (BitVec 64)}
    {p : UserspaceGic × AccessResult} (hk : k < g.numCpus)
    (h : g.redistPriorityAccess cpu offset width write = some p) : Covered g p.1 p.2.kickMask k := by
  unfold UserspaceGic.redistPriorityAccess at h
  obtain ⟨⟨priorities, value⟩, hacc, rfl⟩ := Option.map_eq_some_iff.mp h
  by_cases hc : k = cpu
  · subst hc
    cases write with
    | some v => exact covered_kickIfLineChanged hk
    | none =>
      have hp : priorities = (g.redists k).priority := priorityBytesAccess_read hacc
      subst hp
      exact covered_of_eq (lineAsserted_setRedist_of_same (fun _ _ => rfl) rfl)
  · exact covered_of_eq (lineAsserted_setRedist_ne _ hc)

/-- A redistributor covers every line, except when its own `GICR_ISACTIVER0` is written. -/
theorem redistMmio_covered {cpu offset width : Nat} {write : Option (BitVec 64)} (hk : k < g.numCpus)
    (hactive : RedistReg.ofOffset offset = .isactiver0 → write.isSome = true → k ≠ cpu) :
    Covered g (g.redistMmio cpu offset width write).1 (g.redistMmio cpu offset width write).2.kickMask k := by
  unfold UserspaceGic.redistMmio
  cases hreg : RedistReg.ofOffset offset with
  | other =>
    dsimp only
    split
    · cases hp : g.redistPriorityAccess cpu offset width write with
      | none => exact covered_of_eq rfl
      | some p => exact redistPriorityAccess_covered hk hp
    · exact covered_of_eq rfl
  | _ =>
    cases write with
    | none => exact covered_of_eq rfl
    | some value =>
      rw [hreg] at hactive
      by_cases hc : k = cpu
      · subst hc
        exact redistStore_covered hk (fun h => hactive h rfl rfl)
      · exact covered_of_eq (lineAsserted_setRedist_ne _ hc)

theorem msiFrameMmio_covered (offset : Nat) (write : Option (BitVec 64)) (hk : k < g.numCpus) :
    Covered g (g.msiFrameMmio offset write).1 (g.msiFrameMmio offset write).2.kickMask k := by
  unfold UserspaceGic.msiFrameMmio
  cases write with
  | some value =>
    dsimp only
    split
    · exact sendMsi_covered _ _ hk
    · exact covered_of_eq rfl
  | none =>
    dsimp only
    split
    · exact covered_of_eq rfl
    · split <;> exact covered_of_eq rfl

/-- The vCPU whose `GICR_ISACTIVER0` lies at an address. -/
def UserspaceGic.isactiver0At (g : UserspaceGic) (ipa : Nat) : Option Nat :=
  if gicDist.contains ipa = false ∧ gicRedist.contains ipa = true ∧
      (ipa - gicRedist.base) / gicv3RedistStride < g.numCpus ∧
      RedistReg.ofOffset ((ipa - gicRedist.base) % gicv3RedistStride) = .isactiver0 then
    some ((ipa - gicRedist.base) / gicv3RedistStride)
  else none

theorem redistWindow_covered {cpu reg width : Nat} {write : Option (BitVec 64)} (hk : k < g.numCpus)
    (hactive : cpu < g.numCpus → RedistReg.ofOffset reg = .isactiver0 → write.isSome = true → k ≠ cpu) :
    Covered g (if cpu < g.numCpus then g.redistMmio cpu reg width write else (g, ⟨0, 0⟩)).1
      (if cpu < g.numCpus then g.redistMmio cpu reg width write else (g, ⟨0, 0⟩)).2.kickMask k := by
  by_cases hcpu : cpu < g.numCpus
  · rw [if_pos hcpu]
    exact redistMmio_covered hk (hactive hcpu)
  · rw [if_neg hcpu]
    exact covered_of_eq rfl

theorem mmio_redist {ipa width : Nat} {write : Option (BitVec 64)} (hd : gicDist.contains ipa = false)
    (hr : gicRedist.contains ipa = true) :
    g.mmio ipa width write =
      if (ipa - gicRedist.base) / gicv3RedistStride < g.numCpus then
        g.redistMmio ((ipa - gicRedist.base) / gicv3RedistStride) ((ipa - gicRedist.base) % gicv3RedistStride) width
          write
      else (g, ⟨0, 0⟩) := by
  simp only [UserspaceGic.mmio, hd, hr, Bool.false_eq_true, if_true, if_false]

theorem mmio_covered {ipa width : Nat} {write : Option (BitVec 64)} (hk : k < g.numCpus)
    (hactive : write.isSome = true → g.isactiver0At ipa ≠ some k) :
    Covered g (g.mmio ipa width write).1 (g.mmio ipa width write).2.kickMask k := by
  cases hd : gicDist.contains ipa with
  | true =>
    rw [UserspaceGic.mmio, if_pos hd]
    exact distMmio_covered _ _ _ hk
  | false =>
    cases hr : gicRedist.contains ipa with
    | true =>
      rw [mmio_redist hd hr]
      refine redistWindow_covered hk fun hcpu hreg hwrite hc => hactive hwrite ?_
      rw [UserspaceGic.isactiver0At, if_pos ⟨hd, hr, hcpu, hreg⟩, hc]
    | false =>
      simp only [UserspaceGic.mmio, hd, hr, Bool.false_eq_true, if_false]
      split
      · exact msiFrameMmio_covered _ _ hk
      · exact covered_of_eq rfl

end Mmio

/-! ## System registers -/

section Sysreg

variable {g : UserspaceGic} {k cpu : Nat}

theorem activate_line_ne {intid : Nat} (hk : k < g.numCpus) (hc : k ≠ cpu)
    (hroute : 32 ≤ intid → g.spiRoutesToCpu intid cpu = true) (hcpu : cpu < g.numCpus) :
    (g.activate cpu intid).lineAsserted k = g.lineAsserted k := by
  unfold UserspaceGic.activate
  split
  · exact lineAsserted_setRedist_ne _ hc
  · rename_i hi
    refine lineAsserted_setDist_at intid rfl rfl rfl (fun i h => ?_) hk ?_
    · simp only [dist_ready_eq, bankBit_set, bankBit_clear, h, decide_false, Bool.or_false,
        Bool.not_false, Bool.and_true]
    · rw [(spiRoutesToCpu_iff hcpu).mp (hroute (by omega))]
      exact fun h => hc (Option.some.inj h).symm

/-- A candidate of a vCPU that is an SPI is routed to it. -/
theorem highestCandidate_routes {thr : Nat} {c : PendingCandidate} (h : g.highestCandidate cpu thr = some c)
    (hi : 32 ≤ c.intid) : g.spiRoutesToCpu c.intid cpu = true := by
  unfold UserspaceGic.highestCandidate at h
  split at h
  · cases h
  · have hmem := List.argmin_mem h
    simp only [List.mem_filterMap, List.mem_cons, List.not_mem_nil, or_false, id_eq, exists_eq_or_imp,
      exists_eq_left] at hmem
    rcases hmem with hloc | hspi
    · have := List.argmin_mem (Option.mem_def.mpr hloc)
      simp only [List.mem_filterMap, List.mem_range] at this
      obtain ⟨i, hlt, hci⟩ := this
      split at hci
      · cases hci
      · split at hci
        · cases hci
          dsimp only at hi
          omega
        · cases hci
    · have := List.argmin_mem (Option.mem_def.mpr hspi)
      simp only [List.mem_filterMap] at this
      obtain ⟨i, -, hci⟩ := this
      split at hci
      · cases hci
      · split at hci
        · cases hci
        · rename_i hroute
          split at hci
          · cases hci
            simpa using hroute
          · cases hci

theorem acknowledge_line_ne (hk : k < g.numCpus) (hcpu : cpu < g.numCpus) (hc : k ≠ cpu) :
    (g.acknowledge cpu).1.lineAsserted k = g.lineAsserted k := by
  unfold UserspaceGic.acknowledge
  dsimp only
  split
  · rfl
  · cases hcand : g.highestCandidate cpu (g.ifaces cpu).threshold with
    | none => rfl
    | some c =>
      dsimp only
      rw [lineAsserted_setIface_ne _ hc]
      exact activate_line_ne hk hc (highestCandidate_routes hcand) hcpu

/-- Deactivation covers the lines of the other vCPUs. -/
theorem deactivate_covered (intid : Nat) (hk : k < g.numCpus) (hc : k ≠ cpu) :
    Covered g (g.deactivate cpu intid).1 (g.deactivate cpu intid).2 k := by
  unfold UserspaceGic.deactivate UserspaceGic.clearActive
  dsimp only
  have hiface : ∀ f, (g.setIface cpu f).lineAsserted k = g.lineAsserted k :=
    fun f => lineAsserted_setIface_ne f hc
  by_cases hlt : intid < 32
  · simp only [hlt, if_true]
    refine covered_of_eq ?_
    rw [lineAsserted_setRedist_ne _ hc, hiface]
  · by_cases hspi : intid < gicIntidCount
    · have hrange : spiBase ≤ intid ∧ intid < gicIntidCount := ⟨by unfold spiBase; omega, hspi⟩
      simp only [hlt, hspi, hrange, if_true, if_false, and_self]
      refine covered_kickTarget hk fun hnot => ?_
      have hnot' : (g.setIface cpu { g.ifaces cpu with active := removeNewest intid (g.ifaces cpu).active }).routeTarget
          intid ≠ some k := hnot
      rw [← hiface]
      refine lineAsserted_setDist_at _ rfl rfl rfl (fun i h => ?_) hk hnot'
      simp only [dist_ready_eq, Distributor.bit, bankBit_clear, h, decide_false, Bool.not_false, Bool.and_true]
    · simp only [hlt, hspi, if_false]
      exact covered_of_eq (hiface _)

theorem raiseSgi_covered (target intid : Nat) (hk : k < g.numCpus) :
    Covered g (g.raiseSgi target intid).1 (g.raiseSgi target intid).2 k := by
  by_cases hc : k = target
  · subst hc
    exact covered_kickIfLineChanged hk
  · exact covered_of_eq (lineAsserted_setRedist_ne _ hc)

theorem raiseSgis_covered (intid : Nat) (irm : Bool) (targets : List Nat) {g₁ : UserspaceGic} {m : BitVec 64}
    (hk : k < g.numCpus) (hn : g₁.numCpus = g.numCpus) (h : Covered g g₁ m k) :
    Covered g (UserspaceGic.raiseSgis intid cpu irm targets g₁ m).1
      (UserspaceGic.raiseSgis intid cpu irm targets g₁ m).2 k := by
  induction targets generalizing g₁ m with
  | nil => exact h
  | cons target rest ih =>
    unfold UserspaceGic.raiseSgis
    split
    · exact ih hn h
    · exact ih hn
        (covered_trans h (raiseSgi_covered target intid (by rw [hn]; exact hk)))

theorem sysregRead_covered {reg : SysReg} {p : UserspaceGic × AccessResult} (hk : k < g.numCpus)
    (hcpu : cpu < g.numCpus) (hc : k ≠ cpu) (h : g.sysregRead cpu reg = some p) : Covered g p.1 p.2.kickMask k := by
  cases reg <;> unfold UserspaceGic.sysregRead at h <;> first
    | (cases h; exact covered_of_eq rfl)
    | (cases h; exact covered_of_eq (acknowledge_line_ne hk hcpu hc))
    | cases h

theorem sysregWrite_covered {reg : SysReg} {value : BitVec 64} {p : UserspaceGic × BitVec 64} (hk : k < g.numCpus)
    (hc : k ≠ cpu) (h : g.sysregWrite cpu reg value = some p) : Covered g p.1 p.2 k := by
  have hiface : ∀ f, (g.setIface cpu f).lineAsserted k = g.lineAsserted k :=
    fun f => lineAsserted_setIface_ne f hc
  cases sysregWrite_cases h with
  | ignored => exact covered_of_eq rfl
  | setting iface kick => exact covered_of_eq (hiface _)
  | drop intid => exact covered_of_eq (hiface _)
  | dropDeactivate intid => exact covered_after_eq (hiface _) (covered_or_left (deactivate_covered _ hk hc))
  | deactivate intid => exact covered_or_left (deactivate_covered _ hk hc)
  | sgis intid irm targets => exact raiseSgis_covered _ _ _ hk rfl (covered_of_eq rfl)
  | apr group1 n value kick => exact covered_of_eq (hiface _)

theorem sysreg_covered {sysReg : Nat} {isRead : Bool} {value : BitVec 64} {p : UserspaceGic × AccessResult}
    (hk : k < g.numCpus) (hcpu : cpu < g.numCpus) (hc : k ≠ cpu) (h : g.sysreg cpu sysReg isRead value = some p) :
    Covered g p.1 p.2.kickMask k := by
  unfold UserspaceGic.sysreg at h
  split at h
  · cases h
  · split at h
    · exact sysregRead_covered hk hcpu hc h
    · obtain ⟨q, hq, rfl⟩ := Option.map_eq_some_iff.mp h
      exact sysregWrite_covered hk hc hq

end Sysreg

end BridgeVm.Gic
