import BridgeVm.UserspaceGic.ActiveList

/-!
# Pending latches of the userspace GICv3

- `UserspaceGic.latched`: the edge, MSI or SGI latch of an INTID, of its vCPU when the INTID is private;
- every access keeps a latch that it does not name (`distMmio_latch`, `redistMmio_latch`, `sysreg_latch`), so only the
  operations of `Clears` clear one (`latch_cleared`).
-/

namespace BridgeVm.Gic

open Machine Lib

/-- Is INTID `i` latched pending? A private INTID is latched at the redistributor of vCPU `k`. -/
def UserspaceGic.latched (g : UserspaceGic) (k i : Nat) : Bool :=
  if i < spiBase then (g.redists k).pending0.getLsbD i else bankBit g.dist.pending i

def gicdIcpendr : Nat := 0x0280

def gicrIcpendr0 : Nat := 0x10280

def iccIar1 : Nat := 0xc660

/-- The operations that clear the latch of INTID `i`, of vCPU `k` when it is private. -/
inductive Clears (g : UserspaceGic) (k i : Nat) : Op → Prop
  /-- An IAR read returns it, to the vCPU it is routed to. -/
  | acknowledge (cpu : Nat) (value : BitVec 64) (hid : (g.acknowledge cpu).2 = i) (hlocal : i < spiBase → cpu = k)
      (hroute : spiBase ≤ i → g.spiRoutesToCpu i cpu = true) : Clears g k i (.sysreg cpu iccIar1 true value)
  /-- A `GICD_ICPENDR` write with its bit. -/
  | icpendr (width : Nat) (value : BitVec 64) (hspi : spiBase ≤ i) (hbit : value.getLsbD (i % 32) = true) :
      Clears g k i (.mmio (gicDist.base + gicdIcpendr + i / 32 * 4) width (some value))
  /-- A `GICR_ICPENDR0` write of its redistributor with its bit. -/
  | icpendr0 (width : Nat) (value : BitVec 64) (hlocal : i < spiBase) (hbit : value.getLsbD i = true) :
      Clears g k i (.mmio (gicRedist.base + k * gicv3RedistStride + gicrIcpendr0) width (some value))
  /-- The virtual timer is lowered. -/
  | vtimer (hid : i = vtimerIntid) : Clears g k i (.setVtimerPpi k false)

section Latch

variable {g g' : UserspaceGic} {k i : Nat}

/-- The latch stays set. -/
def LatchKept (g g' : UserspaceGic) (k i : Nat) : Prop := g.latched k i = true → g'.latched k i = true

theorem latchKept_of_eq (hd : g'.dist.pending = g.dist.pending)
    (hr : (g'.redists k).pending0 = (g.redists k).pending0) :
    LatchKept g g' k i := by
  intro h
  unfold UserspaceGic.latched at h ⊢
  rwa [hd, hr]

theorem LatchKept.trans {g'' : UserspaceGic} (h₁ : LatchKept g g' k i) (h₂ : LatchKept g' g'' k i) :
    LatchKept g g'' k i := fun h => h₂ (h₁ h)

theorem latchKept_setDist {d : Distributor}
    (h : spiBase ≤ i → bankBit g.dist.pending i = true → bankBit d.pending i = true) :
    LatchKept g (g.setDist d) k i := by
  intro hset
  unfold UserspaceGic.latched at hset ⊢
  by_cases hi : i < spiBase
  · rw [if_pos hi] at hset ⊢
    exact hset
  · rw [if_neg hi] at hset ⊢
    exact h (by omega) hset

theorem latchKept_setRedist {cpu : Nat} {r : Redistributor}
    (h : i < spiBase → cpu = k → (g.redists k).pending0.getLsbD i = true → r.pending0.getLsbD i = true) :
    LatchKept g (g.setRedist cpu r) k i := by
  intro hset
  unfold UserspaceGic.latched at hset ⊢
  by_cases hi : i < spiBase
  · rw [if_pos hi] at hset ⊢
    by_cases hk : k = cpu
    · subst hk
      rw [setRedist_self]
      exact h hi rfl hset
    · rw [setRedist_ne g cpu r hk]
      exact hset
  · rw [if_neg hi] at hset ⊢
    exact hset

/-! ## Device inputs -/

theorem setSpi_latch (intid : Nat) (level : Bool) : LatchKept g (g.setSpi intid level).1 k i := by
  have hsample : LatchKept g (g.setDist (g.dist.sample intid level)) k i :=
    latchKept_setDist fun _ h => by rw [sample_pending, h, Bool.true_or]
  unfold UserspaceGic.setSpi
  split
  · exact latchKept_of_eq rfl rfl
  · dsimp only
    split
    · exact hsample
    · exact hsample

theorem sendMsi_latch (address data : Nat) : LatchKept g (g.sendMsi address data).1 k i := by
  unfold UserspaceGic.sendMsi
  split
  · exact latchKept_of_eq rfl rfl
  · split
    · exact latchKept_of_eq rfl rfl
    · refine latchKept_setDist fun _ h => ?_
      show bankBit (Function.update g.dist.pending (data / 32)
        (g.dist.pending (data / 32) ||| (1#32 <<< (data % 32)))) i = true
      rw [bankBit_set, h, Bool.true_or]

/-- Only lowering the virtual timer clears its latch. -/
theorem setVtimerPpi_latch (cpu : Nat) (fired : Bool) :
    LatchKept g (g.setVtimerPpi cpu fired).1 k i ∨ (cpu = k ∧ fired = false ∧ i = vtimerIntid) := by
  have hset : LatchKept g
      (g.setRedist cpu { g.redists cpu with pending0 := (g.redists cpu).pending0 ||| (1#32 <<< vtimerIntid) }) k i := by
    refine latchKept_setRedist fun _ hk h => ?_
    subst hk
    dsimp only
    rw [getLsbD_or_shiftLeft_one _ (by decide), h, Bool.true_or]
  cases fired with
  | true =>
    refine Or.inl ?_
    simp only [UserspaceGic.setVtimerPpi, if_true]
    split
    · exact hset
    · exact hset
  | false =>
    by_cases hclear : cpu = k ∧ i = vtimerIntid
    · exact Or.inr ⟨hclear.1, rfl, hclear.2⟩
    · refine Or.inl (latchKept_setRedist fun _ hk h => ?_)
      subst hk
      have hne : i ≠ vtimerIntid := fun hi => hclear ⟨rfl, hi⟩
      dsimp only
      rw [getLsbD_and_not_shiftLeft_one _ (by decide), h]
      simp [hne]

/-! ## Memory-mapped accesses -/

theorem bankBit_update (words : Nat → BitVec 32) (index j : Nat) (word : BitVec 32) :
    bankBit (Function.update words index word) j = if j / 32 = index then word.getLsbD (j % 32)
      else bankBit words j := by
  unfold bankBit
  by_cases h : j / 32 = index
  · rw [if_pos h, h, Function.update_self]
  · rw [if_neg h, Function.update_of_ne h]

theorem fieldIndex_eq {len base offset index : Nat} (h : fieldIndex len base offset = some index) :
    offset = base + index * 4 := by
  unfold fieldIndex at h
  split_ifs at h with h₁ h₂ h₃
  cases h
  omega

theorem bankTable_pending {row : BankRow} (h : row ∈ distBankTable) :
    row.bank ≠ .pending ∨ row.mode = .setBits ∨ (row.mode = .clearBits ∧ row.base = gicdIcpendr) := by
  simp only [distBankTable, List.mem_cons, List.not_mem_nil, or_false] at h
  rcases h with rfl | rfl | rfl | rfl | rfl | rfl | rfl | rfl | rfl <;> simp [gicdIcpendr]

theorem setBank_pending {d : Distributor} {b : DistBank} (hb : b ≠ .pending) (words : Nat → BitVec 32) :
    (d.setBank b words).pending = d.pending := by
  cases b <;> first
    | rfl
    | exact absurd rfl hb

/-- A row of the bank table. -/
theorem tryBank_latch {row : BankRow} {offset : Nat} {write : Option (BitVec 64)} {p : UserspaceGic × AccessResult}
    (hrow : row ∈ distBankTable) (h : g.tryBank row offset write = some p) :
    LatchKept g p.1 k i ∨ (spiBase ≤ i ∧ offset = gicdIcpendr + i / 32 * 4 ∧
      ∃ value, write = some value ∧ value.getLsbD (i % 32) = true) := by
  unfold UserspaceGic.tryBank at h
  obtain ⟨index, hindex, rfl⟩ := Option.map_eq_some_iff.mp h
  cases write with
  | none => exact Or.inl (latchKept_of_eq rfl rfl)
  | some value =>
    by_cases hb : row.bank = .pending
    · have hmod : i % 32 < 32 := Nat.mod_lt i (by decide)
      rcases bankTable_pending hrow with hne | hset | ⟨hclear, hbase⟩
      · exact absurd hb hne
      · refine Or.inl (latchKept_setDist fun _ hbit => ?_)
        rw [hb, hset]
        show bankBit (Function.update g.dist.pending index (g.dist.pending index ||| value.setWidth 32)) i = true
        rw [bankBit_update]
        split
        · rename_i hi
          rw [← hi, BitVec.getLsbD_or]
          exact Bool.or_eq_true_iff.mpr (Or.inl hbit)
        · exact hbit
      · by_cases hnamed : spiBase ≤ i ∧ i / 32 = index ∧ value.getLsbD (i % 32) = true
        · refine Or.inr ⟨hnamed.1, ?_, value, rfl, hnamed.2.2⟩
          rw [fieldIndex_eq hindex, hbase, hnamed.2.1]
        · refine Or.inl (latchKept_setDist fun hspi hbit => ?_)
          rw [hb, hclear]
          show bankBit (Function.update g.dist.pending index (g.dist.pending index &&& ~~~value.setWidth 32)) i = true
          rw [bankBit_update]
          split
          · rename_i hi
            have hclr : value.getLsbD (i % 32) = false := by
              cases hv : value.getLsbD (i % 32) with
              | false => rfl
              | true => exact absurd ⟨hspi, hi, hv⟩ hnamed
            unfold bankBit at hbit
            rw [hi] at hbit
            simp [hbit, hclr, hmod]
          · exact hbit
    · refine Or.inl (latchKept_setDist fun _ hbit => ?_)
      rw [setBank_pending hb]
      exact hbit

theorem distBankedMmio_latch {offset width : Nat} {write : Option (BitVec 64)} {p : UserspaceGic × AccessResult}
    (h : g.distBankedMmio offset width write = some p) :
    LatchKept g p.1 k i ∨ (spiBase ≤ i ∧ offset = gicdIcpendr + i / 32 * 4 ∧
      ∃ value, write = some value ∧ value.getLsbD (i % 32) = true) := by
  unfold UserspaceGic.distBankedMmio at h
  split at h
  · cases write with
    | none => cases h; exact Or.inl (latchKept_of_eq rfl rfl)
    | some value => cases h; exact Or.inl (latchKept_of_eq rfl rfl)
  · split at h
    · unfold UserspaceGic.distPriorityAccess at h
      obtain ⟨q, -, rfl⟩ := Option.map_eq_some_iff.mp h
      exact Or.inl (latchKept_of_eq rfl rfl)
    · obtain ⟨row, hmem, hrow⟩ := List.exists_of_findSome?_eq_some h
      exact tryBank_latch hmem hrow

/-- The distributor clears latches only at `GICD_ICPENDR`. -/
theorem distMmio_latch (offset width : Nat) (write : Option (BitVec 64)) :
    LatchKept g (g.distMmio offset width write).1 k i ∨ (spiBase ≤ i ∧ offset = gicdIcpendr + i / 32 * 4 ∧
      ∃ value, write = some value ∧ value.getLsbD (i % 32) = true) := by
  have hkept : ∀ {d : Distributor}, d.pending = g.dist.pending → LatchKept g (g.setDist d) k i :=
    fun hd => latchKept_of_eq hd rfl
  have hbank : LatchKept g ((g.distBankedMmio offset width write).getD (g, ⟨0, 0⟩)).1 k i ∨
      (spiBase ≤ i ∧ offset = gicdIcpendr + i / 32 * 4 ∧
        ∃ value, write = some value ∧ value.getLsbD (i % 32) = true) := by
    cases hb : g.distBankedMmio offset width write with
    | none => exact Or.inl (latchKept_of_eq rfl rfl)
    | some p => exact distBankedMmio_latch hb
  unfold UserspaceGic.distMmio
  cases DistReg.ofOffset offset with
  | ctlr =>
    cases write with
    | none => exact Or.inl (latchKept_of_eq rfl rfl)
    | some value => exact Or.inl (hkept rfl)
  | statusr => exact Or.inl (latchKept_of_eq rfl rfl)
  | other => exact hbank
  | typer | iidr | pidr2 =>
    cases write with
    | none => exact Or.inl (latchKept_of_eq rfl rfl)
    | some value => exact hbank

theorem redistWrite_latch (r : Redistributor) (reg : RedistReg) (value : BitVec 64) (hi : i < spiBase)
    (hset : r.pending0.getLsbD i = true) :
    (r.write reg value).1.pending0.getLsbD i = true ∨ (reg = .icpendr0 ∧ value.getLsbD i = true) := by
  unfold spiBase at hi
  cases reg
  case ispendr0 =>
    refine Or.inl ?_
    show (r.pending0 ||| value.setWidth 32).getLsbD i = true
    rw [BitVec.getLsbD_or, hset, Bool.true_or]
  case icpendr0 =>
    cases hv : value.getLsbD i with
    | true => exact Or.inr ⟨rfl, rfl⟩
    | false =>
      refine Or.inl ?_
      show (r.pending0 &&& ~~~value.setWidth 32).getLsbD i = true
      simp [hset, hv, hi]
  all_goals exact Or.inl hset

theorem redistReg_icpendr0 {offset : Nat} (h : RedistReg.ofOffset offset = .icpendr0) : offset = gicrIcpendr0 := by
  unfold RedistReg.ofOffset at h
  cases hl : redistRegs.lookup offset with
  | none =>
    rw [hl] at h
    cases h
  | some reg =>
    rw [hl] at h
    have hreg : reg = .icpendr0 := h
    obtain ⟨l₁, l₂, heq, -⟩ := List.lookup_eq_some_iff.mp hl
    have hmem : (offset, reg) ∈ redistRegs := by
      rw [heq]
      simp
    rw [hreg] at hmem
    simpa [redistRegs, gicrIcpendr0] using hmem

/-- A redistributor clears latches only at its own `GICR_ICPENDR0`. -/
theorem redistMmio_latch (cpu offset width : Nat) (write : Option (BitVec 64)) :
    LatchKept g (g.redistMmio cpu offset width write).1 k i ∨ (i < spiBase ∧ cpu = k ∧ offset = gicrIcpendr0 ∧
      ∃ value, write = some value ∧ value.getLsbD i = true) := by
  unfold UserspaceGic.redistMmio
  cases hreg : RedistReg.ofOffset offset with
  | other =>
    dsimp only
    split
    · refine Or.inl ?_
      cases hp : g.redistPriorityAccess cpu offset width write with
      | none => exact latchKept_of_eq rfl rfl
      | some p =>
        obtain ⟨q, -, rfl⟩ := Option.map_eq_some_iff.mp hp
        exact latchKept_setRedist fun _ hk h => by subst hk; exact h
    · exact Or.inl (latchKept_of_eq rfl rfl)
  | _ =>
    cases write with
    | none => exact Or.inl (latchKept_of_eq rfl rfl)
    | some value =>
      dsimp only
      by_cases hnamed : i < spiBase ∧ cpu = k ∧ RedistReg.ofOffset offset = .icpendr0 ∧ value.getLsbD i = true
      · exact Or.inr ⟨hnamed.1, hnamed.2.1, redistReg_icpendr0 hnamed.2.2.1, value, rfl, hnamed.2.2.2⟩
      · refine Or.inl (latchKept_setRedist fun hi hk h => ?_)
        subst hk
        rcases redistWrite_latch (g.redists cpu) _ value hi h with h' | ⟨hr, hv⟩
        · exact h'
        · exact absurd ⟨hi, rfl, hreg.trans hr, hv⟩ hnamed

theorem msiFrameMmio_latch (offset : Nat) (write : Option (BitVec 64)) :
    LatchKept g (g.msiFrameMmio offset write).1 k i := by
  unfold UserspaceGic.msiFrameMmio
  cases write with
  | some value =>
    dsimp only
    split
    · exact sendMsi_latch _ _
    · exact latchKept_of_eq rfl rfl
  | none =>
    dsimp only
    split_ifs <;> exact latchKept_of_eq rfl rfl

/-- A memory-mapped access that clears a latch names it. -/
theorem mmio_latch (ipa width : Nat) (write : Option (BitVec 64)) :
    LatchKept g (g.mmio ipa width write).1 k i ∨ Clears g k i (.mmio ipa width write) := by
  cases hd : gicDist.contains ipa with
  | true =>
    rw [UserspaceGic.mmio, if_pos hd]
    rcases distMmio_latch (g := g) (k := k) (i := i) (ipa - gicDist.base) width write with h |
      ⟨hi, hoff, value, rfl, hv⟩
    · exact Or.inl h
    · have hle : gicDist.base ≤ ipa := by
        unfold Region.contains at hd
        simp only [Bool.and_eq_true, decide_eq_true_eq] at hd
        exact hd.1
      have hipa : ipa = gicDist.base + gicdIcpendr + i / 32 * 4 := by omega
      rw [hipa]
      exact Or.inr (.icpendr width value hi hv)
  | false =>
    cases hr : gicRedist.contains ipa with
    | true =>
      rw [mmio_redist hd hr]
      split
      · rcases redistMmio_latch (g := g) (k := k) (i := i) ((ipa - gicRedist.base) / gicv3RedistStride)
          ((ipa - gicRedist.base) % gicv3RedistStride) width write with h | ⟨hi, hcpu, hoff, value, rfl, hv⟩
        · exact Or.inl h
        · have hle : gicRedist.base ≤ ipa := by
            unfold Region.contains at hr
            simp only [Bool.and_eq_true, decide_eq_true_eq] at hr
            exact hr.1
          have hsplit := Nat.div_add_mod' (ipa - gicRedist.base) gicv3RedistStride
          rw [hcpu, hoff] at hsplit
          have hipa : ipa = gicRedist.base + k * gicv3RedistStride + gicrIcpendr0 := by omega
          rw [hipa]
          exact Or.inr (.icpendr0 width value hi hv)
      · exact Or.inl (latchKept_of_eq rfl rfl)
    | false =>
      simp only [UserspaceGic.mmio, hd, hr, Bool.false_eq_true, if_false]
      split
      · exact Or.inl (msiFrameMmio_latch _ _)
      · exact Or.inl (latchKept_of_eq rfl rfl)

/-! ## System registers -/

theorem sysReg_iar1 {sysReg : Nat} (h : SysReg.ofEncoding sysReg = some .iar1) : sysReg = iccIar1 := by
  obtain ⟨l₁, l₂, heq, -⟩ := List.lookup_eq_some_iff.mp h
  have hmem : (sysReg, SysReg.iar1) ∈ sysRegs := by
    rw [heq]
    simp
  simpa [sysRegs, iccIar1] using hmem

theorem setIface_latch (cpu : Nat) (iface : CpuInterface) : LatchKept g (g.setIface cpu iface) k i :=
  latchKept_of_eq rfl rfl

theorem activate_latch (cpu intid : Nat) :
    LatchKept g (g.activate cpu intid) k i ∨ (intid = i ∧ (i < spiBase → cpu = k)) := by
  by_cases hnamed : intid = i ∧ (i < spiBase → cpu = k)
  · exact Or.inr hnamed
  · left
    unfold UserspaceGic.activate
    split
    · rename_i hlt
      refine latchKept_setRedist fun hi hk h => ?_
      subst hk
      have hne : i ≠ intid := fun he => hnamed ⟨he.symm, fun _ => rfl⟩
      dsimp only
      rw [getLsbD_and_not_shiftLeft_one _ hlt, h]
      simp [hne]
    · refine latchKept_setDist fun hi h => ?_
      have hne : i ≠ intid := fun he => hnamed ⟨he.symm, fun hlt => absurd hlt (by omega)⟩
      rw [bankBit_clear, h]
      simp [hne]

theorem acknowledge_latch (cpu : Nat) :
    LatchKept g (g.acknowledge cpu).1 k i ∨
      ((g.acknowledge cpu).2 = i ∧ (i < spiBase → cpu = k) ∧
        (spiBase ≤ i → g.spiRoutesToCpu i cpu = true)) := by
  unfold UserspaceGic.acknowledge
  dsimp only
  split
  · exact Or.inl (latchKept_of_eq rfl rfl)
  · cases hcand : g.highestCandidate cpu (g.ifaces cpu).threshold with
    | none => exact Or.inl (latchKept_of_eq rfl rfl)
    | some c =>
      rcases activate_latch (g := g) (k := k) (i := i) cpu c.intid with h | ⟨hid, hcpu⟩
      · exact Or.inl (h.trans (setIface_latch cpu _))
      · refine Or.inr ⟨hid, hcpu, fun hi => ?_⟩
        rw [← hid] at hi ⊢
        exact highestCandidate_routes hcand hi

theorem clearActive_latch (cpu intid : Nat) : LatchKept g (g.clearActive cpu intid) k i := by
  unfold UserspaceGic.clearActive
  split
  · refine latchKept_setRedist fun _ hk h => ?_
    subst hk
    exact h
  · split
    · exact latchKept_of_eq rfl rfl
    · exact latchKept_of_eq rfl rfl

theorem deactivate_latch (cpu intid : Nat) : LatchKept g (g.deactivate cpu intid).1 k i :=
  (setIface_latch cpu _).trans (clearActive_latch cpu intid)

theorem raiseSgi_latch {intid : Nat} (target : Nat) (hintid : intid < 32) :
    LatchKept g (g.raiseSgi target intid).1 k i := by
  refine latchKept_setRedist fun _ hk h => ?_
  subst hk
  dsimp only
  rw [getLsbD_or_shiftLeft_one _ hintid, h, Bool.true_or]

theorem raiseSgis_latch {intid : Nat} (cpu : Nat) (irm : Bool) (hintid : intid < 32) (targets : List Nat) :
    ∀ (g : UserspaceGic) (kickMask : BitVec 64),
      LatchKept g (UserspaceGic.raiseSgis intid cpu irm targets g kickMask).1 k i := by
  induction targets with
  | nil => exact fun g _ => latchKept_of_eq rfl rfl
  | cons target rest ih =>
    intro g kickMask
    unfold UserspaceGic.raiseSgis
    split
    · exact ih g kickMask
    · exact (raiseSgi_latch target hintid).trans (ih _ _)

theorem sysregRead_latch {cpu : Nat} {reg : SysReg} {p : UserspaceGic × AccessResult}
    (h : g.sysregRead cpu reg = some p) :
    LatchKept g p.1 k i ∨ (reg = .iar1 ∧ (g.acknowledge cpu).2 = i ∧ (i < spiBase → cpu = k) ∧
      (spiBase ≤ i → g.spiRoutesToCpu i cpu = true)) := by
  cases reg
  case iar1 =>
    cases h
    rcases acknowledge_latch (g := g) (k := k) (i := i) cpu with h | h
    · exact Or.inl h
    · exact Or.inr ⟨rfl, h⟩
  all_goals
    cases h
    try exact Or.inl (latchKept_of_eq rfl rfl)

theorem sysregWrite_latch {cpu : Nat} {reg : SysReg} {value : BitVec 64} {p : UserspaceGic × BitVec 64}
    (h : g.sysregWrite cpu reg value = some p) : LatchKept g p.1 k i := by
  have hdrop : ∀ intid, LatchKept g (g.priorityDrop cpu intid) k i := fun _ => setIface_latch cpu _
  cases sysregWrite_cases h with
  | ignored => exact latchKept_of_eq rfl rfl
  | setting iface kick => exact setIface_latch cpu _
  | drop intid => exact hdrop intid
  | dropDeactivate intid => exact (hdrop intid).trans (deactivate_latch cpu _)
  | deactivate intid => exact deactivate_latch cpu _
  | sgis intid irm targets hintid => exact raiseSgis_latch cpu _ (by omega) _ g 0
  | apr group1 n value kick => exact setIface_latch cpu _

theorem sysreg_latch {cpu sysReg : Nat} {isRead : Bool} {value : BitVec 64} {p : UserspaceGic × AccessResult}
    (h : g.sysreg cpu sysReg isRead value = some p) :
    LatchKept g p.1 k i ∨ Clears g k i (.sysreg cpu sysReg isRead value) := by
  unfold UserspaceGic.sysreg at h
  cases hreg : SysReg.ofEncoding sysReg with
  | none =>
    rw [hreg] at h
    cases h
  | some reg =>
    rw [hreg] at h
    cases isRead with
    | true =>
      rcases sysregRead_latch (k := k) (i := i) h with h | ⟨rfl, hid, hlocal, hroute⟩
      · exact Or.inl h
      · rw [sysReg_iar1 hreg]
        exact Or.inr (.acknowledge cpu value hid hlocal hroute)
    | false =>
      obtain ⟨q, hq, rfl⟩ := Option.map_eq_some_iff.mp h
      exact Or.inl (sysregWrite_latch hq)

end Latch

/-- A pending latch is cleared only by an acknowledge of its INTID, by a clear-pending write with its bit, or, for the
virtual timer, by lowering it. -/
theorem latch_cleared (g : UserspaceGic) (k i : Nat) (op : Op) (hset : g.latched k i = true)
    (hclear : (g.apply op).1.latched k i = false) : Clears g k i op := by
  have hnot : ¬LatchKept g (g.apply op).1 k i := fun h => by
    rw [h hset] at hclear
    cases hclear
  cases op with
  | setSpi intid level => exact absurd (setSpi_latch intid level) hnot
  | sendMsi address data => exact absurd (sendMsi_latch address data) hnot
  | setVtimerPpi cpu fired =>
    rcases setVtimerPpi_latch (g := g) (k := k) (i := i) cpu fired with h | ⟨rfl, rfl, hi⟩
    · exact absurd h hnot
    · exact .vtimer hi
  | mmio ipa width write =>
    rcases mmio_latch (g := g) (k := k) (i := i) ipa width write with h | h
    · exact absurd h hnot
    · exact h
  | sysreg cpu sysReg isRead value =>
    unfold UserspaceGic.apply at hnot
    dsimp only at hnot
    cases hs : g.sysreg cpu sysReg isRead value with
    | none =>
      rw [hs] at hnot
      exact absurd (latchKept_of_eq rfl rfl) hnot
    | some p =>
      rw [hs] at hnot
      rcases sysreg_latch (k := k) (i := i) hs with h | h
      · exact absurd h hnot
      · exact h

/-- The acknowledge of a pended software-generated interrupt clears its latch. -/
theorem latch_cleared_takeSgi :
    Clears (oneCpu.run (enableSgi ++ [pendSgi])) 0 0 (.sysreg 0 iccIar1 true 0) :=
  latch_cleared (oneCpu.run (enableSgi ++ [pendSgi])) 0 0 (.sysreg 0 iccIar1 true 0) (by decide +kernel)
    (by decide +kernel)

end BridgeVm.Gic
