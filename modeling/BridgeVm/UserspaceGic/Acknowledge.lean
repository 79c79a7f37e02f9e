import BridgeVm.UserspaceGic.PendingLatch

/-!
# Which interrupt an acknowledgement takes (`userspace_gic/acknowledge.rs`)

- `Eligible`: group 1, enabled, pending and not active, and of a vCPU; `Highest`: of these the least `(priority,
  INTID)`;
- `Takes`: its priority is below the mask, and its group priority preempts what runs (`lt_threshold_iff`);
- a read of `ICC_IAR1_EL1` takes exactly the highest one, when group 1 is on and the interface takes its priority
  (`acknowledge_highest`).
-/

namespace BridgeVm.Gic

open Machine Lib

/-! ## Candidates -/

/-- A bit of an INTID: in its vCPU's redistributor when it is private, else in the distributor. -/
def UserspaceGic.bitOf (g : UserspaceGic) (own : Redistributor → BitVec 32)
    (shared : Distributor → Nat → BitVec 32)
    (k i : Nat) : Bool :=
  if i < spiBase then (own (g.redists k)).getLsbD i else bankBit (shared g.dist) i

def UserspaceGic.priorityOf (g : UserspaceGic) (k i : Nat) : Nat :=
  if i < spiBase then (g.redists k).priority i else g.dist.priority i

/-- The level input of an INTID is high. -/
def UserspaceGic.levelHigh (g : UserspaceGic) (k i : Nat) : Bool := g.bitOf Redistributor.level0 Distributor.level k i

def UserspaceGic.isActive (g : UserspaceGic) (k i : Nat) : Bool := g.bitOf Redistributor.active0 Distributor.active k i

/-- An INTID that waits for vCPU `k`: group 1, enabled, pending and not active, private or routed there. -/
structure UserspaceGic.Eligible (g : UserspaceGic) (k i : Nat) : Prop where
  intid_lt : i < gicIntidCount
  group1 : g.bitOf Redistributor.group0 Distributor.group k i = true
  enabled : g.bitOf Redistributor.enabled0 Distributor.enabled k i = true
  pending : g.latched k i = true ∨ g.levelHigh k i = true
  inactive : g.isActive k i = false
  routed : spiBase ≤ i → g.routeTarget i = some k

/-- The least `(priority, INTID)` that waits. -/
structure UserspaceGic.Highest (g : UserspaceGic) (k i : Nat) : Prop where
  eligible : g.Eligible k i
  least : ∀ j, g.Eligible k j → toLex (g.priorityOf k i, i) ≤ toLex (g.priorityOf k j, j)

/-! ## Preemption -/

/-- The bits of a priority above the current binary point. -/
def CpuInterface.groupPriority (i : CpuInterface) (priority : Nat) : Nat :=
  priority &&& ((0xff <<< max i.bpr1 1) % 256)

/-- The interface takes this priority now: below the mask, and of a group priority that preempts what runs. -/
def CpuInterface.Takes (i : CpuInterface) (priority : Nat) : Prop :=
  priority < i.priorityMask ∧
    (i.runningPriority = 0xff ∨ i.groupPriority priority < i.groupPriority i.runningPriority)

theorem and_mask_eq {x : Nat} (b : Nat) (hx : x < 256) : x &&& ((0xff <<< b) % 256) = x / 2 ^ b * 2 ^ b := by
  rw [← Nat.shiftRight_eq_div_pow, ← Nat.shiftLeft_eq, show (256 : Nat) = 2 ^ 8 from rfl]
  refine Nat.eq_of_testBit_eq fun j => ?_
  rw [Nat.testBit_and, Nat.testBit_mod_two_pow, Nat.testBit_shiftLeft, Nat.testBit_shiftLeft, Nat.testBit_shiftRight,
    show (0xff : Nat) = 2 ^ 8 - 1 from rfl, Nat.testBit_two_pow_sub_one]
  by_cases hb : b ≤ j
  · rw [Nat.add_sub_cancel' hb]
    by_cases hj : j < 8
    · simp [hb, hj, show j - b < 8 by omega]
    · have hpow : 2 ^ 8 ≤ 2 ^ j := Nat.pow_le_pow_right (by decide) (Nat.not_lt.mp hj)
      have hzero : x.testBit j = false := Nat.testBit_lt_two_pow (hx.trans_le hpow)
      simp [hzero]
  · simp [hb]

theorem lt_and_mask_iff {p r : Nat} (b : Nat) (hp : p < 256) (hr : r < 256) :
    p < r &&& ((0xff <<< b) % 256) ↔ p &&& ((0xff <<< b) % 256) < r &&& ((0xff <<< b) % 256) := by
  have hpos : 0 < 2 ^ b := Nat.two_pow_pos b
  rw [and_mask_eq b hp, and_mask_eq b hr, ← Nat.div_lt_iff_lt_mul hpos, Nat.mul_lt_mul_right hpos]

/-- **The threshold** lets exactly these priorities through. -/
theorem lt_threshold_iff {i : CpuInterface} (hmask : i.priorityMask ≤ 0xff) (p : Nat) :
    p < i.threshold ↔ i.Takes p := by
  have hrun := runningPriority_le_idle i
  unfold CpuInterface.threshold CpuInterface.Takes CpuInterface.groupPriority
  dsimp only
  rw [Nat.lt_min]
  refine and_congr_right fun hp => ?_
  split
  · rename_i hidle
    exact iff_of_true (by omega) (.inl hidle)
  · rename_i hidle
    rw [or_iff_right hidle]
    exact lt_and_mask_iff _ (by omega) (by omega)

section Masks

variable {g : UserspaceGic} {k : Nat}

theorem setIface_mask {cpu : Nat} {f : CpuInterface} (h : (g.ifaces k).priorityMask ≤ 0xff)
    (hf : (g.ifaces cpu).priorityMask ≤ 0xff → f.priorityMask ≤ 0xff) :
    ((g.setIface cpu f).ifaces k).priorityMask ≤ 0xff := by
  by_cases hk : k = cpu
  · subst hk
    rw [setIface_self]
    exact hf h
  · rw [setIface_ne g cpu f hk]
    exact h

theorem acknowledge_mask (h : (g.ifaces k).priorityMask ≤ 0xff) (cpu : Nat) :
    ((g.acknowledge cpu).1.ifaces k).priorityMask ≤ 0xff := by
  unfold UserspaceGic.acknowledge
  dsimp only
  split
  · exact h
  · cases g.highestCandidate cpu (g.ifaces cpu).threshold with
    | none => exact h
    | some c =>
      dsimp only
      refine setIface_mask ?_ (fun hcpu => ?_)
      · rw [activate_ifaces]
        exact h
      · rw [activate_ifaces] at hcpu
        exact hcpu

theorem priorityDrop_mask (h : (g.ifaces k).priorityMask ≤ 0xff) (cpu intid : Nat) :
    ((g.priorityDrop cpu intid).ifaces k).priorityMask ≤ 0xff := setIface_mask h id

theorem deactivate_mask (h : (g.ifaces k).priorityMask ≤ 0xff) (cpu intid : Nat) :
    ((g.deactivate cpu intid).1.ifaces k).priorityMask ≤ 0xff := by
  unfold UserspaceGic.deactivate
  dsimp only
  rw [clearActive_ifaces]
  exact setIface_mask h id

theorem sysregWrite_mask {cpu : Nat} {reg : SysReg} {value : BitVec 64} {p : UserspaceGic × BitVec 64}
    (h : (g.ifaces k).priorityMask ≤ 0xff) (hw : g.sysregWrite cpu reg value = some p) :
    (p.1.ifaces k).priorityMask ≤ 0xff := by
  cases sysregWrite_cases hw with
  | ignored => exact h
  | setting iface kick _ hmask => exact setIface_mask h hmask
  | drop intid => exact priorityDrop_mask h cpu intid
  | dropDeactivate intid => exact deactivate_mask (priorityDrop_mask h cpu intid) cpu intid
  | deactivate intid => exact deactivate_mask h cpu intid
  | sgis intid irm targets =>
    rw [raiseSgis_ifaces]
    exact h
  | apr group1 n value kick => exact setIface_mask h id

theorem sysregRead_mask {cpu : Nat} {reg : SysReg} {p : UserspaceGic × AccessResult}
    (h : (g.ifaces k).priorityMask ≤ 0xff) (hr : g.sysregRead cpu reg = some p) :
    (p.1.ifaces k).priorityMask ≤ 0xff := by
  cases reg <;> cases hr
  case iar1 => exact acknowledge_mask h cpu
  all_goals exact h

/-- Every reached priority mask is a byte. -/
theorem reached_mask (h : GicReached g) (k : Nat) : (g.ifaces k).priorityMask ≤ 0xff := by
  induction h with
  | new numCpus hpos hle => exact Nat.zero_le _
  | @step g h op hv ih =>
    cases op with
    | setSpi intid level =>
      simp only [UserspaceGic.apply, setSpi_ifaces]
      exact ih
    | sendMsi address data =>
      simp only [UserspaceGic.apply, sendMsi_ifaces]
      exact ih
    | setVtimerPpi cpu fired =>
      simp only [UserspaceGic.apply, setVtimerPpi_ifaces]
      exact ih
    | mmio ipa width write =>
      simp only [UserspaceGic.apply, mmio_ifaces]
      exact ih
    | sysreg cpu sysReg isRead value =>
      simp only [UserspaceGic.apply]
      cases hs : g.sysreg cpu sysReg isRead value with
      | none => exact ih
      | some p =>
        unfold UserspaceGic.sysreg at hs
        split at hs
        · cases hs
        · split at hs
          · exact sysregRead_mask ih hs
          · obtain ⟨q, hq, rfl⟩ := Option.map_eq_some_iff.mp hs
            exact sysregWrite_mask ih hq

end Masks

/-! ## The candidate scan -/

section Scan

variable {g : UserspaceGic} {k i : Nat}

/-- Deliverable INTIDs are those that wait with a priority the interface takes. -/
theorem deliverable_iff (hk : k < g.numCpus) :
    g.Deliverable k i ↔ g.Eligible k i ∧ g.priorityOf k i < (g.ifaces k).threshold := by
  have h32 : spiBase = 32 := rfl
  unfold UserspaceGic.Deliverable UserspaceGic.priorityOf
  by_cases hi : i < spiBase
  · have hready : (g.redists k).ready i = true ↔ g.Eligible k i := by
      rw [redist_ready_eq _ (by omega)]
      constructor
      · intro h
        simp only [Bool.and_eq_true, Bool.or_eq_true, Bool.not_eq_true'] at h
        obtain ⟨⟨⟨hgroup, henabled⟩, hpending⟩, hactive⟩ := h
        refine ⟨hi.trans (by decide), ?_, ?_, ?_, ?_, fun hspi => absurd hi (Nat.not_lt.mpr hspi)⟩ <;>
          simp only [UserspaceGic.bitOf, UserspaceGic.latched, UserspaceGic.levelHigh, UserspaceGic.isActive, if_pos hi]
        · exact hgroup
        · exact henabled
        · exact hpending
        · exact hactive
      · intro ⟨_, hgroup, henabled, hpending, hactive, _⟩
        simp only [UserspaceGic.bitOf, UserspaceGic.latched, UserspaceGic.levelHigh, UserspaceGic.isActive, if_pos hi]
          at hgroup henabled hpending hactive
        rw [hgroup, henabled, hactive]
        simpa using hpending
    rw [if_pos hi, hready, or_iff_left (fun h => absurd hi (Nat.not_lt.mpr h.1)), and_iff_right (by omega)]
  · have hready : (i < gicIntidCount ∧ g.dist.ready i = true ∧ g.spiRoutesToCpu i k = true) ↔
      g.Eligible k i := by
      rw [dist_ready_eq, spiRoutesToCpu_iff hk]
      constructor
      · intro h
        simp only [Bool.and_eq_true, Bool.or_eq_true, Bool.not_eq_true'] at h
        obtain ⟨hlt, ⟨⟨⟨hgroup, henabled⟩, hpending⟩, hactive⟩, hroute⟩ := h
        refine ⟨hlt, ?_, ?_, ?_, ?_, fun _ => hroute⟩ <;>
          simp only [UserspaceGic.bitOf, UserspaceGic.latched, UserspaceGic.levelHigh, UserspaceGic.isActive, if_neg hi]
        · exact hgroup
        · exact henabled
        · exact hpending
        · exact hactive
      · intro ⟨hlt, hgroup, henabled, hpending, hactive, hroute⟩
        simp only [UserspaceGic.bitOf, UserspaceGic.latched, UserspaceGic.levelHigh, UserspaceGic.isActive, if_neg hi]
          at hgroup henabled hpending hactive
        rw [hgroup, henabled, hactive]
        exact ⟨hlt, by simpa using hpending, hroute (Nat.not_lt.mp hi)⟩
    rw [if_neg hi, or_iff_right (fun h => hi (by omega)), ← hready]
    constructor
    · rintro ⟨-, hlt, hr, hroute, hp⟩
      exact ⟨⟨hlt, hr, hroute⟩, hp⟩
    · rintro ⟨⟨hlt, hr, hroute⟩, hp⟩
      exact ⟨Nat.not_lt.mp hi, hlt, hr, hroute, hp⟩

theorem minCandidate_some {cs : List PendingCandidate} {c : PendingCandidate} (h : minCandidate cs = some c) :
    c ∈ cs ∧ ∀ d ∈ cs, toLex (c.priority, c.intid) ≤ toLex (d.priority, d.intid) :=
  ⟨List.argmin_mem h, fun _ hd => List.le_of_mem_argmin
    (f := fun c : PendingCandidate => toLex (c.priority, c.intid)) hd h⟩

theorem minCandidate_none {cs : List PendingCandidate} (h : minCandidate cs = none) : cs = [] :=
  List.argmin_eq_none.mp h

/-- The candidates of a vCPU, before the least of them is chosen. -/
def UserspaceGic.Scanned (g : UserspaceGic) (k thr : Nat) (c : PendingCandidate) : Prop :=
  (c.intid < 32 ∧ (g.redists k).ready c.intid = true ∧ c.priority = (g.redists k).priority c.intid ∧
    c.priority < thr) ∨
  (spiBase ≤ c.intid ∧ c.intid < gicIntidCount ∧ g.dist.ready c.intid = true ∧
    g.spiRoutesToCpu c.intid k = true ∧
    c.priority = g.dist.priority c.intid ∧ c.priority < thr)

theorem mem_local_iff {thr : Nat} {c : PendingCandidate} :
    (c ∈ (List.range 32).filterMap fun intid =>
      if !(g.redists k).ready intid then none
      else if (g.redists k).priority intid < thr then some ⟨intid, (g.redists k).priority intid⟩ else none) ↔
    c.intid < 32 ∧ (g.redists k).ready c.intid = true ∧ c.priority = (g.redists k).priority c.intid ∧
      c.priority < thr := by
  simp only [List.mem_filterMap, List.mem_range]
  constructor
  · rintro ⟨i, hi, h⟩
    split at h
    · cases h
    · rename_i hr
      split at h
      · rename_i hp
        cases h
        exact ⟨hi, by simpa using hr, rfl, hp⟩
      · cases h
  · rintro ⟨hi, hr, hprio, hp⟩
    refine ⟨c.intid, hi, ?_⟩
    rw [hr, ← hprio, if_pos hp]
    rfl

theorem mem_spi_iff {thr : Nat} {c : PendingCandidate} :
    (c ∈ (List.range' spiBase (gicIntidCount - spiBase)).filterMap fun intid =>
      if !g.dist.ready intid then none
      else if !g.spiRoutesToCpu intid k then none
      else if g.dist.priority intid < thr then some ⟨intid, g.dist.priority intid⟩ else none) ↔
    spiBase ≤ c.intid ∧ c.intid < gicIntidCount ∧ g.dist.ready c.intid = true ∧
    g.spiRoutesToCpu c.intid k = true ∧
      c.priority = g.dist.priority c.intid ∧ c.priority < thr := by
  have hlen : spiBase + (gicIntidCount - spiBase) = gicIntidCount := by decide
  simp only [List.mem_filterMap, List.mem_range'_1, hlen]
  constructor
  · rintro ⟨i, ⟨hlo, hhi⟩, h⟩
    split at h
    · cases h
    · rename_i hr
      split at h
      · cases h
      · rename_i hroute
        split at h
        · rename_i hp
          cases h
          exact ⟨hlo, hhi, by simpa using hr, by simpa using hroute, rfl, hp⟩
        · cases h
  · rintro ⟨hlo, hhi, hr, hroute, hprio, hp⟩
    refine ⟨c.intid, ⟨hlo, hhi⟩, ?_⟩
    rw [hr, hroute, ← hprio, if_pos hp]
    rfl

/-- **The scan** chooses the least candidate of both halves. -/
theorem highestCandidate_some {thr : Nat} {c : PendingCandidate} (h : g.highestCandidate k thr = some c) :
    g.Scanned k thr c ∧ ∀ d, g.Scanned k thr d → toLex (c.priority, c.intid) ≤ toLex (d.priority, d.intid) := by
  unfold UserspaceGic.highestCandidate at h
  split at h
  · cases h
  · obtain ⟨hmem, hleast⟩ := minCandidate_some h
    simp only [List.mem_filterMap, List.mem_cons, List.not_mem_nil, or_false, id_eq, exists_eq_or_imp,
      exists_eq_left] at hmem hleast
    refine ⟨?_, fun d hd => ?_⟩
    · rcases hmem with hloc | hspi
      · exact .inl (mem_local_iff.mp (minCandidate_some hloc).1)
      · exact .inr (mem_spi_iff.mp (minCandidate_some hspi).1)
    · rcases hd with hd | hd
      · have hin := mem_local_iff.mpr hd
        cases hl : g.localCandidateForCpu k thr with
        | none =>
          rw [minCandidate_none hl] at hin
          cases hin
        | some e => exact (hleast e (.inl hl)).trans ((minCandidate_some hl).2 d hin)
      · have hin := mem_spi_iff.mpr hd
        cases hs : g.spiCandidateForCpu k thr with
        | none =>
          rw [minCandidate_none hs] at hin
          cases hin
        | some e => exact (hleast e (.inr hs)).trans ((minCandidate_some hs).2 d hin)

theorem scanned_iff {c : PendingCandidate} :
    g.Scanned k (g.ifaces k).threshold c ↔ g.Deliverable k c.intid ∧ c.priority = g.priorityOf k c.intid := by
  have h32 : spiBase = 32 := rfl
  unfold UserspaceGic.Scanned UserspaceGic.Deliverable UserspaceGic.priorityOf
  by_cases hi : c.intid < spiBase
  · rw [if_pos hi, or_iff_left (fun h => absurd hi (Nat.not_lt.mpr h.1)),
      or_iff_left (fun h => absurd hi (Nat.not_lt.mpr h.1))]
    constructor
    · rintro ⟨hlt, hr, hprio, hp⟩
      exact ⟨⟨hlt, hr, hprio ▸ hp⟩, hprio⟩
    · rintro ⟨⟨hlt, hr, hp⟩, hprio⟩
      exact ⟨hlt, hr, hprio, hprio.symm ▸ hp⟩
  · rw [if_neg hi, or_iff_right (fun h => hi (by omega)), or_iff_right (fun h => hi (by omega))]
    constructor
    · rintro ⟨hlo, hhi, hr, hroute, hprio, hp⟩
      exact ⟨⟨hlo, hhi, hr, hroute, hprio ▸ hp⟩, hprio⟩
    · rintro ⟨⟨hlo, hhi, hr, hroute, hp⟩, hprio⟩
      exact ⟨hlo, hhi, hr, hroute, hprio, hprio.symm ▸ hp⟩

/-- The scan finds nothing exactly when group 1 is off at the distributor or nothing is deliverable. -/
theorem highestCandidate_none_iff :
    g.highestCandidate k (g.ifaces k).threshold = none ↔
      (g.dist.ctlr &&& gicdCtlrEnableG1ns) = 0 ∨ ∀ i, ¬g.Deliverable k i := by
  cases hc : g.highestCandidate k (g.ifaces k).threshold with
  | none =>
    refine iff_of_true rfl ?_
    by_cases hctlr : (g.dist.ctlr &&& gicdCtlrEnableG1ns) = 0
    · exact .inl hctlr
    · refine .inr fun i hi => ?_
      unfold UserspaceGic.highestCandidate at hc
      rw [if_neg (by simpa using hctlr)] at hc
      have hnil := minCandidate_none hc
      simp only [List.filterMap_eq_nil_iff, List.mem_cons, List.not_mem_nil, or_false, id_eq, forall_eq_or_imp,
        forall_eq] at hnil
      have hscan : g.Scanned k (g.ifaces k).threshold ⟨i, g.priorityOf k i⟩ := scanned_iff.mpr ⟨hi, rfl⟩
      rcases hscan with hown | hspi
      · have hin := mem_local_iff.mpr hown
        rw [minCandidate_none hnil.1] at hin
        cases hin
      · have hin := mem_spi_iff.mpr hspi
        rw [minCandidate_none hnil.2] at hin
        cases hin
  | some c =>
    have hon : (g.dist.ctlr &&& gicdCtlrEnableG1ns) ≠ 0 := by
      unfold UserspaceGic.highestCandidate at hc
      split at hc
      · cases hc
      · rename_i hon
        simpa using hon
    refine iff_of_false nofun (not_or.mpr ⟨hon, fun hnone => ?_⟩)
    exact hnone _ (scanned_iff.mp (highestCandidate_some hc).1).1

end Scan

/-! ## What an acknowledgement changes -/

/-- `(c, j)` is the interrupt `i` of vCPU `k`. -/
def SameInterrupt (k i c j : Nat) : Prop := j = i ∧ (i < spiBase → c = k)

instance (k i c j : Nat) : Decidable (SameInterrupt k i c j) := inferInstanceAs (Decidable (_ ∧ _))

/-- Interrupt `i` was taken by vCPU `k`: its latch is clear and its active bit set, and it runs. -/
structure UserspaceGic.Taken (g : UserspaceGic) (k i : Nat) (g' : UserspaceGic) : Prop where
  latch : ∀ c j, g'.latched c j = (g.latched c j && !decide (SameInterrupt k i c j))
  level : ∀ c j, g'.levelHigh c j = g.levelHigh c j
  active : ∀ c j, g'.isActive c j = (g.isActive c j || decide (SameInterrupt k i c j))
  running : (g'.ifaces k).runningPriority = g.priorityOf k i &&& 0xfe
  raised : (g'.ifaces k).runningPriority < (g.ifaces k).runningPriority
  entry : (g'.ifaces k).active = acknowledged (g.ifaces k).active ⟨i, g.priorityOf k i⟩
  /-- Nothing else moves. -/
  dist : g'.dist = { g.dist with pending := g'.dist.pending, active := g'.dist.active }
  redists : ∀ c, g'.redists c =
    { g.redists c with pending0 := (g'.redists c).pending0, active0 := (g'.redists c).active0 }
  iface : g'.ifaces k = { g.ifaces k with active := (g'.ifaces k).active }
  others : ∀ c, c ≠ k → g'.ifaces c = g.ifaces c

section Taken

variable {g : UserspaceGic} {k i : Nat}

theorem activate_latched (c j : Nat) :
    (g.activate k i).latched c j = (g.latched c j && !decide (SameInterrupt k i c j)) := by
  have h32 : spiBase = 32 := rfl
  unfold UserspaceGic.activate UserspaceGic.latched SameInterrupt
  by_cases hi : i < 32
  · rw [if_pos hi]
    by_cases hj : j < spiBase
    · rw [if_pos hj, if_pos hj]
      by_cases hc : c = k
      · subst hc
        rw [setRedist_self, getLsbD_and_not_shiftLeft_one _ hi]
        simp
      · rw [setRedist_ne g k _ hc]
        simp [hc, h32, hi]
    · rw [if_neg hj, if_neg hj]
      have hne : j ≠ i := by omega
      simp [hne]
  · rw [if_neg hi]
    by_cases hj : j < spiBase
    · rw [if_pos hj, if_pos hj]
      have hne : j ≠ i := by omega
      simp [hne]
    · rw [if_neg hj, if_neg hj]
      show bankBit (Function.update g.dist.pending (i / 32) (g.dist.pending (i / 32) &&& ~~~(1#32 <<< (i % 32)))) j = _
      rw [bankBit_clear]
      simp [h32, hi]

theorem activate_levelHigh (c j : Nat) : (g.activate k i).levelHigh c j = g.levelHigh c j := by
  have hown : ((g.activate k i).redists c).level0 = (g.redists c).level0 := by
    unfold UserspaceGic.activate
    split
    · by_cases hc : c = k
      · subst hc
        dsimp only
        rw [setRedist_self]
      · dsimp only
        rw [setRedist_ne g k _ hc]
    · rfl
  have hshared : (g.activate k i).dist.level = g.dist.level := by
    unfold UserspaceGic.activate
    split
    · rfl
    · rfl
  unfold UserspaceGic.levelHigh UserspaceGic.bitOf
  rw [hown, hshared]

theorem activate_isActive (c j : Nat) :
    (g.activate k i).isActive c j = (g.isActive c j || decide (SameInterrupt k i c j)) := by
  have h32 : spiBase = 32 := rfl
  unfold UserspaceGic.activate UserspaceGic.isActive UserspaceGic.bitOf SameInterrupt
  by_cases hi : i < 32
  · rw [if_pos hi]
    by_cases hj : j < spiBase
    · rw [if_pos hj, if_pos hj]
      by_cases hc : c = k
      · subst hc
        rw [setRedist_self, getLsbD_or_shiftLeft_one _ hi]
        simp
      · rw [setRedist_ne g k _ hc]
        simp [hc, h32, hi]
    · rw [if_neg hj, if_neg hj]
      have hne : j ≠ i := by omega
      simp [hne]
  · rw [if_neg hi]
    by_cases hj : j < spiBase
    · rw [if_pos hj, if_pos hj]
      have hne : j ≠ i := by omega
      simp [hne]
    · rw [if_neg hj, if_neg hj]
      show bankBit (Function.update g.dist.active (i / 32) (g.dist.active (i / 32) ||| (1#32 <<< (i % 32)))) j = _
      rw [bankBit_set]
      simp [h32, hi]

theorem runningPriority_acknowledged {f : CpuInterface} {c : PendingCandidate} (hlt : c.priority < f.runningPriority) :
    ({ f with active := acknowledged f.active c } : CpuInterface).runningPriority = c.priority &&& 0xfe := by
  have hle : c.priority &&& 0xfe ≤ c.priority := Nat.and_le_left
  rw [runningPriority_eq, groupPriorities_acknowledged]
  have hmin : (groupPriorities f.active ++ [c.priority &&& 0xfe]).min? = some (c.priority &&& 0xfe) := by
    refine List.min?_eq_some_iff.mpr ⟨List.mem_append_right _ List.mem_cons_self, fun p hp => ?_⟩
    rcases List.mem_append.mp hp with hp | hp
    · have := runningPriority_le hp
      omega
    · exact (List.mem_singleton.mp hp).ge
  rw [hmin]
  rfl

/-- An acknowledgement takes the candidate of the scan. -/
theorem acknowledge_taken (hgroup : (g.ifaces k).group1Enabled = true) {c : PendingCandidate}
    (hc : g.highestCandidate k (g.ifaces k).threshold = some c) :
    (g.acknowledge k).2 = c.intid ∧ g.Taken k c.intid (g.acknowledge k).1 := by
  obtain ⟨hid, hp⟩ := highestCandidate_lt hc
  obtain ⟨hscan, -⟩ := highestCandidate_some hc
  have hprio := (scanned_iff.mp hscan).2
  have hlt : c.priority < (g.ifaces k).runningPriority := hp.trans_le (threshold_le _)
  have hle : c.priority &&& 0xfe ≤ c.priority := Nat.and_le_left
  have hrun := runningPriority_acknowledged hlt
  have heq : g.acknowledge k =
      ((g.activate k c.intid).setIface k { g.ifaces k with active := acknowledged (g.ifaces k).active c },
        c.intid) := by
    unfold UserspaceGic.acknowledge
    dsimp only
    rw [hgroup, hc]
    rfl
  obtain ⟨intid, priority⟩ := c
  dsimp only at hprio hid hlt hle hrun heq
  subst hprio
  rw [heq]
  refine ⟨rfl, ⟨fun d j => activate_latched d j, fun d j => activate_levelHigh d j,
    fun d j => activate_isActive d j, ?_, ?_, ?_, ?_, fun d => ?_, ?_, fun d hd => ?_⟩⟩
  · rw [setIface_self]
    exact hrun
  · rw [setIface_self, hrun]
    omega
  · rw [setIface_self]
  · rw [setIface_dist]
    unfold UserspaceGic.activate
    split
    · rfl
    · rfl
  · rw [setIface_redists]
    unfold UserspaceGic.activate
    split
    · by_cases hd : d = k
      · subst hd
        rw [setRedist_self]
      · rw [setRedist_ne g k _ hd]
    · rfl
  · rw [setIface_self]
  · rw [setIface_ne _ k _ hd, activate_ifaces]

end Taken

/-! ## The read of `ICC_IAR1_EL1` -/

/-- The interrupt a read of `ICC_IAR1_EL1` takes: group 1 is on at the interface and the distributor, it is the highest
that waits, and the interface takes its priority. -/
structure UserspaceGic.ToTake (g : UserspaceGic) (k i : Nat) : Prop where
  gated : g.Gated k
  highest : g.Highest k i
  takes : (g.ifaces k).Takes (g.priorityOf k i)

section Read

variable {g : UserspaceGic} {k : Nat}

theorem toTake_of_candidate (h : GicReached g) (hk : k < g.numCpus) (hgroup : (g.ifaces k).group1Enabled = true)
    {c : PendingCandidate} (hc : g.highestCandidate k (g.ifaces k).threshold = some c) : g.ToTake k c.intid := by
  obtain ⟨hscan, hleast⟩ := highestCandidate_some hc
  obtain ⟨hdel, hprio⟩ := scanned_iff.mp hscan
  obtain ⟨helig, hp⟩ := (deliverable_iff hk).mp hdel
  have hon : (g.dist.ctlr &&& gicdCtlrEnableG1ns) ≠ 0 := fun hoff =>
    absurd (highestCandidate_none_iff.mpr (.inl hoff)) (by rw [hc]; nofun)
  refine ⟨⟨hgroup, hon⟩, ⟨helig, fun j hj => ?_⟩, (lt_threshold_iff (reached_mask h k) _).mp hp⟩
  rw [← hprio] at hp ⊢
  by_cases hjp : g.priorityOf k j < (g.ifaces k).threshold
  · exact hleast ⟨j, g.priorityOf k j⟩ (scanned_iff.mpr ⟨(deliverable_iff hk).mpr ⟨hj, hjp⟩, rfl⟩)
  · exact (Prod.Lex.toLex_le_toLex.mpr (.inl (hp.trans_le (Nat.not_lt.mp hjp))))

theorem UserspaceGic.ToTake.unique {i j : Nat} (hi : g.ToTake k i) (hj : g.ToTake k j) : i = j := by
  have heq := le_antisymm (hi.highest.least j hj.highest.eligible) (hj.highest.least i hi.highest.eligible)
  exact (Prod.mk.inj (toLex_inj.mp heq)).2

theorem candidate_of_toTake (h : GicReached g) (hk : k < g.numCpus) {i : Nat} (hi : g.ToTake k i) :
    ∃ c, g.highestCandidate k (g.ifaces k).threshold = some c := by
  refine Option.ne_none_iff_exists'.mp fun hnone => ?_
  rcases highestCandidate_none_iff.mp hnone with hoff | hall
  · exact hi.gated.2 hoff
  · exact hall i ((deliverable_iff hk).mpr
      ⟨hi.highest.eligible, (lt_threshold_iff (reached_mask h k) _).mpr hi.takes⟩)

/-- **Acknowledge takes the highest interrupt**: a read of `ICC_IAR1_EL1` returns the interrupt to take and takes it;
with none it returns the spurious INTID and the controller stays as it is. -/
theorem acknowledge_highest (h : GicReached g) (hk : k < g.numCpus) :
    (∀ i, g.ToTake k i → ∃ g', g.sysreg k iccIar1 true 0 = some (g', ⟨BitVec.ofNat 64 i, 0⟩) ∧
      g.Taken k i g') ∧
      ((∀ i, ¬g.ToTake k i) → g.sysreg k iccIar1 true 0 = some (g, ⟨BitVec.ofNat 64 spuriousIntid, 0⟩)) := by
  have hread : g.sysreg k iccIar1 true 0 = some ((g.acknowledge k).1, ⟨BitVec.ofNat 64 (g.acknowledge k).2, 0⟩) :=
    rfl
  rw [hread]
  refine ⟨fun i hi => ?_, fun hnone => ?_⟩
  · obtain ⟨c, hc⟩ := candidate_of_toTake h hk hi
    obtain ⟨hid, htaken⟩ := acknowledge_taken hi.gated.1 hc
    obtain rfl := hi.unique (toTake_of_candidate h hk hi.gated.1 hc)
    exact ⟨_, by rw [hid], htaken⟩
  · have hspurious : g.acknowledge k = (g, spuriousIntid) := by
      unfold UserspaceGic.acknowledge
      dsimp only
      split
      · rfl
      · rename_i hgroup
        have hgroup : (g.ifaces k).group1Enabled = true := by simpa using hgroup
        cases hc : g.highestCandidate k (g.ifaces k).threshold with
        | none => rfl
        | some c => exact absurd (toTake_of_candidate h hk hgroup hc) (hnone _)
    rw [hspurious]

end Read

theorem highest_zero {g : UserspaceGic} {k : Nat} (h : g.Eligible k 0) (hp : g.priorityOf k 0 = 0) : g.Highest k 0 := by
  refine ⟨h, fun j _ => ?_⟩
  rw [hp, Prod.Lex.toLex_le_toLex]
  rcases Nat.eq_zero_or_pos (g.priorityOf k j) with hj | hj
  · exact .inr ⟨hj.symm, Nat.zero_le j⟩
  · exact .inl hj

theorem acknowledge_highest_sgi :
    ∃ g', (oneCpu.run (enableSgi ++ [pendSgi])).sysreg 0 iccIar1 true 0 = some (g', ⟨0, 0⟩) ∧
      (oneCpu.run (enableSgi ++ [pendSgi])).Taken 0 0 g' := by
  have hreached : GicReached (oneCpu.run (enableSgi ++ [pendSgi])) := oneCpu_reached.run _ (by decide)
  have helig : (oneCpu.run (enableSgi ++ [pendSgi])).Eligible 0 0 :=
    ⟨by decide, by decide +kernel, by decide +kernel, .inl (by decide +kernel), by decide +kernel,
      fun h => absurd h (by decide)⟩
  exact (acknowledge_highest hreached (by decide +kernel)).1 0
    ⟨⟨by decide +kernel, by decide +kernel⟩, highest_zero helig (by decide +kernel),
      ⟨by decide +kernel, .inl (by decide +kernel)⟩⟩

/-- SGI 0 is enabled and every priority let through, with group 1 off at the interface. -/
def groupOff : List Op :=
  [.mmio gicDist.base 4 (some 0x2#64), .mmio (gicRedist.base + 0x10100) 4 (some 1#64),
    .sysreg 0 0xc230 false 0xff#64, pendSgi]

/-- With group 1 off at the interface the highest interrupt is not taken, whatever its priority. -/
theorem group_off_not_taken :
    ¬ ∀ (g : UserspaceGic) (k i : Nat), GicReached g → k < g.numCpus → g.Highest k i →
      (g.ifaces k).Takes (g.priorityOf k i) →
      (g.sysreg k iccIar1 true 0).map (fun p => p.2.value) = some (BitVec.ofNat 64 i) := by
  intro hall
  have helig : (oneCpu.run groupOff).Eligible 0 0 :=
    ⟨by decide, by decide +kernel, by decide +kernel, .inl (by decide +kernel), by decide +kernel,
      fun h => absurd h (by decide)⟩
  have hread := hall (oneCpu.run groupOff) 0 0 (oneCpu_reached.run _ (by decide)) (by decide +kernel)
    (highest_zero helig (by decide +kernel)) ⟨by decide +kernel, .inl (by decide +kernel)⟩
  exact absurd hread (by decide +kernel)

end BridgeVm.Gic
