import BridgeVm.Lib.Bits
import BridgeVm.UserspaceGic.Access

/-!
# What an IRQ line depends on

- the line of a vCPU is up exactly when group 1 is enabled at its interface and at the distributor and some INTID
  is `Deliverable` to it (`lineAsserted_iff`);
- an SPI is deliverable to one vCPU at most, the one `routeTarget` names (`spiRoutesToCpu_iff`);
- an operation that keeps `Deliverable` at a vCPU keeps its line (`lineAsserted_congr`), one that withdraws a set of
  INTIDs moves it exactly when everything deliverable was withdrawn (`lineAsserted_ne_iff`).
-/

namespace BridgeVm.Gic

open Machine Lib

variable {g g' : UserspaceGic} {k i : Nat}

/-! ## Ready bits -/

theorem redist_ready_eq (r : Redistributor) (hi : i < 32) :
    r.ready i = (r.group0.getLsbD i && r.enabled0.getLsbD i && (r.pending0.getLsbD i || r.level0.getLsbD i) &&
      !r.active0.getLsbD i) := by
  simp only [Redistributor.ready, Redistributor.effectivePending, and_shiftLeft_one_bne_zero _ hi,
    BitVec.getLsbD_or]

/-- The bit of an INTID in a bank of the distributor. -/
def bankBit (words : Nat → BitVec 32) (i : Nat) : Bool := (words (i / 32)).getLsbD (i % 32)

theorem bankBit_set (words : Nat → BitVec 32) (j i : Nat) :
    bankBit (Function.update words (j / 32) (words (j / 32) ||| (1#32 <<< (j % 32)))) i =
      (bankBit words i || decide (i = j)) := by
  unfold bankBit
  by_cases h : i / 32 = j / 32
  · have hij : (i % 32 = j % 32) ↔ i = j := by omega
    rw [h, Function.update_self, getLsbD_or_shiftLeft_one _ (Nat.mod_lt _ (by decide)), decide_eq_decide.mpr hij]
  · have hij : i ≠ j := fun e => h (by rw [e])
    simp [Function.update_of_ne h, hij]

theorem bankBit_clear (words : Nat → BitVec 32) (j i : Nat) :
    bankBit (Function.update words (j / 32) (words (j / 32) &&& ~~~(1#32 <<< (j % 32)))) i =
      (bankBit words i && !decide (i = j)) := by
  unfold bankBit
  by_cases h : i / 32 = j / 32
  · have hij : (i % 32 = j % 32) ↔ i = j := by omega
    rw [h, Function.update_self, getLsbD_and_not_shiftLeft_one _ (Nat.mod_lt _ (by decide)),
      decide_eq_decide.mpr hij]
  · have hij : i ≠ j := fun e => h (by rw [e])
    simp [Function.update_of_ne h, hij]

theorem dist_ready_eq (d : Distributor) (i : Nat) :
    d.ready i = (bankBit d.group i && bankBit d.enabled i && (bankBit d.pending i || bankBit d.level i) &&
      !bankBit d.active i) := by
  have hi : i % 32 < 32 := Nat.mod_lt _ (by decide)
  simp only [Distributor.ready, Distributor.bit, Distributor.effectivePending, and_shiftLeft_one_bne_zero _ hi,
    BitVec.getLsbD_or, bankBit]

/-! ## Routing -/

theorem spiRoutesToCpu_iff (hk : k < g.numCpus) : g.spiRoutesToCpu i k = true ↔ g.routeTarget i = some k := by
  have hle := g.cpus_le
  have hpos := g.cpus_pos
  unfold UserspaceGic.spiRoutesToCpu UserspaceGic.routeTarget
  rw [if_neg (by omega)]
  dsimp only
  by_cases hirm : ((g.dist.route i &&& irouterIrm) != 0) = true
  · rw [if_pos hirm, if_pos hirm]
    simp only [beq_iff_eq, Option.some.injEq]
    exact eq_comm
  · rw [if_neg hirm, if_neg hirm, List.find?_range_eq_some, beq_iff_eq, cpuMpidr_of_lt (by omega)]
    constructor
    · intro h
      refine ⟨h, List.mem_range.mpr hk, fun j hj => ?_⟩
      rw [cpuMpidr_of_lt (by omega)]
      simp only [Bool.not_eq_true', beq_eq_false_iff_ne, ne_eq]
      omega
    · exact fun h => h.1

/-! ## Deliverable interrupts -/

/-- Ready, routed to the vCPU and of a priority the vCPU takes. -/
def UserspaceGic.Deliverable (g : UserspaceGic) (k i : Nat) : Prop :=
  (i < 32 ∧ (g.redists k).ready i = true ∧ (g.redists k).priority i < (g.ifaces k).threshold) ∨
  (spiBase ≤ i ∧ i < gicIntidCount ∧ g.dist.ready i = true ∧ g.spiRoutesToCpu i k = true ∧
    g.dist.priority i < (g.ifaces k).threshold)

/-- Group 1 is enabled at the interface of the vCPU and at the distributor. -/
def UserspaceGic.Gated (g : UserspaceGic) (k : Nat) : Prop :=
  (g.ifaces k).group1Enabled = true ∧ (g.dist.ctlr &&& gicdCtlrEnableG1ns) ≠ 0

theorem minCandidate_isSome (cs : List PendingCandidate) : (minCandidate cs).isSome = true ↔ ∃ c, c ∈ cs := by
  cases cs with
  | nil => simp [minCandidate]
  | cons c cs =>
    have h : (minCandidate (c :: cs)) ≠ none := by
      simp [minCandidate, List.argmin_eq_none]
    simp [Option.isSome_iff_ne_none, h]

theorem localCandidate_isSome (thr : Nat) :
    (g.localCandidateForCpu k thr).isSome = true ↔
      ∃ i < 32, (g.redists k).ready i = true ∧ (g.redists k).priority i < thr := by
  simp only [UserspaceGic.localCandidateForCpu, minCandidate_isSome, List.mem_filterMap, List.mem_range]
  constructor
  · rintro ⟨c, i, hi, h⟩
    refine ⟨i, hi, ?_⟩
    split at h
    · cases h
    · rename_i hr
      split at h
      · rename_i hp
        exact ⟨by simpa using hr, hp⟩
      · cases h
  · rintro ⟨i, hi, hr, hp⟩
    exact ⟨⟨i, (g.redists k).priority i⟩, i, hi, by simp [hr, hp]⟩

/-- A vCPU has an SPI candidate exactly when some SPI is deliverable to it. -/
theorem spiCandidate_isSome (thr : Nat) :
    (g.spiCandidateForCpu k thr).isSome = true ↔
      ∃ i, spiBase ≤ i ∧ i < gicIntidCount ∧ g.dist.ready i = true ∧ g.spiRoutesToCpu i k = true ∧
        g.dist.priority i < thr := by
  have hlen : spiBase + (gicIntidCount - spiBase) = gicIntidCount := by decide
  simp only [UserspaceGic.spiCandidateForCpu, minCandidate_isSome, List.mem_filterMap, List.mem_range'_1, hlen]
  constructor
  · rintro ⟨c, i, ⟨hlo, hhi⟩, h⟩
    refine ⟨i, hlo, hhi, ?_⟩
    split at h
    · cases h
    · rename_i hr
      split at h
      · cases h
      · rename_i hroute
        split at h
        · rename_i hp
          exact ⟨by simpa using hr, by simpa using hroute, hp⟩
        · cases h
  · rintro ⟨i, hlo, hhi, hr, hroute, hp⟩
    exact ⟨⟨i, g.dist.priority i⟩, i, ⟨hlo, hhi⟩, by simp [hr, hroute, hp]⟩

/-- **The IRQ line of a vCPU**: group 1 is enabled and some interrupt is deliverable. -/
theorem lineAsserted_iff : g.lineAsserted k = true ↔ g.Gated k ∧ ∃ i, g.Deliverable k i := by
  simp only [UserspaceGic.lineAsserted, UserspaceGic.highestCandidate, UserspaceGic.Gated,
    UserspaceGic.Deliverable, Bool.and_eq_true]
  by_cases hc : ((g.dist.ctlr &&& gicdCtlrEnableG1ns) == 0) = true
  · simp only [hc, if_true, Option.isSome_none, Bool.false_eq_true, and_false, false_iff]
    rintro ⟨⟨-, hne⟩, -⟩
    exact hne (by simpa using hc)
  · have hne : (g.dist.ctlr &&& gicdCtlrEnableG1ns) ≠ 0 := by simpa using hc
    simp only [hc, if_false, Bool.false_eq_true, minCandidate_isSome, List.mem_filterMap, List.mem_cons,
      List.not_mem_nil, or_false, id_eq, exists_eq_or_imp, exists_eq_left, hne, not_false_eq_true, ne_eq, and_true]
    refine and_congr_right fun _ => ?_
    rw [exists_or, exists_or, ← Option.isSome_iff_exists, ← Option.isSome_iff_exists, localCandidate_isSome,
      spiCandidate_isSome]

/-! ## Lines before and after an operation -/

section Frame

theorem lineAsserted_congr (hgate : g'.Gated k ↔ g.Gated k)
    (hdel : ∀ i, g'.Deliverable k i ↔ g.Deliverable k i) : g'.lineAsserted k = g.lineAsserted k := by
  rw [Bool.eq_iff_iff, lineAsserted_iff, lineAsserted_iff, hgate]
  simp only [hdel]

theorem lineAsserted_ne_iff {W : Nat → Prop} (hgate : g'.Gated k ↔ g.Gated k)
    (hdel : ∀ i, g'.Deliverable k i ↔ g.Deliverable k i ∧ ¬W i) :
    g'.lineAsserted k ≠ g.lineAsserted k ↔ g.lineAsserted k = true ∧ ∀ i, g.Deliverable k i → W i := by
  rw [ne_eq, Bool.eq_iff_iff, lineAsserted_iff, lineAsserted_iff, hgate]
  simp only [hdel]
  constructor
  · intro h
    by_cases hW : ∃ i, g.Deliverable k i ∧ ¬W i
    · obtain ⟨i, hi, hWi⟩ := hW
      exact absurd ⟨fun ⟨hg, _⟩ => ⟨hg, i, hi⟩, fun ⟨hg, _⟩ => ⟨hg, i, hi, hWi⟩⟩ h
    · have hall : ∀ i, g.Deliverable k i → W i := by
        intro i hi
        by_contra hWi
        exact hW ⟨i, hi, hWi⟩
      refine ⟨?_, hall⟩
      by_contra hline
      exact h ⟨fun ⟨hg, i, hi, _⟩ => absurd ⟨hg, i, hi⟩ hline, fun hl => absurd hl hline⟩
  · rintro ⟨⟨hg, i, hi⟩, hall⟩ hiff
    obtain ⟨-, j, hj, hWj⟩ := hiff.mpr ⟨hg, i, hi⟩
    exact hWj (hall j hj)

/-- A vCPU sees of the state: its interface, its redistributor, and of the distributor the enable bit and the SPIs
routed to it. -/
theorem lineAsserted_frame (hiface : g'.ifaces k = g.ifaces k) (hredist : g'.redists k = g.redists k)
    (hctlr : g'.dist.ctlr = g.dist.ctlr)
    (hspi : ∀ i, spiBase ≤ i → i < gicIntidCount →
      (g'.spiRoutesToCpu i k = g.spiRoutesToCpu i k) ∧
      (g.spiRoutesToCpu i k = true →
        g'.dist.ready i = g.dist.ready i ∧ g'.dist.priority i = g.dist.priority i)) :
    g'.lineAsserted k = g.lineAsserted k := by
  refine lineAsserted_congr (by simp only [UserspaceGic.Gated, hiface, hctlr]) fun i => ?_
  simp only [UserspaceGic.Deliverable, hiface, hredist]
  refine or_congr Iff.rfl ⟨?_, ?_⟩
  · rintro ⟨hlo, hhi, hready, hroute, hprio⟩
    obtain ⟨hr, hrest⟩ := hspi i hlo hhi
    rw [hr] at hroute
    obtain ⟨h1, h2⟩ := hrest hroute
    exact ⟨hlo, hhi, h1 ▸ hready, hroute, h2 ▸ hprio⟩
  · rintro ⟨hlo, hhi, hready, hroute, hprio⟩
    obtain ⟨hr, hrest⟩ := hspi i hlo hhi
    obtain ⟨h1, h2⟩ := hrest hroute
    exact ⟨hlo, hhi, h1.symm ▸ hready, hr.symm ▸ hroute, h2.symm ▸ hprio⟩

theorem lineAsserted_setRedist_ne {cpu : Nat} (r : Redistributor) (h : k ≠ cpu) :
    (g.setRedist cpu r).lineAsserted k = g.lineAsserted k :=
  lineAsserted_frame rfl (setRedist_ne g cpu r h) rfl fun _ _ _ => ⟨rfl, fun _ => ⟨rfl, rfl⟩⟩

theorem lineAsserted_setIface_ne {cpu : Nat} (f : CpuInterface) (h : k ≠ cpu) :
    (g.setIface cpu f).lineAsserted k = g.lineAsserted k :=
  lineAsserted_frame (setIface_ne g cpu f h) rfl rfl fun _ _ _ => ⟨rfl, fun _ => ⟨rfl, rfl⟩⟩

theorem lineAsserted_setRedist_of_same {cpu : Nat} {r : Redistributor}
    (hready : ∀ i < 32, r.ready i = (g.redists cpu).ready i) (hprio : r.priority = (g.redists cpu).priority) :
    (g.setRedist cpu r).lineAsserted k = g.lineAsserted k := by
  by_cases h : k = cpu
  · subst h
    refine lineAsserted_congr Iff.rfl fun i => ?_
    simp only [UserspaceGic.Deliverable, setRedist_self, setRedist_ifaces, hprio]
    refine or_congr ?_ Iff.rfl
    exact and_congr_right fun hi => by rw [hready i hi]
  · exact lineAsserted_setRedist_ne r h

theorem lineAsserted_setDist_at {d : Distributor} (intid : Nat) (hroute : d.route = g.dist.route)
    (hctlr : d.ctlr = g.dist.ctlr) (hprio : d.priority = g.dist.priority)
    (hready : ∀ i, i ≠ intid → d.ready i = g.dist.ready i) (hk : k < g.numCpus)
    (hnot : g.routeTarget intid ≠ some k) : (g.setDist d).lineAsserted k = g.lineAsserted k := by
  refine lineAsserted_frame rfl rfl hctlr fun i _ _ => ⟨?_, fun hr => ⟨?_, by rw [setDist_dist, hprio]⟩⟩
  · simp only [UserspaceGic.spiRoutesToCpu, setDist_dist, setDist_numCpus, hroute]
  · rw [setDist_dist]
    refine hready i fun h => hnot ?_
    exact (spiRoutesToCpu_iff hk).mp (h ▸ hr)

theorem lineAsserted_setDist_of_same {d : Distributor} (hroute : d.route = g.dist.route)
    (hctlr : d.ctlr = g.dist.ctlr) (hprio : d.priority = g.dist.priority)
    (hready : ∀ i, d.ready i = g.dist.ready i) : (g.setDist d).lineAsserted k = g.lineAsserted k := by
  refine lineAsserted_frame rfl rfl hctlr fun i _ _ => ⟨?_, fun _ => ⟨hready i, by rw [setDist_dist, hprio]⟩⟩
  simp only [UserspaceGic.spiRoutesToCpu, setDist_dist, setDist_numCpus, hroute]

end Frame

end BridgeVm.Gic
