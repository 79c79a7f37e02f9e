import BridgeVm.UserspaceGic.Acknowledge

/-!
# Ends of interrupt in nesting order (`priority_drop`)

- `Nests`: with EOImode set, writing `ICC_EOIR1_EL1` with the INTIDs of the entries that are not dropped, newest first,
  drops one of them at each write and leaves the running priority idle;
- it does exactly when each of these entries is the newest of its INTID (`nests_iff`): a drop takes the newest entry of
  the INTID, also one whose priority is dropped already;
- runs that acknowledge no INTID still running on the vCPU keep that (`reached_newest`).
-/

namespace BridgeVm.Gic

open Machine Lib
open List (SublistForall₂)

def iccEoir1 : Nat := 0xc661
def iccRpr : Nat := 0xc65b

/-! ## Active lists -/

/-- The entries whose priority is not dropped, oldest first. -/
def undropped (l : List ActiveInterrupt) : List ActiveInterrupt := l.filter fun a => !a.priorityDropped

/-- Exactly one entry that was not dropped is dropped. -/
def DropsOne (l l' : List ActiveInterrupt) : Prop :=
  ∃ older a newer, l = older ++ a :: newer ∧ a.priorityDropped = false ∧
    l' = older ++ { a with priorityDropped := true } :: newer

/-- Each entry that is not dropped is the newest of its INTID. -/
def Newest (l : List ActiveInterrupt) : Prop := l.Pairwise fun a b => a.priorityDropped = false → b.intid ≠ a.intid

theorem map_intid_dropNewest (i : Nat) (l : List ActiveInterrupt) :
    (dropNewest i l).map (fun a => a.intid) = l.map fun a => a.intid := by
  induction l with
  | nil => rfl
  | cons a l ih =>
    unfold dropNewest
    split_ifs
    · rw [List.map_cons, ih, List.map_cons]
    · rfl
    · rfl

theorem dropNewest_append {i : Nat} {older newer : List ActiveInterrupt} {a : ActiveInterrupt} (hi : a.intid = i)
    (hnew : ∀ b ∈ newer, b.intid ≠ i) :
    dropNewest i (older ++ a :: newer) = older ++ { a with priorityDropped := true } :: newer := by
  induction older with
  | nil =>
    have hany : (newer.any fun b => b.intid == i) = false := by simpa using hnew
    simp [dropNewest, hany, hi]
  | cons b older ih =>
    have hany : ((older ++ a :: newer).any fun c => c.intid == i) = true := by simp [hi]
    rw [List.cons_append, dropNewest, if_pos hany, ih, List.cons_append]

theorem newest_head (a : ActiveInterrupt) (l : List ActiveInterrupt) :
    (∀ b ∈ l, a.priorityDropped = false → b.intid ≠ a.intid) ↔
      (a.priorityDropped = false → a.intid ∉ l.map fun b => b.intid) := by
  constructor
  · intro h hd hmem
    obtain ⟨b, hb, hid⟩ := List.mem_map.mp hmem
    exact h b hb hd hid
  · intro h b hb hd hid
    exact h hd (hid ▸ List.mem_map_of_mem hb)

theorem newest_dropNewest (i : Nat) (l : List ActiveInterrupt) : Newest (dropNewest i l) ↔ Newest l := by
  induction l with
  | nil => exact Iff.rfl
  | cons a l ih =>
    unfold Newest at ih ⊢
    unfold dropNewest
    split_ifs with hany hid
    · rw [List.pairwise_cons, List.pairwise_cons, ih]
      rw [newest_head, newest_head, map_intid_dropNewest]
    · have hnone : ∀ b ∈ l, b.intid ≠ a.intid := by simpa [hid] using hany
      simp only [List.pairwise_cons]
      refine and_congr_left fun _ => ⟨fun _ b hb _ => hnone b hb, fun _ b hb h => absurd h (by simp)⟩
    · exact Iff.rfl

theorem undropped_split {l l₀ : List ActiveInterrupt} {a : ActiveInterrupt} (h : undropped l = l₀ ++ [a]) :
    ∃ older newer, l = older ++ a :: newer ∧ a.priorityDropped = false ∧ undropped older = l₀ ∧
    undropped newer = [] := by
  obtain ⟨older, rest, rfl, holder, hrest⟩ := List.filter_eq_append_iff.mp h
  obtain ⟨between, newer, rfl, hbetween, hda, hnewer⟩ := List.filter_eq_cons_iff.mp hrest
  refine ⟨older ++ between, newer, by simp, by simpa using hda, ?_, hnewer⟩
  have hnil : undropped between = [] := List.filter_eq_nil_iff.mpr hbetween
  unfold undropped at hnil ⊢
  rw [List.filter_append, holder, hnil, List.append_nil]

theorem dropNewest_newest {l l₀ : List ActiveInterrupt} {a : ActiveInterrupt} (hn : Newest l)
    (h : undropped l = l₀ ++ [a]) : DropsOne l (dropNewest a.intid l) ∧
    undropped (dropNewest a.intid l) = l₀ := by
  obtain ⟨older, newer, rfl, hda, holder, hnewer⟩ := undropped_split h
  have hlast : ∀ b ∈ newer, b.intid ≠ a.intid := by
    intro b hb
    exact (List.pairwise_cons.mp (List.pairwise_append.mp hn).2.1).1 b hb hda
  rw [dropNewest_append rfl hlast]
  refine ⟨⟨older, a, newer, rfl, hda, rfl⟩, ?_⟩
  unfold undropped at holder hnewer ⊢
  simp [holder, hnewer]

theorem groupPriorities_eq_undropped (l : List ActiveInterrupt) :
    groupPriorities l = (undropped l).map fun a => a.priority &&& 0xfe := rfl

theorem newest_of_undropped_nil {l : List ActiveInterrupt} (h : undropped l = []) : Newest l := by
  have hall := List.filter_eq_nil_iff.mp h
  refine List.pairwise_of_forall_mem_list fun a ha b _ hd => absurd ?_ (hall a ha)
  simpa using hd

theorem Newest.stays {l l' : List ActiveInterrupt} (h : Newest l) (hs : SublistForall₂ Stays l' l) : Newest l' := by
  refine pairwise_of_sublistForall₂ (fun a' a b' b ha hb hab hd => ?_) hs h
  rw [ha.1, hb.1]
  refine hab ?_
  cases hd' : a.priorityDropped with
  | false => rfl
  | true => rw [ha.2.2 hd'] at hd; cases hd

theorem Newest.acknowledged {l : List ActiveInterrupt} {c : PendingCandidate} (h : Newest l)
    (hc : ∀ a ∈ undropped l, a.intid ≠ c.intid) : Newest (acknowledged l c) := by
  refine List.pairwise_append.mpr ⟨h.sublist List.filter_sublist, List.pairwise_singleton _ _, ?_⟩
  intro a ha b hb hd
  rw [List.mem_singleton.mp hb]
  exact (hc a (List.mem_filter.mpr ⟨(List.mem_filter.mp ha).1, by simp [hd]⟩)).symm

/-! ## The writes -/

/-- A write of an INTID to `ICC_EOIR1_EL1`. -/
def eoir (k intid : Nat) : Op := .sysreg k iccEoir1 false (BitVec.ofNat 64 intid)

/-- Each of the writes of these INTIDs drops exactly one entry. -/
def UserspaceGic.EachDrops (g : UserspaceGic) (k : Nat) : List Nat → Prop
  | [] => True
  | intid :: rest =>
    DropsOne (g.ifaces k).active ((g.apply (eoir k intid)).1.ifaces k).active ∧
      (g.apply (eoir k intid)).1.EachDrops k rest

/-- The INTIDs of the entries that are not dropped, newest first. -/
def UserspaceGic.nested (g : UserspaceGic) (k : Nat) : List Nat :=
  (undropped (g.ifaces k).active).reverse.map fun a => a.intid

/-- Ending the interrupts in nesting order drops one entry at each write and leaves the running priority idle. -/
structure UserspaceGic.Nests (g : UserspaceGic) (k : Nat) : Prop where
  drops : g.EachDrops k (g.nested k)
  idle : ((g.run ((g.nested k).map (eoir k))).sysreg k iccRpr true 0).map (fun p => p.2.value) = some 0xff#64

section Writes

variable {g : UserspaceGic} {k : Nat}

/-- With EOImode set a write drops a priority and nothing else. -/
theorem apply_eoir (hm : (g.ifaces k).eoiMode = true) {intid : Nat} (hi : intid < gicIntidCount) :
    (g.apply (eoir k intid)).1 = g.priorityDrop k intid := by
  have hid : (BitVec.ofNat 64 intid &&& 0xffffff#64).toNat = intid := by
    have hmask : (0xffffff : Nat) = 2 ^ 24 - 1 := rfl
    unfold gicIntidCount at hi
    rw [BitVec.toNat_and, BitVec.toNat_ofNat, BitVec.toNat_ofNat, Nat.mod_eq_of_lt (by omega),
      Nat.mod_eq_of_lt (by omega), hmask, Nat.and_two_pow_sub_one_eq_mod, Nat.mod_eq_of_lt (by omega)]
  have hne : intid ≠ spuriousIntid := by unfold gicIntidCount at hi; unfold spuriousIntid; omega
  have hmode : ((g.priorityDrop k intid).ifaces k).eoiMode = true := by
    unfold UserspaceGic.priorityDrop
    rw [setIface_self]
    exact hm
  have hwrite : g.sysregWrite k .eoir1 (BitVec.ofNat 64 intid) = some (g.priorityDrop k intid, kickMaskFor k) := by
    unfold UserspaceGic.sysregWrite
    dsimp only
    rw [hid, if_neg hne, hmode]
    rfl
  have hreg : g.sysreg k iccEoir1 false (BitVec.ofNat 64 intid) =
      (g.sysregWrite k .eoir1 (BitVec.ofNat 64 intid)).map fun p => (p.1, ⟨0, p.2⟩) := rfl
  unfold eoir
  simp only [UserspaceGic.apply, hreg, hwrite, Option.map_some]

theorem priorityDrop_active (intid : Nat) :
    ((g.priorityDrop k intid).ifaces k).active = dropNewest intid (g.ifaces k).active := by
  unfold UserspaceGic.priorityDrop
  rw [setIface_self]

theorem priorityDrop_eoiMode (intid : Nat) : ((g.priorityDrop k intid).ifaces k).eoiMode = (g.ifaces k).eoiMode := by
  unfold UserspaceGic.priorityDrop
  rw [setIface_self]
  rfl

theorem rpr_idle_iff :
    (g.sysreg k iccRpr true 0).map (fun p => p.2.value) = some 0xff#64 ↔ undropped (g.ifaces k).active = [] := by
  have hread : (g.sysreg k iccRpr true 0).map (fun p => p.2.value) =
      some (BitVec.ofNat 64 (g.ifaces k).runningPriority) := rfl
  rw [hread, Option.some.injEq]
  have hle := runningPriority_le_idle (g.ifaces k)
  constructor
  · intro h
    have hrun : (g.ifaces k).runningPriority = 0xff := by
      have := congrArg BitVec.toNat h
      rw [BitVec.toNat_ofNat, Nat.mod_eq_of_lt (by omega)] at this
      exact this
    rcases runningPriority_mem (g.ifaces k) with ⟨-, hnil⟩ | hmem
    · exact List.map_eq_nil_iff.mp hnil
    · have := groupPriorities_lt _ _ hmem
      omega
  · intro h
    have hnil : groupPriorities (g.ifaces k).active = [] := by rw [groupPriorities_eq_undropped, h, List.map_nil]
    rw [runningPriority_eq, hnil]
    rfl

theorem newest_run_eoir (intids : List Nat) (hm : (g.ifaces k).eoiMode = true)
    (hi : ∀ i ∈ intids, i < gicIntidCount) :
    Newest ((g.run (intids.map (eoir k))).ifaces k).active ↔ Newest (g.ifaces k).active := by
  induction intids generalizing g with
  | nil => exact Iff.rfl
  | cons intid rest ih =>
    have hstep := apply_eoir hm (hi intid List.mem_cons_self)
    have hrun : g.run ((intid :: rest).map (eoir k)) = (g.priorityDrop k intid).run (rest.map (eoir k)) := by
      rw [← hstep]
      rfl
    rw [hrun, ih (by rw [priorityDrop_eoiMode]; exact hm) fun i hi' => hi i (List.mem_cons_of_mem _ hi'),
      priorityDrop_active, newest_dropNewest]

/-- From a list whose entries are the newest of their INTIDs, each write drops the newest that is left. -/
theorem drops_of_newest {l : List ActiveInterrupt} (hm : (g.ifaces k).eoiMode = true)
    (hi : ∀ a ∈ l, a.intid < gicIntidCount) (hn : Newest (g.ifaces k).active)
    (hl : undropped (g.ifaces k).active = l.reverse) :
    g.EachDrops k (l.map fun a => a.intid) ∧
      undropped ((g.run ((l.map fun a => a.intid).map (eoir k))).ifaces k).active = [] := by
  induction l generalizing g with
  | nil => exact ⟨trivial, hl⟩
  | cons a l ih =>
    rw [List.reverse_cons] at hl
    obtain ⟨hdrop, hleft⟩ := dropNewest_newest hn hl
    have hstep := apply_eoir hm (hi a List.mem_cons_self)
    obtain ⟨hdrops, hend⟩ := ih (g := g.priorityDrop k a.intid) (by rw [priorityDrop_eoiMode]; exact hm)
      (fun b hb => hi b (List.mem_cons_of_mem _ hb))
      (by rw [priorityDrop_active, newest_dropNewest]; exact hn)
      (by rw [priorityDrop_active]; exact hleft)
    refine ⟨⟨?_, ?_⟩, ?_⟩
    · rw [hstep, priorityDrop_active]
      exact hdrop
    · rw [hstep]
      exact hdrops
    · rw [← hstep] at hend
      exact hend

theorem nests_iff_newest (h : GicReached g) (hm : (g.ifaces k).eoiMode = true) :
    g.Nests k ↔ Newest (g.ifaces k).active := by
  have hok := reached_activeOk h k
  have hmem : ∀ a ∈ (undropped (g.ifaces k).active).reverse, a.intid < gicIntidCount := fun a ha =>
    hok.intid_lt a (List.mem_filter.mp (List.mem_reverse.mp ha)).1
  constructor
  · intro hnests
    have hnil := newest_of_undropped_nil (rpr_idle_iff.mp hnests.idle)
    refine (newest_run_eoir _ hm fun i hi => ?_).mp hnil
    obtain ⟨a, ha, rfl⟩ := List.mem_map.mp hi
    exact hmem a ha
  · intro hn
    obtain ⟨hdrops, hend⟩ := drops_of_newest hm hmem hn (List.reverse_reverse _).symm
    exact ⟨hdrops, rpr_idle_iff.mpr hend⟩

end Writes

/-! ## Runs that take no running INTID again -/

/-- A read of `ICC_IAR1_EL1` takes no INTID the vCPU has an entry of that is not dropped. -/
def Op.Fresh (g : UserspaceGic) : Op → Prop
  | .sysreg cpu sysReg true _ => sysReg = iccIar1 → ∀ a ∈ undropped (g.ifaces cpu).active, ¬g.ToTake cpu a.intid
  | _ => True

/-- The states of runs whose acknowledgements take no running INTID. -/
inductive FreshReached : UserspaceGic → Prop
  | new (numCpus : Nat) (hpos : 1 ≤ numCpus) (hle : numCpus ≤ 16) : FreshReached (.new numCpus hpos hle)
  | step {g : UserspaceGic} (h : FreshReached g) (op : Op) (hv : op.Valid g) (hf : op.Fresh g) :
      FreshReached (g.apply op).1

theorem FreshReached.reached {g : UserspaceGic} (h : FreshReached g) : GicReached g := by
  induction h with
  | new numCpus hpos hle => exact .new numCpus hpos hle
  | step _ op hv _ ih => exact .step ih op hv

section Runs

variable {g : UserspaceGic} {k : Nat}

theorem acknowledge_newest (h : GicReached g) {cpu : Nat} (hcpu : cpu < g.numCpus)
    (hf : ∀ a ∈ undropped (g.ifaces cpu).active, ¬g.ToTake cpu a.intid) (hn : Newest (g.ifaces k).active) :
    Newest ((g.acknowledge cpu).1.ifaces k).active := by
  unfold UserspaceGic.acknowledge
  dsimp only
  split
  · exact hn
  · rename_i hgroup
    have hgroup : (g.ifaces cpu).group1Enabled = true := by simpa using hgroup
    cases hc : g.highestCandidate cpu (g.ifaces cpu).threshold with
    | none => exact hn
    | some c =>
      dsimp only
      by_cases hk : k = cpu
      · subst hk
        rw [setIface_self]
        refine hn.acknowledged fun a ha hid => hf a ha ?_
        rw [hid]
        exact toTake_of_candidate h hcpu hgroup hc
      · rw [setIface_ne _ cpu _ hk, activate_ifaces]
        exact hn

theorem sysregRead_eq {cpu : Nat} {reg : SysReg} {p : UserspaceGic × AccessResult} (h : g.sysregRead cpu reg = some p)
    (hr : reg ≠ .iar1) : p.1 = g := by
  cases reg <;> cases h
  case iar1 => exact absurd rfl hr
  all_goals rfl

theorem sysreg_newest (h : GicReached g) {cpu sysReg : Nat} {isRead : Bool} {value : BitVec 64}
    {p : UserspaceGic × AccessResult} (hcpu : cpu < g.numCpus) (hf : (Op.sysreg cpu sysReg isRead value).Fresh g)
    (hs : g.sysreg cpu sysReg isRead value = some p) (hn : Newest (g.ifaces k).active) :
    Newest (p.1.ifaces k).active := by
  unfold UserspaceGic.sysreg at hs
  split at hs
  · cases hs
  · rename_i reg hreg
    cases isRead with
    | false =>
      obtain ⟨q, hq, rfl⟩ := Option.map_eq_some_iff.mp hs
      exact hn.stays (sysregWrite_stays hq)
    | true =>
      by_cases hiar : reg = .iar1
      · subst hiar
        cases hs
        exact acknowledge_newest h hcpu (hf (sysReg_iar1 hreg)) hn
      · rw [sysregRead_eq hs hiar]
        exact hn

theorem apply_newest (h : GicReached g) {op : Op} (hv : op.Valid g) (hf : op.Fresh g)
    (hn : Newest (g.ifaces k).active) : Newest ((g.apply op).1.ifaces k).active := by
  cases op with
  | setSpi intid level => simpa only [UserspaceGic.apply, setSpi_ifaces] using hn
  | sendMsi address data => simpa only [UserspaceGic.apply, sendMsi_ifaces] using hn
  | setVtimerPpi cpu fired => simpa only [UserspaceGic.apply, setVtimerPpi_ifaces] using hn
  | mmio ipa width write => simpa only [UserspaceGic.apply, mmio_ifaces] using hn
  | sysreg cpu sysReg isRead value =>
    simp only [UserspaceGic.apply]
    cases hs : g.sysreg cpu sysReg isRead value with
    | none => exact hn
    | some p => exact sysreg_newest h hv hf hs hn

theorem reached_newest (h : FreshReached g) (k : Nat) : Newest (g.ifaces k).active := by
  induction h with
  | new numCpus hpos hle => exact .nil
  | step hr op hv hf ih => exact apply_newest hr.reached hv hf ih

/-- **Nesting.** Ends of interrupt in nesting order drop one entry each and leave the running priority idle exactly when
each entry that is not dropped is the newest of its INTID, which runs that acknowledge no running INTID keep. -/
theorem nests_iff (h : GicReached g) (hm : (g.ifaces k).eoiMode = true) :
    (g.Nests k ↔ Newest (g.ifaces k).active) ∧ (FreshReached g → g.Nests k) :=
  ⟨nests_iff_newest h hm, fun hf => (nests_iff_newest h hm).mpr (reached_newest hf k)⟩

end Runs

/-- `ICC_CTLR_EL1.EOImode` of vCPU 0. -/
def setEoiMode : Op := .sysreg 0 0xc664 false 2#64

/-- With EOImode set, SPI 32 is acknowledged at priority 0x80, and over it SPI 33 at priority 0x40. -/
def takeTwoSpis : List Op :=
  [.mmio gicDist.base 4 (some 0x2#64), .sysreg 0 0xc230 false 0xff#64, .sysreg 0 0xc667 false 1#64, setEoiMode,
    .mmio (gicDist.base + 0x84) 4 (some 3#64), .mmio (gicDist.base + 0x104) 4 (some 3#64),
    .mmio (gicDist.base + 0x420) 4 (some 0x4080#64), .mmio (gicDist.base + 0x204) 4 (some 1#64),
    .sysreg 0 iccIar1 true 0, .mmio (gicDist.base + 0x204) 4 (some 2#64), .sysreg 0 iccIar1 true 0]

theorem nests_iff_spis : (oneCpu.run takeTwoSpis).nested 0 = [33, 32] ∧ (oneCpu.run takeTwoSpis).Nests 0 := by
  have hactive : ((oneCpu.run takeTwoSpis).ifaces 0).active = [⟨32, 0x80, false⟩, ⟨33, 0x40, false⟩] := by
    decide +kernel
  refine ⟨by decide +kernel, ?_⟩
  refine (nests_iff (oneCpu_reached.run takeTwoSpis (by decide)) (by decide +kernel)).1.mpr ?_
  rw [hactive]
  simp [Newest]

/-- With EOImode set, SPI 32 is acknowledged at priority 0x80, deactivated at `GICD_ICACTIVER` and acknowledged again at
priority 0x40. -/
def takeSpiTwice : List Op :=
  [.mmio gicDist.base 4 (some 0x2#64), .sysreg 0 0xc230 false 0xff#64, .sysreg 0 0xc667 false 1#64, setEoiMode,
    .mmio (gicDist.base + 0x84) 4 (some 1#64), .mmio (gicDist.base + 0x104) 4 (some 1#64),
    .mmio (gicDist.base + 0x420) 4 (some 0x80#64), .mmio (gicDist.base + 0x204) 4 (some 1#64),
    .sysreg 0 iccIar1 true 0, .mmio (gicDist.base + 0x384) 4 (some 1#64), .mmio (gicDist.base + 0x420) 4 (some 0x40#64),
    .mmio (gicDist.base + 0x204) 4 (some 1#64), .sysreg 0 iccIar1 true 0]

/-- Two ends of interrupt for the two entries of SPI 32 leave the older one running. -/
theorem spi_twice_keeps_running :
    (oneCpu.run takeSpiTwice).nested 0 = [32, 32] ∧
      ((oneCpu.run (takeSpiTwice ++ [eoir 0 32, eoir 0 32])).ifaces 0).active =
        [⟨32, 0x80, false⟩, ⟨32, 0x40, true⟩] ∧
      ¬ ∀ (g : UserspaceGic) (k : Nat), GicReached g → k < g.numCpus → (g.ifaces k).eoiMode = true →
      g.Nests k := by
  refine ⟨by decide +kernel, by decide +kernel, fun hall => ?_⟩
  have hidle := (hall (oneCpu.run takeSpiTwice) 0 (oneCpu_reached.run takeSpiTwice (by decide)) (by decide +kernel)
    (by decide +kernel)).idle
  exact absurd hidle (by decide +kernel)

end BridgeVm.Gic
