import BridgeVm.Lib.Counting
import BridgeVm.UserspaceGic.CachedLine

/-!
# The active lists of the userspace GICv3

- what an operation does to the acknowledged interrupts of a vCPU (`apply_active`): it retires or drops some, or
  acknowledges one of a priority below the running one;
- so those that are not dropped have strictly decreasing group priorities, and every list is bounded (`active_bounded`).
-/

namespace BridgeVm.Gic

open Machine Lib
open List (SublistForall₂)

/-- The states a run reaches, from power-on. -/
inductive GicReached : UserspaceGic → Prop
  | new (numCpus : Nat) (hpos : 1 ≤ numCpus) (hle : numCpus ≤ 16) : GicReached (.new numCpus hpos hle)
  | step {g : UserspaceGic} (h : GicReached g) (op : Op) (hv : op.Valid g) : GicReached (g.apply op).1

/-! ## Group priorities -/

/-- The group priorities of the entries that are not dropped, oldest first. -/
def groupPriorities (l : List ActiveInterrupt) : List Nat :=
  (l.filter fun a => !a.priorityDropped).map fun a => a.priority &&& 0xfe

/-- An entry that stays: its priority may be dropped. -/
def Stays (a' a : ActiveInterrupt) : Prop :=
  a'.intid = a.intid ∧ a'.priority = a.priority ∧ (a.priorityDropped = true → a'.priorityDropped = true)

theorem Stays.refl (a : ActiveInterrupt) : Stays a a := ⟨rfl, rfl, id⟩

theorem groupPriorities_eq (l : List ActiveInterrupt) :
    groupPriorities l = l.filterMap fun a => if a.priorityDropped then none else some (a.priority &&& 0xfe) := by
  induction l with
  | nil => rfl
  | cons a l ih =>
    unfold groupPriorities at ih ⊢
    cases hd : a.priorityDropped with
    | true => simpa [hd] using ih
    | false => simpa [hd] using ih

theorem groupPriorities_sublist {l l' : List ActiveInterrupt} (h : SublistForall₂ Stays l' l) :
    (groupPriorities l').Sublist (groupPriorities l) := by
  rw [groupPriorities_eq, groupPriorities_eq]
  refine filterMap_sublist (fun a' a hr => ?_) h
  obtain ⟨-, hp, hd⟩ := hr
  cases ha' : a'.priorityDropped with
  | true => exact Or.inl (by simp)
  | false =>
    have ha : a.priorityDropped = false := by
      cases h : a.priorityDropped with
      | false => rfl
      | true => rw [hd h] at ha'; cases ha'
    exact Or.inr (by simp [ha, hp])

theorem groupPriorities_append (l : List ActiveInterrupt) (intid priority : Nat) :
    groupPriorities (l ++ [⟨intid, priority, false⟩]) = groupPriorities l ++ [priority &&& 0xfe] := by
  simp [groupPriorities]

theorem groupPriorities_lt (l : List ActiveInterrupt) : ∀ p ∈ groupPriorities l, p ≤ 0xfe := by
  intro p hp
  obtain ⟨a, -, rfl⟩ := List.mem_map.mp hp
  exact Nat.and_le_right

theorem runningPriority_eq (i : CpuInterface) : i.runningPriority = (groupPriorities i.active).min?.getD 0xff := rfl

theorem runningPriority_le {i : CpuInterface} {p : Nat} (hp : p ∈ groupPriorities i.active) :
    i.runningPriority ≤ p := by
  rw [runningPriority_eq]
  cases hm : (groupPriorities i.active).min? with
  | none => rw [List.min?_eq_none_iff.mp hm] at hp; cases hp
  | some m => exact (List.min?_eq_some_iff.mp hm).2 p hp

theorem runningPriority_mem (i : CpuInterface) :
    (i.runningPriority = 0xff ∧ groupPriorities i.active = []) ∨
    i.runningPriority ∈ groupPriorities i.active := by
  rw [runningPriority_eq]
  cases hm : (groupPriorities i.active).min? with
  | none => exact Or.inl ⟨rfl, List.min?_eq_none_iff.mp hm⟩
  | some m => exact Or.inr (List.min?_eq_some_iff.mp hm).1

theorem runningPriority_le_idle (i : CpuInterface) : i.runningPriority ≤ 0xff := by
  rcases runningPriority_mem i with ⟨h, -⟩ | h
  · exact h.le
  · exact (groupPriorities_lt _ _ h).trans (by omega)

theorem threshold_le (i : CpuInterface) : i.threshold ≤ i.runningPriority := by
  unfold CpuInterface.threshold
  dsimp only
  split
  · rename_i h
    rw [h]
    exact Nat.min_le_right _ _
  · exact (Nat.min_le_right _ _).trans Nat.and_le_left

/-! ## What an operation does to an active list -/

theorem stays_refl (l : List ActiveInterrupt) : SublistForall₂ Stays l l :=
  sublistForall₂_of_sublist Stays.refl (List.Sublist.refl l)

theorem stays_trans {l₁ l₂ l₃ : List ActiveInterrupt} (h₁ : SublistForall₂ Stays l₁ l₂)
    (h₂ : SublistForall₂ Stays l₂ l₃) :
    SublistForall₂ Stays l₁ l₃ := by
  have htrans : IsTrans ActiveInterrupt Stays :=
    ⟨fun _ _ _ h h' => ⟨h.1.trans h'.1, h.2.1.trans h'.2.1, fun hd => h.2.2 (h'.2.2 hd)⟩⟩
  exact List.SublistForall₂.is_trans.trans _ _ _ h₁ h₂

theorem dropNewest_stays (intid : Nat) : ∀ l : List ActiveInterrupt, SublistForall₂ Stays (dropNewest intid l) l
  | [] => .nil
  | a :: l => by
    unfold dropNewest
    split
    · exact .cons (Stays.refl a) (dropNewest_stays intid l)
    · split
      · exact .cons ⟨rfl, rfl, fun _ => rfl⟩ (stays_refl l)
      · exact .cons (Stays.refl a) (stays_refl l)

theorem removeNewest_sublist (intid : Nat) : ∀ l : List ActiveInterrupt, (removeNewest intid l).Sublist l
  | [] => .slnil
  | a :: l => by
    unfold removeNewest
    split
    · exact (removeNewest_sublist intid l).cons_cons a
    · split
      · exact List.sublist_cons_self a l
      · exact List.Sublist.refl _

theorem writeActivePriorities_stays (i : CpuInterface) (group1 : Bool) (n : Nat) (value : BitVec 64) :
    SublistForall₂ Stays (i.writeActivePriorities group1 n value).1.active i.active := by
  refine sublistForall₂_map _ (fun a => ?_) i.active
  split
  · exact ⟨rfl, rfl, fun _ => rfl⟩
  · exact Stays.refl a

/-- The list after an acknowledgement: retired entries of the INTID leave, the new entry comes last. -/
def acknowledged (l : List ActiveInterrupt) (c : PendingCandidate) : List ActiveInterrupt :=
  (l.filter fun e => !(e.priorityDropped && e.intid == c.intid)) ++ [⟨c.intid, c.priority, false⟩]

/-- What an operation does to the active list of an interface. -/
inductive ActiveChange (i : CpuInterface) (l' : List ActiveInterrupt) : Prop
  | stays (h : SublistForall₂ Stays l' i.active)
  | acknowledged (c : PendingCandidate) (hid : c.intid < gicIntidCount) (hp : c.priority < i.threshold)
      (hl : l' = acknowledged i.active c)

theorem ActiveChange.same {i : CpuInterface} {l' : List ActiveInterrupt} (h : l' = i.active) : ActiveChange i l' :=
  .stays (h ▸ stays_refl _)

section Steps

variable {g : UserspaceGic} {k : Nat}

/-- A candidate has an INTID of the controller and a priority below the threshold. -/
theorem highestCandidate_lt {cpu thr : Nat} {c : PendingCandidate} (h : g.highestCandidate cpu thr = some c) :
    c.intid < gicIntidCount ∧ c.priority < thr := by
  unfold UserspaceGic.highestCandidate at h
  split at h
  · cases h
  · have hmem := List.argmin_mem h
    simp only [List.mem_filterMap, List.mem_cons, List.not_mem_nil, or_false, id_eq, exists_eq_or_imp,
      exists_eq_left] at hmem
    rcases hmem with hloc | hspi
    · have := List.argmin_mem (Option.mem_def.mpr hloc)
      simp only [List.mem_filterMap, List.mem_range] at this
      obtain ⟨i, hlt, hci⟩ := this
      split at hci
      · cases hci
      · split at hci
        · rename_i hp
          cases hci
          exact ⟨by unfold gicIntidCount; dsimp only; omega, hp⟩
        · cases hci
    · have := List.argmin_mem (Option.mem_def.mpr hspi)
      simp only [List.mem_filterMap, List.mem_range'_1] at this
      obtain ⟨i, ⟨-, hlt⟩, hci⟩ := this
      split at hci
      · cases hci
      · split at hci
        · cases hci
        · split at hci
          · rename_i hp
            cases hci
            exact ⟨by unfold spiBase gicIntidCount at hlt; unfold gicIntidCount; dsimp only; omega, hp⟩
          · cases hci

theorem distBankedMmio_ifaces {offset width : Nat} {write : Option (BitVec 64)} {p : UserspaceGic × AccessResult}
    (h : g.distBankedMmio offset width write = some p) : p.1.ifaces = g.ifaces := by
  unfold UserspaceGic.distBankedMmio at h
  split at h
  · cases write <;> cases h <;> rfl
  · split at h
    · unfold UserspaceGic.distPriorityAccess at h
      obtain ⟨q, -, rfl⟩ := Option.map_eq_some_iff.mp h
      rfl
    · obtain ⟨row, -, hrow⟩ := List.exists_of_findSome?_eq_some h
      obtain ⟨index, -, rfl⟩ := Option.map_eq_some_iff.mp hrow
      cases write <;> rfl

theorem distMmio_ifaces (offset width : Nat) (write : Option (BitVec 64)) :
    (g.distMmio offset width write).1.ifaces = g.ifaces := by
  have hbank : ∀ w, ((g.distBankedMmio offset width w).getD (g, ⟨0, 0⟩)).1.ifaces = g.ifaces := by
    intro w
    cases hb : g.distBankedMmio offset width w with
    | none => rfl
    | some p => exact distBankedMmio_ifaces hb
  unfold UserspaceGic.distMmio
  cases DistReg.ofOffset offset with
  | ctlr => cases write <;> rfl
  | statusr => rfl
  | other => exact hbank _
  | typer | iidr | pidr2 =>
    cases write with
    | none => rfl
    | some value => exact hbank _

theorem redistMmio_ifaces (cpu offset width : Nat) (write : Option (BitVec 64)) :
    (g.redistMmio cpu offset width write).1.ifaces = g.ifaces := by
  unfold UserspaceGic.redistMmio
  cases RedistReg.ofOffset offset with
  | other =>
    dsimp only
    split
    · cases hp : g.redistPriorityAccess cpu offset width write with
      | none => rfl
      | some p =>
        obtain ⟨q, -, rfl⟩ := Option.map_eq_some_iff.mp hp
        rfl
    · rfl
  | _ => cases write <;> rfl

theorem sendMsi_ifaces (address data : Nat) : (g.sendMsi address data).1.ifaces = g.ifaces := by
  unfold UserspaceGic.sendMsi
  split_ifs <;> rfl

theorem msiFrameMmio_ifaces (offset : Nat) (write : Option (BitVec 64)) :
    (g.msiFrameMmio offset write).1.ifaces = g.ifaces := by
  unfold UserspaceGic.msiFrameMmio
  cases write with
  | some value =>
    dsimp only
    split
    · exact sendMsi_ifaces _ _
    · rfl
  | none =>
    dsimp only
    split_ifs <;> rfl

theorem mmio_ifaces (ipa width : Nat) (write : Option (BitVec 64)) : (g.mmio ipa width write).1.ifaces = g.ifaces := by
  cases hd : gicDist.contains ipa with
  | true =>
    rw [UserspaceGic.mmio, if_pos hd]
    exact distMmio_ifaces _ _ _
  | false =>
    cases hr : gicRedist.contains ipa with
    | true =>
      rw [mmio_redist hd hr]
      split
      · exact redistMmio_ifaces _ _ _ _
      · rfl
    | false =>
      simp only [UserspaceGic.mmio, hd, hr, Bool.false_eq_true, if_false]
      split
      · exact msiFrameMmio_ifaces _ _
      · rfl

theorem setSpi_ifaces (intid : Nat) (level : Bool) : (g.setSpi intid level).1.ifaces = g.ifaces := by
  unfold UserspaceGic.setSpi
  dsimp only
  split_ifs <;> rfl

theorem setVtimerPpi_ifaces (cpu : Nat) (fired : Bool) : (g.setVtimerPpi cpu fired).1.ifaces = g.ifaces := by
  unfold UserspaceGic.setVtimerPpi
  dsimp only
  split_ifs <;> rfl

theorem raiseSgis_ifaces (intid cpu : Nat) (irm : Bool) (targets : List Nat) (m : BitVec 64) :
    (UserspaceGic.raiseSgis intid cpu irm targets g m).1.ifaces = g.ifaces := by
  induction targets generalizing g m with
  | nil => rfl
  | cons target rest ih =>
    unfold UserspaceGic.raiseSgis
    split
    · exact ih m
    · exact ih _

theorem setIface_stays {cpu : Nat} {f : CpuInterface} (h : SublistForall₂ Stays f.active (g.ifaces cpu).active) :
    SublistForall₂ Stays ((g.setIface cpu f).ifaces k).active (g.ifaces k).active := by
  by_cases hk : k = cpu
  · subst hk
    rw [setIface_self]
    exact h
  · rw [setIface_ne g cpu f hk]
    exact stays_refl _

theorem activate_ifaces (cpu intid : Nat) : (g.activate cpu intid).ifaces = g.ifaces := by
  unfold UserspaceGic.activate
  split <;> rfl

theorem acknowledge_active (cpu : Nat) : ActiveChange (g.ifaces k) ((g.acknowledge cpu).1.ifaces k).active := by
  unfold UserspaceGic.acknowledge
  dsimp only
  split
  · exact .same rfl
  · cases hc : g.highestCandidate cpu (g.ifaces cpu).threshold with
    | none => exact .same rfl
    | some c =>
      obtain ⟨hid, hp⟩ := highestCandidate_lt hc
      dsimp only
      by_cases hk : k = cpu
      · subst hk
        rw [setIface_self]
        exact .acknowledged c hid hp rfl
      · rw [setIface_ne _ cpu _ hk, activate_ifaces]
        exact .same rfl

theorem clearActive_ifaces (cpu intid : Nat) : (g.clearActive cpu intid).ifaces = g.ifaces := by
  unfold UserspaceGic.clearActive
  split_ifs <;> rfl

theorem deactivate_stays (cpu intid : Nat) :
    SublistForall₂ Stays ((g.deactivate cpu intid).1.ifaces k).active (g.ifaces k).active := by
  unfold UserspaceGic.deactivate
  dsimp only
  rw [clearActive_ifaces]
  exact setIface_stays (sublistForall₂_of_sublist Stays.refl (removeNewest_sublist intid _))

theorem priorityDrop_stays (cpu intid : Nat) :
    SublistForall₂ Stays ((g.priorityDrop cpu intid).ifaces k).active (g.ifaces k).active :=
  setIface_stays (dropNewest_stays intid _)

theorem sysregRead_active {cpu : Nat} {reg : SysReg} {p : UserspaceGic × AccessResult}
    (h : g.sysregRead cpu reg = some p) : ActiveChange (g.ifaces k) (p.1.ifaces k).active := by
  cases reg <;> cases h
  case iar1 => exact acknowledge_active cpu
  all_goals exact .same rfl

theorem sysregWrite_stays {cpu : Nat} {reg : SysReg} {value : BitVec 64} {p : UserspaceGic × BitVec 64}
    (h : g.sysregWrite cpu reg value = some p) : SublistForall₂ Stays (p.1.ifaces k).active (g.ifaces k).active := by
  cases sysregWrite_cases h with
  | ignored => exact stays_refl _
  | setting iface kick hactive =>
    refine setIface_stays ?_
    rw [hactive]
    exact stays_refl _
  | drop intid => exact priorityDrop_stays cpu intid
  | dropDeactivate intid => exact stays_trans (deactivate_stays cpu intid) (priorityDrop_stays cpu intid)
  | deactivate intid => exact deactivate_stays cpu intid
  | sgis intid irm targets =>
    rw [raiseSgis_ifaces]
    exact stays_refl _
  | apr group1 n value kick => exact setIface_stays (writeActivePriorities_stays _ _ _ _)

theorem apply_active (op : Op) : ActiveChange (g.ifaces k) ((g.apply op).1.ifaces k).active := by
  cases op with
  | setSpi intid level => exact .same (by simp only [UserspaceGic.apply, setSpi_ifaces])
  | sendMsi address data => exact .same (by simp only [UserspaceGic.apply, sendMsi_ifaces])
  | setVtimerPpi cpu fired => exact .same (by simp only [UserspaceGic.apply, setVtimerPpi_ifaces])
  | mmio ipa width write => exact .same (by simp only [UserspaceGic.apply, mmio_ifaces])
  | sysreg cpu sysReg isRead value =>
    simp only [UserspaceGic.apply]
    cases hs : g.sysreg cpu sysReg isRead value with
    | none => exact .same rfl
    | some p =>
      unfold UserspaceGic.sysreg at hs
      split at hs
      · cases hs
      · split at hs
        · exact sysregRead_active hs
        · obtain ⟨q, hq, rfl⟩ := Option.map_eq_some_iff.mp hs
          exact .stays (sysregWrite_stays hq)

end Steps

/-! ## The invariant of active lists -/

structure ActiveOk (l : List ActiveInterrupt) : Prop where
  /-- Each acknowledgement preempted what was running. -/
  decreasing : (groupPriorities l).Pairwise (· > ·)
  intid_lt : ∀ a ∈ l, a.intid < gicIntidCount
  priority_lt : ∀ a ∈ l, a.priority < 256
  perIntid : ∀ i, l.countP (fun a => decide (a.intid = i)) ≤ 128

theorem ActiveOk.nil : ActiveOk [] := ⟨List.Pairwise.nil, by simp, by simp, by simp⟩

theorem length_groupPriorities_le {l : List ActiveInterrupt} (h : (groupPriorities l).Pairwise (· > ·)) :
    (groupPriorities l).length ≤ 128 := by
  have heven : ∀ p ∈ groupPriorities l, p % 2 = 0 := by
    intro p hp
    obtain ⟨a, -, rfl⟩ := List.mem_map.mp hp
    rw [← Nat.and_one_is_mod, Nat.and_assoc]
    exact Nat.and_zero _
  have hhalf : ((groupPriorities l).map (· / 2)).Pairwise (· > ·) := by
    rw [List.pairwise_map]
    refine h.imp_of_mem fun {a b} ha hb hab => ?_
    have := heven a ha
    have := heven b hb
    have : a > b := hab
    show a / 2 > b / 2
    omega
  have hlen := length_le_of_decreasing hhalf (n := 128) fun p hp => by
    obtain ⟨q, hq, rfl⟩ := List.mem_map.mp hp
    have := groupPriorities_lt l q hq
    omega
  rwa [List.length_map] at hlen

theorem ActiveOk.stays {l l' : List ActiveInterrupt} (h : ActiveOk l) (hs : SublistForall₂ Stays l' l) :
    ActiveOk l' where
  decreasing := h.decreasing.sublist (groupPriorities_sublist hs)
  intid_lt a' ha' := by
    obtain ⟨a, ha, hr⟩ := exists_of_sublistForall₂ hs a' ha'
    rw [hr.1]
    exact h.intid_lt a ha
  priority_lt a' ha' := by
    obtain ⟨a, ha, hr⟩ := exists_of_sublistForall₂ hs a' ha'
    rw [hr.2.1]
    exact h.priority_lt a ha
  perIntid i := by
    refine (countP_le_of_sublistForall₂ (fun a' a hr ha' => ?_) hs).trans (h.perIntid i)
    rwa [hr.1] at ha'

theorem countP_acknowledged_le (l : List ActiveInterrupt) (c : PendingCandidate) :
    (acknowledged l c).countP (fun a => decide (a.intid = c.intid)) ≤
      (groupPriorities (acknowledged l c)).length := by
  unfold groupPriorities
  rw [List.length_map, ← List.countP_eq_length_filter]
  refine List.countP_mono_left fun a ha hid => ?_
  rcases List.mem_append.mp ha with ha | ha
  · have hkeep := (List.mem_filter.mp ha).2
    simp only [Bool.not_and, Bool.or_eq_true, Bool.not_eq_true', beq_eq_false_iff_ne, ne_eq,
      decide_eq_true_eq] at hkeep hid ⊢
    rcases hkeep with hkeep | hkeep
    · exact hkeep
    · exact absurd hid hkeep
  · rw [List.mem_singleton.mp ha]
    rfl

theorem groupPriorities_acknowledged (l : List ActiveInterrupt) (c : PendingCandidate) :
    groupPriorities (acknowledged l c) = groupPriorities l ++ [c.priority &&& 0xfe] := by
  unfold acknowledged
  rw [groupPriorities_append]
  congr 1
  unfold groupPriorities
  rw [List.filter_filter]
  congr 1
  refine List.filter_congr fun a _ => ?_
  cases a.priorityDropped <;> simp

/-- An acknowledgement keeps the invariant. -/
theorem ActiveOk.acknowledged {i : CpuInterface} {c : PendingCandidate} (h : ActiveOk i.active)
    (hid : c.intid < gicIntidCount) (hp : c.priority < i.threshold) : ActiveOk (acknowledged i.active c) := by
  have hrun : c.priority < i.runningPriority := hp.trans_le (threshold_le i)
  have hdec : (groupPriorities (Gic.acknowledged i.active c)).Pairwise (· > ·) := by
    rw [groupPriorities_acknowledged, List.pairwise_append]
    refine ⟨h.decreasing, List.pairwise_singleton _ _, fun p hp q hq => ?_⟩
    rw [List.mem_singleton.mp hq]
    have h₁ := runningPriority_le hp
    have h₂ : c.priority &&& 0xfe ≤ c.priority := Nat.and_le_left
    show p > c.priority &&& 0xfe
    omega
  have hmem : ∀ a ∈ Gic.acknowledged i.active c, a ∈ i.active ∨ a = ⟨c.intid, c.priority, false⟩ := by
    intro a ha
    rcases List.mem_append.mp ha with ha | ha
    · exact Or.inl (List.mem_filter.mp ha).1
    · exact Or.inr (List.mem_singleton.mp ha)
  refine ⟨hdec, fun a ha => ?_, fun a ha => ?_, fun j => ?_⟩
  · rcases hmem a ha with ha | rfl
    · exact h.intid_lt a ha
    · exact hid
  · rcases hmem a ha with ha | rfl
    · exact h.priority_lt a ha
    · have := runningPriority_le_idle i
      dsimp only
      omega
  · by_cases hj : j = c.intid
    · subst hj
      exact (countP_acknowledged_le _ c).trans (length_groupPriorities_le hdec)
    · have hnew : List.countP (fun a => decide (a.intid = j)) [(⟨c.intid, c.priority, false⟩ : ActiveInterrupt)] =
        0 := by
        simp [Ne.symm hj]
      unfold Gic.acknowledged
      rw [List.countP_append, hnew, Nat.add_zero]
      exact (List.filter_sublist.countP_le).trans (h.perIntid j)

theorem ActiveChange.keeps {i : CpuInterface} {l' : List ActiveInterrupt} (hc : ActiveChange i l')
    (h : ActiveOk i.active) : ActiveOk l' := by
  cases hc with
  | stays hs => exact h.stays hs
  | acknowledged c hid hp hl =>
    rw [hl]
    exact h.acknowledged hid hp

theorem reached_activeOk {g : UserspaceGic} (h : GicReached g) (k : Nat) : ActiveOk (g.ifaces k).active := by
  induction h with
  | new numCpus hpos hle => exact ActiveOk.nil
  | step _ op _ ih => exact (apply_active op).keeps ih

/-- **Active lists are bounded.** The entries that are not dropped have strictly decreasing group priorities, so there
are at most 128, and a whole list holds at most 128 entries for each INTID. -/
theorem active_bounded {g : UserspaceGic} (h : GicReached g) (k : Nat) :
    (groupPriorities (g.ifaces k).active).Pairwise (· > ·) ∧
      ((g.ifaces k).active.filter fun a => !a.priorityDropped).length ≤ 128 ∧
      (g.ifaces k).active.length ≤ gicIntidCount * 128 := by
  have hok := reached_activeOk h k
  refine ⟨hok.decreasing, ?_, length_le_mul (fun a => a.intid) hok.intid_lt hok.perIntid⟩
  have hlen := length_groupPriorities_le hok.decreasing
  unfold groupPriorities at hlen
  rwa [List.length_map] at hlen

/-- The state after operations, one after the other. -/
def UserspaceGic.run (g : UserspaceGic) (ops : List Op) : UserspaceGic := ops.foldl (fun g op => (g.apply op).1) g

theorem Op.Valid.of_numCpus {g g' : UserspaceGic} {op : Op} (h : op.Valid g) (hn : g'.numCpus = g.numCpus) :
    op.Valid g' := by
  cases op with
  | setVtimerPpi cpu fired => exact Nat.lt_of_lt_of_eq h hn.symm
  | sysreg cpu sysReg isRead value => exact Nat.lt_of_lt_of_eq h hn.symm
  | _ => trivial

theorem GicReached.run {g : UserspaceGic} (h : GicReached g) (ops : List Op) (hv : ∀ op ∈ ops, op.Valid g) :
    GicReached (g.run ops) := by
  induction ops generalizing g with
  | nil => exact h
  | cons op ops ih =>
    refine ih (h.step op (hv op List.mem_cons_self)) fun op' hop' => ?_
    exact (hv op' (List.mem_cons_of_mem _ hop')).of_numCpus (apply_numCpus g op)

/-- A machine of one vCPU. -/
def oneCpu : UserspaceGic := .new 1 (by decide) (by decide)

/-- SGI 0 is enabled, made pending and acknowledged. -/
def takeSgi : List Op := enableSgi ++ [pendSgi, .sysreg 0 0xc660 true 0]

theorem oneCpu_reached : GicReached oneCpu := GicReached.new 1 _ _

theorem takeSgi_reached : GicReached (oneCpu.run takeSgi) := oneCpu_reached.run takeSgi (by decide)

/-- After an acknowledgement the list holds its entry. -/
theorem active_bounded_takeSgi :
    ((oneCpu.run takeSgi).ifaces 0).active = [⟨0, 0, false⟩] ∧
      ((oneCpu.run takeSgi).ifaces 0).active.length ≤ gicIntidCount * 128 :=
  ⟨by decide +kernel, (active_bounded takeSgi_reached 0).2.2⟩

end BridgeVm.Gic
