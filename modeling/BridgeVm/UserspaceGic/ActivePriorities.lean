import BridgeVm.UserspaceGic.ActiveList

/-!
# The active priorities registers of the userspace GICv3 (`active_priority.rs`)

The registers are computed from the active list: a bit for each group priority that is not dropped. Its lowest bit is
the running priority, and writing back what was read drops nothing.
-/

namespace BridgeVm.Gic

open Machine Lib

/-- Encoding of `ICC_AP1R0_EL1`; the other three follow. -/
def iccAp1r0 : Nat := 0xc648

/-- What vCPU `k` reads from `ICC_AP1Rn_EL1`. -/
def UserspaceGic.ap1r (g : UserspaceGic) (k : Nat) (n : Fin 4) : BitVec 64 := (g.ifaces k).activePriorities true n

/-- Bit `b` of the four registers, taken as 128 bits. -/
def UserspaceGic.ap1rBit (g : UserspaceGic) (k : Nat) (b : Fin 128) : Bool :=
  (g.ap1r k ⟨b / 32, by omega⟩).getLsbD (b % 32)

section Bits

variable {i : CpuInterface}

theorem getLsbD_foldl_bits (l : List Nat) (w : BitVec 64) (j : Nat) :
    (l.foldl (fun word bit => word ||| (1#64 <<< (bit % 32))) w).getLsbD j =
      (w.getLsbD j || l.any fun bit => decide (j = bit % 32)) := by
  induction l generalizing w with
  | nil => simp
  | cons bit l ih =>
    rw [List.foldl_cons, ih, getLsbD_or_shiftLeft_one w (by omega), List.any_cons, Bool.or_assoc]

theorem activePriorities_bit (n j : Nat) :
    (i.activePriorities true n).getLsbD j = true ↔
      ∃ a ∈ i.active, a.priorityDropped = false ∧ a.priority >>> 1 / 32 = n ∧ j = a.priority >>> 1 % 32 := by
  unfold CpuInterface.activePriorities
  have hzero : (0 : BitVec 64).getLsbD j = false := BitVec.getLsbD_zero
  rw [if_neg (by decide), getLsbD_foldl_bits, hzero, Bool.false_or]
  simp only [List.any_eq_true, List.mem_filter, List.mem_map, beq_iff_eq,
    decide_eq_true_eq, Bool.not_eq_true']
  constructor
  · rintro ⟨_, ⟨⟨a, ⟨ha, hd⟩, rfl⟩, hn⟩, hj⟩
    exact ⟨a, ha, hd, hn, hj⟩
  · rintro ⟨a, ha, hd, hn, hj⟩
    exact ⟨_, ⟨⟨a, ⟨ha, hd⟩, rfl⟩, hn⟩, hj⟩

theorem groupPriority_half {p : Nat} (hp : p < 256) : (p &&& 0xfe) >>> 1 = p >>> 1 ∧ p >>> 1 < 128 := by
  have hall : ∀ p < 256, (p &&& 0xfe) >>> 1 = p >>> 1 ∧ p >>> 1 < 128 := by decide +kernel
  exact hall p hp

theorem mem_groupPriorities {l : List ActiveInterrupt} {p : Nat} :
    p ∈ groupPriorities l ↔ ∃ a ∈ l, a.priorityDropped = false ∧ a.priority &&& 0xfe = p := by
  unfold groupPriorities
  simp only [List.mem_map, List.mem_filter, Bool.not_eq_true']
  constructor
  · rintro ⟨a, ⟨ha, hd⟩, rfl⟩
    exact ⟨a, ha, hd, rfl⟩
  · rintro ⟨a, ha, hd, rfl⟩
    exact ⟨a, ⟨ha, hd⟩, rfl⟩

end Bits

section Coherence

variable {g : UserspaceGic} {k : Nat}

theorem ap1rBit_iff (hok : ActiveOk (g.ifaces k).active) (b : Fin 128) :
    g.ap1rBit k b = true ↔ ∃ p ∈ groupPriorities (g.ifaces k).active, p >>> 1 = b := by
  unfold UserspaceGic.ap1rBit UserspaceGic.ap1r
  rw [activePriorities_bit]
  constructor
  · rintro ⟨a, ha, hd, hn, hj⟩
    refine ⟨_, mem_groupPriorities.mpr ⟨a, ha, hd, rfl⟩, ?_⟩
    rw [(groupPriority_half (hok.priority_lt a ha)).1]
    dsimp only at hn
    omega
  · rintro ⟨p, hp, hb⟩
    obtain ⟨a, ha, hd, rfl⟩ := mem_groupPriorities.mp hp
    rw [(groupPriority_half (hok.priority_lt a ha)).1] at hb
    exact ⟨a, ha, hd, by dsimp only; omega, by omega⟩

theorem ap1r_zero_iff (hok : ActiveOk (g.ifaces k).active) :
    (∀ n, g.ap1r k n = 0) ↔ (g.ifaces k).runningPriority = 0xff := by
  constructor
  · intro hzero
    rcases runningPriority_mem (g.ifaces k) with ⟨h, -⟩ | h
    · exact h
    · have hle := groupPriorities_lt _ _ h
      have hbit := (ap1rBit_iff hok ⟨(g.ifaces k).runningPriority >>> 1, by
        rw [Nat.shiftRight_eq_div_pow]; omega⟩).mpr ⟨_, h, rfl⟩
      unfold UserspaceGic.ap1rBit at hbit
      rw [hzero] at hbit
      exact absurd hbit (by simp)
  · intro hidle n
    rcases runningPriority_mem (g.ifaces k) with ⟨-, hnil⟩ | h
    · have hempty : ((g.ifaces k).active.filter fun a => !a.priorityDropped) = [] := List.map_eq_nil_iff.mp hnil
      unfold UserspaceGic.ap1r CpuInterface.activePriorities
      rw [if_neg (by decide), hempty]
      rfl
    · have := groupPriorities_lt _ _ h
      omega

theorem ap1r_lowest (hok : ActiveOk (g.ifaces k).active) (b : Fin 128) (hb : g.ap1rBit k b = true)
    (hmin : ∀ b', g.ap1rBit k b' = true → b ≤ b') : b = (g.ifaces k).runningPriority >>> 1 := by
  obtain ⟨p, hp, hpb⟩ := (ap1rBit_iff hok b).mp hb
  have hle := runningPriority_le hp
  rcases runningPriority_mem (g.ifaces k) with ⟨-, hnil⟩ | h
  · rw [hnil] at hp
    cases hp
  · have hlt := groupPriorities_lt _ _ h
    have hrun : (g.ifaces k).runningPriority >>> 1 < 128 := by
      rw [Nat.shiftRight_eq_div_pow]
      omega
    have hge := hmin ⟨_, hrun⟩ ((ap1rBit_iff hok _).mpr ⟨_, h, rfl⟩)
    rw [Fin.le_def] at hge
    dsimp only at hge
    rw [Nat.shiftRight_eq_div_pow] at hpb hge ⊢
    omega

/-- A register written back with what it reads drops nothing. -/
theorem writeActivePriorities_self (i : CpuInterface) (n : Nat) :
    i.writeActivePriorities true n (i.activePriorities true n) = (i, false) := by
  have hkeep : ∀ a ∈ i.active, a.droppedBy true n (i.activePriorities true n) = false := by
    intro a ha
    unfold ActiveInterrupt.droppedBy
    dsimp only
    cases hd : a.priorityDropped with
    | true => rfl
    | false =>
      by_cases hn : a.priority >>> 1 / 32 = n
      · have hbit := (activePriorities_bit (i := i) n (a.priority >>> 1 % 32)).mpr ⟨a, ha, hd, hn, rfl⟩
        rw [← and_shiftLeft_one_bne_zero _ (by omega), bne_iff_ne] at hbit
        have hne : (i.activePriorities true n &&& (1#64 <<< (a.priority >>> 1 % 32)) == 0) = false :=
          beq_eq_false_iff_ne.mpr hbit
        rw [hne, Bool.and_false, Bool.and_false]
      · simp [hn]
  unfold CpuInterface.writeActivePriorities
  have hmap : (i.active.map fun a =>
      if a.droppedBy true n (i.activePriorities true n) then { a with priorityDropped := true } else a) = i.active := by
    refine (List.map_congr_left fun a ha => ?_).trans (List.map_id _)
    rw [hkeep a ha]
    rfl
  rw [hmap, Prod.mk.injEq]
  refine ⟨rfl, ?_⟩
  rw [List.any_eq_false]
  intro a ha
  simp [hkeep a ha]

theorem sysreg_read_ap1r (g : UserspaceGic) (k : Nat) (n : Fin 4) :
    g.sysreg k (iccAp1r0 + n) true 0 = some (g, ⟨g.ap1r k n, 0⟩) := by
  match n with
  | 0 | 1 | 2 | 3 => rfl

theorem sysreg_write_ap1r (g : UserspaceGic) (k : Nat) (n : Fin 4) (value : BitVec 64) :
    g.sysreg k (iccAp1r0 + n) false value =
      some (g.setIface k ((g.ifaces k).writeActivePriorities true n value).1,
        ⟨0, if ((g.ifaces k).writeActivePriorities true n value).2 then kickMaskFor k else 0⟩) := by
  match n with
  | 0 | 1 | 2 | 3 => rfl

theorem apply_write_back (g : UserspaceGic) (k : Nat) (n : Fin 4) :
    g.apply (.sysreg k (iccAp1r0 + n) false (g.ap1r k n)) = (g, 0) := by
  have hself : g.setIface k (g.ifaces k) = g := by
    unfold UserspaceGic.setIface
    rw [Function.update_eq_self]
  simp only [UserspaceGic.apply, sysreg_write_ap1r, UserspaceGic.ap1r, writeActivePriorities_self]
  rw [hself]
  rfl

/-- **The active priorities registers agree with the running priority.** Their lowest bit is the running priority's; all
four are zero exactly when it is idle; and a guest that writes back what it read, in any order, changes nothing. -/
theorem active_priorities_coherent (h : GicReached g) (k : Nat) :
    (∀ n : Fin 4, g.sysreg k (iccAp1r0 + n) true 0 = some (g, ⟨g.ap1r k n, 0⟩)) ∧
      (∀ b, g.ap1rBit k b = true → (∀ b', g.ap1rBit k b' = true → b ≤ b') →
        b = (g.ifaces k).runningPriority >>> 1) ∧
      ((∀ n, g.ap1r k n = 0) ↔ (g.ifaces k).runningPriority = 0xff) ∧
      ∀ order : List (Fin 4),
        g.run (order.map fun n : Fin 4 => Op.sysreg k (iccAp1r0 + n) false (g.ap1r k n)) = g := by
  have hok := reached_activeOk h k
  refine ⟨sysreg_read_ap1r g k, ap1r_lowest hok, ap1r_zero_iff hok, fun order => ?_⟩
  induction order with
  | nil => rfl
  | cons n order ih =>
    rw [List.map_cons, UserspaceGic.run, List.foldl_cons, apply_write_back]
    exact ih

/-- The registers of a vCPU that runs SGI 0 at priority 0. -/
theorem active_priorities_coherent_takeSgi :
    (oneCpu.run takeSgi).ap1r 0 0 = 1 ∧ ¬ (∀ n, (oneCpu.run takeSgi).ap1r 0 n = 0) ∧
      ((oneCpu.run takeSgi).ifaces 0).runningPriority ≠ 0xff := by
  have hcoherent := active_priorities_coherent takeSgi_reached 0
  have hread : (oneCpu.run takeSgi).ap1r 0 0 = 1 := by decide +kernel
  have hsome : ¬ (∀ n, (oneCpu.run takeSgi).ap1r 0 n = 0) := fun hzero => by
    rw [hzero 0] at hread
    cases hread
  exact ⟨hread, hsome, fun hidle => hsome (hcoherent.2.2.1.mpr hidle)⟩

end Coherence

end BridgeVm.Gic
