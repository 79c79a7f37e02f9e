import Mathlib.Data.List.Basic
import Mathlib.Tactic.Linarith

/-!
# CPU_ON and AFFINITY_INFO

`psci.rs` and `psci_adapter.rs`: what the two calls answer for the power states of the secondary vCPUs, and what
`CPU_ON` does to its target. A CPU is named by its MPIDR, of which bit 31 is not part (`mpidr_normalized`); at level 0
`AFFINITY_INFO` answers for the one CPU named (`psciAffinityInfo_secondary`).
-/

namespace BridgeVm.Psci

/-! ## Answers -/

def SUCCESS : Nat := 0
def NOT_SUPPORTED : Nat := 2 ^ 64 - 1
def INVALID_PARAMS : Nat := 2 ^ 64 - 2
def ALREADY_ON : Nat := 2 ^ 64 - 4
def ON_PENDING : Nat := 2 ^ 64 - 5

namespace Affinity

def ON : Nat := 0
def OFF : Nat := 1
def ON_PENDING : Nat := 2

end Affinity

/-- `machine::MAX_CPUS`. -/
def MAX_CPUS : Nat := 123

inductive CpuState
  | off
  | onPending
  | on
deriving DecidableEq

/-- What `CPU_ON` does for a target in this state. -/
inductive CpuOnDecision
  | start
  | reject (status : Nat)
deriving DecidableEq

def cpuOnDecision : CpuState → CpuOnDecision
  | .off => .start
  | .onPending => .reject ON_PENDING
  | .on => .reject ALREADY_ON

/-! ## MPIDRs -/

def MPIDR_RES1_BIT : Nat := 0x80000000

def cpuMpidr (cpu : Nat) : Nat :=
  let a0 := cpu % 16
  let a1 := cpu / 16
  a1 <<< 8 ||| a0

/-- `value & !MPIDR_RES1_BIT`. -/
def normalizedMpidr (value : Nat) : Nat := value &&& (2 ^ 64 - 1 - MPIDR_RES1_BIT)

def affinityMask : Nat → Option Nat
  | 0 => some 0xff00ffffff
  | 1 => some 0xff00ffff00
  | 2 => some 0xff00ff0000
  | 3 => some 0xff00000000
  | _ => none

/-- The loop of `affinity_info`. -/
def affinityLoop (mask target : Nat) : List (Nat × CpuState) → (matched anyPending : Bool) → Nat
  | [], matched, anyPending =>
    if !matched then INVALID_PARAMS else if anyPending then Affinity.ON_PENDING else Affinity.OFF
  | (mpidr, state) :: topology, matched, anyPending =>
    if normalizedMpidr mpidr &&& mask ≠ target then affinityLoop mask target topology matched anyPending
    else
      match state with
      | .on => Affinity.ON
      | .onPending => affinityLoop mask target topology true true
      | .off => affinityLoop mask target topology true anyPending

def affinityInfo (topology : List (Nat × CpuState)) (targetMpidr level : Nat) : Nat :=
  match affinityMask level with
  | none => INVALID_PARAMS
  | some mask => affinityLoop mask (normalizedMpidr targetMpidr &&& mask) topology false false

/-! ## The secondary vCPUs -/

/-- `VcpuControl`: what the target's lock guards, and the cells that its thread reads under it. -/
structure VcpuControl where
  index : Nat
  state : CpuState
  entry : Nat
  context : Nat
deriving DecidableEq

def VcpuControl.new (index : Nat) : VcpuControl := { index, state := .off, entry := 0, context := 0 }

def VcpuControl.mpidr (control : VcpuControl) : Nat := MPIDR_RES1_BIT ||| cpuMpidr control.index

def psciTargetIndex (targetMpidr : Nat) (controls : List VcpuControl) : Option Nat :=
  controls.findIdx? fun control => normalizedMpidr control.mpidr = normalizedMpidr targetMpidr

/-- What a `CPU_ON` answers, the controls it leaves and the vCPU it is to notify. -/
structure CpuOn where
  status : Nat
  controls : List VcpuControl
  notify : Option Nat

def psciCpuOn (controls : List VcpuControl) (targetMpidr entry context : Nat) : CpuOn :=
  match psciTargetIndex targetMpidr controls with
  | none => ⟨INVALID_PARAMS, controls, none⟩
  | some targetIndex =>
    match controls[targetIndex]? with
    | none => ⟨INVALID_PARAMS, controls, none⟩
    | some control =>
      match cpuOnDecision control.state with
      | .reject status => ⟨status, controls, none⟩
      | .start =>
        ⟨SUCCESS, controls.set targetIndex { control with entry, context, state := .onPending }, some targetIndex⟩

/-- The whole topology: CPU0 runs whenever it can be asked about. -/
def topology (controls : List VcpuControl) (states : List CpuState) : List (Nat × CpuState) :=
  (cpuMpidr 0, .on) :: (controls.map VcpuControl.mpidr).zip states

def psciAffinityInfo (controls : List VcpuControl) (targetMpidr level : Nat) : Nat :=
  affinityInfo (topology controls (controls.map VcpuControl.state)) targetMpidr level

/-! ## MPIDRs name CPUs -/

theorem cpuMpidr_eq (cpu : Nat) : cpuMpidr cpu = cpu / 16 * 256 + cpu % 16 := by
  unfold cpuMpidr
  have hlow : cpu % 16 < 2 ^ 8 := by omega
  rw [← Nat.shiftLeft_add_eq_or_of_lt hlow, Nat.shiftLeft_eq]

theorem cpuMpidr_injective {i j : Nat} (h : cpuMpidr i = cpuMpidr j) : i = j := by
  rw [cpuMpidr_eq, cpuMpidr_eq] at h
  omega

theorem mpidr_normalized : ∀ i < MAX_CPUS, normalizedMpidr (MPIDR_RES1_BIT ||| cpuMpidr i) = cpuMpidr i := by decide

theorem cpuMpidr_masked : ∀ i < MAX_CPUS, cpuMpidr i &&& 0xff00ffffff = cpuMpidr i := by decide

/-- The controls of the secondary vCPUs, in the order of their CPUs. -/
structure Controls (controls : List VcpuControl) : Prop where
  count : controls.length < MAX_CPUS
  index : ∀ (i : Nat) (c : VcpuControl), controls[i]? = some c → c.index = i + 1

section Controls

variable {controls : List VcpuControl} {control : VcpuControl} {i target entry context : Nat}

theorem Controls.normalized (h : Controls controls) (hi : controls[i]? = some control) :
    normalizedMpidr control.mpidr = cpuMpidr (i + 1) := by
  have hlt := (List.getElem?_eq_some_iff.mp hi).1
  have hcount := h.count
  rw [VcpuControl.mpidr, h.index i control hi, mpidr_normalized (i + 1) (by omega)]

theorem psciTargetIndex_eq_some_iff (h : Controls controls) :
    psciTargetIndex target controls = some i ↔ i < controls.length ∧ normalizedMpidr target = cpuMpidr (i + 1) := by
  have hat : ∀ (j : Nat) (hj : j < controls.length), normalizedMpidr controls[j].mpidr = cpuMpidr (j + 1) :=
    fun j hj =>
    h.normalized (List.getElem?_eq_getElem hj)
  unfold psciTargetIndex
  rw [List.findIdx?_eq_some_iff_getElem]
  constructor
  · rintro ⟨hlt, heq, _⟩
    rw [decide_eq_true_eq, hat i hlt] at heq
    exact ⟨hlt, heq.symm⟩
  · rintro ⟨hlt, heq⟩
    refine ⟨hlt, by rw [decide_eq_true_eq, hat i hlt, heq], fun j hj => ?_⟩
    rw [decide_eq_true_eq, hat j (Nat.lt_trans hj hlt), heq]
    intro hsame
    have := cpuMpidr_injective hsame
    omega

theorem psciCpuOn_eq (h : Controls controls) (hi : controls[i]? = some control)
    (htarget : normalizedMpidr target = cpuMpidr (i + 1)) :
    psciCpuOn controls target entry context =
      match control.state with
      | .on => ⟨ALREADY_ON, controls, none⟩
      | .onPending => ⟨ON_PENDING, controls, none⟩
      | .off => ⟨SUCCESS, controls.set i { control with entry, context, state := .onPending }, some i⟩ := by
  have hindex : psciTargetIndex target controls = some i :=
    (psciTargetIndex_eq_some_iff h).mpr ⟨(List.getElem?_eq_some_iff.mp hi).1, htarget⟩
  unfold psciCpuOn
  rw [hindex]
  dsimp only
  rw [hi]
  dsimp only
  cases control.state <;> rfl

theorem psciCpuOn_none (h : psciTargetIndex target controls = none) :
    psciCpuOn controls target entry context = ⟨INVALID_PARAMS, controls, none⟩ := by
  unfold psciCpuOn
  rw [h]

end Controls

/-! ## AFFINITY_INFO at level 0 -/

/-- `AFFINITY_INFO`'s answer for one CPU. -/
def affinityOf : CpuState → Nat
  | .on => Affinity.ON
  | .onPending => Affinity.ON_PENDING
  | .off => Affinity.OFF

section Level0

variable {mask target : Nat} {before after : List (Nat × CpuState)} {matched anyPending : Bool}

theorem affinityLoop_skip (h : ∀ p ∈ before, normalizedMpidr p.1 &&& mask ≠ target) :
    affinityLoop mask target
      (before ++ after) matched anyPending = affinityLoop mask target after matched anyPending := by
  induction before with
  | nil => rfl
  | cons p before ih =>
    obtain ⟨hp, hrest⟩ := List.forall_mem_cons.mp h
    obtain ⟨mpidr, state⟩ := p
    rw [List.cons_append, ← ih hrest]
    exact if_pos hp

theorem affinityLoop_one {mpidr : Nat} {state : CpuState} (hbefore : ∀ p ∈ before,
    normalizedMpidr p.1 &&& mask ≠ target)
    (hmatch : normalizedMpidr mpidr &&& mask = target) (hafter : ∀ p ∈ after,
      normalizedMpidr p.1 &&& mask ≠ target) :
    affinityLoop mask target (before ++ (mpidr, state) :: after) false false = affinityOf state := by
  have hrest : ∀ pending, affinityLoop mask target after true pending =
      if pending then Affinity.ON_PENDING else Affinity.OFF := fun pending => by
    have hskip : affinityLoop mask target (after ++ []) true pending = affinityLoop mask target [] true pending :=
      affinityLoop_skip hafter
    rw [List.append_nil] at hskip
    rw [hskip]
    rfl
  rw [affinityLoop_skip hbefore]
  cases state with
  | on => exact if_neg (not_not.mpr hmatch)
  | onPending => exact (if_neg (not_not.mpr hmatch)).trans (hrest true)
  | off => exact (if_neg (not_not.mpr hmatch)).trans (hrest false)

variable {controls : List VcpuControl} {control : VcpuControl} {i : Nat}

theorem topology_eq (controls : List VcpuControl) :
    topology controls (controls.map VcpuControl.state) =
      (cpuMpidr 0, .on) :: controls.map fun c => (c.mpidr, c.state) := by
  rw [topology, List.zip_map']

theorem psciAffinityInfo_secondary (h : Controls controls) (hi : controls[i]? = some control)
    (htarget : normalizedMpidr target = cpuMpidr (i + 1)) :
    psciAffinityInfo controls target 0 = affinityOf control.state := by
  have hlt := (List.getElem?_eq_some_iff.mp hi).1
  have hcount := h.count
  have hself : cpuMpidr (i + 1) &&& 0xff00ffffff = cpuMpidr (i + 1) := cpuMpidr_masked (i + 1) (by omega)
  have hsplit : controls = controls.take i ++ control :: controls.drop (i + 1) := by
    conv_lhs => rw [← List.take_append_drop i controls, List.drop_eq_getElem_cons hlt]
    rw [(List.getElem?_eq_some_iff.mp hi).2]
  have hzero : normalizedMpidr (cpuMpidr 0) &&& 0xff00ffffff ≠ cpuMpidr (i + 1) := by
    have hprimary : normalizedMpidr (cpuMpidr 0) &&& 0xff00ffffff = cpuMpidr 0 := by decide
    rw [hprimary]
    exact fun heq => absurd (cpuMpidr_injective heq) (by omega)
  have hother : ∀ j c, controls[j]? = some c → j ≠ i →
    normalizedMpidr c.mpidr &&& 0xff00ffffff ≠ cpuMpidr (i + 1) := by
    intro j c hj hne
    have hjlt := (List.getElem?_eq_some_iff.mp hj).1
    rw [h.normalized hj, cpuMpidr_masked (j + 1) (by omega)]
    exact fun heq => hne (by have := cpuMpidr_injective heq; omega)
  have hmask : affinityMask 0 = some 0xff00ffffff := rfl
  rw [psciAffinityInfo, topology_eq, affinityInfo, hmask]
  dsimp only
  rw [htarget, hself, hsplit, List.map_append, List.map_cons, ← List.cons_append]
  refine affinityLoop_one ?_ ?_ ?_
  · refine List.forall_mem_cons.mpr ⟨hzero, ?_⟩
    intro p hp
    obtain ⟨c, hc, rfl⟩ := List.mem_map.mp hp
    obtain ⟨j, hj⟩ := List.getElem?_of_mem hc
    have hjlt : j < i := by
      have := (List.getElem?_eq_some_iff.mp hj).1
      rw [List.length_take] at this
      omega
    rw [List.getElem?_take_of_lt hjlt] at hj
    exact hother j c hj (by omega)
  · rw [h.normalized hi, hself]
  · intro p hp
    obtain ⟨c, hc, rfl⟩ := List.mem_map.mp hp
    obtain ⟨j, hj⟩ := List.getElem?_of_mem hc
    rw [List.getElem?_drop] at hj
    exact hother (i + 1 + j) c hj (by omega)

end Level0

end BridgeVm.Psci
