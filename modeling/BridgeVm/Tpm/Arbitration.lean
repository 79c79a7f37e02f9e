import Mathlib.Data.List.Induction
import BridgeVm.Tpm.Framing

/-!
# Arbitration between the localities

A locality that asks while another one is active is noted in its ACCESS register and shown to the others, but a release
does not look at the notes: the interface is then free, and the locality still waits. So nothing waits for a free
interface exactly in the runs in which the active locality gives it up only while no other one waits.
-/

namespace BridgeVm.Tpm

open Lib

variable {β : Type}

/-- The ACCESS register of `l` says that it is active. -/
def Active (t : TpmTis β) (l : Fin 5) : Prop := registerValue t l regAccess 1 &&& accessActiveLocality ≠ 0

/-- `l` has a request noted. -/
def Requested (t : TpmTis β) (l : Fin 5) : Prop := (t.localities l).access &&& accessRequestUse ≠ 0

/-- At most one locality is active, and none waits for a free interface. -/
structure Arbitrated (t : TpmTis β) : Prop where
  one : ∀ l l', Active t l → Active t l' → l = l'
  granted : (∀ l, ¬Active t l) → ∀ l, ¬Requested t l

/-- The active locality gives the interface up, and does not ask for it in the same write. -/
def Releases (t : TpmTis β) (op : Mmio) : Prop :=
  match op.access with
  | .access l value => t.activeLocality = some l ∧ value &&& accessActiveLocality ≠ 0 ∧
    value &&& accessRequestUse = 0
  | _ => False

/-- No other locality waits when the active one gives the interface up. -/
def Unawaited (t : TpmTis β) (op : Mmio) : Prop :=
  Releases t op → ∀ l, t.activeLocality ≠ some l → ¬Requested t l

instance (t : TpmTis β) (l : Fin 5) : Decidable (Requested t l) := by
  unfold Requested
  infer_instance

instance (t : TpmTis β) (op : Mmio) : Decidable (Releases t op) := by
  unfold Releases
  match op.access with
  | .access .. => infer_instance
  | .fifoRead .. => infer_instance
  | .fifoWrite .. => infer_instance
  | .status .. => infer_instance
  | .other => infer_instance

instance (t : TpmTis β) (op : Mmio) : Decidable (Unawaited t op) := by
  unfold Unawaited
  infer_instance

/-! ## The ACCESS registers -/

/-- An ACCESS register holds nothing but the request. -/
def AccessBits (t : TpmTis β) : Prop :=
  ∀ l, (t.localities l).access = accessValid ∨ (t.localities l).access = accessValid ||| accessRequestUse

section Arbitration

variable {t t' : TpmTis β} {l : Fin 5} {value : Nat}

theorem active_iff (h : AccessBits t) : Active t l ↔ t.activeLocality = some l := by
  have hbits : ∀ access, access = accessValid ∨ access = accessValid ||| accessRequestUse →
      access &&& accessActiveLocality = 0 ∧ (access ||| accessPendingRequest) &&& accessActiveLocality = 0 ∧
        (access ||| accessActiveLocality) &&& accessActiveLocality ≠ 0 ∧
          (access ||| accessActiveLocality ||| accessPendingRequest) &&& accessActiveLocality ≠ 0 := by
    rintro access (rfl | rfl) <;> decide
  obtain ⟨hplain, hpending, hactive, hboth⟩ := hbits _ (h l)
  unfold Active registerValue
  simp only [if_true]
  by_cases ha : t.activeLocality = some l
  · rw [if_pos ha]
    split
    · exact ⟨fun _ => ha, fun _ => hboth⟩
    · exact ⟨fun _ => ha, fun _ => hactive⟩
  · rw [if_neg ha]
    split
    · exact ⟨fun hne => absurd hpending hne, fun hsome => absurd hsome ha⟩
    · exact ⟨fun hne => absurd hplain hne, fun hsome => absurd hsome ha⟩

theorem arbitrated_iff (h : AccessBits t) : Arbitrated t ↔ (t.activeLocality = none → ∀ l, ¬Requested t l) := by
  constructor
  · intro harb hnone
    apply harb.granted
    intro l hactive
    rw [active_iff h, hnone] at hactive
    cases hactive
  · intro hgranted
    refine ⟨?_, ?_⟩
    · intro l l' hl hl'
      rw [active_iff h] at hl hl'
      exact Option.some.inj (hl.symm.trans hl')
    · intro hnone
      apply hgranted
      rw [Option.eq_none_iff_forall_ne_some]
      exact fun l hl => hnone l ((active_iff h).mpr hl)

/-- Nothing that arbitration looks at has changed. -/
structure SameArbitration (t t' : TpmTis β) : Prop where
  activeLocality : t'.activeLocality = t.activeLocality
  access : ∀ l, (t'.localities l).access = (t.localities l).access

theorem SameArbitration.refl (t : TpmTis β) : SameArbitration t t := ⟨rfl, fun _ => rfl⟩

theorem SameArbitration.trans {t₁ : TpmTis β} (h : SameArbitration t t₁) (h' : SameArbitration t₁ t') :
    SameArbitration t t' :=
  ⟨h'.activeLocality.trans h.activeLocality, fun l => (h'.access l).trans (h.access l)⟩

theorem setLocality_arbitration (t : TpmTis β) (l : Fin 5) (f : Locality → Locality)
    (hf : ∀ item, (f item).access = item.access) : SameArbitration t (t.setLocality l f) := by
  refine ⟨rfl, fun l' => ?_⟩
  by_cases hl : l' = l
  · subst hl
    rw [setLocality_same, hf]
  · rw [setLocality_other t f hl]

theorem readFifo_arbitration (t : TpmTis β) (l : Fin 5) (size : Nat) : SameArbitration t (readFifo t l size).2 := by
  unfold readFifo
  split
  · exact .refl t
  · dsimp only
    split
    · have hset := setLocality_arbitration t l (fun item => { item with status := stsValid }) fun _ => rfl
      exact ⟨hset.activeLocality, hset.access⟩
    · exact ⟨rfl, fun _ => rfl⟩

theorem writeFifo_arbitration (t : TpmTis β) (l : Fin 5) (registerOffset size value : Nat) :
    SameArbitration t (writeFifo t l registerOffset size value) := by
  have hbegin : SameArbitration t (beginReception t l) := by
    unfold beginReception
    split
    · have hset := setLocality_arbitration t l
        (fun item => { item with state := .reception, status := stsValid ||| stsExpect }) fun _ => rfl
      exact ⟨hset.activeLocality, hset.access⟩
    · exact .refl t
  have hreceive : ∀ (t : TpmTis β) bytes, SameArbitration t (receive t l bytes) := by
    intro t bytes
    unfold receive
    split
    · exact .refl t
    · have hset := setLocality_arbitration t l (fun item =>
        { item with status := receptionStatus (pushBytes t.buffer bytes).1 (pushBytes t.buffer bytes).2 item.status })
        fun _ => rfl
      exact ⟨hset.activeLocality, hset.access⟩
  unfold writeFifo
  split
  · exact .refl t
  · exact hbegin.trans (hreceive _ _)

theorem writeStatus_arbitration (execute : β → Fin 5 → List UInt8 → Option (List UInt8) × β)
    (t : TpmTis β) (l : Fin 5)
    (value : Nat) : SameArbitration t (writeStatus t l execute value).1 := by
  have hset : ∀ f : Locality → Locality, (∀ item, (f item).access = item.access) →
      SameArbitration t (t.setLocality l f) := setLocality_arbitration t l
  unfold writeStatus
  split
  · exact .refl t
  split
  · have h := hset (fun item => { item with state := .ready, status := stsValid ||| stsCommandReady }) fun _ => rfl
    exact ⟨h.activeLocality, h.access⟩
  split
  · have h := hset (fun item => { item with status := stsValid ||| stsDataAvailable }) fun _ => rfl
    exact ⟨h.activeLocality, h.access⟩
  split
  · have h := hset (fun item => { item with state := .completion, status := stsValid ||| stsDataAvailable })
      fun _ => rfl
    exact ⟨h.activeLocality, h.access⟩
  · exact .refl t

/-! ## One access -/

theorem relinquish_access (t : TpmTis β) (l l' : Fin 5) : ((relinquish t l).localities l').access =
    if l' = l then accessValid else (t.localities l').access := by
  unfold relinquish
  by_cases hl : l' = l
  · subst hl
    simp [Locality.default]
  · simp [setLocality_other, hl]

/-- A request is granted where the interface is free, and noted where it is not. -/
theorem requestUse_cases (t : TpmTis β) (l : Fin 5) :
    (∀ l', l' ≠ l → ((requestUse t l).localities l').access = (t.localities l').access) ∧
      if t.activeLocality = none then
        (requestUse t l).activeLocality = some l ∧
          ((requestUse t l).localities l).access =
            ((t.localities l).access ||| accessRequestUse) &&& (0xff ^^^ accessRequestUse)
      else
        (requestUse t l).activeLocality = t.activeLocality ∧
          ((requestUse t l).localities l).access = (t.localities l).access ||| accessRequestUse := by
  unfold requestUse
  have hactive : ∀ f, (t.setLocality l f).activeLocality = t.activeLocality := fun _ => rfl
  dsimp only
  rw [hactive]
  by_cases hnone : t.activeLocality = none
  · simp only [if_pos hnone]
    refine ⟨fun l' hl => ?_, trivial, ?_⟩
    · simp [setLocality_other, hl]
    · simp
  · simp only [if_neg hnone]
    refine ⟨fun l' hl => ?_, rfl, ?_⟩
    · simp [setLocality_other, hl]
    · simp

theorem requestUse_bits (h : AccessBits t) : AccessBits (requestUse t l) := by
  have hbits : ∀ access, access = accessValid ∨ access = accessValid ||| accessRequestUse →
      (access ||| accessRequestUse) &&& (0xff ^^^ accessRequestUse) = accessValid ∧
        access ||| accessRequestUse = accessValid ||| accessRequestUse := by
    rintro access (rfl | rfl) <;> decide
  obtain ⟨hclear, hset⟩ := hbits _ (h l)
  obtain ⟨hothers, hl⟩ := requestUse_cases t l
  intro l'
  by_cases hne : l' = l
  · subst hne
    split at hl
    · exact .inl (hl.2.trans hclear)
    · exact .inr (hl.2.trans hset)
  · rw [hothers l' hne]
    exact h l'

theorem relinquish_bits (h : AccessBits t) : AccessBits (relinquish t l) := by
  intro l'
  rw [relinquish_access]
  split
  · exact .inl rfl
  · exact h l'

/-- After a write to an ACCESS register that releases nothing, a locality is active, or nothing has changed. -/
theorem writeAccess_keeps (h : ¬(t.activeLocality = some l ∧ value &&& accessActiveLocality ≠ 0 ∧
    value &&& accessRequestUse = 0)) :
    (writeAccess t l value).activeLocality ≠ none ∨ writeAccess t l value = t := by
  unfold writeAccess
  dsimp only
  by_cases hrequest : value &&& accessRequestUse ≠ 0
  · rw [if_pos hrequest]
    left
    have hsome : ∀ t : TpmTis β, (requestUse t l).activeLocality ≠ none := by
      intro t
      have hcases := (requestUse_cases t l).2
      split at hcases
      · rw [hcases.1]
        exact Option.some_ne_none l
      · rw [hcases.1]
        assumption
    exact hsome _
  · rw [if_neg hrequest, if_neg]
    · exact .inr rfl
    · rintro ⟨hrelease, hactive⟩
      exact h ⟨hactive, hrelease, not_not.mp hrequest⟩

theorem writeAccess_bits (h : AccessBits t) : AccessBits (writeAccess t l value) := by
  have hrelinquish : AccessBits
      (if value &&& accessActiveLocality ≠ 0 ∧ t.activeLocality = some l then relinquish t l else t) := by
    split
    · exact relinquish_bits h
    · exact h
  unfold writeAccess
  dsimp only
  split
  · exact requestUse_bits hrelinquish
  · exact hrelinquish

theorem SameArbitration.bits (hsame : SameArbitration t t') (h : AccessBits t) : AccessBits t' := by
  intro l
  rw [hsame.access l]
  exact h l

theorem SameArbitration.granted (hsame : SameArbitration t t')
    (h : t.activeLocality = none → ∀ l, ¬Requested t l) :
    t'.activeLocality = none → ∀ l, ¬Requested t' l := by
  intro hnone l
  rw [Requested, hsame.access l]
  exact h (hsame.activeLocality ▸ hnone) l

end Arbitration

section Runs

variable {execute : β → Fin 5 → List UInt8 → Option (List UInt8) × β} {s s' : Session β} {op : Mmio}

/-- Only a write to an ACCESS register arbitrates. -/
theorem step_access (hs : s.step execute op = some s') :
    (∃ l value, op.access = .access l value ∧ s'.tis = writeAccess s.tis l value) ∨
      (∀ l value, op.access ≠ .access l value) ∧ SameArbitration s.tis s'.tis := by
  cases op with
  | read offset size =>
    simp only [Session.step, Option.some.injEq] at hs
    subst hs
    rcases mmioRead_cases s.tis offset size with ⟨hop, hread⟩ | ⟨hop, hsame⟩
    · refine .inr ⟨by simp [hop], ?_⟩
      rw [hread]
      exact readFifo_arbitration s.tis _ size
    · refine .inr ⟨by simp [hop], ?_⟩
      rw [hsame]
      exact .refl _
  | write offset size value =>
    simp only [Session.step, Option.some.injEq] at hs
    subst hs
    unfold Mmio.access mmioWrite
    by_cases hbad : ¬(size = 1 ∨ size = 2 ∨ size = 4) ∨ mmioSize ≤ offset
    · simp only [if_pos hbad]
      exact .inr ⟨by simp, .refl _⟩
    simp only [if_neg hbad]
    by_cases hfifo : isFifo (offset % localitySize) = true
    · simp only [if_pos hfifo]
      exact .inr ⟨by simp, writeFifo_arbitration s.tis _ _ size value⟩
    simp only [if_neg hfifo]
    by_cases haccess : offset % localitySize - offset % localitySize % 4 = regAccess
    · simp only [if_pos haccess]
      exact .inl ⟨_, _, rfl, rfl⟩
    simp only [if_neg haccess]
    by_cases hsts : offset % localitySize - offset % localitySize % 4 = regSts
    · simp only [if_pos hsts]
      exact .inr ⟨by simp, writeStatus_arbitration execute s.tis _ _⟩
    simp only [if_neg hsts]
    refine .inr ⟨by simp, ?_⟩
    split
    · dsimp only
      apply setLocality_arbitration
      exact fun _ => rfl
    split
    · dsimp only
      apply setLocality_arbitration
      exact fun _ => rfl
    · exact .refl _

theorem step_bits (hbits : AccessBits s.tis) (hs : s.step execute op = some s') : AccessBits s'.tis := by
  rcases step_access hs with ⟨l, value, _, hwrite⟩ | ⟨_, hsame⟩
  · rw [hwrite]
    exact writeAccess_bits hbits
  · exact hsame.bits hbits

/-- One access leaves nothing waiting for a free interface exactly when it is no release that another locality waits
for. -/
theorem step_granted (hgranted : s.tis.activeLocality = none → ∀ l, ¬Requested s.tis l)
    (hs : s.step execute op = some s') :
    Unawaited s.tis op ↔ (s'.tis.activeLocality = none → ∀ l, ¬Requested s'.tis l) := by
  rcases step_access hs with ⟨l, value, hop, hwrite⟩ | ⟨hop, hsame⟩
  · rw [hwrite]
    have hiff : Releases s.tis op ↔ s.tis.activeLocality = some l ∧ value &&& accessActiveLocality ≠ 0 ∧
        value &&& accessRequestUse = 0 := by rw [Releases, hop]
    by_cases hreleases : Releases s.tis op
    · -- The interface is free, and the requests of the others are as they were.
      obtain ⟨hactive, hrelease, hrequest⟩ := hiff.mp hreleases
      have hfree : writeAccess s.tis l value = relinquish s.tis l := by
        unfold writeAccess
        dsimp only
        rw [if_neg (not_not.mpr hrequest), if_pos ⟨hrelease, hactive⟩]
      rw [hfree]
      constructor
      · intro hunawaited _ l'
        rw [Requested, relinquish_access]
        split
        · decide
        next hne =>
          apply hunawaited hreleases
          rw [hactive]
          exact fun heq => hne (Option.some.inj heq).symm
      · intro hnone _ l' hne
        have hwaits := hnone rfl l'
        rw [Requested, relinquish_access, if_neg] at hwaits
        · exact hwaits
        · rintro rfl
          exact hne hactive
    · refine ⟨fun _ => ?_, fun _ hrel => absurd hrel hreleases⟩
      rcases writeAccess_keeps (mt hiff.mpr hreleases) with hsome | hsame
      · exact fun hnone => absurd hnone hsome
      · rw [hsame]
        exact hgranted
  · refine ⟨fun _ => hsame.granted hgranted, fun _ hreleases => ?_⟩
    unfold Releases at hreleases
    split at hreleases
    · exact absurd (by assumption) (hop _ _)
    · cases hreleases

theorem run_bits {backend : β} {ops : List Mmio}
    (h : runs (Session.step execute) ⟨.new backend, []⟩ ops = some s) :
    AccessBits s.tis := by
  induction ops using List.reverseRecOn generalizing s with
  | nil =>
    cases h
    exact fun _ => .inl rfl
  | append_singleton ops op ih =>
    obtain ⟨mid, hmid, hstep⟩ := runs_concat h
    exact step_bits (ih hmid) hstep

theorem run_granted {backend : β} {ops : List Mmio}
    (h : ∀ before op s, before ++ [op] <+: ops →
      runs (Session.step execute) ⟨.new backend, []⟩ before = some s →
      Unawaited s.tis op)
    (hrun : runs (Session.step execute) ⟨.new backend, []⟩ ops = some s) :
    s.tis.activeLocality = none → ∀ l, ¬Requested s.tis l := by
  induction ops using List.reverseRecOn generalizing s with
  | nil =>
    cases hrun
    intro _ l
    show ¬(Locality.default.access &&& accessRequestUse ≠ 0)
    decide
  | append_singleton ops op ih =>
    obtain ⟨mid, hmid, hstep⟩ := runs_concat hrun
    have hgranted := ih (fun before op' s hbefore => h before op' s (hbefore.trans (List.prefix_append ..))) hmid
    exact (step_granted hgranted hstep).mp (h ops op mid (List.prefix_refl _) hmid)

end Runs

/-- **Every state of a run is arbitrated** exactly when the active locality gives the interface up only while no other
one waits for it. -/
theorem arbitrated_run (execute : β → Fin 5 → List UInt8 → Option (List UInt8) × β) (backend : β)
    (ops : List Mmio) :
    (∀ before s, before <+: ops → runs (Session.step execute) ⟨.new backend, []⟩ before = some s →
      Arbitrated s.tis) ↔
      ∀ before op s, before ++ [op] <+: ops → runs (Session.step execute) ⟨.new backend, []⟩ before = some s →
        Unawaited s.tis op := by
  constructor
  · intro harb before op s hbefore hrun
    have hgranted := (arbitrated_iff (run_bits hrun)).mp (harb before s ((List.prefix_append ..).trans hbefore) hrun)
    obtain ⟨s', hstep⟩ : ∃ s', s.step execute op = some s' := by
      cases op <;> exact ⟨_, rfl⟩
    have hrun' : runs (Session.step execute) ⟨.new backend, []⟩ (before ++ [op]) = some s' := by
      rw [runs_append, hrun]
      simp [runs, hstep]
    exact (step_granted hgranted hstep).mpr ((arbitrated_iff (run_bits hrun')).mp (harb _ s' hbefore hrun'))
  · intro h before s hbefore hrun
    rw [arbitrated_iff (run_bits hrun)]
    exact run_granted (fun earlier op s hearlier => h earlier op s (hearlier.trans hbefore)) hrun

/-- Locality 1 asks while locality 0 is active, and locality 0 gives the interface up. -/
def awaitedRelease : List Mmio :=
  [.write regAccess 1 accessRequestUse, .write (localitySize + regAccess) 1 accessRequestUse,
    .write regAccess 1 accessActiveLocality]

/-- Nothing is active, and locality 1 still waits. -/
theorem released_not_granted :
    ∃ s : Session Unit, runs (Session.step answering) ⟨.new (), []⟩ awaitedRelease = some s ∧
      s.tis.activeLocality = none ∧ Requested s.tis 1 ∧ ¬Arbitrated s.tis := by
  have hrun : runs (Session.step answering) ⟨.new (), []⟩ awaitedRelease = some _ := rfl
  refine ⟨_, hrun, rfl, by decide, fun harb => ?_⟩
  exact (arbitrated_iff (run_bits hrun)).mp harb rfl 1 (by decide)

end BridgeVm.Tpm
