import BridgeVm.Pcie.Endpoints
import Mathlib.Data.List.Nodup

/-!
# From an address to a BAR (`pcie/bar_routing.rs`, `bar.rs`)

`mmio_target` asks the BAR that answered last before it scans the functions. The ranges that the functions decode, in
scan order, are given by their registers alone; a fresh scan takes the first that contains the address.
-/

namespace BridgeVm.Pcie

/-- `PcieMmioTargetMru::target_for`. -/
def Mru.targetFor (m : Mru) (gpa : UInt64) : Option Target :=
  if m.base ≤ gpa ∧ gpa < m.stop then some { m.target with offset := gpa - m.base } else none

/-- The base that `mmio_target_of_bar` takes for a memory BAR. -/
def Function.memoryBase (f : Function) (idx : Nat) (bar : Bar) : Option UInt64 :=
  match bar.kind with
  | .memory32 => bar.assignedBase
  | .memory64Low => f.memory64AssignedBase idx
  | .memory64High | .io => none

/-- `mmio_target_of_bar`. -/
def Function.mmioTargetOfBar (f : Function) (gpa : UInt64) (idx : Nat) : Option Mru := do
  let bar ← f.bars[idx]?
  let base ← f.memoryBase idx bar
  if 2 ^ 64 ≤ base.toNat + bar.size.toNat then none
  else if gpa < base then none
  else if gpa - base < bar.size then some ⟨base, base + bar.size, f.bdf, idx, gpa - base⟩ else none

/-- The BARs of a function with Memory Space enabled. -/
def Function.mmioTargetOf (gpa : UInt64) (f : Function) : Option Mru :=
  if f.command &&& cmdMemorySpace = 0 then none else (List.range numBars).findSome? (f.mmioTargetOfBar gpa)

/-- The I/O BARs of a function with I/O Space enabled. -/
def Function.pioTargetOf (port : UInt64) (f : Function) : Option Target :=
  if f.command &&& cmdIoSpace = 0 then none
  else (List.range numBars).findSome? fun idx =>
    (f.bars[idx]?.bind fun bar => bar.pioOffsetOf port).map fun offset => ⟨f.bdf, idx, offset⟩

namespace PcieEcam

/-- `mmio_target`, with the root complex that keeps the BAR found. -/
def mmioTarget (e : PcieEcam) (gpa : UInt64) : Option Target × PcieEcam :=
  match e.mmioMru.bind fun mru => mru.targetFor gpa with
  | some target => (some target, e)
  | none =>
    match e.functions.findSome? (Function.mmioTargetOf gpa) with
    | some mru => (some mru.target, { e with mmioMru := some mru })
    | none => (none, e)

/-- `pio_target`. -/
def pioTarget (e : PcieEcam) (port : UInt64) : Option Target := e.functions.findSome? (Function.pioTargetOf port)

end PcieEcam

/-! ## The ranges that are decoded -/

/-- The range of one memory BAR. -/
structure Range where
  bdf : Bdf
  barIndex : Nat
  base : UInt64
  size : UInt64
deriving DecidableEq, Repr

namespace Range

/-- One past the last address. -/
def stop (r : Range) : Nat := r.base.toNat + r.size.toNat

def Contains (r : Range) (gpa : UInt64) : Prop := r.base ≤ gpa ∧ gpa.toNat < r.stop

instance (r : Range) (gpa : UInt64) : Decidable (r.Contains gpa) := inferInstanceAs (Decidable (_ ∧ _))

def target (r : Range) (gpa : UInt64) : Target := ⟨r.bdf, r.barIndex, gpa - r.base⟩

/-- The BAR of the range. -/
def bar (r : Range) : Bdf × Nat := (r.bdf, r.barIndex)

/-- The cached entry that the range leaves. -/
def mru (r : Range) (gpa : UInt64) : Mru := ⟨r.base, r.base + r.size, r.target gpa⟩

end Range

/-- The programmed range of memory BAR `idx`, two BARs making one 64-bit address; none while it is being sized. -/
def Function.memoryRange (f : Function) (idx : Nat) : Option Range := do
  let bar ← f.bars[idx]?
  let base ← f.memoryBase idx bar
  some ⟨f.bdf, idx, base, bar.size⟩

/-- The ranges of a function with Memory Space enabled, by BAR. -/
def Function.ranges (f : Function) : List Range :=
  if f.command &&& cmdMemorySpace = 0 then [] else (List.range numBars).filterMap f.memoryRange

/-- Every decoded range, by function and BAR. -/
def decodedRanges (functions : List Function) : List Range := functions.flatMap Function.ranges

/-- The first decoded range that contains an address. -/
def freshRange (functions : List Function) (gpa : UInt64) : Option Range :=
  (decodedRanges functions).find? fun r => r.Contains gpa

/-- What a scan without a cache answers. -/
def freshTarget (functions : List Function) (gpa : UInt64) : Option Target :=
  (freshRange functions gpa).map fun r => r.target gpa

section Scan

variable {f : Function} {fs : List Function} {r s : Range} {gpa : UInt64} {idx : Nat} {e : PcieEcam} {m : Mru}

/-- A range answers when it contains the address and its end fits 64 bits. -/
def Range.answer (gpa : UInt64) (r : Range) : Option Mru :=
  if r.stop < 2 ^ 64 ∧ r.Contains gpa then some (r.mru gpa) else none

theorem answer_of (hfit : r.stop < 2 ^ 64) (hin : r.Contains gpa) : r.answer gpa = some (r.mru gpa) :=
  if_pos ⟨hfit, hin⟩

theorem answer_none (h : r.stop < 2 ^ 64 → ¬r.Contains gpa) : r.answer gpa = none := if_neg fun h' => h h'.1 h'.2

theorem mmioTargetOfBar_eq : f.mmioTargetOfBar gpa idx = (f.memoryRange idx).bind (Range.answer gpa) := by
  unfold Function.mmioTargetOfBar Function.memoryRange
  cases f.bars[idx]? with
  | none => rfl
  | some bar =>
    simp only [Option.bind_eq_bind, Option.bind_some]
    cases f.memoryBase idx bar with
    | none => rfl
    | some base =>
      show _ = Range.answer gpa ⟨f.bdf, idx, base, bar.size⟩
      simp only [Option.bind_some]
      set r : Range := ⟨f.bdf, idx, base, bar.size⟩
      by_cases hfit : 2 ^ 64 ≤ base.toNat + bar.size.toNat
      · rw [if_pos hfit]
        exact Eq.symm (answer_none (r := r) fun h => absurd h (Nat.not_lt.2 hfit))
      · rw [if_neg hfit]
        by_cases hbelow : gpa < base
        · rw [if_pos hbelow]
          exact Eq.symm (answer_none (r := r) fun _ h => absurd h.1 (UInt64.not_le.2 hbelow))
        · have hle : base ≤ gpa := UInt64.not_lt.1 hbelow
          have hsub : (gpa - base).toNat = gpa.toNat - base.toNat := UInt64.toNat_sub_of_le _ _ hle
          have hnat : base.toNat ≤ gpa.toNat := UInt64.le_iff_toNat_le.1 hle
          have hin : gpa - base < bar.size ↔ gpa.toNat < base.toNat + bar.size.toNat := by
            rw [UInt64.lt_iff_toNat_lt]
            omega
          rw [if_neg hbelow]
          by_cases hlt : gpa - base < bar.size
          · rw [if_pos hlt]
            exact Eq.symm (answer_of (r := r) (Nat.lt_of_not_le hfit) ⟨hle, hin.1 hlt⟩)
          · rw [if_neg hlt]
            exact Eq.symm (answer_none (r := r) fun _ h => hlt (hin.2 h.2))

theorem scan_eq : fs.findSome? (Function.mmioTargetOf gpa) = (decodedRanges fs).findSome? (Range.answer gpa) := by
  induction fs with
  | nil => rfl
  | cons f fs ih =>
    have hf : Function.mmioTargetOf gpa f = f.ranges.findSome? (Range.answer gpa) := by
      unfold Function.mmioTargetOf Function.ranges
      split
      · rfl
      · rw [← List.head?_filterMap (l := List.filterMap _ _), List.filterMap_filterMap, List.head?_filterMap]
        congr 2
        funext idx
        exact mmioTargetOfBar_eq
    rw [List.findSome?_cons, decodedRanges, List.flatMap_cons, List.findSome?_append, hf, ih]
    cases f.ranges.findSome? (Range.answer gpa) <;> rfl

/-- What is cached is the range of a BAR that is decoded. -/
def MruSound (e : PcieEcam) : Prop :=
  ∀ m, e.mmioMru = some m → ∃ r ∈ decodedRanges e.functions, r.stop < 2 ^ 64 ∧ ∃ gpa, m = r.mru gpa

/-- No two functions share an address. -/
def Distinct (fs : List Function) : Prop := (fs.map Function.bdf).Nodup

theorem memoryRange_bar (h : f.memoryRange idx = some r) : r.bar = (f.bdf, idx) := by
  unfold Function.memoryRange at h
  simp only [Option.bind_eq_bind, Option.bind_eq_some_iff] at h
  obtain ⟨bar, -, base, -, hr⟩ := h
  cases hr
  rfl

theorem ranges_bdf (h : r ∈ f.ranges) : r.bdf = f.bdf := by
  unfold Function.ranges at h
  split at h
  · cases h
  · obtain ⟨idx, -, hr⟩ := List.mem_filterMap.1 h
    exact congrArg Prod.fst (memoryRange_bar hr)

theorem ranges_nodup (h : Distinct fs) : ((decodedRanges fs).map Range.bar).Nodup := by
  refine List.pairwise_map.2 ?_
  unfold decodedRanges
  refine List.pairwise_flatMap.2 ⟨fun f _ => ?_, (List.pairwise_map.1 h).imp fun hne r hr s hs heq => ?_⟩
  · unfold Function.ranges
    split
    · exact .nil
    · refine List.pairwise_filterMap.2 (List.nodup_range.imp fun hne r hr s hs heq => hne ?_)
      rw [memoryRange_bar hr, memoryRange_bar hs] at heq
      exact congrArg Prod.snd heq
  · exact hne ((ranges_bdf hr).symm.trans ((congrArg Prod.fst heq).trans (ranges_bdf hs)))

theorem eq_of_bar (h : Distinct fs) (hr : r ∈ decodedRanges fs) (hs : s ∈ decodedRanges fs) (heq : r.bar = s.bar) :
    r = s :=
  List.inj_on_of_nodup_map (ranges_nodup h) hr hs heq

theorem bar_of_target {g g' : UInt64} (h : r.target g = s.target g') : r.bar = s.bar :=
  congrArg (fun t : Target => (t.bdf, t.barIndex)) h

theorem lt_mru_stop (hfit : r.stop < 2 ^ 64) {g : UInt64} : gpa < (r.mru g).stop ↔ gpa.toNat < r.stop := by
  have hadd : (r.mru g).stop.toNat = r.stop := by
    show (r.base + r.size).toNat = _
    rw [UInt64.toNat_add]
    exact Nat.mod_eq_of_lt hfit
  rw [UInt64.lt_iff_toNat_lt, hadd]

theorem targetFor_mru (hfit : r.stop < 2 ^ 64) {g : UInt64} :
    (r.mru g).targetFor gpa = if r.Contains gpa then some (r.target gpa) else none := by
  simp only [Mru.targetFor, lt_mru_stop hfit]
  rfl

/-! ## A fresh scan -/

theorem freshRange_mem (h : freshRange fs gpa = some r) : r ∈ decodedRanges fs := List.mem_of_find?_eq_some h

theorem scan_of_fresh (h : freshRange fs gpa = some r) (hfit : r.stop < 2 ^ 64) :
    (decodedRanges fs).findSome? (Range.answer gpa) = some (r.mru gpa) := by
  obtain ⟨hr, pre, post, hsplit, hpre⟩ := List.find?_eq_some_iff_append.1 h
  refine List.findSome?_eq_some_iff.2 ⟨pre, r, post, hsplit, ?_, fun s hs => ?_⟩
  · exact answer_of hfit (by simpa using hr)
  · exact answer_none fun _ h => by simpa [h] using hpre s hs

theorem scan_of_no_fresh (h : freshRange fs gpa = none) :
    (decodedRanges fs).findSome? (Range.answer gpa) = none := by
  refine List.findSome?_eq_none_iff.2 fun s hs => answer_none fun _ hin => ?_
  have hs' := List.find?_eq_none.1 h s hs
  simp [hin] at hs'

theorem answer_cases {m : Mru} (h : (decodedRanges fs).findSome? (Range.answer gpa) = some m) :
    ∃ r ∈ decodedRanges fs, r.stop < 2 ^ 64 ∧ m = r.mru gpa := by
  obtain ⟨r, hr, hm⟩ := List.exists_of_findSome?_eq_some h
  unfold Range.answer at hm
  split at hm
  · rename_i hin
    cases hm
    exact ⟨r, hr, hin.1, rfl⟩
  · cases hm

/-- A lookup is answered freshly unless the cached range hides an earlier one, or the range found ends at 2^64. -/
structure Unshadowed (e : PcieEcam) (gpa : UInt64) : Prop where
  cached : ∀ m, e.mmioMru = some m → m.base ≤ gpa → gpa < m.stop → ∀ pre r post,
    decodedRanges e.functions = pre ++ r :: post → r.bar = (m.target.bdf, m.target.barIndex) →
    ∀ s ∈ pre, ¬s.Contains gpa
  fits : ∀ r, freshRange e.functions gpa = some r → r.stop < 2 ^ 64

/-- An answer of the cache is the fresh one exactly when no range before the cached one contains the address. -/
theorem cached_fresh_iff (hd : Distinct fs) (hr : r ∈ decodedRanges fs) (hin : r.Contains gpa) :
    freshTarget fs gpa = some (r.target gpa) ↔
      ∀ pre r' post, decodedRanges fs = pre ++ r' :: post → r'.bar = r.bar → ∀ s ∈ pre, ¬s.Contains gpa := by
  constructor
  · intro hfresh pre r' post hsplit hbar s hs hsin
    obtain ⟨r₀, hr₀, htarget⟩ := Option.map_eq_some_iff.1 hfresh
    have hmem : s ∈ decodedRanges fs := by
      rw [hsplit]
      exact List.mem_append_left _ hs
    have hpre : r₀ ∈ pre := by
      unfold freshRange at hr₀
      rw [hsplit, List.find?_append] at hr₀
      cases hfind : pre.find? fun r => decide (r.Contains gpa) with
      | none =>
        have := List.find?_eq_none.1 hfind s hs
        simp [hsin] at this
      | some r₁ =>
        rw [hfind] at hr₀
        cases hr₀
        exact List.mem_of_find?_eq_some hfind
    have hnodup := ranges_nodup hd
    rw [hsplit, List.map_append, List.map_cons] at hnodup
    refine (List.nodup_append.1 hnodup).2.2 _ (List.mem_map_of_mem hpre) _ List.mem_cons_self ?_
    exact (bar_of_target htarget).trans hbar.symm
  · intro hfirst
    obtain ⟨pre, post, hsplit⟩ := List.append_of_mem hr
    have hfresh : freshRange fs gpa = some r := by
      refine List.find?_eq_some_iff_append.2 ⟨decide_eq_true hin, pre, post, hsplit, fun s hs => ?_⟩
      simpa using hfirst pre r post hsplit rfl s hs
    rw [freshTarget, hfresh]
    rfl

/-- A lookup gives the fresh answer exactly when it is unshadowed. -/
theorem mmioTarget_fresh_iff (hd : Distinct e.functions) (hmru : MruSound e) :
    (e.mmioTarget gpa).1 = freshTarget e.functions gpa ↔ Unshadowed e gpa := by
  unfold PcieEcam.mmioTarget
  cases hcached : e.mmioMru.bind fun mru => mru.targetFor gpa with
  | some target =>
    obtain ⟨m, hm, htarget⟩ := Option.bind_eq_some_iff.1 hcached
    obtain ⟨r, hr, hfit, g, rfl⟩ := hmru m hm
    rw [targetFor_mru hfit] at htarget
    split at htarget
    · rename_i hin
      cases htarget
      have hiff := cached_fresh_iff hd hr hin
      constructor
      · intro h
        refine ⟨fun m' hm' _ _ => ?_, fun r' hr' => ?_⟩
        · rw [hm] at hm'
          cases hm'
          exact hiff.1 h.symm
        · have h' : (freshRange e.functions gpa).map (fun r => r.target gpa) = some (r.target gpa) := h.symm
          rw [hr', Option.map_some, Option.some_inj] at h'
          rw [eq_of_bar hd (freshRange_mem hr') hr (bar_of_target h')]
          exact hfit
      · intro h
        exact (hiff.2 (h.cached _ hm hin.1 ((lt_mru_stop hfit).2 hin.2))).symm
    · cases htarget
  | none =>
    have hvacuous : ∀ m, e.mmioMru = some m → m.base ≤ gpa → ¬gpa < m.stop := fun m hm hb hlt => by
      rw [hm, Option.bind_some, Mru.targetFor, if_pos ⟨hb, hlt⟩] at hcached
      cases hcached
    have hcold : (match e.functions.findSome? (Function.mmioTargetOf gpa) with
        | some mru => (some mru.target, { e with mmioMru := some mru })
        | none => (none, e)).1 = ((decodedRanges e.functions).findSome? (Range.answer gpa)).map Mru.target := by
      rw [← scan_eq]
      cases e.functions.findSome? (Function.mmioTargetOf gpa) <;> rfl
    rw [hcold]
    constructor
    · intro h
      refine ⟨fun m hm hb hlt => absurd hlt (hvacuous m hm hb), fun r hr => ?_⟩
      rw [freshTarget, hr, Option.map_some] at h
      obtain ⟨m, hm, htarget⟩ := Option.map_eq_some_iff.1 h
      obtain ⟨s, hs, hfit, rfl⟩ := answer_cases hm
      rw [← eq_of_bar hd hs (freshRange_mem hr) (bar_of_target htarget)]
      exact hfit
    · intro h
      unfold freshTarget
      cases hr : freshRange e.functions gpa with
      | none => rw [scan_of_no_fresh hr]; rfl
      | some r => rw [scan_of_fresh hr (h.fits r hr)]; rfl

theorem mmioTarget_keeps (hmru : MruSound e) (gpa : UInt64) :
    (e.mmioTarget gpa).2.functions = e.functions ∧ MruSound (e.mmioTarget gpa).2 := by
  unfold PcieEcam.mmioTarget
  cases e.mmioMru.bind fun mru => mru.targetFor gpa with
  | some target => exact ⟨rfl, hmru⟩
  | none =>
    rw [scan_eq]
    cases hscan : (decodedRanges e.functions).findSome? (Range.answer gpa) with
    | none => exact ⟨rfl, hmru⟩
    | some m =>
      refine ⟨rfl, fun m' hm' => ?_⟩
      cases hm'
      obtain ⟨r, hr, hfit, hm⟩ := answer_cases hscan
      exact ⟨r, hr, hfit, gpa, hm⟩

end Scan

end BridgeVm.Pcie
