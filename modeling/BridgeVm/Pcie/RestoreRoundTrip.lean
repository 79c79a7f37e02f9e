import BridgeVm.Pcie.Shape

/-!
# A restored root complex answers as the saved one

A snapshot holds no sizing probe: a BAR that is being sized when it is saved takes the probe state of the target it is
restored into, and its size mask is then decoded as a base. Where the probe states agree, and the cached BAR of the
saved root complex hides no earlier one, every later sequence of accesses is answered alike.
-/

namespace BridgeVm.Pcie

/-! ## BARs that decode alike -/

/-- A 32-bit memory BAR at base zero decodes nothing, whether it is being sized or not. -/
def Bar.Unassigned (b : Bar) : Prop := b.kind = .memory32 ∧ b.base.getD 0 = 0

/-- Two BARs of the same value that no access tells apart. -/
structure Bar.Alike (b b' : Bar) : Prop where
  same : b' = { b with sizingProbe := b'.sizingProbe }
  probe : b.sizingProbe = b'.sizingProbe ∨ b.Unassigned

namespace Bar.Alike

variable {b b' : Bar}

theorem read_eq (h : b.Alike b') : b'.read = b.read := by
  rw [h.same]
  rfl

theorem size_eq (h : b.Alike b') : b'.size = b.size := by
  rw [h.same]
  rfl

theorem kind_eq (h : b.Alike b') : b'.kind = b.kind := by
  rw [h.same]

theorem base_eq (h : b.Alike b') : b'.base = b.base := by
  rw [h.same]
  rfl

theorem assignedBase_eq (h : b.Alike b') : b'.assignedBase = b.assignedBase := by
  have hbase := h.base_eq
  unfold Bar.assignedBase
  rw [hbase, h.kind_eq]
  rcases h.probe with hprobe | ⟨hkind, hzero⟩
  · rw [hprobe]
  · cases hb : b.base with
    | none => rfl
    | some base =>
      rw [hb, Option.getD_some] at hzero
      simp [hkind, hzero]

theorem pioOffsetOf_eq (h : b.Alike b') (port : UInt64) : b'.pioOffsetOf port = b.pioOffsetOf port := by
  unfold Bar.pioOffsetOf Bar.offsetOf
  rw [h.kind_eq, h.assignedBase_eq, h.size_eq]

theorem write (h : b.Alike b') (value : UInt32) : (b.write value).Alike (b'.write value) := by
  have hsame := h.same
  unfold Bar.write
  by_cases hmask : b.sizeMask = 0
  · have hmask' : b'.sizeMask = 0 := by rw [hsame]; exact hmask
    rw [if_pos hmask, if_pos hmask']
    exact h
  · have hmask' : b'.sizeMask ≠ 0 := by rw [hsame]; exact hmask
    rw [if_neg hmask, if_neg hmask']
    split
    · exact ⟨by rw [hsame], .inl rfl⟩
    · exact ⟨by rw [hsame], .inl rfl⟩

end Bar.Alike

/-! ## Functions that answer alike -/

/-- Two functions that differ in the probe states of their BARs only, where no access tells. -/
structure Function.Alike (f f' : Function) : Prop where
  same : f' = { f with bars := f'.bars }
  bars : ∀ i : Fin numBars, (f.bars.get i).Alike (f'.bars.get i)

section Bars

variable {f : Function} {bars : Vector Bar numBars} {reg : UInt16} {value : UInt32}

/-! The capabilities do not depend on the BARs. -/

theorem capabilityOffset_bars (id : UInt8) : { f with bars := bars }.capabilityOffset id = f.capabilityOffset id :=
  Function.FindsAs.capabilityOffset ⟨rfl, fun _ _ => rfl⟩ id

theorem writeMsiByte_bars (cap : UInt16) (byte : UInt16 × UInt8) :
    Function.writeMsiByte cap reg { f with bars := bars } byte =
      { Function.writeMsiByte cap reg f byte with bars := bars } := by
  unfold Function.writeMsiByte
  simp only
  repeat' split
  all_goals rfl

theorem writeMsiBytes_bars (cap : UInt16) (bytes : List (UInt16 × UInt8)) :
    bytes.foldl (Function.writeMsiByte cap reg) { f with bars := bars } =
      { bytes.foldl (Function.writeMsiByte cap reg) f with bars := bars } := by
  induction bytes generalizing f with
  | nil => rfl
  | cons byte bytes ih => rw [List.foldl_cons, List.foldl_cons, writeMsiByte_bars, ih]

theorem writeMsi_bars : { f with bars := bars }.writeMsiCapabilityDword reg value =
    (f.writeMsiCapabilityDword reg value).map fun g => { g with bars := bars } := by
  unfold Function.writeMsiCapabilityDword
  rw [capabilityOffset_bars]
  cases f.capabilityOffset capIdMsi with
  | none => rfl
  | some cap =>
    simp only [Option.bind_eq_bind, Option.bind_some, writeMsiBytes_bars]
    split <;> rfl

theorem writePm_bars : { f with bars := bars }.writePmCapabilityDword reg value =
    (f.writePmCapabilityDword reg value).map fun g => { g with bars := bars } := by
  unfold Function.writePmCapabilityDword
  rw [capabilityOffset_bars]
  cases f.capabilityOffset capIdPm with
  | none => rfl
  | some cap =>
    simp only [Option.bind_eq_bind, Option.bind_some, Function.capabilityByte]
    split
    · rfl
    · symm
      apply apply_ite

theorem writeMsix_bars : { f with bars := bars }.writeMsixCapabilityDword reg value =
    (f.writeMsixCapabilityDword reg value).map fun g => { g with bars := bars } := by
  unfold Function.writeMsixCapabilityDword Function.msixCapabilityOffset
  rw [capabilityOffset_bars]
  cases f.capabilityOffset capIdMsix with
  | none => rfl
  | some cap =>
    simp only [Option.bind_eq_bind, Option.bind_some, Function.capabilityByte]
    split <;> rfl

theorem writeCapability_bars : { f with bars := bars }.writeCapabilityDword reg value =
    (f.writeCapabilityDword reg value).map fun g => { g with bars := bars } := by
  unfold Function.writeCapabilityDword
  rw [writeMsi_bars, writePm_bars, writeMsix_bars]
  cases f.writeMsiCapabilityDword reg value with
  | some g => rfl
  | none =>
    cases f.writePmCapabilityDword reg value with
    | some g => rfl
    | none => rfl

theorem msiConfig_bars : { f with bars := bars }.msiConfig = f.msiConfig := by
  unfold Function.msiConfig
  rw [capabilityOffset_bars]
  rfl

theorem msixControl_bars : { f with bars := bars }.msixControl = f.msixControl := by
  unfold Function.msixControl Function.msixCapabilityOffset
  rw [capabilityOffset_bars]
  rfl

end Bars

namespace Function.Alike

variable {f f' : Function}

theorem getElem? (h : f.Alike f') (idx : Nat) :
    (f.bars[idx]? = none ∧ f'.bars[idx]? = none) ∨
      ∃ b b', f.bars[idx]? = some b ∧ f'.bars[idx]? = some b' ∧ b.Alike b' := by
  by_cases hidx : idx < numBars
  · exact .inr ⟨f.bars[idx], f'.bars[idx], by simp [hidx], by simp [hidx], h.bars ⟨idx, hidx⟩⟩
  · exact .inl ⟨by simp [hidx], by simp [hidx]⟩

theorem readDword_eq (h : f.Alike f') (reg : UInt16) : f'.readDword reg = f.readDword reg := by
  have hbars := h.bars
  unfold Function.readDword
  rw [h.same] at hbars ⊢
  simp only [Function.readCapabilityDword]
  cases barIndex reg with
  | none => rfl
  | some idx => simp only [(hbars idx).read_eq]

theorem writeDword (h : f.Alike f') (reg : UInt16) (value : UInt32) :
    (f.writeDword reg value).Alike (f'.writeDword reg value) := by
  have hbars := h.bars
  rw [h.same]
  unfold Function.writeDword
  split
  · exact ⟨rfl, hbars⟩
  · cases barIndex reg with
    | some idx =>
      refine ⟨rfl, fun i => ?_⟩
      show ((f.bars.set idx _)[i.1]).Alike ((f'.bars.set idx _)[i.1])
      rw [Vector.getElem_set, Vector.getElem_set]
      split
      · exact (hbars idx).write value
      · exact hbars i
    | none =>
      simp only [writeCapability_bars]
      cases hw : f.writeCapabilityDword reg value with
      | none => exact ⟨rfl, hbars⟩
      | some g =>
        have hg : g.bars = f.bars := by rw [(writeCapability_sets hw).frame]
        refine ⟨rfl, fun i => ?_⟩
        show (g.bars.get i).Alike _
        rw [hg]
        exact hbars i

theorem memory64AssignedBase_eq (h : f.Alike f') (idx : Nat) :
    f'.memory64AssignedBase idx = f.memory64AssignedBase idx := by
  unfold Function.memory64AssignedBase
  rcases h.getElem? idx with ⟨hlow, hlow'⟩ | ⟨low, low', hlow, hlow', hl⟩
  · rw [hlow, hlow']
    rfl
  · rw [hlow, hlow']
    rcases h.getElem? (idx + 1) with ⟨hhigh, hhigh'⟩ | ⟨high, high', hhigh, hhigh', hh⟩
    · rw [hhigh, hhigh']
      rfl
    · rw [hhigh, hhigh']
      simp only [Option.bind_eq_bind, Option.bind_some, hl.kind_eq, hh.kind_eq, hl.base_eq]
      by_cases hkinds : low.kind ≠ .memory64Low ∨ high.kind ≠ .memory64High
      · rw [if_pos hkinds, if_pos hkinds]
      · rw [if_neg hkinds, if_neg hkinds]
        simp only [not_or, Decidable.not_not] at hkinds
        have hlprobe : low.sizingProbe = low'.sizingProbe := hl.probe.resolve_right fun h =>
          absurd (hkinds.1.symm.trans h.1) (by decide)
        have hhprobe : high.sizingProbe = high'.sizingProbe := hh.probe.resolve_right fun h =>
          absurd (hkinds.2.symm.trans h.1) (by decide)
        have hvalue : high'.value = high.value := by rw [hh.same]
        rw [hlprobe, hhprobe, hvalue]

theorem memoryRange_eq (h : f.Alike f') (idx : Nat) : f'.memoryRange idx = f.memoryRange idx := by
  unfold Function.memoryRange Function.memoryBase
  rw [h.memory64AssignedBase_eq]
  have hbdf : f'.bdf = f.bdf := by rw [h.same]
  rcases h.getElem? idx with ⟨hb, hb'⟩ | ⟨b, b', hb, hb', hbar⟩
  · rw [hb, hb']
    rfl
  · rw [hb, hb']
    simp only [Option.bind_eq_bind, Option.bind_some, hbar.kind_eq, hbar.assignedBase_eq, hbar.size_eq, hbdf]

theorem ranges_eq (h : f.Alike f') : f'.ranges = f.ranges := by
  unfold Function.ranges
  have hcommand : f'.command = f.command := by rw [h.same]
  rw [hcommand, funext h.memoryRange_eq]

theorem pioTargetOf_eq (h : f.Alike f') (port : UInt64) : f'.pioTargetOf port = f.pioTargetOf port := by
  unfold Function.pioTargetOf
  have hcommand : f'.command = f.command := by rw [h.same]
  have hbdf : f'.bdf = f.bdf := by rw [h.same]
  rw [hcommand, hbdf]
  congr 2
  funext idx
  rcases h.getElem? idx with ⟨hb, hb'⟩ | ⟨b, b', hb, hb', hbar⟩
  · rw [hb, hb']
  · rw [hb, hb', Option.bind_some, Option.bind_some, hbar.pioOffsetOf_eq]

theorem msiConfig_eq (h : f.Alike f') : f'.msiConfig = f.msiConfig := by
  rw [h.same]
  exact msiConfig_bars

theorem msixControl_eq (h : f.Alike f') : f'.msixControl = f.msixControl := by
  rw [h.same]
  exact msixControl_bars

end Function.Alike

/-! ## Root complexes that answer alike -/

/-- What a cached BAR is used for, whichever address it was cached for. -/
def Mru.place (m : Mru) : UInt64 × UInt64 × Bdf × Nat := (m.base, m.stop, m.target.bdf, m.target.barIndex)

theorem targetFor_place {m m' : Mru} (h : m.place = m'.place) (gpa : UInt64) : m.targetFor gpa = m'.targetFor gpa := by
  obtain ⟨base, stop, bdf, barIndex, offset⟩ := m
  obtain ⟨base', stop', bdf', barIndex', offset'⟩ := m'
  cases h
  rfl

/-- The cached BAR overlaps no BAR before it. -/
def HidesNone (e : PcieEcam) : Prop :=
  ∀ m, e.mmioMru = some m → ∀ pre r post, decodedRanges e.functions = pre ++ r :: post →
    r.bar = (m.target.bdf, m.target.barIndex) → ∀ s ∈ pre, ∀ gpa, r.Contains gpa → ¬s.Contains gpa

/-- Two root complexes that no access tells apart: the second may have forgotten a BAR that hides none. -/
structure PcieEcam.Alike (e e' : PcieEcam) : Prop where
  functions : List.Forall₂ Function.Alike e.functions e'.functions
  cached : e.mmioMru.map Mru.place = e'.mmioMru.map Mru.place ∨ e'.mmioMru = none ∧ HidesNone e
  sound : MruSound e
  sound' : MruSound e'
  distinct : Distinct e.functions

section Alike

variable {e e' : PcieEcam} {fs fs' : List Function}

theorem decodedRanges_alike (h : List.Forall₂ Function.Alike fs fs') : decodedRanges fs' = decodedRanges fs := by
  induction h with
  | nil => rfl
  | cons hf _ ih =>
    unfold decodedRanges at ih ⊢
    rw [List.flatMap_cons, List.flatMap_cons, hf.ranges_eq, ih]

theorem functionAt_alike (h : List.Forall₂ Function.Alike fs fs') (bdf : Bdf) :
    (fs.find? fun f => f.bdf = bdf) = none ∧ (fs'.find? fun f => f.bdf = bdf) = none ∨
      ∃ f f', (fs.find? fun f => f.bdf = bdf) = some f ∧ (fs'.find? fun f => f.bdf = bdf) = some f' ∧
      f.Alike f' := by
  induction h with
  | nil => exact .inl ⟨rfl, rfl⟩
  | @cons f f' fs fs' hf _ ih =>
    have hbdf : f'.bdf = f.bdf := by rw [hf.same]
    rw [List.find?_cons, List.find?_cons, hbdf]
    by_cases h : f.bdf = bdf
    · simp only [h, decide_true]
      exact .inr ⟨f, f', rfl, rfl, hf⟩
    · simp only [h, decide_false]
      exact ih

theorem modifyAt_alike {bdf : Bdf} {g : Function → Function} (h : List.Forall₂ Function.Alike fs fs')
    (hg : ∀ f f' : Function, f.Alike f' → (g f).Alike (g f')) :
    List.Forall₂ Function.Alike (PcieEcam.modifyAt bdf g fs) (PcieEcam.modifyAt bdf g fs') := by
  induction h with
  | nil => exact .nil
  | @cons f f' fs fs' hf hfs ih =>
    have hbdf : f'.bdf = f.bdf := by rw [hf.same]
    unfold PcieEcam.modifyAt
    rw [hbdf]
    split
    · exact .cons (hg f f' hf) hfs
    · exact .cons hf ih

theorem writeFunction_alike (addr : CfgAddr) (size : UInt8) (value : UInt64) {f f' : Function} (h : f.Alike f') :
    (PcieEcam.writeFunction addr size value f).Alike (PcieEcam.writeFunction addr size value f') := by
  unfold PcieEcam.writeFunction
  simp only [h.readDword_eq]
  exact h.writeDword _ _

namespace PcieEcam.Alike

theorem cfgRead_eq (h : e.Alike e') (ecamOffset : UInt64) (size : UInt8) :
    e'.cfgRead ecamOffset size = e.cfgRead ecamOffset size := by
  unfold PcieEcam.cfgRead PcieEcam.functionAt
  rcases functionAt_alike h.functions (CfgAddr.fromEcamOffset ecamOffset).bdf with ⟨hf, hf'⟩ |
    ⟨f, f', hf, hf', hff⟩
  · simp only [hf, hf']
  · simp only [hf, hf', hff.readDword_eq]

theorem cfgWrite (h : e.Alike e') (ecamOffset : UInt64) (size : UInt8) (value : UInt64) :
    (e.cfgWrite ecamOffset size value).Alike (e'.cfgWrite ecamOffset size value) where
  functions := modifyAt_alike h.functions fun _ _ => writeFunction_alike _ size value
  cached := .inl rfl
  sound := mruSound_cold
  sound' := mruSound_cold
  distinct := cfgWrite_distinct h.distinct ecamOffset size value

theorem pioTarget_eq (h : e.Alike e') (port : UInt64) : e'.pioTarget port = e.pioTarget port := by
  have hfs := h.functions
  unfold PcieEcam.pioTarget
  generalize e.functions = fs, e'.functions = fs' at hfs
  induction hfs with
  | nil => rfl
  | cons hf _ ih => rw [List.findSome?_cons, List.findSome?_cons, hf.pioTargetOf_eq, ih]

theorem msixControlAt_eq (h : e.Alike e') (bdf : Bdf) : e'.msixControlAt bdf = e.msixControlAt bdf := by
  unfold PcieEcam.msixControlAt PcieEcam.functionAt
  rcases functionAt_alike h.functions bdf with ⟨hf, hf'⟩ | ⟨f, f', hf, hf', hff⟩
  · rw [hf, hf']
  · rw [hf, hf', Option.bind_some, Option.bind_some, hff.msixControl_eq]

theorem hdaMsiConfig_eq (h : e.Alike e') : e'.hdaMsiConfig = e.hdaMsiConfig := by
  unfold PcieEcam.hdaMsiConfig PcieEcam.functionAt
  rcases functionAt_alike h.functions hdaBdf with ⟨hf, hf'⟩ | ⟨f, f', hf, hf', hff⟩
  · rw [hf, hf']
  · rw [hf, hf', Option.bind_some, Option.bind_some, hff.msiConfig_eq]

theorem fresh_of_hidesNone (h : HidesNone e) {m : Mru} (hm : e.mmioMru = some m) {r : Range} {gpa : UInt64}
    (hr : r ∈ decodedRanges e.functions) (hbar : r.bar = (m.target.bdf, m.target.barIndex)) (hin : r.Contains gpa) :
    freshRange e.functions gpa = some r := by
  obtain ⟨pre, post, hsplit⟩ := List.append_of_mem hr
  refine List.find?_eq_some_iff_append.2 ⟨decide_eq_true hin, pre, post, hsplit, fun s hs => ?_⟩
  simpa using h m hm pre r post hsplit hbar s hs gpa hin

/-- The two answer every lookup alike, and stay alike. -/
theorem mmioTarget (h : e.Alike e') (gpa : UInt64) :
    (e'.mmioTarget gpa).1 = (e.mmioTarget gpa).1 ∧ (e.mmioTarget gpa).2.Alike (e'.mmioTarget gpa).2 := by
  have hkeeps := mmioTarget_keeps h.sound gpa
  have hkeeps' := mmioTarget_keeps h.sound' gpa
  suffices hsuff : (e'.mmioTarget gpa).1 = (e.mmioTarget gpa).1 ∧
      ((e.mmioTarget gpa).2.mmioMru.map Mru.place = (e'.mmioTarget gpa).2.mmioMru.map Mru.place ∨
        (e'.mmioTarget gpa).2.mmioMru = none ∧ (e.mmioTarget gpa).2 = e ∧ HidesNone e) by
    refine ⟨hsuff.1, ?_, ?_, hkeeps.2, hkeeps'.2, ?_⟩
    · rw [hkeeps.1, hkeeps'.1]
      exact h.functions
    · rcases hsuff.2 with hplace | ⟨hnone, hsame, hhides⟩
      · exact .inl hplace
      · exact .inr ⟨hnone, hsame.symm ▸ hhides⟩
    · rw [hkeeps.1]
      exact h.distinct
  have hscan : e'.functions.findSome? (Function.mmioTargetOf gpa) =
    e.functions.findSome? (Function.mmioTargetOf gpa) := by
    rw [scan_eq, scan_eq, decodedRanges_alike h.functions]
  unfold PcieEcam.mmioTarget
  rw [hscan]
  rcases h.cached with hplace | ⟨hnone, hhides⟩
  · have hhit : (e'.mmioMru.bind fun mru => mru.targetFor gpa) = e.mmioMru.bind fun mru => mru.targetFor gpa := by
      cases hm : e.mmioMru with
      | none =>
        rw [hm] at hplace
        rw [Option.map_eq_none_iff.1 hplace.symm]
      | some m =>
        rw [hm] at hplace
        obtain ⟨m', hm', heq⟩ := Option.map_eq_some_iff.1 hplace.symm
        rw [hm', Option.bind_some, Option.bind_some, targetFor_place heq]
    rw [hhit]
    cases e.mmioMru.bind fun mru => mru.targetFor gpa with
    | some target => exact ⟨rfl, .inl hplace⟩
    | none =>
      cases e.functions.findSome? (Function.mmioTargetOf gpa) with
      | some m => exact ⟨rfl, .inl rfl⟩
      | none => exact ⟨rfl, .inl hplace⟩
  · rw [hnone]
    cases hhit : e.mmioMru.bind fun mru => mru.targetFor gpa with
    | some target =>
      -- the saved root complex answers from its cache, and the restored one finds the same BAR
      obtain ⟨m, hm, htarget⟩ := Option.bind_eq_some_iff.1 hhit
      obtain ⟨r, hr, hfit, g, rfl⟩ := h.sound m hm
      rw [targetFor_mru hfit] at htarget
      split at htarget
      · rename_i hin
        cases htarget
        have hfresh := fresh_of_hidesNone hhides hm hr rfl hin
        rw [scan_eq, scan_of_fresh hfresh hfit, Option.bind_none]
        refine ⟨rfl, .inl ?_⟩
        show e.mmioMru.map Mru.place = _
        rw [hm]
        rfl
      · cases htarget
    | none =>
      rw [Option.bind_none]
      cases e.functions.findSome? (Function.mmioTargetOf gpa) with
      | some m => exact ⟨rfl, .inl rfl⟩
      | none => exact ⟨rfl, .inr ⟨hnone, rfl, hhides⟩⟩

end PcieEcam.Alike

end Alike

/-! ## Sequences of accesses -/

/-- One access of config space, of a BAR window, or of the MSI state. -/
inductive Query where
  | cfgRead (ecamOffset : UInt64) (size : UInt8)
  | cfgWrite (ecamOffset : UInt64) (size : UInt8) (value : UInt64)
  | mmioTarget (gpa : UInt64)
  | pioTarget (port : UInt64)
  | nvmeMsixControl
  | xhciMsixControl
  | virtioNetMsixControl
  | virtioGpuMsixControl
  | virtioConsoleMsixControl
  | hdaMsiConfig

inductive Answer where
  | value (value : UInt64)
  | written
  | target (target : Option Target)
  | msix (control : MsixFunctionControl)
  | msi (config : HdaMsiConfig)
deriving DecidableEq, Repr

/-- What one access answers, and the root complex after it. -/
def Query.ask (e : PcieEcam) : Query → Answer × PcieEcam
  | .cfgRead ecamOffset size => (.value (e.cfgRead ecamOffset size), e)
  | .cfgWrite ecamOffset size value => (.written, e.cfgWrite ecamOffset size value)
  | .mmioTarget gpa => (.target (e.mmioTarget gpa).1, (e.mmioTarget gpa).2)
  | .pioTarget port => (.target (e.pioTarget port), e)
  | .nvmeMsixControl => (.msix e.nvmeMsixControl, e)
  | .xhciMsixControl => (.msix e.xhciMsixControl, e)
  | .virtioNetMsixControl => (.msix e.virtioNetMsixControl, e)
  | .virtioGpuMsixControl => (.msix e.virtioGpuMsixControl, e)
  | .virtioConsoleMsixControl => (.msix e.virtioConsoleMsixControl, e)
  | .hdaMsiConfig => (.msi e.hdaMsiConfig, e)

/-- The answers of a sequence of accesses. -/
def answers (e : PcieEcam) : List Query → List Answer
  | [] => []
  | q :: queries => (q.ask e).1 :: answers (q.ask e).2 queries

section Answers

variable {config : PcieEcamConfig} {hostmemMib : Option UInt64} {e e' t : PcieEcam} {fs₀ fs gs : List Function}

theorem ask_alike (h : e.Alike e') (q : Query) : (q.ask e').1 = (q.ask e).1 ∧ (q.ask e).2.Alike (q.ask e').2 := by
  cases q with
  | cfgRead ecamOffset size => exact ⟨congrArg Answer.value (h.cfgRead_eq ecamOffset size), h⟩
  | cfgWrite ecamOffset size value => exact ⟨rfl, h.cfgWrite ecamOffset size value⟩
  | mmioTarget gpa => exact ⟨congrArg Answer.target (h.mmioTarget gpa).1, (h.mmioTarget gpa).2⟩
  | pioTarget port => exact ⟨congrArg Answer.target (h.pioTarget_eq port), h⟩
  | nvmeMsixControl => exact ⟨congrArg Answer.msix (h.msixControlAt_eq _), h⟩
  | xhciMsixControl => exact ⟨congrArg Answer.msix (h.msixControlAt_eq _), h⟩
  | virtioNetMsixControl => exact ⟨congrArg Answer.msix (h.msixControlAt_eq _), h⟩
  | virtioGpuMsixControl => exact ⟨congrArg Answer.msix (h.msixControlAt_eq _), h⟩
  | virtioConsoleMsixControl => exact ⟨congrArg Answer.msix (h.msixControlAt_eq _), h⟩
  | hdaMsiConfig => exact ⟨congrArg Answer.msi h.hdaMsiConfig_eq, h⟩

theorem answers_alike (h : e.Alike e') (queries : List Query) : answers e' queries = answers e queries := by
  induction queries generalizing e e' with
  | nil => rfl
  | cons q queries ih =>
    obtain ⟨hanswer, halike⟩ := ask_alike h q
    show _ :: _ = _ :: _
    rw [hanswer, ih halike]

/-- The probe states of two functions agree wherever they matter. -/
def ProbesAgree (f g : Function) : Prop :=
  ∀ i : Fin numBars, (f.bars.get i).sizingProbe = (g.bars.get i).sizingProbe ∨ (f.bars.get i).Unassigned

theorem probesAgree_of_eq (h : (fs.map fun f => f.bars.map Bar.sizingProbe) = gs.map fun g =>
    g.bars.map Bar.sizingProbe) :
    List.Forall₂ ProbesAgree fs gs := by
  induction fs generalizing gs with
  | nil =>
    cases gs with
    | nil => exact .nil
    | cons g gs => cases h
  | cons f fs ih =>
    cases gs with
    | nil => cases h
    | cons g gs =>
      simp only [List.map_cons, List.cons.injEq] at h
      refine .cons (fun i => .inl ?_) (ih h.2)
      simpa [Vector.get] using congrArg (fun v => v.get i) h.1

theorem alike_restoredFrom {f₀ f g : Function} (hf : Kept f₀ f) (hg : Kept f₀ g) (hprobe : ProbesAgree f g) :
    f.Alike (g.restoredFrom f) where
  same := by
    unfold Function.restoredFrom Function.restored
    rw [hf.command, hg.frame, hf.frame]
  bars i := by
    have hbuilt : (g.bars.get i).built = (f.bars.get i).built := by
      have h := congrArg (fun v => v.get i) (hg.bars.trans hf.bars.symm)
      simpa [Vector.get] using h
    have hbar : (g.restoredFrom f).bars.get i = { g.bars.get i with value := (f.bars.get i).value } := by
      show (Vector.zipWith _ _ _)[i.1] = _
      rw [Vector.getElem_zipWith, Vector.getElem_map]
      rfl
    rw [hbar]
    refine ⟨?_, hprobe i⟩
    generalize g.bars.get i = b', f.bars.get i = b at hbuilt
    obtain ⟨value, sizeMask, typeBits, sizingProbe, kind⟩ := b
    cases hbuilt
    rfl

theorem alike_zipWith (hf : List.Forall₂ Kept fs₀ fs) (hg : List.Forall₂ Kept fs₀ gs)
    (hprobe : List.Forall₂ ProbesAgree fs gs) :
    List.Forall₂ Function.Alike fs (List.zipWith Function.restoredFrom gs fs) := by
  induction hf generalizing gs with
  | nil => cases hg; exact .nil
  | cons hf _ ih =>
    cases hg with
    | cons hg hgs =>
      cases hprobe with
      | cons hp hps => exact .cons (alike_restoredFrom hf hg hp) (ih hgs hps)

/-- A snapshot restored into any root complex of the same configuration, the probe states of its BARs agreeing and the
cached BAR hiding none, answers every later sequence of accesses as the original. -/
theorem restored_answers_as_saved (he : Programmed config hostmemMib e) (ht : Programmed config hostmemMib t)
    (hprobes : List.Forall₂ ProbesAgree e.functions t.functions) (hhides : HidesNone e) :
    ∃ t', t.restoreState e.snapshotState = .ok t' ∧ ∀ queries, answers t' queries = answers e queries := by
  obtain ⟨e₀, h₀⟩ := he.reached.exists_new
  obtain ⟨hsound, hlen⟩ := newWithConfig_sound h₀
  have hke := he.kept h₀
  have hkt := ht.kept h₀
  refine ⟨_, restoreState_kept hke hkt hsound hlen, fun queries => answers_alike ?_ queries⟩
  exact ⟨alike_zipWith hke hkt hprobes, .inr ⟨rfl, hhides⟩, he.reached.sound.2, mruSound_cold,
    he.reached.sound.1⟩

/-- The boot media's BARs programmed, restored into a root complex that was just built. -/
theorem overlapping_restored_into_default :
    ∃ t', defaultEcam.restoreState overlappingEcam.snapshotState = .ok t' ∧
      ∀ queries, answers t' queries = answers overlappingEcam queries :=
  restored_answers_as_saved
    (.cfgWrite _ _ _ (.cfgWrite _ _ _ (.cfgWrite _ _ _ (.new newWithConfig_default))))
    (.new newWithConfig_default)
    (probesAgree_of_eq (by decide +kernel))
    (fun m hm => by cases hm)

/-- The NVMe endpoint enabled, while its BAR is being sized. -/
def sizingEcam : PcieEcam := (defaultEcam.cfgWrite 0x8004 2 2).cfgWrite 0x8010 4 0xffffffff

/-- A BAR that was being sized is decoded at its size mask once it is restored. -/
theorem sizing_probe_lost : ∃ e t t', Programmed defaultConfig none e ∧ Programmed defaultConfig none t ∧
    t.restoreState e.snapshotState = .ok t' ∧
    answers e [.mmioTarget 0xffffc000] = [.target none] ∧
    answers t' [.mmioTarget 0xffffc000] = [.target (some ⟨nvmeBdf, 0, 0⟩)] := by
  obtain ⟨hsound, hlen⟩ := newWithConfig_sound newWithConfig_default
  have ht : Programmed defaultConfig none defaultEcam := .new newWithConfig_default
  have he : Programmed defaultConfig none sizingEcam := .cfgWrite _ _ _ (.cfgWrite _ _ _ ht)
  refine ⟨sizingEcam, defaultEcam, _, he, ht, restoreState_kept (he.kept newWithConfig_default)
    (ht.kept newWithConfig_default) hsound hlen, ?_, ?_⟩ <;> decide +kernel

end Answers

end BridgeVm.Pcie
