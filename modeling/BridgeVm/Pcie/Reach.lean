import BridgeVm.Pcie.CapabilityWrites
import BridgeVm.Pcie.Snapshot

/-!
# The states of a root complex

Every state after any config writes, lookups and restores, and what they all share: no two functions at one address,
and a cached BAR that is decoded. A lookup therefore gives the answer of a fresh scan exactly when it is unshadowed.
-/

namespace BridgeVm.Pcie

/-- The states a root complex goes through, restores of any bytes included. -/
inductive Reached (config : PcieEcamConfig) (hostmemMib : Option UInt64) : PcieEcam → Prop
  | new {e : PcieEcam} : PcieEcam.newWithConfig config hostmemMib = some e → Reached config hostmemMib e
  | cfgWrite {e : PcieEcam} (ecamOffset : UInt64) (size : UInt8) (value : UInt64) :
      Reached config hostmemMib e → Reached config hostmemMib (e.cfgWrite ecamOffset size value)
  | mmioTarget {e : PcieEcam} (gpa : UInt64) :
      Reached config hostmemMib e → Reached config hostmemMib (e.mmioTarget gpa).2
  | restoreState {e e' : PcieEcam} {data : List UInt8} :
      Reached config hostmemMib e → e.restoreState data = .ok e' → Reached config hostmemMib e'

variable {config : PcieEcamConfig} {hostmemMib : Option UInt64} {e e' : PcieEcam}

/-- The address of every endpoint, in the order of their construction. -/
def endpointBdfs : List Bdf :=
  [hostBridgeBdf, nvmeBdf, xhciBdf, hdaBdf, virtioBlkBdf, virtioNetBdf, virtioGpuBdf, virtioConsoleBdf]

theorem virtioGpu_bdf {size : Option UInt64} {id : UInt16} {f : Function} (h : Function.virtioGpu size id = some f) :
    f.bdf = virtioGpuBdf := by
  unfold Function.virtioGpu at h
  cases size with
  | none => cases h; rfl
  | some size =>
    simp only at h
    split at h
    · cases h
    · split at h
      · cases h; rfl
      · cases h

theorem gpuFunction_bdf {f : Function} (h : PcieEcam.gpuFunction config hostmemMib = some f) :
    f.bdf = virtioGpuBdf := by
  unfold PcieEcam.gpuFunction at h
  split at h
  · obtain ⟨size, -, hf⟩ := Option.bind_eq_some_iff.1 h
    exact virtioGpu_bdf hf
  · exact virtioGpu_bdf h

theorem gpuFunctions_sublist {gpu : List Function} (h : PcieEcam.gpuFunctions config hostmemMib = some gpu) :
    (gpu.map Function.bdf).Sublist [virtioGpuBdf] := by
  unfold PcieEcam.gpuFunctions at h
  split at h
  · obtain ⟨f, hf, rfl⟩ := Option.map_eq_some_iff.1 h
    simp [gpuFunction_bdf hf]
  · cases h
    exact List.nil_sublist _

theorem optional_sublist (present : Bool) (f : Function) :
    ((PcieEcam.optional present f).map Function.bdf).Sublist [f.bdf] := by
  cases present
  · exact List.nil_sublist _
  · exact List.Sublist.refl _

theorem newWithConfig_distinct (h : PcieEcam.newWithConfig config hostmemMib = some e) : Distinct e.functions := by
  obtain ⟨gpu, hgpu, rfl⟩ := Option.map_eq_some_iff.1 h
  have hsub : ((PcieEcam.functionsOf config gpu).map Function.bdf).Sublist endpointBdfs := by
    simp only [PcieEcam.functionsOf, List.map_append]
    exact ((((((List.Sublist.refl _).append (optional_sublist _ _)).append (optional_sublist _ _)).append
      (optional_sublist _ _)).append (optional_sublist _ _)).append (gpuFunctions_sublist hgpu)).append
      (optional_sublist _ _)
  exact List.Nodup.sublist hsub (by decide)

theorem newWithConfig_cold (h : PcieEcam.newWithConfig config hostmemMib = some e) : e.mmioMru = none := by
  obtain ⟨gpu, -, rfl⟩ := Option.map_eq_some_iff.1 h
  rfl

/-! ## What every state shares -/

theorem modifyAt_bdfs {g : Function → Function} (hg : ∀ f, (g f).bdf = f.bdf) (bdf : Bdf) (fs : List Function) :
    (PcieEcam.modifyAt bdf g fs).map Function.bdf = fs.map Function.bdf := by
  induction fs with
  | nil => rfl
  | cons f fs ih =>
    unfold PcieEcam.modifyAt
    split
    · rw [List.map_cons, List.map_cons, hg]
    · rw [List.map_cons, List.map_cons, ih]

theorem restored_bdfs {fs gs : List Function} (h : List.Forall₂ Function.Fits fs gs) :
    (List.zipWith Function.restoredFrom fs gs).map Function.bdf = fs.map Function.bdf := by
  induction h with
  | nil => rfl
  | cons _ _ ih =>
    rw [List.zipWith_cons_cons, List.map_cons, List.map_cons, ih]
    rfl

theorem mruSound_cold {fs : List Function} : MruSound ⟨fs, none⟩ := fun _ h => nomatch h

theorem cfgWrite_distinct (h : Distinct e.functions) (ecamOffset : UInt64) (size : UInt8) (value : UInt64) :
    Distinct (e.cfgWrite ecamOffset size value).functions := by
  unfold Distinct PcieEcam.cfgWrite
  exact (modifyAt_bdfs (fun f => writeDword_bdf f _ _) _ _).symm ▸ h

theorem Reached.sound (h : Reached config hostmemMib e) : Distinct e.functions ∧ MruSound e := by
  induction h with
  | new h => exact ⟨newWithConfig_distinct h, fun m hm => by rw [newWithConfig_cold h] at hm; cases hm⟩
  | cfgWrite ecamOffset size value _ ih => exact ⟨cfgWrite_distinct ih.1 ecamOffset size value, mruSound_cold⟩
  | mmioTarget gpa _ ih =>
    obtain ⟨hfs, hmru⟩ := mmioTarget_keeps ih.2 gpa
    exact ⟨hfs ▸ ih.1, hmru⟩
  | restoreState _ hok ih =>
    obtain ⟨gs, hfits, rfl⟩ := restoreState_ok hok
    refine ⟨?_, mruSound_cold⟩
    unfold Distinct
    rw [restored_bdfs hfits]
    exact ih.1

theorem Reached.exists_new (h : Reached config hostmemMib e) :
    ∃ e₀, PcieEcam.newWithConfig config hostmemMib = some e₀ := by
  induction h with
  | new h => exact ⟨_, h⟩
  | cfgWrite _ _ _ _ ih => exact ih
  | mmioTarget _ _ ih => exact ih
  | restoreState _ _ ih => exact ih

/-- In every state, whatever was looked up before, a lookup gives the answer of a fresh scan exactly when no range
before the cached one contains the address and the range found ends below 2^64. -/
theorem mmio_target_is_fresh_iff (h : Reached config hostmemMib e) (gpa : UInt64) :
    (e.mmioTarget gpa).1 = freshTarget e.functions gpa ↔ Unshadowed e gpa :=
  mmioTarget_fresh_iff h.sound.1 h.sound.2

/-- `PcieEcamConfig::default()`. -/
def defaultConfig : PcieEcamConfig where
  xhciPresent := true
  hdaPresent := false
  virtioBlkPresent := true
  virtioNetPresent := false
  virtioGpuPresent := false
  virtioConsolePresent := false
  virtioGpuPciDeviceId := 0x1050
  virtioGpu3dEnabled := false

/-- `PcieEcam::new()`. -/
def defaultEcam : PcieEcam := ⟨PcieEcam.functionsOf defaultConfig [], none⟩

theorem newWithConfig_default : PcieEcam.newWithConfig defaultConfig none = some defaultEcam := rfl

/-- The boot media's BAR1 programmed into the range of its BAR4, both enabled. -/
def overlappingEcam : PcieEcam :=
  ((defaultEcam.cfgWrite 0x18014 4 0x10001000).cfgWrite 0x18020 4 0x10000000).cfgWrite 0x18004 2 2

theorem overlappingEcam_reached : Reached defaultConfig none overlappingEcam :=
  .cfgWrite _ _ _ (.cfgWrite _ _ _ (.cfgWrite _ _ _ (.new newWithConfig_default)))

/-- After a lookup that only BAR4 answers, which is cached. -/
def warmEcam : PcieEcam := (overlappingEcam.mmioTarget 0x10000000).2

/-- A second lookup there gives the fresh answer, and one of the addresses that BAR1 has too does not. -/
theorem mmio_target_is_fresh_warm : Unshadowed warmEcam 0x10000004 ∧ ¬Unshadowed warmEcam 0x10001000 :=
  ⟨(mmio_target_is_fresh_iff (.mmioTarget _ overlappingEcam_reached) 0x10000004).mp (by decide +kernel),
    fun h => absurd ((mmio_target_is_fresh_iff (.mmioTarget _ overlappingEcam_reached) 0x10001000).mpr h)
      (by decide +kernel)⟩

/-- After a lookup that only BAR4 answers, BAR4 answers for BAR1's addresses too. -/
theorem overlapping_bar_answers_from_cache :
    ∃ e, Reached defaultConfig none e ∧ (e.mmioTarget 0x10001000).1 = some ⟨virtioBlkBdf, 4, 0x1000⟩ ∧
      freshTarget e.functions 0x10001000 = some ⟨virtioBlkBdf, 1, 0⟩ := by
  refine ⟨warmEcam, .mmioTarget _ overlappingEcam_reached, ?_⟩
  decide +kernel

end BridgeVm.Pcie
