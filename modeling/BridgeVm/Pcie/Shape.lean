import BridgeVm.Pcie.Reach

/-!
# The shape of config space

What the guest cannot change of a function: its identity, its BARs' sizes and kinds, where its capabilities are. The
capability bytes that can be written are no part of the list that finds them, so every snapshot restores into every
root complex of its configuration.
-/

namespace BridgeVm.Pcie

open Lib

/-! ## The capability walk -/

/-- The offsets that the loop of `capability_offset` may read from `cap` on. -/
def Function.walked (f : Function) : Nat → UInt8 → List UInt16
  | 0, _ => []
  | n + 1, cap =>
    if cap = 0 then []
    else cap.toUInt16 :: (cap.toUInt16 + 1) :: f.walked n (f.capabilityByte (cap.toUInt16 + 1))

/-- `f` finds its capabilities where `g` does. -/
structure Function.FindsAs (f g : Function) : Prop where
  capPtr : f.capPtr = g.capPtr
  bytes : ∀ off ∈ g.walked 32 g.capPtr, f.capabilityByte off = g.capabilityByte off

/-- The bytes that find the capabilities are not writable, and those that are writable are listed. -/
structure Function.Sound (f : Function) : Prop where
  fixed : ∀ off ∈ f.walked 32 f.capPtr, off ∉ f.writable
  listed : ∀ off ∈ f.writable, off ∈ f.capBytes.map Prod.fst
  count : f.capBytes.length ≤ 256
  command : f.command = 0

instance (f : Function) : Decidable f.Sound :=
  have : Decidable (∀ off ∈ f.walked 32 f.capPtr, off ∉ f.writable) := List.decidableBAll _ _
  have : Decidable (∀ off ∈ f.writable, off ∈ f.capBytes.map Prod.fst) := List.decidableBAll _ _
  decidable_of_iff ((∀ off ∈ f.walked 32 f.capPtr, off ∉ f.writable) ∧
    (∀ off ∈ f.writable, off ∈ f.capBytes.map Prod.fst) ∧ f.capBytes.length ≤ 256 ∧ f.command = 0)
    ⟨fun h => ⟨h.1, h.2.1, h.2.2.1, h.2.2.2⟩, fun h => ⟨h.fixed, h.listed, h.count, h.command⟩⟩

section Walk

variable {f g : Function}

theorem capabilityFrom_congr (id : UInt8) {n : Nat} {cap : UInt8}
    (h : ∀ off ∈ g.walked n cap, f.capabilityByte off = g.capabilityByte off) :
    f.capabilityFrom id n cap = g.capabilityFrom id n cap := by
  induction n generalizing cap with
  | zero => rfl
  | succ n ih =>
    unfold Function.walked at h
    unfold Function.capabilityFrom
    by_cases hcap : cap = 0
    · rw [if_pos hcap, if_pos hcap]
    · rw [if_neg hcap] at h
      have hid := h _ List.mem_cons_self
      have hnext := h _ (List.mem_cons_of_mem _ List.mem_cons_self)
      rw [if_neg hcap, if_neg hcap, hid, hnext, ih fun off hoff => h off (by simp [hoff])]

theorem walked_congr {n : Nat} {cap : UInt8}
    (h : ∀ off ∈ g.walked n cap, f.capabilityByte off = g.capabilityByte off) :
    f.walked n cap = g.walked n cap := by
  induction n generalizing cap with
  | zero => rfl
  | succ n ih =>
    unfold Function.walked at h ⊢
    by_cases hcap : cap = 0
    · rw [if_pos hcap, if_pos hcap]
    · rw [if_neg hcap] at h
      have hnext := h _ (List.mem_cons_of_mem _ List.mem_cons_self)
      rw [if_neg hcap, if_neg hcap, hnext, ih fun off hoff => h off (by simp [hoff])]

namespace Function.FindsAs

theorem capabilityOffset (h : f.FindsAs g) (id : UInt8) : f.capabilityOffset id = g.capabilityOffset id := by
  unfold Function.capabilityOffset
  rw [h.capPtr]
  exact capabilityFrom_congr id h.bytes

theorem writable (h : f.FindsAs g) : f.writable = g.writable := by
  unfold Function.writable
  rw [h.capabilityOffset, h.capabilityOffset, h.capabilityOffset]

theorem sound (h : f.FindsAs g) (hoffsets : f.capBytes.map Prod.fst = g.capBytes.map Prod.fst)
    (hcommand : f.command = 0) (hg : g.Sound) : f.Sound where
  command := hcommand
  fixed := by
    rw [h.writable, h.capPtr, walked_congr h.bytes]
    exact hg.fixed
  listed := by
    rw [h.writable, hoffsets]
    exact hg.listed
  count := by
    have hlen := congrArg List.length hoffsets
    rw [List.length_map, List.length_map] at hlen
    rw [hlen]
    exact hg.count

end Function.FindsAs

end Walk

/-! ## The endpoints as they are built -/

section Endpoints

theorem byteAt_middle {a b b' c : List (UInt16 × UInt8)} {off : UInt16} (hb : off ∉ b.map Prod.fst)
    (hb' : off ∉ b'.map Prod.fst) : byteAt (a ++ b ++ c) off = byteAt (a ++ b' ++ c) off := by
  have hskip : ∀ {l : List (UInt16 × UInt8)}, off ∉ l.map Prod.fst → (l.find? fun p => p.1 = off) = none := by
    intro l hl
    refine List.find?_eq_none.2 fun p hp hoff => hl ?_
    exact List.mem_map.2 ⟨p, hp, of_decide_eq_true hoff⟩
  unfold byteAt
  rw [List.find?_append, List.find?_append, List.find?_append, List.find?_append, hskip hb, hskip hb']

/-- The GPU endpoint with a host-visible window, and none of what the window does not change. -/
def gpuWindowed (length : UInt64) : Function :=
  Function.modernVirtio virtioGpuBdf 0 0 0 .unimplemented .unimplemented (some (1, 2, length)) Function.virtioGpuMsix

/-- What the shared memory capability says of its region. -/
def regionBytes (regionLength : UInt64) : List UInt8 :=
  (toLeBytes 8 (0 : UInt64).toNat).take 4 ++ (toLeBytes 8 regionLength.toNat).take 4 ++
    (toLeBytes 8 (0 : UInt64).toNat).drop 4 ++ (toLeBytes 8 regionLength.toNat).drop 4

theorem placeBytes_append (offset : UInt8) (bytes bytes' : List UInt8) :
    placeBytes offset (bytes ++ bytes') = placeBytes offset bytes ++
      bytes'.mapIdx fun i byte => (offset.toUInt16 + .ofNat (i + bytes.length), byte) :=
  List.mapIdx_append

theorem mapIdx_offsets (place : Nat → UInt16) (bytes : List UInt8) :
    (bytes.mapIdx fun i byte => (place i, byte)).map Prod.fst = (List.range bytes.length).map place := by
  refine List.ext_getElem? fun i => ?_
  by_cases hi : i < bytes.length <;> simp [hi]

theorem length_regionBytes (regionLength : UInt64) : (regionBytes regionLength).length = 16 := by
  simp [regionBytes, length_toLeBytes]

/-- The bytes of the window's region, placed behind the head of their capability. -/
def regionPlaced (regionLength : UInt64) : List (UInt16 × UInt8) :=
  (regionBytes regionLength).mapIdx fun i byte => ((0x90 : UInt8).toUInt16 + .ofNat (i + 8), byte)

def regionOffsets : List UInt16 := (List.range 16).map fun i => (0x90 : UInt8).toUInt16 + .ofNat (i + 8)

theorem regionPlaced_offsets (regionLength : UInt64) : (regionPlaced regionLength).map Prod.fst = regionOffsets := by
  unfold regionPlaced regionOffsets
  rw [mapIdx_offsets fun i => (0x90 : UInt8).toUInt16 + .ofNat (i + 8), length_regionBytes]

theorem gpuWindowed_split : ∃ front back, ∀ regionLength,
    (gpuWindowed regionLength).capBytes = front ++ regionPlaced regionLength ++ back := by
  refine ⟨placeBytes 0x40 (virtioPciCapBytes 0x50 1 4 0x0000 0x1000) ++ placeBytes 0x50 (notifyCapBytes 0x64) ++
    placeBytes 0x64 (virtioPciCapBytes 0x74 3 4 0x1000 0x1000) ++
    placeBytes 0x74 (virtioPciCapBytes 0x90 4 4 0x2000 0x1000) ++
    placeBytes 0x90 [virtioPciCapVendor, 0x84, 24, 8, 2, 1, 0, 0],
    placeBytes 0x84 (Function.virtioGpuMsix.toBytes 0), fun regionLength => ?_⟩
  have hcap : virtioPciCap64Bytes 0x84 8 2 1 0 regionLength =
      [virtioPciCapVendor, 0x84, 24, 8, 2, 1, 0, 0] ++ regionBytes regionLength := by
    simp only [virtioPciCap64Bytes, regionBytes, List.append_assoc]
  have hplaced : placeBytes 0x90 (virtioPciCap64Bytes 0x84 8 2 1 0 regionLength) =
      placeBytes 0x90 [virtioPciCapVendor, 0x84, 24, 8, 2, 1, 0, 0] ++ regionPlaced regionLength := by
    rw [hcap, placeBytes_append]
    rfl
  show capabilityListInner 0x84 (some (1, 2, regionLength)) ++ _ = _
  unfold capabilityListInner
  simp only [Option.isSome_some, if_true, hplaced, List.append_assoc]

theorem gpuWindowed_findsAs (regionLength : UInt64) : (gpuWindowed regionLength).FindsAs (gpuWindowed 0) where
  capPtr := rfl
  bytes off hoff := by
    have hout : ∀ off ∈ (gpuWindowed 0).walked 32 (gpuWindowed 0).capPtr, off ∉ regionOffsets := by
      have hall : ((gpuWindowed 0).walked 32 (gpuWindowed 0).capPtr).all (· ∉ regionOffsets) = true := by
        decide +kernel
      simpa using hall
    obtain ⟨front, back, hsplit⟩ := gpuWindowed_split
    unfold Function.capabilityByte
    rw [hsplit, hsplit]
    refine byteAt_middle ?_ ?_ <;> rw [regionPlaced_offsets] <;> exact hout off hoff

theorem gpuWindowed_offsets (regionLength : UInt64) :
    (gpuWindowed regionLength).capBytes.map Prod.fst = (gpuWindowed 0).capBytes.map Prod.fst := by
  obtain ⟨front, back, hsplit⟩ := gpuWindowed_split
  rw [hsplit, hsplit]
  simp only [List.map_append, regionPlaced_offsets]

/-- The GPU endpoint without a window. -/
def gpuBare : Function :=
  Function.modernVirtio virtioGpuBdf 0 0 0 .unimplemented .unimplemented none Function.virtioGpuMsix

/-- The endpoints whose bytes do not depend on the configuration. -/
def fixedEndpoints : List Function :=
  [.hostBridge, .nvme, .xhci, .hda, .virtioBlk, .virtioNet, .virtioConsole, gpuWindowed 0, gpuBare]

theorem fixedEndpoints_sound : ∀ f ∈ fixedEndpoints, f.Sound := by decide +kernel

theorem gpuWindowed_sound : (gpuWindowed 0).Sound := fixedEndpoints_sound _ (by simp [fixedEndpoints])

theorem gpuBare_sound : gpuBare.Sound := fixedEndpoints_sound _ (by simp [fixedEndpoints])

theorem Function.Sound.of_bytes {f g : Function} (hg : g.Sound) (hptr : f.capPtr = g.capPtr)
    (hcommand : f.command = 0) (hbytes : f.capBytes = g.capBytes) : f.Sound :=
  FindsAs.sound ⟨hptr, fun off _ => by unfold Function.capabilityByte; rw [hbytes]⟩ (by rw [hbytes]) hcommand hg

theorem virtioGpu_sound {size : Option UInt64} {id : UInt16} {f : Function}
    (h : Function.virtioGpu size id = some f) : f.Sound := by
  unfold Function.virtioGpu at h
  cases size with
  | none =>
    cases h
    exact gpuBare_sound.of_bytes rfl rfl rfl
  | some size =>
    simp only at h
    split at h
    · cases h
    · split at h
      · cases h
        exact ((gpuWindowed_findsAs size).sound (gpuWindowed_offsets size) rfl gpuWindowed_sound).of_bytes rfl rfl rfl
      · cases h

theorem gpuFunction_sound {config : PcieEcamConfig} {hostmemMib : Option UInt64} {f : Function}
    (h : PcieEcam.gpuFunction config hostmemMib = some f) : f.Sound := by
  unfold PcieEcam.gpuFunction at h
  split at h
  · obtain ⟨size, -, hf⟩ := Option.bind_eq_some_iff.1 h
    exact virtioGpu_sound hf
  · exact virtioGpu_sound h

theorem mem_optional {present : Bool} {f g : Function} (h : g ∈ PcieEcam.optional present f) : g = f := by
  cases present
  · cases h
  · exact List.mem_singleton.1 h

/-- Every endpoint is built soundly, and there are at most eight. -/
theorem newWithConfig_sound {config : PcieEcamConfig} {hostmemMib : Option UInt64} {e : PcieEcam}
    (h : PcieEcam.newWithConfig config hostmemMib = some e) :
    (∀ f ∈ e.functions, f.Sound) ∧ e.functions.length ≤ 8 := by
  obtain ⟨gpu, hgpu, rfl⟩ := Option.map_eq_some_iff.1 h
  have hgpu' : (∀ f ∈ gpu, f.Sound) ∧ gpu.length ≤ 1 := by
    unfold PcieEcam.gpuFunctions at hgpu
    split at hgpu
    · obtain ⟨f, hf, rfl⟩ := Option.map_eq_some_iff.1 hgpu
      exact ⟨fun g hg => List.mem_singleton.1 hg ▸ gpuFunction_sound hf, Nat.le_refl 1⟩
    · cases hgpu
      exact ⟨fun _ hg => (nomatch hg), Nat.zero_le 1⟩
  have hlen : ∀ present f, (PcieEcam.optional present f).length ≤ 1 := fun present f => by
    cases present
    · exact Nat.zero_le 1
    · exact Nat.le_refl 1
  constructor
  · intro f hf
    have hfixed : f ∈ fixedEndpoints → f.Sound := fixedEndpoints_sound f
    simp only [PcieEcam.functionsOf, List.mem_append] at hf
    rcases hf with (((((hf | hf) | hf) | hf) | hf) | hf) | hf
    · rcases List.mem_cons.1 hf with rfl | hf
      · exact hfixed (by simp [fixedEndpoints])
      · exact hfixed (List.mem_singleton.1 hf ▸ by simp [fixedEndpoints])
    · exact hfixed (mem_optional hf ▸ by simp [fixedEndpoints])
    · exact hfixed (mem_optional hf ▸ by simp [fixedEndpoints])
    · exact hfixed (mem_optional hf ▸ by simp [fixedEndpoints])
    · exact hfixed (mem_optional hf ▸ by simp [fixedEndpoints])
    · exact hgpu'.1 f hf
    · exact hfixed (mem_optional hf ▸ by simp [fixedEndpoints])
  · have h₁ := hlen config.xhciPresent .xhci
    have h₂ := hlen config.hdaPresent .hda
    have h₃ := hlen config.virtioBlkPresent .virtioBlk
    have h₄ := hlen config.virtioNetPresent .virtioNet
    have h₅ := hlen config.virtioConsolePresent .virtioConsole
    simp only [PcieEcam.functionsOf, List.length_append, List.length_cons, List.length_nil]
    omega

end Endpoints

/-! ## What the guest cannot change -/

/-- What of a BAR is built in. -/
def Bar.built (b : Bar) : UInt32 × UInt32 × BarKind := (b.sizeMask, b.typeBits, b.kind)

@[simp] theorem Bar.built_write (b : Bar) (value : UInt32) : (b.write value).built = b.built := by
  unfold Bar.write
  split
  · rfl
  · split <;> rfl

/-- `f` is what the guest may make of `f₀`. -/
structure Kept (f₀ f : Function) : Prop where
  frame : f = { f₀ with command := f.command, bars := f.bars, capBytes := f.capBytes }
  command : f.command &&& cmdWritableMask = f.command
  bars : f.bars.map Bar.built = f₀.bars.map Bar.built
  offsets : f.capBytes.map Prod.fst = f₀.capBytes.map Prod.fst
  bytes : ∀ off, off ∉ f₀.writable → f.capabilityByte off = f₀.capabilityByte off

namespace Kept

variable {f₀ f g : Function}

theorem refl (h₀ : f₀.Sound) : Kept f₀ f₀ where
  frame := rfl
  command := by rw [h₀.command]; rfl
  bars := rfl
  offsets := rfl
  bytes _ _ := rfl

theorem findsAs (h : Kept f₀ f) (h₀ : f₀.Sound) : f.FindsAs f₀ where
  capPtr := by rw [h.frame]
  bytes off hoff := h.bytes off (h₀.fixed off hoff)

theorem writable (h : Kept f₀ f) (h₀ : f₀.Sound) : f.writable = f₀.writable := (h.findsAs h₀).writable

theorem command_masked (value : UInt16) :
    value &&& cmdWritableMask &&& cmdWritableMask = value &&& cmdWritableMask := by
  rw [UInt16.and_assoc, UInt16.and_self]

theorem setsBytes (h : Kept f₀ f) (h₀ : f₀.Sound) (hset : SetsBytes f.writable f g) : Kept f₀ g := by
  have hw := h.writable h₀
  have hoffsets : g.capBytes.map Prod.fst = f.capBytes.map Prod.fst := hset.offsets fun off hoff => by
    rw [h.offsets]
    exact h₀.listed off (hw ▸ hoff)
  refine ⟨?_, ?_, ?_, hoffsets.trans h.offsets, fun off hoff => ?_⟩
  · rw [hset.frame, h.frame]
  · rw [hset.frame]
    exact h.command
  · rw [hset.frame]
    exact h.bars
  · exact (hset.byteAt_eq (hw ▸ hoff)).trans (h.bytes off hoff)

theorem writeDword (h : Kept f₀ f) (h₀ : f₀.Sound) (reg : UInt16) (value : UInt32) :
    Kept f₀ (f.writeDword reg value) := by
  rcases writeDword_cases f reg value with hw | ⟨idx, hw⟩ | hw
  · rw [hw]
    exact ⟨by rw [h.frame], command_masked _, h.bars, h.offsets, h.bytes⟩
  · rw [hw]
    refine ⟨by rw [h.frame], h.command, ?_, h.offsets, h.bytes⟩
    rw [← h.bars]
    ext i hi : 1
    simp only [Vector.getElem_map, Vector.getElem_set]
    split
    · rename_i heq
      subst heq
      exact Bar.built_write _ _
    · rfl
  · exact h.setsBytes h₀ hw

theorem restoredFrom (hf : Kept f₀ f) (hg : Kept f₀ g) : Kept f₀ (f.restoredFrom g) where
  frame := by
    unfold Function.restoredFrom Function.restored
    rw [hf.frame]
  command := command_masked _
  bars := by
    rw [← hf.bars]
    ext i hi : 1
    simp [Function.restoredFrom, Function.restored, Bar.built]
  offsets := hg.offsets
  bytes := hg.bytes

theorem fits (hf : Kept f₀ f) (hg : Kept f₀ g) (h₀ : f₀.Sound) : f.Fits g where
  bdf := by rw [hf.frame, hg.frame]
  offsets := hg.offsets.trans hf.offsets.symm
  count := by
    have hlen := congrArg List.length hf.offsets
    rw [List.length_map, List.length_map] at hlen
    have := h₀.count
    omega

end Kept

/-! ## The states the guest can program -/

/-- The states after config writes, lookups, and restores of what such a state saved. -/
inductive Programmed (config : PcieEcamConfig) (hostmemMib : Option UInt64) : PcieEcam → Prop
  | new {e : PcieEcam} : PcieEcam.newWithConfig config hostmemMib = some e → Programmed config hostmemMib e
  | cfgWrite {e : PcieEcam} (ecamOffset : UInt64) (size : UInt8) (value : UInt64) :
      Programmed config hostmemMib e → Programmed config hostmemMib (e.cfgWrite ecamOffset size value)
  | mmioTarget {e : PcieEcam} (gpa : UInt64) :
      Programmed config hostmemMib e → Programmed config hostmemMib (e.mmioTarget gpa).2
  | restoreState {e saved e' : PcieEcam} : Programmed config hostmemMib e → Programmed config hostmemMib saved →
      e.restoreState saved.snapshotState = .ok e' → Programmed config hostmemMib e'

section Programmed

variable {config : PcieEcamConfig} {hostmemMib : Option UInt64} {e e₀ t : PcieEcam} {fs₀ fs gs : List Function}

theorem Programmed.reached (h : Programmed config hostmemMib e) : Reached config hostmemMib e := by
  induction h with
  | new h => exact .new h
  | cfgWrite ecamOffset size value _ ih => exact .cfgWrite ecamOffset size value ih
  | mmioTarget gpa _ ih => exact .mmioTarget gpa ih
  | restoreState _ _ hok ih _ => exact .restoreState ih hok

theorem kept_modifyAt {bdf : Bdf} {g : Function → Function} (h : List.Forall₂ Kept fs₀ fs)
    (hg : ∀ f₀ ∈ fs₀, ∀ f, Kept f₀ f → Kept f₀ (g f)) : List.Forall₂ Kept fs₀
      (PcieEcam.modifyAt bdf g fs) := by
  induction h with
  | nil => exact .nil
  | cons hf _ ih =>
    unfold PcieEcam.modifyAt
    split
    · exact .cons (hg _ List.mem_cons_self _ hf) ‹_›
    · exact .cons hf (ih fun f₀ hf₀ => hg f₀ (List.mem_cons_of_mem _ hf₀))

theorem kept_pairs {R : Function → Function → Prop} (hf : List.Forall₂ Kept fs₀ fs)
    (hg : List.Forall₂ Kept fs₀ gs)
    (hR : ∀ f₀ ∈ fs₀, ∀ f g, Kept f₀ f → Kept f₀ g → R f g) : List.Forall₂ R fs gs := by
  induction hf generalizing gs with
  | nil => cases hg; exact .nil
  | cons hf _ ih =>
    cases hg with
    | cons hg hgs =>
      exact .cons (hR _ List.mem_cons_self _ _ hf hg) (ih hgs fun f₀ hf₀ => hR f₀ (List.mem_cons_of_mem _ hf₀))

theorem kept_zipWith (hf : List.Forall₂ Kept fs₀ fs) (hg : List.Forall₂ Kept fs₀ gs) :
    List.Forall₂ Kept fs₀ (List.zipWith Function.restoredFrom fs gs) := by
  induction hf generalizing gs with
  | nil => cases hg; exact .nil
  | cons hf _ ih =>
    cases hg with
    | cons hg hgs => exact .cons (hf.restoredFrom hg) (ih hgs)

theorem kept_refl (h : ∀ f ∈ fs₀, f.Sound) : List.Forall₂ Kept fs₀ fs₀ :=
  List.forall₂_same.2 fun f hf => .refl (h f hf)

theorem length_flatMap_le {α : Type} {k : Nat} {enc : α → List UInt8} {l : List α}
    (h : ∀ x ∈ l, (enc x).length ≤ k) :
    (l.flatMap enc).length ≤ k * l.length := by
  induction l with
  | nil => exact Nat.zero_le _
  | cons x l ih =>
    have hx := h x List.mem_cons_self
    have hl := ih fun y hy => h y (List.mem_cons_of_mem _ hy)
    rw [List.flatMap_cons, List.length_append, List.length_cons, Nat.mul_succ]
    omega

theorem length_snapshot_le {f : Function} (h : f.capBytes.length ≤ 256) : f.snapshot.length ≤ 1060 := by
  have hbars : ((f.bars.map Bar.value).toList.flatMap Checkpoint.writeU32).length ≤ 4 * 6 := by
    refine (length_flatMap_le fun v _ => Nat.le_of_eq (Checkpoint.length_writeU32 v)).trans ?_
    simp [numBars]
  have hcaps : (f.capBytes.flatMap writeCapability).length ≤ 4 * f.capBytes.length :=
    length_flatMap_le fun c _ => by simp [writeCapability, Checkpoint.writeU16, Checkpoint.writeU8, length_toLeBytes]
  simp only [Function.snapshot, Checkpoint.writeU8, Checkpoint.writeU16, Checkpoint.length_writeU32,
    List.length_append, List.length_cons, List.length_nil, length_toLeBytes]
  omega

theorem length_snapshotState (h : List.Forall₂ Kept fs₀ e.functions) (h₀ : ∀ f ∈ fs₀, f.Sound)
    (hlen : fs₀.length ≤ 8) :
    e.snapshotState.length < 2 ^ 64 := by
  have hcount : ∀ f ∈ e.functions, f.capBytes.length ≤ 256 := by
    intro f hf
    obtain ⟨i, hi, rfl⟩ := List.mem_iff_getElem.1 hf
    have hkept := h.get (h.length_eq ▸ hi) hi
    have hsound := h₀ _ (List.get_mem fs₀ ⟨i, h.length_eq ▸ hi⟩)
    have hoffsets := congrArg List.length hkept.offsets
    rw [List.length_map, List.length_map] at hoffsets
    exact (Nat.le_of_eq hoffsets).trans hsound.count
  have hbytes : (e.functions.flatMap Function.snapshot).length ≤ 1060 * e.functions.length :=
    length_flatMap_le fun f hf => length_snapshot_le (hcount f hf)
  have hfs := h.length_eq
  simp only [PcieEcam.snapshotState, List.length_append, Checkpoint.length_writeU32]
  omega

theorem restoreState_kept (he : List.Forall₂ Kept fs₀ e.functions) (ht : List.Forall₂ Kept fs₀ t.functions)
    (h₀ : ∀ f ∈ fs₀, f.Sound) (hlen : fs₀.length ≤ 8) :
    t.restoreState e.snapshotState = .ok ⟨List.zipWith Function.restoredFrom t.functions e.functions, none⟩ := by
  refine restoreState_snapshot (kept_pairs ht he fun f₀ hf₀ f g hf hg => hf.fits hg (h₀ f₀ hf₀)) ?_
    (length_snapshotState he h₀ hlen)
  have := he.length_eq
  omega

theorem Programmed.kept (h₀ : PcieEcam.newWithConfig config hostmemMib = some e₀)
    (h : Programmed config hostmemMib e) : List.Forall₂ Kept e₀.functions e.functions := by
  obtain ⟨hsound, hlen⟩ := newWithConfig_sound h₀
  induction h with
  | new h =>
    rw [h₀] at h
    cases h
    exact kept_refl hsound
  | cfgWrite ecamOffset size value _ ih =>
    exact kept_modifyAt ih fun f₀ hf₀ f hf => hf.writeDword (hsound f₀ hf₀) _ _
  | mmioTarget gpa h ih =>
    rw [(mmioTarget_keeps h.reached.sound.2 gpa).1]
    exact ih
  | restoreState _ _ hok ihe ihsaved =>
    rw [restoreState_kept ihsaved ihe hsound hlen] at hok
    cases hok
    exact kept_zipWith ihe ihsaved

end Programmed

end BridgeVm.Pcie
