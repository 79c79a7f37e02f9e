import BridgeVm.Checkpoint.State
import BridgeVm.Pcie.Routing

/-!
# Saving and restoring config space (`pcie/snapshot.rs`)

A snapshot holds what the guest can program of each function: the command, the BAR values and the capability bytes.
A restore keeps everything else of its target, and panics unless the shapes agree.
-/

namespace BridgeVm.Pcie

open Lib Checkpoint

/-- One capability byte, with its offset. -/
def writeCapability (c : UInt16 × UInt8) : List UInt8 := writeU16 c.1 ++ (writeU8 c.2 ++ writeU8 0)

/-- The part of a snapshot that one function fills. -/
def Function.snapshot (f : Function) : List UInt8 :=
  writeU8 f.bdf.1 ++ (writeU8 f.bdf.2.1 ++ (writeU8 f.bdf.2.2 ++ (writeU8 0 ++ (writeU16 f.command ++ (writeU16 0 ++
    ((f.bars.map Bar.value).toList.flatMap writeU32 ++ (writeU32 (.ofNat f.capBytes.length) ++
    f.capBytes.flatMap writeCapability)))))))

/-- `snapshot_state`. -/
def PcieEcam.snapshotState (e : PcieEcam) : List UInt8 :=
  writeU32 1 ++ (writeU32 (.ofNat e.functions.length) ++ e.functions.flatMap Function.snapshot)

def invalidSnapshot : String := "invalid PCIe snapshot"

/-- The capability loop of `restore_state`. -/
def restoreCapabilities : List (UInt16 × UInt8) → Cursor (List (UInt16 × UInt8))
  | [] => pure []
  | capability :: capabilities => do
    let offset ← StateReader.readU16
    let value ← StateReader.readU8
    let reserved ← StateReader.readU8
    Reader.check (reserved = 0) invalidSnapshot
    Reader.check (offset = capability.1) "PCIe capability offset mismatch"
    let rest ← restoreCapabilities capabilities
    return (capability.1, value) :: rest

/-- The function with what a snapshot holds of it. -/
def Function.restored (f : Function) (command : UInt16) (values : Vector UInt32 numBars)
    (capabilities : List (UInt16 × UInt8)) : Function :=
  { f with
    command := command &&& cmdWritableMask
    bars := Vector.zipWith (fun bar value => { bar with value := value }) f.bars values
    capBytes := capabilities }

/-- One function of `restore_state`. -/
def restoreFunction (f : Function) : Cursor Function := do
  let bus ← StateReader.readU8
  let device ← StateReader.readU8
  let function ← StateReader.readU8
  let reserved ← StateReader.readU8
  Reader.check (reserved = 0) invalidSnapshot
  Reader.check ((bus, device, function) = f.bdf) "PCIe BDF mismatch on restore"
  let command ← StateReader.readU16
  let reserved ← StateReader.readU16
  Reader.check (reserved = 0) invalidSnapshot
  let values ← Reader.vector StateReader.readU32 numBars
  let count ← StateReader.readU32
  Reader.check (count.toNat = f.capBytes.length) "PCIe capability shape mismatch on restore"
  let capabilities ← restoreCapabilities f.capBytes
  return f.restored command values capabilities

/-- The function loop of `restore_state`. -/
def restoreFunctions : List Function → Cursor (List Function)
  | [] => pure []
  | f :: fs => do
    let f' ← restoreFunction f
    let fs' ← restoreFunctions fs
    return f' :: fs'

/-- What `restore_state` reads before it forgets the cached BAR. -/
def restoreEcam (e : PcieEcam) : Cursor PcieEcam := do
  let version ← StateReader.readU32
  Reader.check (version = 1) "unsupported PCIe snapshot version"
  let count ← StateReader.readU32
  Reader.check (count.toNat = e.functions.length) "PCIe function-count mismatch on restore"
  let functions ← restoreFunctions e.functions
  return { functions := functions, mmioMru := none }

/-- `restore_state`; an error is a panic. -/
def PcieEcam.restoreState (e : PcieEcam) (data : List UInt8) : Except String PcieEcam :=
  Cursor.runOn data (Cursor.finishing "trailing bytes in device snapshot" (restoreEcam e))

/-! ## What a restore accepts -/

section Accepts

open Reader StateReader Cursor

theorem restoreCapabilities_accepts (capabilities : List (UInt16 × UInt8)) :
    Accepts (restoreCapabilities capabilities) (.spelled (List.flatMap writeCapability)
      fun cs => cs.map Prod.fst = capabilities.map Prod.fst) := by
  induction capabilities with
  | nil =>
    refine (Accepts.pure []).congr fun bytes cs => ?_
    simp only [Format.only, Format.spelled, List.map_nil, List.map_eq_nil_iff]
    constructor
    · rintro ⟨rfl, rfl, -⟩
      simp
    · rintro ⟨rfl, rfl⟩
      simp
  | cons capability capabilities ih =>
    unfold restoreCapabilities
    refine Accepts.congr (.bind (expect_accepts u16_accepts) fun offset =>
      .bind (expect_accepts u8_accepts) fun value =>
      .bind (expect_accepts u8_accepts) fun reserved => .bind (.check _ _) fun _ => .bind (.check _ _) fun _ =>
      .bind ih fun rest => .pure _) fun bytes cs => ?_
    simp only [Format.bind_spelled, Format.bind_only, Format.spelled, Format.only, decide_eq_true_eq]
    constructor
    · rintro ⟨offset, b₁, rfl, -, value, b₂, rfl, -, reserved, b₃, rfl, -, rfl, rfl, rest, b₄, rfl, hrest,
        rfl, rfl, -⟩
      exact ⟨by simp [writeCapability], by simp [hrest]⟩
    · rintro ⟨rfl, hcs⟩
      cases cs with
      | nil => simp at hcs
      | cons c cs =>
        obtain ⟨offset, value⟩ := c
        simp only [List.map_cons, List.cons.injEq] at hcs
        refine ⟨offset, writeU8 value ++
          (writeU8 0 ++ cs.flatMap writeCapability), by simp [writeCapability], trivial, value,
          _, rfl, trivial, 0, _, rfl, trivial, rfl, hcs.1,
          cs, [], (List.append_nil _).symm, hcs.2, rfl, by rw [hcs.1], trivial⟩

/-- `g` can be restored into `f`. -/
structure Function.Fits (f g : Function) : Prop where
  bdf : g.bdf = f.bdf
  offsets : g.capBytes.map Prod.fst = f.capBytes.map Prod.fst
  count : f.capBytes.length < 2 ^ 32

/-- `f` with what the guest programmed of `g`. -/
def Function.restoredFrom (f g : Function) : Function := f.restored g.command (g.bars.map Bar.value) g.capBytes

/-- What restores into a function is what some function of its shape saved. -/
theorem restoreFunction_accepts (f : Function) :
    Accepts (restoreFunction f) fun bytes f' => ∃ g, bytes = g.snapshot ∧ f.Fits g ∧ f' = f.restoredFrom g := by
  unfold restoreFunction
  refine Accepts.congr (.bind (expect_accepts u8_accepts) fun bus => .bind (expect_accepts u8_accepts) fun device =>
    .bind (expect_accepts u8_accepts) fun function => .bind (expect_accepts u8_accepts) fun reserved =>
    .bind (.check _ _) fun _ => .bind (.check _ _) fun _ => .bind (expect_accepts u16_accepts) fun command =>
    .bind (expect_accepts u16_accepts) fun reserved' => .bind (.check _ _) fun _ =>
    .bind (.vector (expect_accepts u32_accepts) numBars) fun values => .bind (expect_accepts u32_accepts) fun count =>
    .bind (.check _ _) fun _ => .bind (restoreCapabilities_accepts f.capBytes) fun capabilities => .pure _)
    fun bytes f' => ?_
  simp only [Format.bind_spelled, Format.bind_only, Format.only, decide_eq_true_eq]
  constructor
  · rintro ⟨bus, b₁, rfl, -, device, b₂, rfl, -, function, b₃, rfl, -, reserved, b₄, rfl, -, rfl, hbdf,
      command, b₅, rfl,
      -, reserved', b₆, rfl, -, rfl, values, b₇, rfl, -, count, b₈, rfl, -, hcount, capabilities, b₉,
      rfl, hcaps, rfl,
      rfl, -⟩
    have hlen : capabilities.length = f.capBytes.length := by
      simpa using congrArg List.length hcaps
    have hvalues : (Vector.zipWith (fun bar value => { bar with value := value }) f.bars values).map Bar.value =
        values := by
      ext i hi
      simp
    refine ⟨{ f with
      command := command
      bars := Vector.zipWith (fun bar value => { bar with value := value }) f.bars values
      capBytes := capabilities }, ?_, ⟨rfl, hcaps, hcount ▸ count.toNat_lt⟩, ?_⟩
    · simp only [Function.snapshot, hvalues, hlen, ← hbdf, ← hcount, UInt32.ofNat_toNat, List.append_nil]
    · rw [Function.restoredFrom, hvalues]
  · rintro ⟨g, rfl, hfits, rfl⟩
    have hlen : g.capBytes.length = f.capBytes.length := by
      simpa using congrArg List.length hfits.offsets
    refine ⟨g.bdf.1, _, rfl, trivial, g.bdf.2.1, _, rfl, trivial, g.bdf.2.2, _, rfl, trivial, 0, _, rfl, trivial, rfl,
      hfits.bdf, g.command, _, rfl, trivial, 0, _, rfl, trivial, rfl, g.bars.map Bar.value, _, rfl, fun _ _ => trivial,
      .ofNat g.capBytes.length, _, rfl, trivial, ?_, g.capBytes, [], (List.append_nil _).symm, hfits.offsets, rfl, rfl,
      trivial⟩
    rw [hlen, UInt32.toNat_ofNat', Nat.mod_eq_of_lt hfits.count]

/-- A restore of all functions, one by one. -/
theorem restoreFunctions_accepts (fs : List Function) :
    Accepts (restoreFunctions fs) fun bytes fs' => ∃ gs, bytes = gs.flatMap Function.snapshot ∧
      List.Forall₂ Function.Fits fs gs ∧ fs' = List.zipWith Function.restoredFrom fs gs := by
  induction fs with
  | nil =>
    refine (Accepts.pure []).congr fun bytes fs' => ?_
    simp only [Format.only]
    constructor
    · rintro ⟨rfl, rfl, -⟩
      exact ⟨[], rfl, .nil, rfl⟩
    · rintro ⟨gs, rfl, hfits, rfl⟩
      cases hfits
      exact ⟨rfl, rfl, trivial⟩
  | cons f fs ih =>
    unfold restoreFunctions
    refine Accepts.congr (.bind (restoreFunction_accepts f) fun f' => .bind ih fun fs' => .pure _) fun bytes fs' => ?_
    constructor
    · rintro ⟨f', b₁, b₂, rfl, ⟨g, rfl, hfit, rfl⟩, fs', b₃, b₄, rfl, ⟨gs, rfl, hfits, rfl⟩,
        rfl, rfl, -⟩
      exact ⟨g :: gs, by simp, .cons hfit hfits, rfl⟩
    · rintro ⟨gs, rfl, hfits, rfl⟩
      cases hfits with
      | cons hfit hfits =>
        rename_i g gs
        exact ⟨_, g.snapshot, gs.flatMap Function.snapshot, by simp, ⟨g, rfl, hfit, rfl⟩, _, _, [], by simp,
          ⟨gs, rfl, hfits, rfl⟩, rfl, rfl, trivial⟩

theorem restoreEcam_accepts (e : PcieEcam) :
    Accepts (restoreEcam e) fun bytes e' => ∃ gs : List Function,
    bytes = (⟨gs, none⟩ : PcieEcam).snapshotState ∧
      gs.length < 2 ^ 32 ∧ List.Forall₂ Function.Fits e.functions gs ∧
      e' = ⟨List.zipWith Function.restoredFrom e.functions gs, none⟩ := by
  unfold restoreEcam
  refine Accepts.congr (.bind (expect_accepts u32_accepts) fun version => .bind (.check _ _) fun _ =>
    .bind (expect_accepts u32_accepts) fun count => .bind (.check _ _) fun _ =>
    .bind (restoreFunctions_accepts e.functions) fun functions => .pure _) fun bytes e' => ?_
  simp only [Format.bind_spelled, Format.bind_only, decide_eq_true_eq]
  constructor
  · rintro ⟨version, b₁, rfl, -, rfl, count, b₂, rfl, -, hcount, functions, b₃, b₄, rfl,
      ⟨gs, rfl, hfits, rfl⟩, rfl, rfl,
      -⟩
    rw [hfits.length_eq] at hcount
    refine ⟨gs, ?_, hcount ▸ count.toNat_lt, hfits, rfl⟩
    simp only [PcieEcam.snapshotState, ← hcount, UInt32.ofNat_toNat, List.append_nil]
  · rintro ⟨gs, rfl, hlen, hfits, rfl⟩
    refine ⟨1, _, rfl, trivial, rfl, .ofNat gs.length, _, rfl, trivial, ?_, _, gs.flatMap Function.snapshot, [],
      (List.append_nil _).symm, ⟨gs, rfl, hfits, rfl⟩, rfl, rfl, trivial⟩
    rw [UInt32.toNat_ofNat', Nat.mod_eq_of_lt hlen, hfits.length_eq]

theorem restoreState_ok {e e' : PcieEcam} {data : List UInt8} (h : e.restoreState data = .ok e') :
    ∃ gs, List.Forall₂ Function.Fits e.functions gs ∧
    e' = ⟨List.zipWith Function.restoredFrom e.functions gs, none⟩ := by
  obtain ⟨gs, -, -, hfits, he⟩ := word_of_finishing (restoreEcam_accepts e) h
  exact ⟨gs, hfits, he⟩

theorem restoreState_snapshot {e t : PcieEcam} (hfits : List.Forall₂ Function.Fits t.functions e.functions)
    (hcount : e.functions.length < 2 ^ 32) (hlen : e.snapshotState.length < 2 ^ 64) :
    t.restoreState e.snapshotState = .ok ⟨List.zipWith Function.restoredFrom t.functions e.functions, none⟩ :=
  finishing_of_word (restoreEcam_accepts t) ⟨e.functions, rfl, hcount, hfits, rfl⟩ hlen

end Accepts

end BridgeVm.Pcie
