import BridgeVm.Lib.Codec

/-!
# Snapshot bytes (`checkpoint/hvvcpu.rs`: `StateWriter`, `Cursor`, `StateReader`)

Fixed-width little-endian integers, booleans and length-prefixed blobs, and the cursor that reads them back. A
`StateReader` is a cursor whose errors panic; the error is then the panic's text.
-/

namespace BridgeVm.Checkpoint

open Lib

/-! ## `StateWriter` -/

def writeU8 (value : UInt8) : List UInt8 := [value]

def writeBool (value : Bool) : List UInt8 := writeU8 value.toUInt8

def writeU16 (value : UInt16) : List UInt8 := toLeBytes 2 value.toNat

def writeU32 (value : UInt32) : List UInt8 := toLeBytes 4 value.toNat

def writeU64 (value : UInt64) : List UInt8 := toLeBytes 8 value.toNat

def writeBlob (value : List UInt8) : List UInt8 := writeU64 (.ofNat value.length) ++ value

@[simp] theorem length_writeU32 (value : UInt32) : (writeU32 value).length = 4 := length_toLeBytes 4 _

@[simp] theorem length_writeU64 (value : UInt64) : (writeU64 value).length = 8 := length_toLeBytes 8 _

/-! ## `Cursor` -/

abbrev Cursor (α : Type) := Reader String α

namespace Cursor

/-- `Cursor::take`. -/
def take (len : Nat) : Cursor (List UInt8) := fun s =>
  if 2 ^ 64 ≤ s.pos + len then .error "checkpoint cursor overflow"
  else if s.rest.length < len then .error "truncated checkpoint"
  else .ok (s.rest.take len, ⟨s.pos + len, s.rest.drop len⟩)

def u8 : Cursor UInt8 := do
  let bytes ← take 1
  return .ofNat (ofLeBytes bytes)

def u16 : Cursor UInt16 := do
  let bytes ← take 2
  return .ofNat (ofLeBytes bytes)

def u32 : Cursor UInt32 := do
  let bytes ← take 4
  return .ofNat (ofLeBytes bytes)

def u64 : Cursor UInt64 := do
  let bytes ← take 8
  return .ofNat (ofLeBytes bytes)

def blob : Cursor (List UInt8) := do
  let len ← u64
  take len.toNat

/-- `is_finished`. -/
def isFinished : Cursor Bool := fun s => .ok (s.rest.isEmpty, s)

/-- Read with `r`, then fail with `error` unless the cursor is finished. -/
def finishing {α : Type} (error : String) (r : Cursor α) : Cursor α := do
  let value ← r
  let finished ← isFinished
  Reader.check finished error
  return value

/-- `Cursor::new(data)`, then `r`. -/
def runOn {α : Type} (data : List UInt8) (r : Cursor α) : Except String α := (r.run ⟨0, data⟩).map Prod.fst

end Cursor

/-! ## `StateReader` -/

namespace StateReader

def truncated : String := "truncated device snapshot"

/-- `expect`: any error of the cursor is a panic with this text. -/
def expect {α : Type} (r : Cursor α) : Cursor α := fun s => (r.run s).mapError fun _ => truncated

def readU8 : Cursor UInt8 := expect Cursor.u8

def readU16 : Cursor UInt16 := expect Cursor.u16

def readU32 : Cursor UInt32 := expect Cursor.u32

end StateReader

/-! ## What the cursor accepts -/

section Accepts

variable {α : Type} {r : Cursor α} {F : Format α} {data : List UInt8} {v : α} {error : String}

namespace Cursor

open Reader

theorem take_accepts (len : Nat) : Accepts (take len) (.spelled id fun bytes => bytes.length = len) where
  reads bytes v hv := by
    obtain ⟨rfl, hlen⟩ := hv
    intro pos rest hpos
    change bytes.length = len at hlen
    subst hlen
    show take bytes.length ⟨pos, bytes ++ rest⟩ = _
    simp only [take]
    rw [if_neg (by omega), if_neg (by rw [List.length_append]; omega), List.take_left, List.drop_left]
  word s v s' hs := by
    change take len s = _ at hs
    unfold take at hs
    split at hs
    · cases hs
    · split at hs
      · cases hs
      · cases hs
        have hlen : (s.rest.take len).length = len := by
          rw [List.length_take]
          omega
        exact ⟨s.rest.take len, (List.take_append_drop _ _).symm, rfl, hlen⟩

theorem number_accepts {n : Nat} {toNat : α → Nat} {ofNat : Nat → α} (hlt : ∀ v, toNat v < 256 ^ n)
    (hleft : ∀ v, ofNat (toNat v) = v) (hright : ∀ k < 256 ^ n, toNat (ofNat k) = k) :
    Accepts (do let bytes ← take n; return ofNat (ofLeBytes bytes))
      (.spelled (fun v => toLeBytes n (toNat v)) fun _ => True) := by
  refine ((take_accepts n).bind fun bytes => Accepts.pure (ofNat (ofLeBytes bytes))).congr fun bytes v => ?_
  simp only [Format.bind_spelled, Format.spelled, Format.only]
  constructor
  · rintro ⟨taken, b, rfl, hlen, rfl, rfl, -⟩
    have hbytes : ofLeBytes taken < 256 ^ n := hlen ▸ ofLeBytes_lt taken
    rw [hright _ hbytes, List.append_nil, ← hlen, toLeBytes_ofLeBytes]
    exact ⟨rfl, trivial⟩
  · rintro ⟨rfl, -⟩
    refine ⟨toLeBytes n (toNat v), [], (List.append_nil _).symm, length_toLeBytes n _, rfl, ?_, trivial⟩
    rw [ofLeBytes_toLeBytes, Nat.mod_eq_of_lt (hlt v), hleft]

theorem u8_accepts : Accepts u8 (.spelled writeU8 fun _ => True) := by
  refine (number_accepts UInt8.toNat_lt (fun v => UInt8.ofNat_toNat) fun k hk => ?_).congr fun bytes v => ?_
  · rw [UInt8.toNat_ofNat']
    exact Nat.mod_eq_of_lt hk
  · simp [Format.spelled, writeU8, toLeBytes]

theorem u16_accepts : Accepts u16 (.spelled writeU16 fun _ => True) := by
  refine number_accepts UInt16.toNat_lt (fun v => UInt16.ofNat_toNat) fun k hk => ?_
  rw [UInt16.toNat_ofNat']
  exact Nat.mod_eq_of_lt hk

theorem u32_accepts : Accepts u32 (.spelled writeU32 fun _ => True) := by
  refine number_accepts UInt32.toNat_lt (fun v => UInt32.ofNat_toNat) fun k hk => ?_
  rw [UInt32.toNat_ofNat']
  exact Nat.mod_eq_of_lt hk

theorem u64_accepts : Accepts u64 (.spelled writeU64 fun _ => True) := by
  refine number_accepts UInt64.toNat_lt (fun v => UInt64.ofNat_toNat) fun k hk => ?_
  rw [UInt64.toNat_ofNat']
  exact Nat.mod_eq_of_lt hk

theorem blob_accepts : Accepts blob (.spelled writeBlob fun v => v.length < 2 ^ 64) := by
  refine (u64_accepts.bind fun len => take_accepts len.toNat).congr fun bytes v => ?_
  simp only [Format.bind_spelled, Format.spelled, id_eq]
  constructor
  · rintro ⟨len, b, rfl, -, rfl, hlen⟩
    refine ⟨?_, hlen ▸ len.toNat_lt⟩
    rw [writeBlob, hlen, UInt64.ofNat_toNat]
  · rintro ⟨rfl, hlen⟩
    refine ⟨_, v, rfl, trivial, rfl, ?_⟩
    rw [UInt64.toNat_ofNat', Nat.mod_eq_of_lt hlen]

theorem bool_of_u8_accepts (value : UInt8) (error : String) :
    Accepts (if value = 0 then return false else if value = 1 then return true else throw error : Cursor Bool)
      fun bytes v => bytes = [] ∧ v.toUInt8 = value := by
  split
  · subst value
    refine (Accepts.pure false).congr fun bytes v => ?_
    cases v <;> simp [Format.only, Bool.toUInt8]
  · split
    · subst value
      refine (Accepts.pure true).congr fun bytes v => ?_
      cases v <;> simp [Format.only, Bool.toUInt8]
    · rename_i h₀ h₁
      refine ⟨fun bytes v hv => ?_, fun s v s' hs => by cases hs⟩
      cases v
      · exact absurd hv.2.symm h₀
      · exact absurd hv.2.symm h₁

theorem bind_bool {bytes : List UInt8} {v : Bool} :
    (Format.spelled writeU8 fun _ => True).bind (fun value b w => b = [] ∧ w.toUInt8 = value) bytes v ↔
      Format.spelled writeBool (fun _ => True) bytes v := by
  simp only [Format.bind_spelled, Format.spelled, writeBool]
  constructor
  · rintro ⟨value, b, rfl, -, rfl, rfl⟩
    exact ⟨List.append_nil _, trivial⟩
  · rintro ⟨rfl, -⟩
    exact ⟨_, [], (List.append_nil _).symm, trivial, rfl, rfl⟩

theorem word_of_finishing (h : Accepts r F) (hok : runOn data (finishing error r) = .ok v) : F data v := by
  unfold runOn at hok
  cases hrun : (finishing error r).run ⟨0, data⟩ with
  | error e => rw [hrun] at hok; cases hok
  | ok p =>
    rw [hrun] at hok
    cases hok
    obtain ⟨a, s, hr, hrest⟩ := run_bind_ok hrun
    obtain ⟨finished, s', hfin, hrest⟩ := run_bind_ok hrest
    cases hfin
    obtain ⟨u, s', hcheck, hpure⟩ := run_bind_ok hrest
    cases hpure
    obtain ⟨bytes, hb, hF⟩ := h.word _ _ _ hr
    obtain ⟨bytes', hb', rfl, -, hempty⟩ := (Accepts.check _ _).word _ _ _ hcheck
    rw [List.isEmpty_iff.1 hempty, List.append_nil] at hb
    change data = bytes at hb
    rw [hb]
    exact hF

theorem finishing_of_word (h : Accepts r F) (hF : F data v) (hlen : data.length < 2 ^ 64) :
    runOn data (finishing error r) = .ok v := by
  have hr := h.reads data v hF 0 [] (by omega)
  rw [List.append_nil] at hr
  unfold runOn finishing
  rw [StateT.run_bind, hr]
  rfl

theorem over_finishing_eq_ok (h : Accepts r F) (hlen : data.length < 2 ^ 64) :
    runOn data (finishing error r) = .ok v ↔ F data v :=
  ⟨word_of_finishing h, fun hF => finishing_of_word h hF hlen⟩

end Cursor

namespace StateReader

theorem expect_accepts (h : Reader.Accepts r F) : Reader.Accepts (expect r) F where
  reads bytes v hv := by
    intro pos rest hpos
    show (r.run _).mapError _ = _
    rw [h.reads bytes v hv pos rest hpos]
    rfl
  word s v s' hs := by
    change (r.run s).mapError _ = _ at hs
    cases hr : r.run s with
    | error e => rw [hr] at hs; cases hs
    | ok p =>
      rw [hr] at hs
      cases hs
      exact h.word _ _ _ hr

end StateReader

end Accepts

end BridgeVm.Checkpoint
