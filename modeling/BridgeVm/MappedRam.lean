import BridgeVm.GuestMemory
import BridgeVm.Lib.Scatter
import BridgeVm.Lib.Splice

/-!
# The mapped guest RAM, byte by byte (`hvf_gic_boot_probe/guest_memory.rs`, `platform_virt/guest_memory.rs`)

The guest memories of the machine are one mapped span each, so a range is backed when each of its bytes is
(`GuestMemory.Bytewise`). Over such a memory a read or a write of a range is a read or a write of its bytes, which is
what buffers that are scattered over guest memory rely on.
-/

namespace BridgeVm

open Lib

/-- `MappedRam`, `FlatGuestRam`: one span from `base` on; a range is served when it lies in the span. -/
def mappedRam (base : Nat) (bytes : List UInt8) : GuestMemory where
  bytes a := bytes.getD (a - base) 0
  readable gpa len := decide (base ≤ gpa) && decide (gpa - base + len ≤ bytes.length)
  writable gpa len := decide (base ≤ gpa) && decide (gpa - base + len ≤ bytes.length)

/-- A byte of guest memory, where one is mapped for reading. -/
def GuestMemory.byteAt (mem : GuestMemory) (a : Nat) : Option UInt8 :=
  if mem.readable a 1 then some (mem.bytes a) else none

/-- A range is backed when each of its bytes is, and only 64-bit addresses are. -/
structure GuestMemory.Bytewise (mem : GuestMemory) : Prop where
  read : ∀ {gpa len}, 0 < len →
    (mem.readable gpa len = true ↔ ∀ a ∈ List.range' gpa len, mem.readable a 1 = true)
  write : ∀ {gpa len}, 0 < len →
    (mem.writable gpa len = true ↔ ∀ a ∈ List.range' gpa len, mem.writable a 1 = true)
  below : ∀ {a}, mem.readable a 1 = true → a < 2 ^ 64

/-- The memory after a log of byte stores. -/
def GuestMemory.poke (mem : GuestMemory) (ws : List (Nat × UInt8)) : GuestMemory :=
  { mem with bytes := pokes mem.bytes ws }

/-- A byte of a scattered buffer, where it has one that is mapped. -/
def logicalByte (mem : GuestMemory) (runs : List (Nat × Nat)) (offset : Nat) : Option UInt8 :=
  ((addresses runs)[offset]?).bind mem.byteAt

/-- The bytes of a range of a scattered buffer, where all of them are mapped. -/
def logicalBytes (mem : GuestMemory) (runs : List (Nat × Nat)) (offset len : Nat) : Option (List UInt8) :=
  (List.range' offset len).mapM (logicalByte mem runs)

section Bytes

variable {mem : GuestMemory} {base gpa len a : Nat} {bytes data : List UInt8} {ws ws' : List (Nat × UInt8)}

theorem mappedRam_span {base gpa len size : Nat} (hlen : 0 < len) :
    (base ≤ gpa ∧ gpa - base + len ≤ size) ↔ ∀ a ∈ List.range' gpa len, base ≤ a ∧
    a - base + 1 ≤ size := by
  constructor
  · rintro ⟨hlow, hhigh⟩ a ha
    rw [List.mem_range'_1] at ha
    omega
  · intro h
    have hfirst := h gpa (List.mem_range'_1.mpr ⟨Nat.le_refl gpa, by omega⟩)
    have hlast := h (gpa + len - 1) (List.mem_range'_1.mpr ⟨by omega, by omega⟩)
    omega

/-- **The guest memories of the machine are backed byte by byte.** -/
theorem mappedRam_bytewise (h : base + bytes.length ≤ 2 ^ 64) : (mappedRam base bytes).Bytewise where
  read hlen := by simpa [mappedRam] using mappedRam_span hlen
  write hlen := by simpa [mappedRam] using mappedRam_span hlen
  below {a} ha := by
    have hin : base ≤ a ∧ a - base + 1 ≤ bytes.length := by simpa [mappedRam] using ha
    omega

@[simp] theorem poke_bytes : (mem.poke ws).bytes = pokes mem.bytes ws := rfl

@[simp] theorem poke_readable : (mem.poke ws).readable = mem.readable := rfl

@[simp] theorem poke_writable : (mem.poke ws).writable = mem.writable := rfl

@[simp] theorem poke_nil : mem.poke [] = mem := rfl

@[simp] theorem poke_append : mem.poke (ws ++ ws') = (mem.poke ws).poke ws' := by
  unfold GuestMemory.poke
  rw [pokes_append]

theorem store_eq_poke : mem.store gpa data = mem.poke ((List.range' gpa data.length).zip data) := by
  unfold GuestMemory.store GuestMemory.poke
  rw [pokes_range']

theorem GuestMemory.Bytewise.poke (h : mem.Bytewise) : (mem.poke ws).Bytewise := ⟨h.read, h.write, h.below⟩

theorem GuestMemory.Bytewise.of_backing {mem' : GuestMemory} (h : mem.Bytewise) (hb : mem.SameBacking mem') :
    mem'.Bytewise where
  read := by rw [hb.1]; exact h.read
  write := by rw [hb.2]; exact h.write
  below := by rw [hb.1]; exact h.below

theorem span_eq_map : mem.span gpa len = (List.range' gpa len).map mem.bytes := by
  rw [GuestMemory.span, List.range'_eq_map_range, List.map_map]
  rfl

theorem mapM_byteAt {xs : List Nat} (h : ∀ a ∈ xs, mem.readable a 1 = true) :
    xs.mapM mem.byteAt = some (xs.map mem.bytes) := by
  induction xs with
  | nil => rfl
  | cons a xs ih =>
    have ha : mem.byteAt a = some (mem.bytes a) := if_pos (h a List.mem_cons_self)
    rw [List.mapM_cons, ha, ih fun b hb => h b (List.mem_cons_of_mem a hb)]
    rfl

theorem readable_of_mapM {xs : List Nat} {data : List UInt8} (h : xs.mapM mem.byteAt = some data) :
    ∀ a ∈ xs, mem.readable a 1 = true := by
  induction xs generalizing data with
  | nil => simp
  | cons b xs ih =>
    intro a ha
    rw [List.mapM_cons] at h
    obtain ⟨x, hx, h⟩ := Option.bind_eq_some_iff.mp h
    obtain ⟨rest, hrest, -⟩ := Option.bind_eq_some_iff.mp h
    rcases List.mem_cons.mp ha with rfl | ha
    · unfold GuestMemory.byteAt at hx
      split at hx
      · assumption
      · cases hx
    · exact ih hrest a ha

/-- **Reading a range is reading its bytes.** -/
theorem readBytes_eq_mapM (h : mem.Bytewise) (hlen : 0 < len) :
    mem.readBytes gpa len = (List.range' gpa len).mapM mem.byteAt := by
  unfold GuestMemory.readBytes
  by_cases hread : mem.readable gpa len = true
  · rw [if_pos hread, span_eq_map, mapM_byteAt ((h.read hlen).mp hread)]
  · rw [if_neg hread]
    cases hall : (List.range' gpa len).mapM mem.byteAt with
    | none => rfl
    | some data => exact absurd ((h.read hlen).mpr (readable_of_mapM hall)) hread

end Bytes

/-! ## Scattered buffers -/

section Buffers

variable {mem : GuestMemory} {runs : List (Nat × Nat)} {offset len : Nat}

theorem logicalBytes_inside (h : offset + len ≤ runsLength runs) :
    logicalBytes mem runs offset len = (((addresses runs).drop offset).take len).mapM mem.byteAt := by
  rw [← length_addresses] at h
  induction len generalizing offset with
  | zero => simp [logicalBytes]
  | succ len ih =>
    have hin : offset < (addresses runs).length := by omega
    have hleft : offset + 1 + len ≤ (addresses runs).length := by omega
    have hrest := ih hleft
    unfold logicalBytes at hrest ⊢
    rw [List.range'_succ, List.mapM_cons, List.drop_eq_getElem_cons hin, List.take_succ_cons, List.mapM_cons, hrest]
    unfold logicalByte
    rw [List.getElem?_eq_getElem hin, Option.bind_some]

theorem logicalBytes_past (hlen : 0 < len) (h : ¬offset + len ≤ runsLength runs) :
    logicalBytes mem runs offset len = none := by
  rw [← length_addresses] at h
  have hlast : logicalByte mem runs (offset + (len - 1)) = none := by
    unfold logicalByte
    rw [List.getElem?_eq_none (by omega), Option.bind_none]
  have hsplit : List.range' offset len = List.range' offset (len - 1) ++ [offset + (len - 1)] := by
    rw [← List.range'_1_concat]
    congr 1
    omega
  unfold logicalBytes
  rw [hsplit, List.mapM_append, List.mapM_cons, hlast]
  cases (List.range' offset (len - 1)).mapM (logicalByte mem runs) <;> rfl

theorem logicalBytes_eq {data : List UInt8} (hlen : 0 < len) (h : logicalBytes mem runs offset len = some data) :
    data = (((addresses runs).drop offset).take len).map mem.bytes ∧ data.length = len := by
  have hin : offset + len ≤ runsLength runs := by
    by_contra hpast
    rw [logicalBytes_past hlen hpast] at h
    cases h
  rw [logicalBytes_inside hin] at h
  have hdata := mapM_byteAt (readable_of_mapM h)
  rw [h, Option.some.injEq] at hdata
  refine ⟨hdata, ?_⟩
  rw [hdata, List.length_map, List.length_take, List.length_drop, length_addresses]
  omega

theorem getElem?_logicalBytes {data : List UInt8} {k : Nat} (h : logicalBytes mem runs offset len = some data)
    (hk : k < len) :
    data[k]? = logicalByte mem runs (offset + k) := by
  induction len generalizing offset k data with
  | zero => omega
  | succ len ih =>
    unfold logicalBytes at h
    rw [List.range'_succ, List.mapM_cons] at h
    obtain ⟨x, hx, h⟩ := Option.bind_eq_some_iff.mp h
    obtain ⟨rest, hrest, h⟩ := Option.bind_eq_some_iff.mp h
    cases h
    cases k with
    | zero => rw [List.getElem?_cons_zero, Nat.add_zero, hx]
    | succ k =>
      have hplace : offset + (k + 1) = offset + 1 + k := by omega
      rw [List.getElem?_cons_succ, hplace]
      exact ih hrest (by omega)

/-- A range is mapped when each of its bytes is. -/
theorem logicalBytes_isSome : (logicalBytes mem runs offset len).isSome = true ↔
    ∀ k < len, (logicalByte mem runs (offset + k)).isSome = true := by
  constructor
  · intro h k hk
    obtain ⟨data, hdata⟩ := Option.isSome_iff_exists.mp h
    have hlen : data.length = len := (logicalBytes_eq (by omega) hdata).2
    rw [← getElem?_logicalBytes hdata hk, List.getElem?_eq_getElem (by omega)]
    rfl
  · intro h
    induction len generalizing offset with
    | zero => rfl
    | succ len ih =>
      have hfirst := h 0 (by omega)
      have hrest : (logicalBytes mem runs (offset + 1) len).isSome = true := by
        refine ih fun k hk => ?_
        have hplace : offset + 1 + k = offset + (k + 1) := by omega
        rw [hplace]
        exact h (k + 1) (by omega)
      obtain ⟨x, hx⟩ := Option.isSome_iff_exists.mp hfirst
      obtain ⟨data, hdata⟩ := Option.isSome_iff_exists.mp hrest
      unfold logicalBytes at hdata ⊢
      rw [Nat.add_zero] at hx
      rw [List.range'_succ, List.mapM_cons, hx, hdata]
      rfl

theorem logicalBytes_slice {data : List UInt8} {j n : Nat} (h : logicalBytes mem runs offset len = some data)
    (hfit : j + n ≤ len)
    (hn : 0 < n) : logicalBytes mem runs (offset + j) n = some (slice data j n) := by
  have hmapped := logicalBytes_isSome.mp (Option.isSome_iff_exists.mpr ⟨data, h⟩)
  have hpart : (logicalBytes mem runs (offset + j) n).isSome = true := by
    refine logicalBytes_isSome.mpr fun k hk => ?_
    rw [Nat.add_assoc]
    exact hmapped (j + k) (by omega)
  obtain ⟨part, hpart⟩ := Option.isSome_iff_exists.mp hpart
  rw [hpart, Option.some.injEq]
  refine eq_slice_of_getElem? (logicalBytes_eq hn hpart).2 fun k hk => ?_
  rw [getElem?_logicalBytes hpart hk, getElem?_logicalBytes h (by omega), Nat.add_assoc]

end Buffers

end BridgeVm
