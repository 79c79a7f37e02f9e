import BridgeVm.Lib.LittleEndian

/-!
# Guest memory and split-queue rings (`fwcfg.rs`, `guest_memory.rs`, `virtio_queue_address.rs`, `virtio_queue_used.rs`)

Guest RAM as the device models see it: bytes, and which spans are backed for reading and for writing. Addresses are
64-bit; an access whose checked address arithmetic overflows does not happen.
-/

namespace BridgeVm

open Lib

structure GuestMemory where
  bytes : Nat → UInt8
  readable : Nat → Nat → Bool
  writable : Nat → Nat → Bool

/-- The bytes of a span. -/
def GuestMemory.span (mem : GuestMemory) (gpa len : Nat) : List UInt8 :=
  (List.range len).map fun i => mem.bytes (gpa + i)

/-- `read_bytes`, `read_into`: `none` when the range is not backed. -/
def GuestMemory.readBytes (mem : GuestMemory) (gpa len : Nat) : Option (List UInt8) :=
  if mem.readable gpa len then some (mem.span gpa len) else none

/-- The memory after `data` was stored at `gpa`. -/
def GuestMemory.store (mem : GuestMemory) (gpa : Nat) (data : List UInt8) : GuestMemory :=
  { mem with bytes := fun a => if gpa ≤ a then (data[a - gpa]?).getD (mem.bytes a) else mem.bytes a }

/-- `write_bytes`: refused as a whole when the range is not backed. -/
def GuestMemory.writeBytes (mem : GuestMemory) (gpa : Nat) (data : List UInt8) : GuestMemory × Bool :=
  if mem.writable gpa data.length then (mem.store gpa data, true) else (mem, false)

/-- 64-bit checked addition. -/
def checkedAdd (a b : Nat) : Option Nat := if a + b < 2 ^ 64 then some (a + b) else none

/-- 64-bit checked multiplication. -/
def checkedMul (a b : Nat) : Option Nat := if a * b < 2 ^ 64 then some (a * b) else none

/-- `read_u16_at`. -/
def GuestMemory.readU16At (mem : GuestMemory) (base offset : Nat) : Option Nat :=
  (checkedAdd base offset).bind fun address =>
    (checkedAdd address 2).bind fun _ => (mem.readBytes address 2).map ofLeBytes

def descSize : Nat := 16

/-- A split-virtqueue descriptor. -/
structure Descriptor where
  addr : Nat
  len : Nat
  flags : Nat
  next : Nat
deriving DecidableEq, Repr

def descFNext : Nat := 1

def descFWrite : Nat := 2

/-- Decode the sixteen bytes of a descriptor. -/
def Descriptor.ofBytes (bs : List UInt8) : Descriptor where
  addr := ofLeBytes (bs.take 8)
  len := ofLeBytes ((bs.drop 8).take 4)
  flags := ofLeBytes ((bs.drop 12).take 2)
  next := ofLeBytes ((bs.drop 14).take 2)

def Descriptor.hasNext (d : Descriptor) : Bool := (d.flags &&& descFNext) != 0

def Descriptor.isWrite (d : Descriptor) : Bool := (d.flags &&& descFWrite) != 0

/-- `read_descriptor`, `Descriptor::read`. -/
def GuestMemory.readDescriptor (mem : GuestMemory) (base index : Nat) : Option Descriptor :=
  (checkedAdd base (index * descSize)).bind fun address =>
    (checkedAdd address descSize).bind fun _ => (mem.readBytes address descSize).map Descriptor.ofBytes

/-- `append_guest_bytes_bounded`: the buffer with the guest bytes appended, or `none` when it would exceed `maxLen` or
the range is not backed. -/
def appendGuestBytesBounded (mem : GuestMemory) (gpa len maxLen : Nat) (out : List UInt8) : Option (List UInt8) :=
  if out.length + len > maxLen then none else (mem.readBytes gpa len).map fun bytes => out ++ bytes

/-- `write_used`: the element first, the index after both of its fields were written. -/
def GuestMemory.writeUsed (mem : GuestMemory) (base size id len : Nat) : GuestMemory :=
  if size = 0 ∨ base = 0 then mem
  else
    match checkedAdd base 2, mem.readU16At base 2 with
    | some index, some used =>
      match checkedAdd base (4 + used % size * 8) with
      | none => mem
      | some element =>
        match checkedAdd element 4, checkedAdd element 8 with
        | some length, some _ =>
          let (mem₁, idWritten) := mem.writeBytes element (toLeBytes 4 id)
          if !idWritten then mem₁
          else
            let (mem₂, lenWritten) := mem₁.writeBytes length (toLeBytes 4 len)
            if !lenWritten then mem₂
            else (mem₂.writeBytes index (toLeBytes 2 ((used + 1) % 65536))).1
        | _, _ => mem
    | _, _ => mem

/-! ## Stores and spans -/

section Stores

variable {mem : GuestMemory} {gpa base len : Nat} {data : List UInt8}

@[simp] theorem store_readable : (mem.store gpa data).readable = mem.readable := rfl

@[simp] theorem store_writable : (mem.store gpa data).writable = mem.writable := rfl

@[simp] theorem length_span : (mem.span gpa len).length = len := by
  rw [GuestMemory.span, List.length_map, List.length_range]

theorem span_store_self (h : data.length = len) : (mem.store gpa data).span gpa len = data := by
  subst h
  refine List.ext_getElem (by simp) fun i h₁ h₂ => ?_
  simp [GuestMemory.span, GuestMemory.store, h₂]

theorem span_store_of_disjoint (h : base + len ≤ gpa ∨ gpa + data.length ≤ base) :
    (mem.store gpa data).span base len = mem.span base len := by
  refine List.map_congr_left fun i hi => ?_
  have hlt := List.mem_range.mp hi
  unfold GuestMemory.store
  dsimp only
  by_cases hle : gpa ≤ base + i
  · rw [if_pos hle, List.getElem?_eq_none (by omega), Option.getD_none]
  · rw [if_neg hle]

/-- What is backed is the same in both memories. -/
def GuestMemory.SameBacking (mem mem' : GuestMemory) : Prop :=
  mem'.readable = mem.readable ∧ mem'.writable = mem.writable

theorem GuestMemory.SameBacking.refl (mem : GuestMemory) : mem.SameBacking mem := ⟨rfl, rfl⟩

theorem GuestMemory.SameBacking.trans {m₁ m₂ m₃ : GuestMemory} (h₁ : m₁.SameBacking m₂)
    (h₂ : m₂.SameBacking m₃) :
    m₁.SameBacking m₃ := ⟨h₂.1.trans h₁.1, h₂.2.trans h₁.2⟩

theorem writeBytes_backing : mem.SameBacking (mem.writeBytes gpa data).1 := by
  unfold GuestMemory.writeBytes
  split
  · exact ⟨rfl, rfl⟩
  · exact GuestMemory.SameBacking.refl mem

theorem writeBytes_store (h : (mem.writeBytes gpa data).2 = true) :
    (mem.writeBytes gpa data).1 = mem.store gpa data := by
  unfold GuestMemory.writeBytes at h ⊢
  split
  · rfl
  · rename_i hbacked
    rw [if_neg hbacked] at h
    cases h

theorem writeUsed_backing (base size id len : Nat) : mem.SameBacking (mem.writeUsed base size id len) := by
  unfold GuestMemory.writeUsed
  split
  · exact GuestMemory.SameBacking.refl mem
  · split
    · split
      · exact GuestMemory.SameBacking.refl mem
      · split
        · dsimp only
          split
          · exact writeBytes_backing
          · split
            · exact writeBytes_backing.trans writeBytes_backing
            · exact (writeBytes_backing.trans writeBytes_backing).trans writeBytes_backing
        · exact GuestMemory.SameBacking.refl mem
    · exact GuestMemory.SameBacking.refl mem

/-- The ring of used elements and its index are backed. -/
structure GuestMemory.UsedMapped (mem : GuestMemory) (base size : Nat) : Prop where
  size_pos : 0 < size
  base_ne : base ≠ 0
  fits : base + 4 + size * 8 < 2 ^ 64
  indexRead : mem.readable (base + 2) 2 = true
  indexWrite : mem.writable (base + 2) 2 = true
  elements : ∀ slot < size, mem.writable (base + 4 + slot * 8) 4 = true ∧
    mem.writable (base + 4 + slot * 8 + 4) 4 = true

theorem checkedAdd_some {a b c : Nat} (h : checkedAdd a b = some c) : c = a + b := by
  unfold checkedAdd at h
  split at h
  · exact (Option.some.inj h).symm
  · cases h

theorem checkedAdd_of_lt {a b : Nat} (h : a + b < 2 ^ 64) : checkedAdd a b = some (a + b) := if_pos h

theorem checkedMul_of_lt {a b : Nat} (h : a * b < 2 ^ 64) : checkedMul a b = some (a * b) := if_pos h

theorem readU16At_eq {off : Nat} (hfit : base + off + 2 < 2 ^ 64) (hread : mem.readable (base + off) 2 = true) :
    mem.readU16At base off = some (ofLeBytes (mem.span (base + off) 2)) := by
  rw [GuestMemory.readU16At, checkedAdd_of_lt (by omega), Option.bind_some, checkedAdd_of_lt hfit, Option.bind_some,
    GuestMemory.readBytes, if_pos hread, Option.map_some]

theorem readU16At_lt {off v : Nat} (h : mem.readU16At base off = some v) : v < 65536 := by
  unfold GuestMemory.readU16At at h
  obtain ⟨address, -, h⟩ := Option.bind_eq_some_iff.mp h
  obtain ⟨-, -, h⟩ := Option.bind_eq_some_iff.mp h
  obtain ⟨bytes, hbytes, rfl⟩ := Option.map_eq_some_iff.mp h
  have hlen : bytes.length = 2 := by
    unfold GuestMemory.readBytes at hbytes
    split at hbytes
    · cases hbytes
      exact length_span
    · cases hbytes
  have := ofLeBytes_lt bytes
  rw [hlen] at this
  exact this

theorem readU16At_isSome {mem' : GuestMemory} (h : mem.SameBacking mem') (off : Nat) :
    (mem'.readU16At base off).isSome = (mem.readU16At base off).isSome := by
  unfold GuestMemory.readU16At GuestMemory.readBytes
  rw [h.1]
  cases checkedAdd base off with
  | none => rfl
  | some address =>
    cases hc : checkedAdd address 2 with
    | none => simp [hc]
    | some _ => cases hr : mem.readable address 2 <;> simp [hc, hr]

theorem GuestMemory.UsedMapped.of_backing {mem' : GuestMemory} {size : Nat} (h : mem.UsedMapped base size)
    (hb : mem.SameBacking mem') : mem'.UsedMapped base size where
  size_pos := h.size_pos
  base_ne := h.base_ne
  fits := h.fits
  indexRead := by rw [hb.1]; exact h.indexRead
  indexWrite := by rw [hb.2]; exact h.indexWrite
  elements := by rw [hb.2]; exact h.elements

/-- **Publishing a used element** while the ring is mapped: the slot holds the element and the index is one more. -/
theorem writeUsed_mapped {size id used : Nat} (h : mem.UsedMapped base size)
    (hused : mem.readU16At base 2 = some used) :
    (mem.writeUsed base size id len).readU16At base 2 = some ((used + 1) % 65536) ∧
      (mem.writeUsed base size id len).span (base + 4 + used % size * 8) 8 = toLeBytes 4 id ++ toLeBytes 4 len := by
  have hsize := h.size_pos
  have hslot : used % size < size := Nat.mod_lt _ hsize
  have hfits := h.fits
  obtain ⟨hw1, hw2⟩ := h.elements _ hslot
  obtain ⟨element, helement⟩ : ∃ element, element = base + 4 + used % size * 8 := ⟨_, rfl⟩
  rw [← helement] at hw1 hw2 ⊢
  have hel : element + 8 ≤ base + 4 + size * 8 := by
    have := Nat.mul_le_mul_right 8 (Nat.succ_le_of_lt hslot)
    omega
  have hwrite : mem.writeUsed base size id len =
      ((mem.store element (toLeBytes 4 id)).store (element + 4) (toLeBytes 4 len)).store (base + 2)
        (toLeBytes 2 ((used + 1) % 65536)) := by
    have hbase : ¬(size = 0 ∨ base = 0) := fun e => e.elim (by omega) h.base_ne
    have helt : checkedAdd base (4 + used % size * 8) = some element := by
      rw [checkedAdd_of_lt (by omega)]
      congr 1
      omega
    rw [GuestMemory.writeUsed, if_neg hbase, checkedAdd_of_lt (by omega : base + 2 < 2 ^ 64), hused]
    simp only [helt, checkedAdd_of_lt (by omega : element + 4 < 2 ^ 64),
      checkedAdd_of_lt (by omega : element + 8 < 2 ^ 64), GuestMemory.writeBytes, length_toLeBytes, hw1,
      if_true, Bool.not_true, Bool.false_eq_true, if_false, store_writable, hw2, h.indexWrite]
  rw [hwrite]
  constructor
  · rw [readU16At_eq (by omega) (by simpa using h.indexRead)]
    rw [span_store_self (length_toLeBytes _ _), ofLeBytes_toLeBytes]
    norm_num
  · have hsplit : ∀ m : GuestMemory, m.span element 8 = m.span element 4 ++ m.span (element + 4) 4 := by
      intro m
      simp [GuestMemory.span, List.range_succ_eq_map, Nat.add_assoc]
    rw [span_store_of_disjoint (Or.inr (by rw [length_toLeBytes]; omega)), hsplit]
    congr 1
    · rw [span_store_of_disjoint (Or.inl le_rfl), span_store_self (length_toLeBytes _ _)]
    · exact span_store_self (length_toLeBytes _ _)

end Stores

end BridgeVm
