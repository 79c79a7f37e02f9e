import BridgeVm.DescriptorChain
import BridgeVm.MappedRam

/-!
# The layout of a block request (`virtio_blk/request_layout.rs`)

`parse` scans the descriptors once: the readable ones, then the writable ones, none past the end of the address space.
`parse_iff` says which chains it accepts and what it finds there; `header_eq` and `addresses_data` say that the header
and the data are taken from the buffers as one sequence, whatever the descriptors.
-/

namespace BridgeVm

open Lib

/-- The run of a descriptor's buffer. -/
def Descriptor.run (d : Descriptor) : Nat × Nat := (d.addr, d.len)

/-- The addresses of the buffers, one after the other. -/
def bufferAddresses (descs : List Descriptor) : List Nat := addresses (descs.map Descriptor.run)

/-- The buffer ends inside the address space. -/
def Descriptor.NoWrap (d : Descriptor) : Prop := d.len = 0 ∨ d.addr + d.len ≤ 2 ^ 64

namespace VirtioBlk

/-- `RequestLayout`. -/
structure RequestLayout where
  readableLen : Nat
  dataLen : Nat
  statusAddr : Nat
  firstWritable : Nat
deriving DecidableEq, Repr

/-- The end of a descriptor in `parse`: `none` past the address space, `some none` for an empty one. -/
def lastByte (d : Descriptor) : Option (Option Nat) :=
  if d.len = 0 then some none else (checkedAdd d.addr (d.len - 1)).map some

/-- The variables of the scan in `parse`. -/
structure Scan where
  readableLen : Nat
  writableLen : Nat
  firstWritable : Nat
  statusAddr : Option Nat

/-- One round of the scan. -/
def Scan.step (count index : Nat) (s : Scan) (d : Descriptor) : Option Scan :=
  (lastByte d).bind fun last =>
    if d.isWrite then
      (checkedAdd s.writableLen d.len).map fun writableLen =>
        { s with
          firstWritable := min s.firstWritable index
          writableLen := writableLen
          statusAddr := last.or s.statusAddr }
    else if s.firstWritable ≠ count then none
    else (checkedAdd s.readableLen d.len).map fun readableLen => { s with readableLen := readableLen }

def scan (count : Nat) : Nat → Scan → List Descriptor → Option Scan
  | _, s, [] => some s
  | index, s, d :: ds => (s.step count index d).bind fun s => scan count (index + 1) s ds

/-- `RequestLayout::parse`. -/
def RequestLayout.parse (descs : List Descriptor) : Option RequestLayout :=
  (scan descs.length 0 ⟨0, 0, descs.length, none⟩ descs).bind fun s =>
    if s.writableLen = 0 then none
    else s.statusAddr.map fun statusAddr => ⟨s.readableLen, s.writableLen - 1, statusAddr, s.firstWritable⟩

/-- The loop of `header`, after `copied` bytes. -/
def headerFrom (mem : GuestMemory) : List UInt8 → List Descriptor → Option (List UInt8)
  | _, [] => none
  | copied, d :: ds =>
    let len := min d.len (16 - copied.length)
    (if 0 < len then mem.readBytes d.addr len else some []).bind fun bytes =>
      if (copied ++ bytes).length = 16 then some (copied ++ bytes) else headerFrom mem (copied ++ bytes) ds

/-- `RequestLayout::header`. -/
def RequestLayout.header (layout : RequestLayout) (mem : GuestMemory) (descs : List Descriptor) : Option (List UInt8) :=
  if layout.readableLen < 16 then none else headerFrom mem [] (descs.take layout.firstWritable)

/-- The runs of at most `remaining` bytes. -/
def dataRuns : Nat → List Descriptor → List (Nat × Nat)
  | _, [] => []
  | remaining, d :: ds => (d.addr, min d.len remaining) :: dataRuns (remaining - min d.len remaining) ds

/-- `RequestLayout::data`. -/
def RequestLayout.data (layout : RequestLayout) (descs : List Descriptor) : List (Nat × Nat) :=
  dataRuns layout.dataLen (descs.drop layout.firstWritable)

/-! ## The chains that `parse` accepts -/

/-- A chain of readable descriptors and then writable ones, none past the end of the address space. -/
structure Framed (reads writes : List Descriptor) : Prop where
  readable : ∀ d ∈ reads, d.isWrite = false
  writable : ∀ d ∈ writes, d.isWrite = true
  readsFit : ∀ d ∈ reads, d.NoWrap
  writesFit : ∀ d ∈ writes, d.NoWrap

section Buffers

variable {d : Descriptor} {ds ds' : List Descriptor}

@[simp] theorem bufferAddresses_nil : bufferAddresses [] = [] := rfl

@[simp] theorem bufferAddresses_cons : bufferAddresses (d :: ds) = List.range' d.addr d.len ++ bufferAddresses ds := rfl

@[simp] theorem length_bufferAddresses : (bufferAddresses ds).length = capacity ds := by
  induction ds with
  | nil => rfl
  | cons d ds ih => rw [bufferAddresses_cons, List.length_append, List.length_range', ih, capacity_cons]

theorem lastByte_iff {last : Option Nat} : lastByte d = some last ↔ d.NoWrap ∧
    last = (List.range' d.addr d.len).getLast? := by
  unfold lastByte Descriptor.NoWrap
  rw [List.getLast?_range']
  by_cases hlen : d.len = 0
  · simp [hlen, eq_comm]
  · rw [if_neg hlen, if_neg hlen]
    unfold checkedAdd
    by_cases hfit : d.addr + (d.len - 1) < 2 ^ 64
    · have hend : d.addr + d.len - 1 = d.addr + (d.len - 1) := by omega
      rw [if_pos hfit, hend]
      simp only [Option.map_some, Option.some.injEq, eq_comm (a := last)]
      exact ⟨fun h => ⟨by omega, h⟩, fun h => h.2⟩
    · rw [if_neg hfit]
      simp only [Option.map_none, reduceCtorEq, false_iff, not_and]
      omega

end Buffers

section Scans

variable {count index : Nat} {s s' : Scan} {d : Descriptor} {ds : List Descriptor} {layout : RequestLayout}

theorem Scan.step_writable (hd : d.isWrite = true) : s.step count index d = some s' ↔
    d.NoWrap ∧ s.writableLen + d.len < 2 ^ 64 ∧
      s' = ⟨s.readableLen, s.writableLen + d.len, min s.firstWritable index,
        (List.range' d.addr d.len).getLast?.or s.statusAddr⟩ := by
  unfold Scan.step
  simp only [hd, if_true, Option.bind_eq_some_iff, Option.map_eq_some_iff, lastByte_iff]
  constructor
  · rintro ⟨last, ⟨hfit, rfl⟩, writableLen, hlen, rfl⟩
    obtain rfl := checkedAdd_some hlen
    refine ⟨hfit, ?_, rfl⟩
    unfold checkedAdd at hlen
    split at hlen
    · assumption
    · cases hlen
  · rintro ⟨hfit, hlen, rfl⟩
    exact ⟨_, ⟨hfit, rfl⟩, _, checkedAdd_of_lt hlen, rfl⟩

theorem Scan.step_readable (hd : d.isWrite = false) : s.step count index d = some s' ↔
    d.NoWrap ∧ s.firstWritable = count ∧ s.readableLen + d.len < 2 ^ 64 ∧
      s' = { s with readableLen := s.readableLen + d.len } := by
  unfold Scan.step
  simp only [hd, Bool.false_eq_true, if_false, Option.bind_eq_some_iff, lastByte_iff]
  by_cases hfirst : s.firstWritable = count
  · simp only [hfirst, ne_eq, not_true_eq_false, if_false, true_and, Option.map_eq_some_iff]
    constructor
    · rintro ⟨last, ⟨hfit, rfl⟩, readableLen, hlen, rfl⟩
      obtain rfl := checkedAdd_some hlen
      refine ⟨hfit, ?_, rfl⟩
      unfold checkedAdd at hlen
      split at hlen
      · assumption
      · cases hlen
    · rintro ⟨hfit, hlen, rfl⟩
      exact ⟨_, ⟨hfit, rfl⟩, _, checkedAdd_of_lt hlen, rfl⟩
  · simp [hfirst]

/-- The scan after the first writable descriptor. -/
theorem scan_writes (hfirst : s.firstWritable < count) (hindex : s.firstWritable ≤ index)
    (hlen : s.writableLen < 2 ^ 64) :
    scan count index s ds = some s' ↔ Framed [] ds ∧ s.writableLen + capacity ds < 2 ^ 64 ∧
      s' = ⟨s.readableLen, s.writableLen + capacity ds, s.firstWritable,
        (bufferAddresses ds).getLast?.or s.statusAddr⟩ := by
  induction ds generalizing index s with
  | nil =>
    have hempty : Framed [] [] := ⟨by simp, by simp, by simp, by simp⟩
    simp only [scan, Option.some.injEq, hempty, capacity_nil, Nat.add_zero, hlen, bufferAddresses_nil,
      List.getLast?_nil,
      Option.none_or, true_and]
    exact eq_comm
  | cons d ds ih =>
    have hcons : Framed [] (d :: ds) ↔ d.isWrite = true ∧ d.NoWrap ∧ Framed [] ds := by
      constructor
      · intro h
        obtain ⟨hw, hws⟩ := List.forall_mem_cons.mp h.writable
        obtain ⟨hf, hfs⟩ := List.forall_mem_cons.mp h.writesFit
        exact ⟨hw, hf, h.readable, hws, h.readsFit, hfs⟩
      · rintro ⟨hw, hf, h⟩
        exact ⟨h.readable, List.forall_mem_cons.mpr ⟨hw, h.writable⟩, h.readsFit,
          List.forall_mem_cons.mpr ⟨hf, h.writesFit⟩⟩
    rw [scan, Option.bind_eq_some_iff, hcons]
    cases hd : d.isWrite with
    | false =>
      -- a readable descriptor after a writable one is refused
      simp only [Scan.step_readable hd, Bool.false_eq_true, false_and, iff_false, not_exists, not_and]
      intro s₁ hs₁
      omega
    | true =>
      simp only [Scan.step_writable hd, true_and]
      have hmin : min s.firstWritable index = s.firstWritable := Nat.min_eq_left hindex
      constructor
      · rintro ⟨s₁, ⟨hfit, hlen₁, rfl⟩, hscan⟩
        rw [ih (by dsimp only; omega) (by dsimp only; omega) hlen₁] at hscan
        obtain ⟨hframed, htotal, rfl⟩ := hscan
        refine ⟨⟨hfit, hframed⟩, ?_, ?_⟩
        · rw [capacity_cons, ← Nat.add_assoc]
          exact htotal
        · simp [hmin, Nat.add_assoc, Option.or_assoc]
      · rintro ⟨⟨hfit, hframed⟩, htotal, rfl⟩
        rw [capacity_cons, ← Nat.add_assoc] at htotal
        refine ⟨_, ⟨hfit, by omega, rfl⟩, ?_⟩
        rw [ih (by dsimp only; omega) (by dsimp only; omega) (by dsimp only; omega)]
        exact ⟨hframed, htotal, by simp [hmin, Nat.add_assoc, Option.or_assoc]⟩

/-- The scan before the first writable descriptor. -/
theorem scan_reads {readableLen : Nat} (hindex : index + ds.length = count) (hlen : readableLen < 2 ^ 64) :
    scan count index ⟨readableLen, 0, count, none⟩ ds = some s' ↔ ∃ reads writes, ds = reads ++ writes ∧
      Framed reads writes ∧ readableLen + capacity reads < 2 ^ 64 ∧ capacity writes < 2 ^ 64 ∧
      s' = ⟨readableLen + capacity reads, capacity writes, index + reads.length,
        (bufferAddresses writes).getLast?⟩ := by
  induction ds generalizing index readableLen with
  | nil =>
    constructor
    · intro h
      rw [scan] at h
      cases h
      exact ⟨[], [], rfl, ⟨by simp, by simp, by simp, by simp⟩, hlen, by simp, by simpa using hindex.symm⟩
    · rintro ⟨reads, writes, hnil, -, -, -, rfl⟩
      obtain ⟨rfl, rfl⟩ := List.append_eq_nil_iff.mp hnil.symm
      rw [scan]
      simpa using hindex.symm
  | cons d ds ih =>
    rw [List.length_cons] at hindex
    rw [scan, Option.bind_eq_some_iff]
    cases hd : d.isWrite with
    | true =>
      simp only [Scan.step_writable hd, Nat.zero_add, Option.or_none]
      have hmin : min count index = index := by omega
      constructor
      · rintro ⟨s₁, ⟨hfit, hlen₁, rfl⟩, hscan⟩
        rw [scan_writes (by dsimp only; omega) (by dsimp only; omega) hlen₁] at hscan
        obtain ⟨hframed, htotal, rfl⟩ := hscan
        refine ⟨[], d :: ds, rfl, ⟨by simp, List.forall_mem_cons.mpr ⟨hd, hframed.writable⟩, by simp,
          List.forall_mem_cons.mpr ⟨hfit, hframed.writesFit⟩⟩, hlen, htotal, ?_⟩
        simp [hmin]
      · rintro ⟨reads, writes, heq, hframed, hreads, htotal, rfl⟩
        cases reads with
        | cons e reads =>
          have he : e.isWrite = false := hframed.readable e List.mem_cons_self
          rw [List.cons_append, List.cons.injEq] at heq
          rw [← heq.1, hd] at he
          cases he
        | nil =>
          obtain rfl : d :: ds = writes := heq
          obtain ⟨-, hws⟩ := List.forall_mem_cons.mp hframed.writable
          obtain ⟨hfit, hfs⟩ := List.forall_mem_cons.mp hframed.writesFit
          rw [capacity_cons] at htotal
          refine ⟨_, ⟨hfit, by omega, rfl⟩, ?_⟩
          rw [scan_writes (by dsimp only; omega) (by dsimp only; omega) (by dsimp only; omega)]
          exact ⟨⟨by simp, hws, by simp, hfs⟩, htotal, by simp [hmin]⟩
    | false =>
      simp only [Scan.step_readable hd, true_and]
      constructor
      · rintro ⟨s₁, ⟨hfit, hlen₁, rfl⟩, hscan⟩
        rw [ih (by omega) hlen₁] at hscan
        obtain ⟨reads, writes, rfl, hframed, hreads, htotal, rfl⟩ := hscan
        refine ⟨d :: reads, writes, rfl, ⟨List.forall_mem_cons.mpr ⟨hd, hframed.readable⟩, hframed.writable,
          List.forall_mem_cons.mpr ⟨hfit, hframed.readsFit⟩, hframed.writesFit⟩, ?_, htotal, ?_⟩
        · rw [capacity_cons, ← Nat.add_assoc]
          exact hreads
        · simp [Nat.add_assoc, Nat.add_comm 1]
      · rintro ⟨reads, writes, heq, hframed, hreads, htotal, rfl⟩
        cases reads with
        | nil =>
          have he : d.isWrite = true :=
            hframed.writable d (by rw [← List.nil_append writes, ← heq]; exact List.mem_cons_self)
          rw [hd] at he
          cases he
        | cons e reads =>
          rw [List.cons_append, List.cons.injEq] at heq
          obtain ⟨rfl, rfl⟩ := heq
          obtain ⟨-, hrs⟩ := List.forall_mem_cons.mp hframed.readable
          obtain ⟨hfit, hfs⟩ := List.forall_mem_cons.mp hframed.readsFit
          rw [capacity_cons] at hreads
          refine ⟨_, ⟨hfit, by omega, rfl⟩, ?_⟩
          rw [ih (by omega) (by omega)]
          exact ⟨reads, writes, rfl, ⟨hrs, hframed.writable, hfs, hframed.writesFit⟩, by omega, htotal,
            by simp [Nat.add_assoc, Nat.add_comm 1]⟩

/-- **`parse` accepts the chains of readable and then writable descriptors** that end inside the address space and have
a byte for the status, and finds the status in the last of the writable bytes. -/
theorem parse_iff : RequestLayout.parse ds = some layout ↔ ∃ reads writes, ds = reads ++ writes ∧
    Framed reads writes ∧
    capacity reads < 2 ^ 64 ∧ capacity writes < 2 ^ 64 ∧
    (bufferAddresses writes).getLast? = some layout.statusAddr ∧
      layout.readableLen = capacity reads ∧ layout.dataLen = capacity writes - 1 ∧
      layout.firstWritable = reads.length := by
  unfold RequestLayout.parse
  rw [Option.bind_eq_some_iff]
  simp only [scan_reads (Nat.zero_add ds.length) (Nat.two_pow_pos 64)]
  constructor
  · rintro ⟨s, ⟨reads, writes, rfl, hframed, hreads, hwrites, rfl⟩, hlayout⟩
    split at hlayout
    · cases hlayout
    · obtain ⟨statusAddr, hstatus, rfl⟩ := Option.map_eq_some_iff.mp hlayout
      exact ⟨reads, writes, rfl, hframed, by omega, hwrites, hstatus, by simp, rfl, by simp⟩
  · rintro ⟨reads, writes, rfl, hframed, hreads, hwrites, hstatus, hreadable, hdata, hfirst⟩
    refine ⟨_, ⟨reads, writes, rfl, hframed, by omega, hwrites, rfl⟩, ?_⟩
    have hpos : capacity writes ≠ 0 := by
      intro hzero
      rw [← length_bufferAddresses, List.length_eq_zero_iff] at hzero
      rw [hzero] at hstatus
      cases hstatus
    dsimp only
    rw [if_neg hpos, hstatus, Option.map_some, Option.some.injEq]
    cases layout
    simp_all

end Scans

/-! ## The header and the data as parts of the buffers -/

section Parts

variable {mem : GuestMemory} {layout : RequestLayout} {d : Descriptor} {ds reads writes : List Descriptor}

theorem headerFrom_eq (hmem : mem.Bytewise) {copied : List UInt8} (hmore : copied.length < 16)
    (hlen : 16 ≤ copied.length + capacity ds) :
    headerFrom mem copied ds = (((bufferAddresses ds).take (16 - copied.length)).mapM mem.byteAt).map
      (copied ++ ·) := by
  induction ds generalizing copied with
  | nil =>
    rw [capacity_nil] at hlen
    omega
  | cons d ds ih =>
    rw [capacity_cons] at hlen
    rw [headerFrom, bufferAddresses_cons, List.take_append, List.length_range', take_range', Nat.min_comm,
      List.mapM_append]
    have hpiece : (if 0 < min (16 - copied.length) d.len then mem.readBytes d.addr (min (16 - copied.length) d.len)
        else some []) = (List.range' d.addr (min (16 - copied.length) d.len)).mapM mem.byteAt := by
      split
      · rename_i hpos
        exact readBytes_eq_mapM hmem hpos
      · rename_i hzero
        rw [show min (16 - copied.length) d.len = 0 by omega]
        rfl
    rw [hpiece]
    cases hbytes : (List.range' d.addr (min (16 - copied.length) d.len)).mapM mem.byteAt with
    | none => rfl
    | some bytes =>
      have hcount : bytes.length = min (16 - copied.length) d.len := by
        rw [mapM_byteAt (readable_of_mapM hbytes), Option.some.injEq] at hbytes
        rw [← hbytes, List.length_map, List.length_range']
      rw [Option.bind_some]
      by_cases hdone : (copied ++ bytes).length = 16
      · -- the header ends inside this descriptor
        rw [if_pos hdone]
        rw [List.length_append] at hdone
        have hrest : 16 - copied.length - d.len = 0 := by omega
        rw [hrest, List.take_zero, List.mapM_nil]
        simp
      · rw [if_neg hdone]
        rw [List.length_append] at hdone
        have hpart : (copied ++ bytes).length < 16 := by
          rw [List.length_append]
          omega
        have henough : 16 ≤ (copied ++ bytes).length + capacity ds := by
          rw [List.length_append]
          omega
        have hleft : 16 - (copied ++ bytes).length = 16 - copied.length - d.len := by
          rw [List.length_append]
          omega
        rw [ih hpart henough, hleft]
        cases ((bufferAddresses ds).take (16 - copied.length - d.len)).mapM mem.byteAt with
        | none => rfl
        | some rest => simp

/-- **The header is the first sixteen readable bytes**, however they are split. -/
theorem header_eq (hmem : mem.Bytewise) (hparse : layout.readableLen = capacity reads)
    (hfirst : layout.firstWritable = reads.length) :
    layout.header mem (reads ++ writes) =
      if capacity reads < 16 then none else ((bufferAddresses reads).take 16).mapM mem.byteAt := by
  unfold RequestLayout.header
  rw [hparse, hfirst, List.take_left]
  split
  · rfl
  · rename_i hlen
    rw [headerFrom_eq hmem (by simp) (by simpa using hlen)]
    simp

theorem addresses_dataRuns (remaining : Nat) :
    addresses (dataRuns remaining ds) = (bufferAddresses ds).take remaining := by
  induction ds generalizing remaining with
  | nil => simp [dataRuns]
  | cons d ds ih =>
    have hrest : remaining - min d.len remaining = remaining - d.len := by omega
    rw [dataRuns, addresses_cons, ih, bufferAddresses_cons, List.take_append, List.length_range', take_range', hrest,
      Nat.min_comm]

/-- **The data are the writable bytes but the last**, however they are split. -/
theorem addresses_data (hdata : layout.dataLen = capacity writes - 1) (hfirst : layout.firstWritable = reads.length) :
    addresses (layout.data (reads ++ writes)) = (bufferAddresses writes).dropLast := by
  unfold RequestLayout.data
  rw [hdata, hfirst, List.drop_left, addresses_dataRuns, List.dropLast_eq_take, length_bufferAddresses]

end Parts

end VirtioBlk

end BridgeVm
