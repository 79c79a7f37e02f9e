import BridgeVm.Checkpoint.SparseRam
import Mathlib.Data.List.Perm.Subperm

/-!
# The checkpoint file round trip

Each decoder accepts exactly what its encoder writes, so a file that is read is the file of what was read, up to the
order of its sections.
-/

namespace BridgeVm.Checkpoint

open Lib Cursor Reader

/-! ## Registers -/

theorem decodeReg_accepts (error : String) : Accepts (decodeReg error) (.spelled encodeReg fun _ => True) := by
  refine (u16_accepts.bind fun reg => u16_accepts.bind fun reserved => (Accepts.check _ error).bind fun _ =>
    u32_accepts.bind fun reserved => (Accepts.check _ error).bind fun _ => u64_accepts.bind fun value =>
      Accepts.pure (reg, value)).congr fun bytes v => ?_
  simp only [Format.bind_spelled, Format.bind_only, Format.spelled, Format.only, decide_eq_true_eq]
  constructor
  · rintro ⟨reg, _, rfl, -, _, _, rfl, -, rfl, _, _, rfl, -, rfl, value, _, rfl, -, rfl, rfl, -⟩
    simp [encodeReg]
  · rintro ⟨rfl, -⟩
    refine ⟨v.1, _, ?_, trivial, 0, _, rfl, trivial, rfl, 0, _, rfl, trivial, rfl, v.2, [], rfl, trivial, rfl, rfl,
      trivial⟩
    simp [encodeReg]

theorem counted_accepts {α : Type} {r : Cursor α} {enc : α → List UInt8} {allowed : α → Prop}
    (h : Accepts r (.spelled enc allowed)) :
    Accepts (do let count ← u32; times r count.toNat)
      (.spelled (fun vs => writeU32 (.ofNat vs.length) ++ vs.flatMap enc)
        fun vs => vs.length < 2 ^ 32 ∧ ∀ v ∈ vs, allowed v) := by
  refine (u32_accepts.bind fun count => h.times count.toNat).congr fun bytes vs => ?_
  simp only [Format.bind_spelled, Format.spelled]
  constructor
  · rintro ⟨count, _, rfl, -, rfl, hlen, hvs⟩
    rw [hlen, UInt32.ofNat_toNat]
    exact ⟨rfl, count.toNat_lt, hvs⟩
  · rintro ⟨rfl, hlen, hvs⟩
    refine ⟨_, _, rfl, trivial, rfl, ?_, hvs⟩
    rw [UInt32.toNat_ofNat', Nat.mod_eq_of_lt hlen]

theorem decodeRegs_accepts (error : String) :
    Accepts (decodeRegs error) (.spelled encodeRegs fun regs => regs.length < 2 ^ 32) :=
  (counted_accepts (decodeReg_accepts error)).congr fun bytes regs => by simp [Format.spelled, encodeRegs]

theorem decodeVtimerMasked_accepts : Accepts decodeVtimerMasked (.spelled writeBool fun _ => True) :=
  (u8_accepts.bind fun value => bool_of_u8_accepts value _).congr fun _ _ => bind_bool

theorem simd_accepts :
    Accepts (vector (vector u8 16) 32) (.spelled (fun simd => simd.toList.flatMap Vector.toList) fun _ => True) := by
  have hone : Accepts (vector u8 16) (.spelled Vector.toList fun _ => True) := by
    refine (u8_accepts.vector 16).congr fun bytes v => ?_
    have hflat : v.toList.flatMap writeU8 = v.toList := List.flatMap_singleton' v.toList
    simp [Format.spelled, hflat]
  exact (hone.vector 32).congr fun bytes v => by simp [Format.spelled]

/-- The register lists' lengths fit their counts. -/
structure VcpuRegisterBundle.Counted (state : VcpuRegisterBundle) : Prop where
  sysRegs : state.sysRegs.length < 2 ^ 32
  gicIccRegs : state.gicIccRegs.length < 2 ^ 32

theorem decodeVcpu_accepts : Accepts decodeVcpu (.spelled encodeVcpu VcpuRegisterBundle.Counted) := by
  unfold decodeVcpu
  refine Accepts.congr (.bind (u64_accepts.vector 31) fun x => .bind u64_accepts fun pc => .bind u64_accepts fun fpcr =>
    .bind u64_accepts fun fpsr => .bind u64_accepts fun cpsr => .bind (decodeRegs_accepts _) fun sysRegs =>
    .bind simd_accepts fun simd => .bind (decodeRegs_accepts _) fun gicIccRegs => .bind u64_accepts fun vtimerOffset =>
    .bind decodeVtimerMasked_accepts fun vtimerMasked => .bind (take_accepts 7) fun reserved =>
    .bind (.check _ _) fun _ => .pure _) fun bytes v => ?_
  simp only [Format.bind_spelled, Format.bind_only, Format.spelled, Format.only, id_eq]
  constructor
  · rintro ⟨x, _, rfl, -, pc, _, rfl, -, fpcr, _, rfl, -, fpsr, _, rfl, -, cpsr, _, rfl, -, sysRegs, _,
      rfl, hsys, simd,
      _, rfl, -, gicIccRegs, _, rfl, hgic, vtimerOffset, _, rfl, -, vtimerMasked, _, rfl, -, reserved, _, rfl, hlen,
      hzero, rfl, rfl, -⟩
    have hreserved : reserved = List.replicate 7 0 := by
      refine List.eq_replicate_iff.2 ⟨hlen, fun b hb => ?_⟩
      simpa using List.all_eq_true.1 hzero b hb
    exact ⟨by simp [encodeVcpu, hreserved], hsys, hgic⟩
  · rintro ⟨rfl, hsys, hgic⟩
    refine ⟨v.x, _, ?_, by simp, v.pc, _, rfl, trivial, v.fpcr, _, rfl, trivial, v.fpsr, _, rfl, trivial,
      v.cpsr, _, rfl,
      trivial, v.sysRegs, _, rfl, hsys, v.simd, _, rfl, trivial, v.gicIccRegs, _, rfl, hgic, v.vtimerOffset, _, rfl,
      trivial, v.vtimerMasked, _, rfl, trivial, List.replicate 7 0, [], rfl, rfl, rfl, rfl, rfl, trivial⟩
    simp [encodeVcpu]

/-! ## RAM chunks -/

theorem decodeRamChunk_accepts (ramLen : UInt64) (previousEnd : Nat) :
    Accepts (decodeRamChunk ramLen previousEnd) (.spelled encodeRamChunk (·.Fits ramLen previousEnd)) := by
  unfold decodeRamChunk
  refine Accepts.congr (.bind u64_accepts fun offset => .bind blob_accepts fun data => .bind (.check _ _) fun _ =>
    .bind (.check _ _) fun _ => .pure _) fun bytes chunk => ?_
  simp only [Format.bind_spelled, Format.bind_only, Format.spelled, Format.only, decide_eq_true_eq]
  constructor
  · rintro ⟨offset, _, rfl, -, data, _, rfl, -, -, ⟨hafter, hinside, hne, hsmall, haligned⟩, rfl, rfl, -⟩
    exact ⟨by simp [encodeRamChunk], hafter, hinside, hne, hsmall, haligned⟩
  · rintro ⟨rfl, hafter, hinside, hne, hsmall, haligned⟩
    have hlt := ramLen.toNat_lt
    refine ⟨chunk.offset, _, rfl, trivial, chunk.bytes, [], ?_, by omega, by omega, ⟨hafter, hinside, hne, hsmall,
      haligned⟩, rfl, rfl, trivial⟩
    simp

theorem decodeRamChunksLoop_accepts (ramLen : UInt64) (count previousEnd : Nat) :
    Accepts (decodeRamChunksLoop ramLen count previousEnd)
      (.spelled (List.flatMap encodeRamChunk) fun chunks => chunks.length = count ∧
        ChunksFit ramLen previousEnd chunks)
    := by
  induction count generalizing previousEnd with
  | zero =>
    refine (Accepts.pure []).congr fun bytes chunks => ?_
    simp only [Format.only, Format.spelled, List.length_eq_zero_iff]
    constructor
    · rintro ⟨rfl, rfl, -⟩
      simp [ChunksFit]
    · rintro ⟨rfl, rfl, -⟩
      simp
  | succ count ih =>
    refine ((decodeRamChunk_accepts ramLen previousEnd).bind fun chunk =>
      (ih (chunk.offset.toNat + chunk.bytes.length)).bind fun chunks => Accepts.pure (chunk :: chunks)).congr
        fun bytes chunks => ?_
    simp only [Format.bind_spelled, Format.spelled, Format.only]
    constructor
    · rintro ⟨chunk, _, rfl, hfits, chunks, _, rfl, ⟨rfl, hchunks⟩, rfl, rfl, -⟩
      exact ⟨by simp, by simp, hfits, hchunks⟩
    · rintro ⟨rfl, hlen, hfit⟩
      cases chunks with
      | nil => simp at hlen
      | cons chunk chunks =>
        obtain ⟨hfits, hchunks⟩ := hfit
        exact ⟨chunk, chunks.flatMap encodeRamChunk, by simp, hfits, chunks, [], by simp,
          ⟨by simpa using hlen, hchunks⟩, rfl, rfl, trivial⟩

theorem decodeRamChunks_eq_ok {data : List UInt8} {ramLen : UInt64} {chunks : List SparseRamChunk}
    (hdata : data.length < 2 ^ 64) : decodeRamChunks data ramLen = .ok chunks ↔
      data = encodeRamChunks chunks ∧ chunks.length < 2 ^ 32 ∧ ChunksFit ramLen 0 chunks := by
  refine (over_finishing_eq_ok (.bind u32_accepts fun count => .bind u32_accepts fun reserved =>
    .bind (.check _ _) fun _ => decodeRamChunksLoop_accepts ramLen count.toNat 0) hdata).trans ?_
  simp only [Format.bind_spelled, Format.bind_only, Format.spelled, decide_eq_true_eq]
  constructor
  · rintro ⟨count, _, rfl, -, _, _, rfl, -, rfl, rfl, hlen, hfit⟩
    refine ⟨?_, hlen ▸ count.toNat_lt, hfit⟩
    rw [encodeRamChunks, hlen, UInt32.ofNat_toNat, List.append_assoc]
  · rintro ⟨rfl, hlen, hfit⟩
    refine ⟨.ofNat chunks.length, _, ?_, trivial, 0, _, rfl, trivial, rfl, rfl, ?_, hfit⟩
    · simp only [encodeRamChunks, List.append_assoc]
    · rw [UInt32.toNat_ofNat', Nat.mod_eq_of_lt hlen]

theorem decodeVcpus_eq_ok {data : List UInt8} {vcpus : List VcpuRegisterBundle} (hdata : data.length < 2 ^ 64) :
    decodeVcpus data = .ok vcpus ↔ data = encodeVcpus vcpus ∧ vcpus.length < 2 ^ 32 ∧ ∀ state ∈ vcpus,
    state.Counted :=
  over_finishing_eq_ok (counted_accepts decodeVcpu_accepts) hdata

theorem decodeMeta_eq_ok {data : List UInt8} {ramLen : UInt64} (hdata : data.length < 2 ^ 64) :
    decodeMeta data = .ok ramLen ↔ data = encodeMeta ramLen := by
  refine (over_finishing_eq_ok (.bind u64_accepts fun ramLen => .bind u32_accepts fun chunkSize =>
    .bind u32_accepts fun reserved => .bind (.check _ _) fun _ => .pure _) hdata).trans ?_
  simp only [Format.bind_spelled, Format.bind_only, Format.only, decide_eq_true_eq]
  constructor
  · rintro ⟨ramLen, _, rfl, -, chunkSize, _, rfl, -, _, _, rfl, -, ⟨hsize, rfl⟩, rfl, rfl, -⟩
    simp [encodeMeta, ← hsize]
  · rintro rfl
    refine ⟨ramLen, _, ?_, trivial, .ofNat sparseRamChunkSize, _, rfl, trivial, 0, [], rfl, trivial,
      ⟨rfl, rfl⟩, rfl, rfl,
      trivial⟩
    simp [encodeMeta]

/-! ## Sections -/

theorem readExact_accepts (len : Nat) : Accepts (readExact len) (.spelled id fun bytes => bytes.length = len) where
  reads bytes v hv := by
    obtain ⟨rfl, hlen⟩ := hv
    intro pos rest hpos
    change bytes.length = len at hlen
    subst hlen
    show readExact bytes.length ⟨pos, bytes ++ rest⟩ = _
    simp only [readExact]
    rw [if_neg (by rw [List.length_append]; omega), List.take_left, List.drop_left]
  word s v s' hs := by
    change readExact len s = _ at hs
    unfold readExact at hs
    split at hs
    · cases hs
    · cases hs
      have hlen : (s.rest.take len).length = len := by
        rw [List.length_take]
        omega
      exact ⟨s.rest.take len, (List.take_append_drop _ _).symm, rfl, hlen⟩

/-- A section's tag has four bytes and its payload is not too long. -/
structure SectionOk (entry : List UInt8 × List UInt8) : Prop where
  tag : entry.1.length = 4
  payload : entry.2.length ≤ maxSectionBytes

theorem eq_toLeBytes {bytes : List UInt8} {n v : Nat} (hlen : bytes.length = n) (hv : ofLeBytes bytes = v) :
    bytes = toLeBytes n v := by
  rw [← hv, ← hlen, toLeBytes_ofLeBytes]

theorem readSection_accepts :
    Accepts readSection (.spelled (fun entry => writeSection entry.1 entry.2) SectionOk) := by
  unfold readSection
  refine Accepts.congr (.bind (readExact_accepts 16) fun header => .bind (.check _ _) fun _ =>
    .bind (readExact_accepts _) fun payload => .pure _) fun bytes entry => ?_
  simp only [Format.bind_spelled, Format.bind_only, Format.spelled, Format.only, decide_eq_true_eq, id_eq]
  constructor
  · rintro ⟨header, _, rfl, hheader, ⟨hflags, hmax⟩, payload, _, rfl, hlen, rfl, rfl, -⟩
    have hflags : slice header 4 4 = writeU32 0 := eq_toLeBytes (length_slice (by omega)) hflags
    have hlen64 : payload.length < 2 ^ 64 := by
      have hbound : maxSectionBytes < 2 ^ 64 := by decide
      omega
    have hlength : slice header 8 8 = writeU64 (.ofNat payload.length) := by
      rw [writeU64, UInt64.toNat_ofNat', Nat.mod_eq_of_lt hlen64]
      exact eq_toLeBytes (length_slice (by omega)) hlen.symm
    have hsplit : header.take 4 ++ slice header 4 4 ++ slice header 8 8 = header := by
      rw [take_append_slice, take_append_slice, List.take_of_length_le (by omega)]
    refine ⟨?_, ⟨?_, hlen ▸ hmax⟩⟩
    · rw [writeSection, ← hflags, ← hlength, hsplit, List.append_nil]
    · rw [List.length_take]
      omega
  · rintro ⟨rfl, htag, hpayload⟩
    have hlen64 : entry.2.length < 2 ^ 64 := by
      have hbound : maxSectionBytes < 2 ^ 64 := by decide
      omega
    have hflags : slice (entry.1 ++ writeU32 0 ++ writeU64 (.ofNat entry.2.length)) 4 4 = writeU32 0 := by
      rw [List.append_assoc, slice_skip (by omega), htag, slice_head (length_writeU32 0)]
    have hlength : ofLeBytes (slice (entry.1 ++ writeU32 0 ++ writeU64 (.ofNat entry.2.length)) 8 8) =
      entry.2.length := by
      rw [slice_skip (by simp [htag]), List.length_append, htag, length_writeU32,
        slice_all (length_writeU64 _), writeU64,
        ofLeBytes_toLeBytes, UInt64.toNat_ofNat', Nat.mod_eq_of_lt hlen64]
      exact Nat.mod_eq_of_lt hlen64
    refine ⟨entry.1 ++ writeU32 0 ++ writeU64 (.ofNat entry.2.length), entry.2 ++ [], ?_, ?_, ⟨?_, ?_⟩,
      entry.2, [],
      rfl, hlength.symm, rfl, ?_, trivial⟩
    · simp [writeSection]
    · simp [htag]
    · rw [hflags]
      rfl
    · rw [hlength]
      exact hpayload
    · rw [List.append_assoc, List.take_left' htag]

/-! ## The section loop -/

theorem bytes_length (kind : SectionTag) : kind.bytes.length = 4 := by
  cases kind <;> rfl

theorem ofBytes_eq_some {tag : List UInt8} {kind : SectionTag} : SectionTag.ofBytes tag = some kind ↔
    tag = kind.bytes := by
  constructor
  · intro h
    have hfound := List.find?_some h
    exact (of_decide_eq_true hfound).symm
  · rintro rfl
    cases kind <;> decide

/-- The sections `order` filled the empty slots `slots` to `slots'`. -/
structure Filled (slots : Slots) (order : List SectionTag) (slots' : Slots) : Prop where
  nodup : order.Nodup
  empty : ∀ kind ∈ order, slots kind = none
  filled : ∀ kind ∈ order, ∃ payload, slots' kind = some payload ∧ payload.length ≤ maxSectionBytes
  kept : ∀ kind, kind ∉ order → slots' kind = slots kind

/-- The sections in order, with their payloads in the slots. -/
def sectionBytes (slots : Slots) (order : List SectionTag) : List UInt8 :=
  order.flatMap fun kind => writeSection kind.bytes ((slots kind).getD [])

theorem Filled.cons {slots slots' : Slots} {kind : SectionTag} {order : List SectionTag} {payload : List UInt8}
    (hempty : slots kind = none) (hpayload : payload.length ≤ maxSectionBytes)
    (h : Filled (Function.update slots kind (some payload)) order slots') :
    slots' kind = some payload ∧ Filled slots (kind :: order) slots' := by
  have hother : ∀ other ∈ order, other ≠ kind := by
    rintro other hmem rfl
    have := h.empty other hmem
    simp at this
  have hkind : slots' kind = some payload := by
    rw [h.kept kind fun hmem => hother kind hmem rfl, Function.update_self]
  refine ⟨hkind, List.nodup_cons.2 ⟨fun hmem => hother kind hmem rfl, h.nodup⟩, ?_, ?_, ?_⟩
  · intro other hmem
    rcases List.mem_cons.1 hmem with rfl | hmem
    · exact hempty
    · rw [← h.empty other hmem, Function.update_of_ne (hother other hmem)]
  · intro other hmem
    rcases List.mem_cons.1 hmem with rfl | hmem
    · exact ⟨payload, hkind, hpayload⟩
    · exact h.filled other hmem
  · intro other hmem
    obtain ⟨hne, hmem⟩ := not_or.1 (mt List.mem_cons.2 hmem)
    rw [h.kept other hmem, Function.update_of_ne hne]

theorem Filled.tail {slots slots' : Slots} {kind : SectionTag} {order : List SectionTag} {payload : List UInt8}
    (hpayload : slots' kind = some payload) (h : Filled slots (kind :: order) slots') :
    Filled (Function.update slots kind (some payload)) order slots' := by
  obtain ⟨hkind, hnodup⟩ := List.nodup_cons.1 h.nodup
  refine ⟨hnodup, fun other hmem => ?_, fun other hmem => h.filled other (List.mem_cons_of_mem kind hmem),
    fun other hmem => ?_⟩
  · have hne : other ≠ kind := by
      rintro rfl
      exact hkind hmem
    rw [Function.update_of_ne hne]
    exact h.empty other (List.mem_cons_of_mem kind hmem)
  · by_cases hother : other = kind
    · rw [hother, hpayload, Function.update_self]
    · rw [Function.update_of_ne hother, h.kept other fun hcons => (List.mem_cons.1 hcons).elim hother hmem]

/-- The words of `n` sections into empty slots. -/
def SectionsFormat (n : Nat) (slots : Slots) : Format Slots := fun bytes slots' =>
  ∃ order : List SectionTag, order.length = n ∧ Filled slots order slots' ∧ bytes = sectionBytes slots' order

/-- What one section leaves to be read, once its tag is known. -/
theorem slot_accepts {n : Nat} {slots : Slots} (ih : ∀ slots, Accepts (readSections n slots) (SectionsFormat n slots))
    (entry : List UInt8 × List UInt8) :
    Accepts (match SectionTag.ofBytes entry.1 with
      | none => throw "unknown checkpoint section"
      | some kind => do
        check (slots kind).isNone "duplicate checkpoint section"
        readSections n (Function.update slots kind (some entry.2)))
      fun bytes slots' => ∃ kind, entry.1 = kind.bytes ∧ slots kind = none ∧
        SectionsFormat n (Function.update slots kind (some entry.2)) bytes slots' := by
  cases htag : SectionTag.ofBytes entry.1 with
  | none =>
    refine (Accepts.fail _).congr fun bytes slots' => ⟨nofun, ?_⟩
    rintro ⟨kind, hkind, -⟩
    rw [ofBytes_eq_some.2 hkind] at htag
    cases htag
  | some kind =>
    have hbytes := ofBytes_eq_some.1 htag
    refine ((Accepts.check _ _).bind fun _ => ih _).congr fun bytes slots' => ?_
    rw [Format.bind_only, Option.isNone_iff_eq_none]
    constructor
    · rintro ⟨hempty, hrest⟩
      exact ⟨kind, hbytes, hempty, hrest⟩
    · rintro ⟨other, hother, hempty, hrest⟩
      rw [ofBytes_eq_some.2 hother] at htag
      cases htag
      exact ⟨hempty, hrest⟩

theorem readSections_accepts (n : Nat) (slots : Slots) : Accepts (readSections n slots) (SectionsFormat n slots) := by
  induction n generalizing slots with
  | zero =>
    refine (Accepts.pure slots).congr fun bytes slots' => ?_
    simp only [Format.only, SectionsFormat, List.length_eq_zero_iff]
    constructor
    · rintro ⟨rfl, rfl, -⟩
      exact ⟨[], rfl, ⟨List.nodup_nil, by simp, by simp, fun _ _ => rfl⟩, rfl⟩
    · rintro ⟨order, rfl, hfilled, rfl⟩
      exact ⟨rfl, funext fun kind => hfilled.kept kind (by simp), trivial⟩
  | succ n ih =>
    refine Accepts.congr (.bind readSection_accepts fun entry => slot_accepts ih entry) fun bytes slots' => ?_
    simp only [Format.bind_spelled, SectionsFormat]
    constructor
    · rintro ⟨⟨tag, payload⟩, _, rfl, hok, kind, rfl, hempty, order, rfl, hfilled, rfl⟩
      obtain ⟨hkind, hcons⟩ := hfilled.cons hempty hok.payload
      exact ⟨kind :: order, rfl, hcons, by simp [sectionBytes, hkind]⟩
    · rintro ⟨order, hlen, hfilled, rfl⟩
      cases order with
      | nil => simp at hlen
      | cons kind order =>
        obtain ⟨payload, hkind, hpayload⟩ := hfilled.filled kind List.mem_cons_self
        exact ⟨(kind.bytes, payload), sectionBytes slots' order, by simp [sectionBytes, hkind], ⟨bytes_length kind,
          hpayload⟩, kind, rfl, hfilled.empty kind List.mem_cons_self, order, by
            simpa using hlen, hfilled.tail hkind, rfl⟩

/-! ## The file -/

theorem eq_writeU32 {bytes : List UInt8} {v : UInt32} (hlen : bytes.length = 4) (hv : .ofNat (ofLeBytes bytes) = v) :
    bytes = writeU32 v := by
  have hlt : ofLeBytes bytes < 2 ^ 32 := by
    have := ofLeBytes_lt bytes
    rw [hlen] at this
    exact this
  rw [← hv, writeU32, UInt32.toNat_ofNat', Nat.mod_eq_of_lt hlt]
  exact eq_toLeBytes hlen rfl

theorem readHeader_accepts : Accepts readHeader (.spelled (fun _ => checkpointHeader) (· = sectionCount)) := by
  unfold readHeader
  refine Accepts.congr (.bind (readExact_accepts 16) fun header => .bind (.check _ _) fun _ =>
    .bind (.check _ _) fun _ =>
    .bind (.check _ _) fun _ => .pure _) fun bytes count => ?_
  simp only [Format.bind_spelled, Format.bind_only, Format.spelled, Format.only, decide_eq_true_eq, id_eq]
  constructor
  · rintro ⟨header, _, rfl, hlen, hmagic, hversion, hcount, rfl, rfl, -⟩
    have hsplit : header.take 8 ++ slice header 8 4 ++ slice header 12 4 = header := by
      rw [take_append_slice, take_append_slice, List.take_of_length_le (by omega)]
    refine ⟨?_, hcount⟩
    rw [checkpointHeader, ← hmagic, ← eq_writeU32 (length_slice (by omega)) hversion,
      ← eq_writeU32 (length_slice (by omega)) hcount, hsplit, List.append_nil]
  · rintro ⟨rfl, rfl⟩
    exact ⟨checkpointHeader, [], rfl, rfl, rfl, by decide, by decide, rfl, by decide, trivial⟩

theorem perm_all_of_nodup {order : List SectionTag} (hnodup : order.Nodup) (hlen : order.length = 5) :
    order.Perm SectionTag.all := by
  have hsub : order ⊆ SectionTag.all := fun kind _ => by cases kind <;> simp [SectionTag.all]
  exact (List.subperm_of_subset hnodup hsub).perm_of_length_le (by simp [hlen, SectionTag.all])

/-- What the section loop makes of a file. -/
def SlotsOf (slots : Slots) (file : List UInt8) : Prop :=
  (∀ kind, ∃ payload, slots kind = some payload ∧ payload.length ≤ maxSectionBytes) ∧
    ∃ order : List SectionTag, order.Perm SectionTag.all ∧ file = checkpointHeader ++ sectionBytes slots order

theorem readSlots_accepts : Accepts (readHeader >>= fun count => readSections count.toNat fun _ => none)
    fun file slots => SlotsOf slots file := by
  refine (readHeader_accepts.bind fun count => readSections_accepts count.toNat fun _ => none).congr
    fun file slots => ?_
  simp only [Format.bind_spelled, SectionsFormat, SlotsOf]
  constructor
  · rintro ⟨count, _, rfl, rfl, order, hlen, hfilled, rfl⟩
    have hperm := perm_all_of_nodup hfilled.nodup hlen
    refine ⟨fun kind => hfilled.filled kind (hperm.mem_iff.2 ?_), order, hperm, rfl⟩
    cases kind <;> simp [SectionTag.all]
  · rintro ⟨hslots, order, hperm, rfl⟩
    refine ⟨sectionCount, _, rfl, rfl, order, hperm.length_eq, ⟨hperm.nodup_iff.2 (by decide), fun _ _ => rfl,
      fun kind _ => hslots kind, fun kind hkind => absurd (hperm.mem_iff.2 ?_) hkind⟩, rfl⟩
    cases kind <;> simp [SectionTag.all]

theorem bind_eq_ok {α β : Type} {x : Except String α} {f : α → Except String β} {b : β} :
    x >>= f = .ok b ↔ ∃ a, x = .ok a ∧ f a = .ok b := by
  cases x with
  | error e => exact ⟨nofun, fun ⟨_, h, _⟩ => nomatch h⟩
  | ok a =>
    constructor
    · intro h
      exact ⟨a, rfl, h⟩
    · rintro ⟨_, ha, h⟩
      cases ha
      exact h

/-- A checkpoint that its file can hold: its counts and sections fit, and its RAM chunks are those of a RAM. -/
structure VmCheckpoint.Valid (c : VmCheckpoint) : Prop where
  chunks : ChunksFit c.ramLen 0 c.ramChunks
  chunkCount : c.ramChunks.length < 2 ^ 32
  vcpuCount : c.vcpus.length < 2 ^ 32
  counted : ∀ state ∈ c.vcpus, state.Counted
  sections : ∀ kind, (c.payload kind).length ≤ maxSectionBytes

theorem required_bind {α : Type} (payload : List UInt8) (error : String) (f : List UInt8 → Except String α) :
    required (some payload) error >>= f = f payload := rfl

theorem decodeSlots_eq_ok {slots : Slots} {c : VmCheckpoint}
    (h : ∀ kind, ∃ payload, slots kind = some payload ∧ payload.length ≤ maxSectionBytes) :
    decodeSlots slots = .ok c ↔ c.Valid ∧ ∀ kind, slots kind = some (c.payload kind) := by
  have hbound : maxSectionBytes < 2 ^ 64 := by decide
  obtain ⟨metaBytes, hmeta, hmetaLen⟩ := h .metadata
  obtain ⟨ram, hram, hramLen⟩ := h .ram
  obtain ⟨vcpu, hvcpu, hvcpuLen⟩ := h .vcpu
  obtain ⟨gic, hgic, hgicLen⟩ := h .gic
  obtain ⟨device, hdevice, hdeviceLen⟩ := h .device
  unfold decodeSlots
  rw [hmeta, hram, hvcpu, hgic, hdevice]
  simp only [required_bind, bind_eq_ok, decodeMeta_eq_ok (hmetaLen.trans_lt hbound),
    decodeRamChunks_eq_ok (hramLen.trans_lt hbound), decodeVcpus_eq_ok (hvcpuLen.trans_lt hbound)]
  constructor
  · rintro ⟨ramLen, rfl, ramChunks, ⟨rfl, hcount, hfit⟩, vcpus, ⟨rfl, hvcpus, hcounted⟩, hc⟩
    cases hc
    refine ⟨⟨hfit, hcount, hvcpus, hcounted, fun kind => ?_⟩, fun kind => ?_⟩
    · cases kind <;> assumption
    · cases kind <;> assumption
  · rintro ⟨hvalid, hslots⟩
    have hpayload : ∀ {kind payload}, slots kind = some payload → payload = c.payload kind := fun hsome =>
      Option.some.inj (hsome.symm.trans (hslots _))
    refine ⟨c.ramLen, hpayload hmeta, c.ramChunks, ⟨hpayload hram, hvalid.chunkCount, hvalid.chunks⟩, c.vcpus,
      ⟨hpayload hvcpu, hvalid.vcpuCount, hvalid.counted⟩, ?_⟩
    rw [hpayload hgic, hpayload hdevice]
    rfl

theorem sectionBytes_payload (c : VmCheckpoint) (order : List SectionTag) :
    checkpointHeader ++ sectionBytes (fun kind => some (c.payload kind)) order = c.fileInOrder order := rfl

theorem length_writeSection (kind : SectionTag) (payload : List UInt8) :
    (writeSection kind.bytes payload).length = 16 + payload.length := by
  simp [writeSection, bytes_length]
  omega

theorem VmCheckpoint.Valid.length_file {c : VmCheckpoint} (h : c.Valid) {order : List SectionTag}
    (hperm : order.Perm SectionTag.all) : (c.fileInOrder order).length < 2 ^ 64 := by
  have hsum := (hperm.flatMap_right fun kind => writeSection kind.bytes (c.payload kind)).length_eq
  have hbound : 96 + 5 * maxSectionBytes < 2 ^ 64 := by decide
  have hmeta := h.sections .metadata
  have hram := h.sections .ram
  have hvcpu := h.sections .vcpu
  have hgic := h.sections .gic
  have hdevice := h.sections .device
  have hheader : checkpointHeader.length = 16 := rfl
  rw [fileInOrder, List.length_append, hsum, hheader]
  simp only [SectionTag.all, List.flatMap_cons, List.flatMap_nil, List.length_append, length_writeSection,
    List.length_nil]
  omega

/-- Reading: a file holds a checkpoint exactly when the checkpoint is valid and the file is its sections in some
order. -/
theorem readFromPath_eq_ok {file : List UInt8} {c : VmCheckpoint} :
    readFromPath file = .ok c ↔
      c.Valid ∧ ∃ order : List SectionTag, order.Perm SectionTag.all ∧ file = c.fileInOrder order := by
  rw [readFromPath, bind_eq_ok]
  constructor
  · rintro ⟨slots, hslots, hdecode⟩
    obtain ⟨hfull, order, hperm, rfl⟩ := word_of_finishing readSlots_accepts hslots
    obtain ⟨hvalid, hpayload⟩ := (decodeSlots_eq_ok hfull).1 hdecode
    obtain rfl : slots = fun kind => some (c.payload kind) := funext hpayload
    exact ⟨hvalid, order, hperm, sectionBytes_payload c order⟩
  · rintro ⟨hvalid, order, hperm, rfl⟩
    have hfull : ∀ kind, ∃ payload, some (c.payload kind) = some payload ∧ payload.length ≤ maxSectionBytes :=
      fun kind => ⟨_, rfl, hvalid.sections kind⟩
    have hslots : SlotsOf (fun kind => some (c.payload kind)) (c.fileInOrder order) := ⟨hfull, order, hperm, rfl⟩
    exact ⟨_, finishing_of_word readSlots_accepts hslots (hvalid.length_file hperm),
      (decodeSlots_eq_ok hfull).2 ⟨hvalid, fun _ => rfl⟩⟩

/-! ## Files that are not read -/

/-- Sections one after the other. -/
def writeSections (entries : List (List UInt8 × List UInt8)) : List UInt8 :=
  entries.flatMap fun entry => writeSection entry.1 entry.2

/-- A tag is four bytes, and a length has 64 bits. -/
def Sized (entry : List UInt8 × List UInt8) : Prop := entry.1.length = 4 ∧ entry.2.length < 2 ^ 64

theorem writeSection_inj {e₁ e₂ : List UInt8 × List UInt8} {rest₁ rest₂ : List UInt8} (h₁ : Sized e₁)
    (h₂ : Sized e₂)
    (h : writeSection e₁.1 e₁.2 ++ rest₁ = writeSection e₂.1 e₂.2 ++ rest₂) : e₁ = e₂ ∧
    rest₁ = rest₂ := by
  simp only [writeSection, List.append_assoc] at h
  obtain ⟨htag, h⟩ := List.append_inj h (h₁.1.trans h₂.1.symm)
  obtain ⟨hlen, h⟩ := List.append_inj (List.append_cancel_left h) (by simp)
  have hlen : e₁.2.length = e₂.2.length := by
    have hdec := congrArg ofLeBytes hlen
    rw [writeU64, writeU64, ofLeBytes_toLeBytes, ofLeBytes_toLeBytes, UInt64.toNat_ofNat', UInt64.toNat_ofNat',
      Nat.mod_eq_of_lt h₁.2, Nat.mod_eq_of_lt h₂.2] at hdec
    exact (Nat.mod_eq_of_lt h₁.2).symm.trans (hdec.trans (Nat.mod_eq_of_lt h₂.2))
  obtain ⟨hpayload, hrest⟩ := List.append_inj h hlen
  exact ⟨Prod.ext htag hpayload, hrest⟩

theorem prefix_of_writeSections {entries all : List (List UInt8 × List UInt8)} {rest : List UInt8}
    (hentries : ∀ entry ∈ entries, Sized entry) (hall : ∀ entry ∈ all, Sized entry)
    (h : writeSections entries ++ rest = writeSections all) : ∃ others, all = entries ++ others ∧
    rest = writeSections others
    := by
  induction entries generalizing all with
  | nil => exact ⟨all, rfl, h⟩
  | cons entry entries ih =>
    cases all with
    | nil =>
      have hlen := congrArg List.length h
      simp [writeSections, writeSection] at hlen
    | cons first all =>
      simp only [writeSections, List.flatMap_cons, List.append_assoc] at h
      rw [List.forall_mem_cons] at hentries hall
      obtain ⟨rfl, hrest⟩ := writeSection_inj hentries.1 hall.1 h
      obtain ⟨others, rfl, hothers⟩ := ih hentries.2 hall.2 hrest
      exact ⟨others, rfl, hothers⟩

/-- The sections of a checkpoint in the given order. -/
def VmCheckpoint.entries (c : VmCheckpoint) (order : List SectionTag) : List (List UInt8 × List UInt8) :=
  order.map fun kind => (kind.bytes, c.payload kind)

theorem fileInOrder_eq (c : VmCheckpoint) (order : List SectionTag) :
    c.fileInOrder order = checkpointHeader ++ writeSections (c.entries order) := by
  rw [VmCheckpoint.fileInOrder, writeSections, VmCheckpoint.entries, List.flatMap_map]

theorem VmCheckpoint.Valid.sized {c : VmCheckpoint} (h : c.Valid) (order : List SectionTag) :
    ∀ entry ∈ c.entries order, Sized entry := by
  intro entry hentry
  obtain ⟨kind, -, rfl⟩ := List.mem_map.1 hentry
  have hbound : maxSectionBytes < 2 ^ 64 := by decide
  exact ⟨bytes_length kind, (h.sections kind).trans_lt hbound⟩

theorem sections_of_read {file rest : List UInt8} {c : VmCheckpoint} {entries : List (List UInt8 × List UInt8)}
    (hread : readFromPath file = .ok c) (hsized : ∀ entry ∈ entries, Sized entry)
    (hfile : file = checkpointHeader ++ (writeSections entries ++ rest)) :
    (entries.map Prod.fst).Nodup ∧ ∀ entry ∈ entries, ∃ kind : SectionTag,
    entry = (kind.bytes, c.payload kind) := by
  obtain ⟨hvalid, order, hperm, rfl⟩ := readFromPath_eq_ok.1 hread
  rw [fileInOrder_eq] at hfile
  obtain ⟨others, hothers, -⟩ := prefix_of_writeSections hsized (hvalid.sized order)
    (List.append_cancel_left hfile).symm
  have hnodup : ((c.entries order).map Prod.fst).Nodup := by
    have htags : (c.entries order).map Prod.fst = order.map SectionTag.bytes := by simp [VmCheckpoint.entries]
    rw [htags]
    exact (hperm.map SectionTag.bytes).nodup_iff.2 (by decide)
  rw [hothers, List.map_append] at hnodup
  refine ⟨(List.nodup_append.1 hnodup).1, fun entry hentry => ?_⟩
  have hmem : entry ∈ c.entries order := hothers ▸ List.mem_append_left others hentry
  obtain ⟨kind, -, rfl⟩ := List.mem_map.1 hmem
  exact ⟨kind, rfl⟩

theorem rest_of_read {file rest : List UInt8} {c c' : VmCheckpoint} (h : readFromPath file = .ok c)
    (h' : readFromPath (file ++ rest) = .ok c') : rest = [] := by
  obtain ⟨hvalid, order, hperm, rfl⟩ := readFromPath_eq_ok.1 h
  obtain ⟨hvalid', order', hperm', hfile⟩ := readFromPath_eq_ok.1 h'
  rw [fileInOrder_eq, fileInOrder_eq, List.append_assoc] at hfile
  obtain ⟨others, hothers, hrest⟩ := prefix_of_writeSections (hvalid.sized order) (hvalid'.sized order')
    (List.append_cancel_left hfile)
  have hlen := congrArg List.length hothers
  simp only [VmCheckpoint.entries, List.length_append, List.length_map, hperm.length_eq, hperm'.length_eq] at hlen
  have hnil : others = [] := List.length_eq_zero_iff.1 (by omega)
  rw [hrest, hnil]
  rfl

/-! ## The round trip -/

/-- A file is read as a checkpoint exactly when it is the five sections of a valid checkpoint, in any order; then it is
the file of no other checkpoint, no file that starts it or that it starts is read, and its sections have different known
tags. The checkpoint of any RAM has valid chunks, and these give the RAM back. -/
theorem checkpoint_file_round_trip (file : List UInt8) (c : VmCheckpoint) :
    (readFromPath file = .ok c ↔
      c.Valid ∧ ∃ order : List SectionTag, order.Perm SectionTag.all ∧ file = c.fileInOrder order) ∧
    (readFromPath file = .ok c →
      (∀ (c' : VmCheckpoint) (order : List SectionTag), c'.Valid → order.Perm SectionTag.all →
        file = c'.fileInOrder order → c' = c) ∧
      (∀ shorter rest c', file = shorter ++ rest → rest ≠ [] → readFromPath shorter ≠ .ok c') ∧
      (∀ rest c', rest ≠ [] → readFromPath (file ++ rest) ≠ .ok c') ∧
      (∀ entries rest, (∀ entry ∈ entries, Sized entry) →
        file = checkpointHeader ++ (writeSections entries ++ rest) →
        (entries.map Prod.fst).Nodup ∧ ∀ entry ∈ entries, ∃ kind : SectionTag, entry.1 = kind.bytes)) ∧
    (∀ vcpus ram gicState deviceState, ram.length < 2 ^ 64 → capture vcpus ram gicState deviceState = .ok c →
      ChunksFit c.ramLen 0 c.ramChunks ∧ ∀ old, old.length = ram.length →
      restoreSparseRam old c.ramChunks = .ok ram) := by
  refine ⟨readFromPath_eq_ok, fun hread => ⟨?_, ?_, ?_, ?_⟩, ?_⟩
  · rintro c' order hvalid' hperm' rfl
    have hread' : readFromPath (c'.fileInOrder order) = .ok c' := readFromPath_eq_ok.2 ⟨hvalid', order, hperm', rfl⟩
    rw [hread] at hread'
    exact (Except.ok.inj hread').symm
  · rintro shorter rest c' rfl hrest hshorter
    exact hrest (rest_of_read hshorter hread)
  · intro rest c' hrest hlonger
    exact hrest (rest_of_read hread hlonger)
  · intro entries rest hsized hfile
    obtain ⟨hnodup, hknown⟩ := sections_of_read hread hsized hfile
    refine ⟨hnodup, fun entry hentry => ?_⟩
    obtain ⟨kind, rfl⟩ := hknown entry hentry
    exact ⟨kind, rfl⟩
  · intro vcpus ram gicState deviceState hram hcapture
    unfold capture at hcapture
    split at hcapture
    · cases hcapture
    · cases hcapture
      exact ⟨sparseRamChunks_fit hram, fun old hold => restoreSparseRam_sparse hram hold⟩

def idleVcpu : VcpuRegisterBundle where
  x := Vector.replicate 31 0
  pc := 0
  fpcr := 0
  fpsr := 0
  cpsr := 0x3c5
  sysRegs := [(0xc080, 1)]
  simd := Vector.replicate 32 (Vector.replicate 16 0)
  gicIccRegs := [(0xc230, 0xf0)]
  vtimerOffset := 0
  vtimerMasked := true

/-- Two vCPUs, and a RAM of four bytes. -/
def twoVcpus : VmCheckpoint := ⟨4, sparseRamChunks [0, 7, 0, 9], [idleVcpu, { idleVcpu with pc := 4 }], [1], [2, 3]⟩

theorem twoVcpus_valid : twoVcpus.Valid where
  chunks := @sparseRamChunks_fit [0, 7, 0, 9] (by decide)
  chunkCount := by decide +kernel
  vcpuCount := by decide
  counted := by
    intro state hstate
    rcases List.mem_pair.1 hstate with rfl | rfl <;> exact ⟨by decide, by decide⟩
  sections := by
    intro kind
    cases kind <;> decide +kernel

/-- The sections of `twoVcpus` in another order. -/
theorem twoVcpus_read : readFromPath (twoVcpus.fileInOrder [.gic, .vcpu, .ram, .device, .metadata]) = .ok twoVcpus :=
  ((checkpoint_file_round_trip _ _).1).2 ⟨twoVcpus_valid, _, by decide, rfl⟩

/-- A chunk at an offset that is not a multiple of the chunk size. -/
def shiftedChunk : VmCheckpoint := ⟨16, [⟨1, [5]⟩], [], [], []⟩

/-- One byte more than a section may have. -/
def longDeviceState : VmCheckpoint := ⟨0, [], [idleVcpu], [], List.replicate (maxSectionBytes + 1) 0⟩

/-- Both checkpoints are written, and neither is read back. -/
theorem written_not_read : readFromPath shiftedChunk.writeTo = .error "invalid or overlapping sparse RAM chunk" ∧
    ∀ c, readFromPath longDeviceState.writeTo ≠ .ok c := by
  refine ⟨by decide +kernel, fun c hread => ?_⟩
  have hlong : (longDeviceState.payload .device).length = maxSectionBytes + 1 := List.length_replicate
  have hsized : ∀ entry ∈ longDeviceState.entries SectionTag.all, Sized entry := by
    intro entry hentry
    obtain ⟨kind, -, rfl⟩ := List.mem_map.1 hentry
    refine ⟨bytes_length kind, ?_⟩
    cases kind with
    | device =>
      rw [hlong]
      decide
    | metadata => decide +kernel
    | ram => decide +kernel
    | vcpu => decide +kernel
    | gic => decide +kernel
  have hfile : longDeviceState.writeTo =
      checkpointHeader ++ (writeSections (longDeviceState.entries SectionTag.all) ++ []) := by
    rw [List.append_nil, ← fileInOrder_eq, VmCheckpoint.writeTo]
  obtain ⟨-, hknown⟩ := sections_of_read hread hsized hfile
  obtain ⟨kind, hkind⟩ := hknown _ (List.mem_map_of_mem (by decide : SectionTag.device ∈ SectionTag.all))
  have hshort := (readFromPath_eq_ok.1 hread).1.sections kind
  rw [← (Prod.mk.inj hkind).2, hlong] at hshort
  omega

end BridgeVm.Checkpoint
