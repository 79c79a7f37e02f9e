import BridgeVm.MappedRam
import BridgeVm.Lib.Splice

/-!
# Reads from fragmented backing (`virtio_gpu/backing_copy_cursor.rs`, `virtio_gpu/backing_copy.rs`)

A range of the backing is located entry by entry, from where the last read began when that is not behind the range, and
then read piece by piece straight into the destination. `readFromBackingIntoFrom_eq` says what is left there: the bytes
of the leading pieces that are mapped, all of them when the read succeeds, whatever the cursor.
-/

namespace BridgeVm.VirtioGpu.Transfer

open Lib

/-- `BackingEntry`. -/
structure BackingEntry where
  addr : Nat
  len : Nat
deriving DecidableEq, Repr

/-- `BackingReadCursor`. -/
structure BackingReadCursor where
  index : Nat
  base : Nat

/-- `BackingReadCursor::default`. -/
def BackingReadCursor.default : BackingReadCursor := ⟨0, 0⟩

/-- How the first loop of `read_from_backing_into_from` ends: no such range, an empty one at `gpa`, or entries
`start..stop`. -/
inductive Located where
  | missing
  | empty (gpa : Nat)
  | covered (start startBase stop : Nat)

/-- The first loop, at entry `index` with the bytes before it in `base`. -/
def locate (offset len rangeEnd : Nat) : List BackingEntry → Nat → Nat → Option (Nat × Nat) → Located
  | [], _, _, _ => .missing
  | entry :: rest, index, base, startEntry =>
    match checkedAdd base entry.len with
    | none => .missing
    | some entryEnd =>
      if len = 0 ∧ base ≤ offset ∧ offset ≤ entryEnd then
        match checkedAdd entry.addr (offset - base) with
        | none => .missing
        | some gpa => .empty gpa
      else
        match (if startEntry = none ∧ base ≤ offset ∧
          offset < entryEnd then some (index, base) else startEntry) with
        | none => locate offset len rangeEnd rest (index + 1) entryEnd none
        | some (start, startBase) =>
          if rangeEnd ≤ entryEnd then .covered start startBase (index + 1)
          else locate offset len rangeEnd rest (index + 1) entryEnd (some (start, startBase))

/-- The second loop: the destination and whether all of it was read. -/
def readPieces (mem : GuestMemory) (offset rangeEnd : Nat) : List BackingEntry → Nat → Nat → List UInt8 →
    List UInt8 × Bool
  | [], _, copied, dst => (dst, decide (copied = dst.length))
  | entry :: rest, base, copied, dst =>
    match checkedAdd base entry.len with
    | none => (dst, false)
    | some entryEnd =>
      let logicalStart := max offset base
      let logicalEnd := min rangeEnd entryEnd
      if logicalStart < logicalEnd then
        let dstStart := logicalStart - offset
        let chunkLen := logicalEnd - logicalStart
        match checkedAdd entry.addr (logicalStart - base) with
        | none => (dst, false)
        | some gpa =>
          match mem.readBytes gpa chunkLen with
          | none => (dst, false)
          | some bytes => readPieces mem offset rangeEnd rest entryEnd (copied + chunkLen) (splice dst dstStart bytes)
      else readPieces mem offset rangeEnd rest entryEnd copied dst

/-- `read_from_backing_into_from`: the destination, whether all of it was read, and the cursor. -/
def readFromBackingIntoFrom (mem : GuestMemory) (backing : List BackingEntry) (offset : Nat) (dst : List UInt8)
    (cursor : BackingReadCursor) : (List UInt8 × Bool) × BackingReadCursor :=
  match checkedAdd offset dst.length with
  | none => ((dst, false), cursor)
  | some rangeEnd =>
    let reusable := !dst.isEmpty && decide (cursor.index ≤ backing.length) && decide (cursor.base ≤ offset)
    let (index, base) := if reusable then (cursor.index, cursor.base) else (0, 0)
    match locate offset dst.length rangeEnd (backing.drop index) index base none with
    | .missing => ((dst, false), cursor)
    | .empty gpa => ((dst, (mem.readBytes gpa 0).isSome), cursor)
    | .covered start startBase stop =>
      (readPieces mem offset rangeEnd ((backing.take stop).drop start) startBase 0 dst, ⟨start, startBase⟩)

/-- `read_from_backing_into`. -/
def readFromBackingInto (mem : GuestMemory) (backing : List BackingEntry) (offset : Nat) (dst : List UInt8) :
    List UInt8 × Bool :=
  (readFromBackingIntoFrom mem backing offset dst .default).1

/-! ## What a read leaves behind -/

/-- The entries as runs of guest memory. -/
def runsOf (backing : List BackingEntry) : List (Nat × Nat) := backing.map fun e => (e.addr, e.len)

/-- How much of a range is read before a piece that is not mapped; nothing of a range past the backing. -/
def readLead (mem : GuestMemory) (backing : List BackingEntry) (offset len : Nat) : Nat :=
  if offset + len ≤ runsLength (runsOf backing) then lead mem.readable (pieces (runsOf backing) offset len) else 0

/-- The guest bytes at `count` places of the backing. -/
def backingBytes (mem : GuestMemory) (backing : List BackingEntry) (offset count : Nat) : List UInt8 :=
  (((addresses (runsOf backing)).drop offset).take count).map mem.bytes

/-- The cursor stands at the beginning of an entry. -/
def BackingReadCursor.Valid (cursor : BackingReadCursor) (backing : List BackingEntry) : Prop :=
  cursor.base = runsLength (runsOf (backing.take cursor.index))

section Reads

variable {mem : GuestMemory} {backing es : List BackingEntry}
  {offset len rangeEnd index base start startBase copied : Nat}
  {dst : List UInt8} {cursor : BackingReadCursor}

@[simp] theorem runsOf_nil : runsOf [] = [] := rfl

@[simp] theorem runsOf_cons (e : BackingEntry) : runsOf (e :: es) = (e.addr, e.len) :: runsOf es := rfl

@[simp] theorem runsOf_append (xs ys : List BackingEntry) : runsOf (xs ++ ys) = runsOf xs ++ runsOf ys := by
  simp [runsOf]

/-- The first loop after it met the beginning of the range. -/
theorem locate_more (hlen : len ≠ 0) (hfit : base + runsLength (runsOf es) < 2 ^ 64) (hmore : base < rangeEnd) :
    (base + runsLength (runsOf es) < rangeEnd →
      locate offset len rangeEnd es index base (some (start, startBase)) = .missing) ∧
    (rangeEnd ≤ base + runsLength (runsOf es) →
      ∃ count, rangeEnd ≤ base + runsLength (runsOf (es.take count)) ∧
      locate offset len rangeEnd es index base (some (start, startBase)) = .covered start startBase
        (index + count)) := by
  induction es generalizing index base with
  | nil =>
    refine ⟨fun _ => rfl, fun h => ?_⟩
    rw [runsOf_nil, runsLength_nil] at h
    omega
  | cons e es ih =>
    rw [runsOf_cons, runsLength_cons] at hfit ⊢
    dsimp only at hfit ⊢
    have hstep : locate offset len rangeEnd (e :: es) index base (some (start, startBase)) =
        if rangeEnd ≤ base + e.len then .covered start startBase (index + 1)
        else locate offset len rangeEnd es (index + 1) (base + e.len) (some (start, startBase)) := by
      rw [locate, checkedAdd_of_lt (by omega)]
      simp [hlen]
    rw [hstep]
    by_cases hdone : rangeEnd ≤ base + e.len
    · rw [if_pos hdone]
      exact ⟨fun h => by omega, fun _ => ⟨1, by simpa using hdone, rfl⟩⟩
    · rw [if_neg hdone]
      have hnext : base + e.len + runsLength (runsOf es) < 2 ^ 64 := by omega
      obtain ⟨hmissing, hcovered⟩ := @ih (index + 1) (base + e.len) hnext (by omega)
      refine ⟨fun h => hmissing (by omega), fun h => ?_⟩
      obtain ⟨count, hend, hlocate⟩ := hcovered (by omega)
      refine ⟨count + 1, ?_, ?_⟩
      · rw [List.take_succ_cons, runsOf_cons, runsLength_cons]
        dsimp only
        omega
      · rw [hlocate]
        congr 1
        omega

/-- **The first loop finds every range of the backing.** -/
theorem locate_spec (hlen : len ≠ 0) (hend : rangeEnd = offset + len) (hfit : base + runsLength (runsOf es) < 2 ^ 64)
    (hbase : base ≤ offset) :
    (base + runsLength (runsOf es) < rangeEnd → locate offset len rangeEnd es index base none = .missing) ∧
    (rangeEnd ≤ base + runsLength (runsOf es) → ∃ skip count, skip ≤ count ∧
      base + runsLength (runsOf (es.take skip)) ≤ offset ∧
      rangeEnd ≤ base + runsLength (runsOf (es.take count)) ∧
      locate offset len rangeEnd es index base none =
        .covered (index + skip) (base + runsLength (runsOf (es.take skip))) (index + count)) := by
  induction es generalizing index base with
  | nil =>
    refine ⟨fun _ => rfl, fun h => ?_⟩
    rw [runsOf_nil, runsLength_nil] at h
    omega
  | cons e es ih =>
    rw [runsOf_cons, runsLength_cons] at hfit ⊢
    dsimp only at hfit ⊢
    have hnext : base + e.len + runsLength (runsOf es) < 2 ^ 64 := by omega
    by_cases hhere : offset < base + e.len
    · -- the range begins in this entry
      have hstep : locate offset len rangeEnd (e :: es) index base none =
          if rangeEnd ≤ base + e.len then .covered index base (index + 1)
          else locate offset len rangeEnd es (index + 1) (base + e.len) (some (index, base)) := by
        rw [locate, checkedAdd_of_lt (by omega)]
        simp [hlen, hbase, hhere]
      rw [hstep]
      by_cases hdone : rangeEnd ≤ base + e.len
      · rw [if_pos hdone]
        exact ⟨fun h => by omega, fun _ =>
          ⟨0, 1, by omega, by simpa using hbase, by simpa using hdone, by simp⟩⟩
      · rw [if_neg hdone]
        have hmore : base + e.len < rangeEnd := by omega
        obtain ⟨hmissing, hcovered⟩ :
            (_ → locate offset len rangeEnd es (index + 1) (base + e.len) (some (index, base)) = _) ∧ _ :=
          locate_more hlen hnext hmore
        refine ⟨fun h => hmissing (by omega), fun h => ?_⟩
        obtain ⟨count, hcount, hlocate⟩ := hcovered (by omega)
        refine ⟨0, count + 1, by omega, by simpa using hbase, ?_, ?_⟩
        · rw [List.take_succ_cons, runsOf_cons, runsLength_cons]
          dsimp only
          omega
        · rw [hlocate]
          simp only [List.take_zero, runsOf_nil, runsLength_nil, Nat.add_zero]
          congr 1
          omega
    · have hstep : locate offset len rangeEnd (e :: es) index base none =
          locate offset len rangeEnd es (index + 1) (base + e.len) none := by
        rw [locate, checkedAdd_of_lt (by omega)]
        simp [hlen, hhere]
      rw [hstep]
      obtain ⟨hmissing, hcovered⟩ := @ih (index + 1) (base + e.len) hnext (by omega)
      refine ⟨fun h => hmissing (by omega), fun h => ?_⟩
      obtain ⟨skip, count, hle, hskip, hcount, hlocate⟩ := hcovered (by omega)
      refine ⟨skip + 1, count + 1, by omega, ?_, ?_, ?_⟩
      · rw [List.take_succ_cons, runsOf_cons, runsLength_cons]
        dsimp only
        omega
      · rw [List.take_succ_cons, runsOf_cons, runsLength_cons]
        dsimp only
        omega
      · rw [hlocate, List.take_succ_cons, runsOf_cons, runsLength_cons]
        dsimp only
        congr 1 <;> omega

theorem readable_addr (hmem : mem.Bytewise) {gpa : Nat} (hlen : 0 < len) (h : mem.readable gpa len = true) :
    gpa < 2 ^ 64 :=
  hmem.below ((hmem.read hlen).mp h gpa (List.mem_range'_1.mpr ⟨Nat.le_refl gpa, by omega⟩))

theorem piece_place {next chunkLen dstLen : Nat} (hend : rangeEnd = offset + dstLen)
    (hsome : max offset base < min rangeEnd next) (hcopied : copied = min (max offset base) rangeEnd - offset)
    (hchunk : chunkLen = min rangeEnd next - max offset base) :
    copied + (rangeEnd - max offset base) = dstLen ∧ chunkLen ≤ rangeEnd - max offset base ∧
      rangeEnd - max offset next = rangeEnd - max offset base - chunkLen ∧
      copied + chunkLen = min (max offset next) rangeEnd - offset := by
  have hlow : min (max offset base) rangeEnd = max offset base := by omega
  rw [hlow] at hcopied
  refine ⟨by omega, by omega, by omega, ?_⟩
  have hhigh : min (max offset next) rangeEnd = min rangeEnd next := by omega
  rw [hhigh]
  omega

theorem lead_pieces_le (readable : Nat → Nat → Bool) (runs : List (Nat × Nat)) (skip n : Nat) :
    lead readable (pieces runs skip n) ≤ n := by
  refine Nat.le_trans (lead_le _ _) ?_
  rw [← length_addresses, addresses_pieces]
  exact List.length_take_le _ _

theorem pieces_beside {e : BackingEntry} (hnone : ¬max offset base < min rangeEnd (base + e.len)) :
    pieces (runsOf (e :: es)) (offset - base) (rangeEnd - max offset base) =
      pieces (runsOf es) (offset - (base + e.len)) (rangeEnd - max offset (base + e.len)) := by
  rw [runsOf_cons, pieces]
  dsimp only
  by_cases hdone : rangeEnd - max offset base = 0
  · have hafter : rangeEnd - max offset (base + e.len) = 0 := by omega
    rw [if_pos hdone, hafter, pieces_zero]
  · have hbefore : e.len ≤ offset - base := by omega
    have hoff : offset - base - e.len = offset - (base + e.len) := by omega
    have hmax : max offset base = max offset (base + e.len) := by omega
    rw [if_neg hdone, if_pos hbefore, hoff, hmax]

theorem splice_piece {more : List (Nat × Nat)} {gpa chunkLen room : Nat} (hwithin : chunkLen ≤ room)
    (hroom : copied + room = dst.length) (hfits : lead mem.readable more ≤ room - chunkLen) :
    splice (splice dst copied ((List.range' gpa chunkLen).map mem.bytes)) (copied + chunkLen)
        (((addresses more).take (lead mem.readable more)).map mem.bytes) =
      splice dst copied
        (((List.range' gpa chunkLen ++ addresses more).take (chunkLen + lead mem.readable more)).map mem.bytes) := by
  have hlen : ((List.range' gpa chunkLen).map mem.bytes).length = chunkLen := by simp
  have hlead : copied + ((List.range' gpa chunkLen).map mem.bytes).length +
      (((addresses more).take (lead mem.readable more)).map mem.bytes).length ≤ dst.length := by
    rw [hlen, List.length_map, List.length_take, ← hroom, Nat.add_assoc]
    refine Nat.add_le_add_left ?_ copied
    calc chunkLen + min (lead mem.readable more) (addresses more).length
        ≤ chunkLen + (room - chunkLen) := Nat.add_le_add_left ((Nat.min_le_left _ _).trans hfits) chunkLen
      _ = room := Nat.add_sub_of_le hwithin
  have hsplice := splice_splice hlead
  rw [hlen] at hsplice
  have hkeep : (List.range' gpa chunkLen).take (chunkLen + lead mem.readable more) = List.range' gpa chunkLen :=
    List.take_of_length_le (by rw [List.length_range']; omega)
  rw [hsplice, List.take_append, List.length_range', Nat.add_sub_cancel_left, hkeep, List.map_append]

/-- **The second loop reads the leading pieces that are mapped.** -/
theorem readPieces_spec (hmem : mem.Bytewise) (hend : rangeEnd = offset + dst.length)
    (hfit : base + runsLength (runsOf es) < 2 ^ 64) (hcover : rangeEnd ≤ base + runsLength (runsOf es))
    (hcopied : copied = min (max offset base) rangeEnd - offset) {ps : List (Nat × Nat)}
    (hps : ps = pieces (runsOf es) (offset - base) (rangeEnd - max offset base)) :
    readPieces mem offset rangeEnd es base copied dst =
      (splice dst copied (((addresses ps).take (lead mem.readable ps)).map mem.bytes),
        decide (copied + lead mem.readable ps = dst.length)) := by
  induction es generalizing base copied dst ps with
  | nil =>
    obtain rfl : ps = [] := hps
    rw [readPieces, addresses_nil, lead_nil, List.take_nil, List.map_nil, splice_nil, Nat.add_zero]
  | cons e es ih =>
    rw [runsOf_cons, runsLength_cons] at hfit hcover
    dsimp only at hfit hcover
    rw [readPieces, checkedAdd_of_lt (by omega)]
    dsimp only
    by_cases hsome : max offset base < min rangeEnd (base + e.len)
    · -- a piece of the range is in this entry
      rw [if_pos hsome]
      rw [runsOf_cons, pieces] at hps
      dsimp only at hps
      rw [if_neg (by omega), if_neg (by omega)] at hps
      obtain ⟨gpa, hgpa⟩ : ∃ gpa, gpa = e.addr + (offset - base) := ⟨_, rfl⟩
      obtain ⟨chunkLen, hchunk⟩ : ∃ chunkLen, chunkLen = min rangeEnd (base + e.len) - max offset base :=
        ⟨_, rfl⟩
      have hstart : max offset base - base = offset - base := by omega
      have hpiece : min (e.len - (offset - base)) (rangeEnd - max offset base) = chunkLen := by omega
      have hpos : 0 < chunkLen := by omega
      have hplace : max offset base - offset = copied := by omega
      have hoff : offset - (base + e.len) = 0 := by omega
      obtain ⟨hroom, hwithin, hrest, hcopied'⟩ := piece_place hend hsome hcopied hchunk
      rw [hpiece, ← hgpa] at hps
      rw [hstart, ← hchunk, hplace]
      subst hps
      rw [lead_cons, addresses_cons]
      dsimp only
      by_cases hread : mem.readable gpa chunkLen = true
      · have hchecked : checkedAdd e.addr (offset - base) = some gpa := by
          have hlt := readable_addr hmem hpos hread
          rw [checkedAdd_of_lt (by omega), hgpa]
        have hbytes : mem.readBytes gpa chunkLen = some ((List.range' gpa chunkLen).map mem.bytes) := by
          rw [GuestMemory.readBytes, if_pos hread, span_eq_map]
        rw [hchecked]
        dsimp only
        rw [hbytes]
        dsimp only
        have hnext : base + e.len + runsLength (runsOf es) < 2 ^ 64 := by omega
        have hdst : (splice dst copied ((List.range' gpa chunkLen).map mem.bytes)).length = dst.length :=
          length_splice
            (by rw [List.length_map, List.length_range', ← hroom]; exact Nat.add_le_add_left hwithin copied)
        obtain ⟨more, hmore⟩ : ∃ more, more = pieces (runsOf es) 0 (rangeEnd - max offset base - chunkLen) :=
          ⟨_, rfl⟩
        have hend' : rangeEnd = offset + (splice dst copied ((List.range' gpa chunkLen).map mem.bytes)).length := by
          rw [hdst]
          exact hend
        have hcover' : rangeEnd ≤ base + e.len + runsLength (runsOf es) := by omega
        have hps' : more = pieces (runsOf es) (offset - (base + e.len)) (rangeEnd - max offset (base + e.len)) := by
          rw [hoff, hrest, hmore]
        have hfits : lead mem.readable more ≤ rangeEnd - max offset base - chunkLen := by
          rw [hmore]
          exact lead_pieces_le ..
        rw [ih hend' hnext hcover' hcopied' hps', splice_piece hwithin hroom hfits, hdst, if_pos hread, ← hmore,
          Nat.add_assoc]
      · have hnone : mem.readBytes gpa chunkLen = none := by
          rw [GuestMemory.readBytes, if_neg hread]
        rw [if_neg hread, List.take_zero, List.map_nil, splice_nil, Nat.add_zero]
        have hpart : copied ≠ dst.length := by
          rw [← hroom]
          exact (Nat.lt_add_of_pos_right (Nat.lt_of_lt_of_le hpos hwithin)).ne
        cases hchecked : checkedAdd e.addr (offset - base) with
        | none => simp [hpart]
        | some address =>
          obtain rfl : address = gpa := by rw [checkedAdd_some hchecked, hgpa]
          dsimp only
          rw [hnone]
          simp [hpart]
    · rw [if_neg hsome]
      have hnext : base + e.len + runsLength (runsOf es) < 2 ^ 64 := by omega
      exact ih hend hnext (by omega) (by omega) (hps.trans (pieces_beside hsome))

theorem readLead_le (mem : GuestMemory) (backing : List BackingEntry) (offset len : Nat) :
    readLead mem backing offset len ≤ len := by
  unfold readLead
  split
  · exact lead_pieces_le ..
  · exact Nat.zero_le len

theorem pieces_within {before inside after : List BackingEntry} (hstart : runsLength (runsOf before) ≤ offset)
    (hstop : offset + len ≤ runsLength (runsOf before) + runsLength (runsOf inside)) :
    pieces (runsOf (before ++ inside ++ after)) offset len =
      pieces (runsOf inside) (offset - runsLength (runsOf before))
        (offset + len - max offset (runsLength (runsOf before))) := by
  have hmax : offset + len - max offset (runsLength (runsOf before)) = len := by omega
  have hoff : offset = runsLength (runsOf before) + (offset - runsLength (runsOf before)) := by omega
  rw [hmax]
  conv_lhs => rw [hoff]
  rw [runsOf_append, runsOf_append, List.append_assoc, pieces_skip, pieces_append (by omega)]

/-- **What a read leaves behind, whatever the cursor**: the leading pieces that are mapped, and success when they are
the range. -/
theorem readFromBackingIntoFrom_eq (hmem : mem.Bytewise) (hfit : runsLength (runsOf backing) < 2 ^ 64)
    (hcursor : cursor.Valid backing) (hdst : dst ≠ []) :
    (readFromBackingIntoFrom mem backing offset dst cursor).1 =
      (splice dst 0 (backingBytes mem backing offset (readLead mem backing offset dst.length)),
        decide (readLead mem backing offset dst.length = dst.length)) ∧
    (readFromBackingIntoFrom mem backing offset dst cursor).2.Valid backing := by
  have hlen : dst.length ≠ 0 := fun h => hdst (List.length_eq_zero_iff.mp h)
  unfold readFromBackingIntoFrom
  have hpast : ¬offset + dst.length ≤ runsLength (runsOf backing) →
      (splice dst 0 (backingBytes mem backing offset (readLead mem backing offset dst.length)),
        decide (readLead mem backing offset dst.length = dst.length)) = (dst, false) := by
    intro h
    have hlead : readLead mem backing offset dst.length = 0 := if_neg h
    rw [hlead, backingBytes, List.take_zero, List.map_nil, splice_nil, Prod.mk.injEq]
    exact ⟨rfl, decide_eq_false fun h => hlen h.symm⟩
  cases hchecked : checkedAdd offset dst.length with
  | none =>
    have hwrap : ¬offset + dst.length < 2 ^ 64 := by
      intro h
      rw [checkedAdd_of_lt h] at hchecked
      cases hchecked
    exact ⟨(hpast (by omega)).symm, hcursor⟩
  | some rangeEnd =>
    obtain rfl := checkedAdd_some hchecked
    dsimp only
    -- wherever the first loop begins, it is at the beginning of an entry that is not behind the range
    obtain ⟨index, hindex⟩ : ∃ index,
      (if !dst.isEmpty && decide (cursor.index ≤ backing.length) && decide (cursor.base ≤ offset)
        then (cursor.index, cursor.base) else (0, 0)) = (index, runsLength (runsOf (backing.take index))) ∧
          runsLength (runsOf (backing.take index)) ≤ offset := by
      split
      · rename_i hreuse
        simp only [Bool.and_eq_true, decide_eq_true_eq] at hreuse
        refine ⟨cursor.index, by rw [← hcursor], ?_⟩
        rw [← hcursor]
        exact hreuse.2
      · exact ⟨0, rfl, Nat.zero_le _⟩
    rw [hindex.1]
    dsimp only
    have htotal : runsLength (runsOf (backing.take index)) + runsLength (runsOf (backing.drop index)) =
        runsLength (runsOf backing) := by
      rw [← runsLength_append, ← runsOf_append, List.take_append_drop]
    have hrest : runsLength (runsOf (backing.take index)) + runsLength (runsOf (backing.drop index)) < 2 ^ 64 := by
      omega
    obtain ⟨hmissing, hcovered⟩ : (_ →
      locate offset dst.length (offset + dst.length) (backing.drop index) index _ none = _) ∧ _ :=
      locate_spec hlen rfl hrest hindex.2
    by_cases hin : offset + dst.length ≤ runsLength (runsOf backing)
    · obtain ⟨skip, count, hle, hstart, hstop, hlocate⟩ := hcovered (by omega)
      have hsums : ∀ n, runsLength (runsOf (backing.take index)) + runsLength (runsOf ((backing.drop index).take n)) =
          runsLength (runsOf (backing.take (index + n))) := by
        intro n
        rw [← runsLength_append, ← runsOf_append, List.take_add]
      rw [hsums] at hstart hstop hlocate
      rw [hlocate]
      refine ⟨?_, rfl⟩
      obtain ⟨before, hbefore⟩ : ∃ before, before = backing.take (index + skip) := ⟨_, rfl⟩
      obtain ⟨inside, hinside⟩ : ∃ inside, inside = (backing.take (index + count)).drop (index + skip) :=
        ⟨_, rfl⟩
      have hjoin : backing.take (index + count) = before ++ inside := by
        rw [hbefore, hinside]
        have htake : backing.take (index + skip) = (backing.take (index + count)).take (index + skip) := by
          rw [List.take_take, Nat.min_eq_left (by omega)]
        rw [htake, List.take_append_drop]
      have hsplit : backing = before ++ inside ++ backing.drop (index + count) := by
        rw [← hjoin, List.take_append_drop]
      rw [hjoin, runsOf_append, runsLength_append] at hstop
      rw [← hbefore] at hstart
      have hwhole := congrArg (fun es => runsLength (runsOf es)) hsplit
      simp only [runsOf_append, runsLength_append] at hwhole
      have hps : pieces (runsOf backing) offset dst.length =
          pieces (runsOf inside) (offset - runsLength (runsOf before))
            (offset + dst.length - max offset (runsLength (runsOf before))) := by
        conv_lhs => rw [hsplit]
        exact pieces_within hstart hstop
      have hinner : runsLength (runsOf before) + runsLength (runsOf inside) < 2 ^ 64 := by omega
      have hnothing : 0 = min (max offset (runsLength (runsOf before))) (offset + dst.length) - offset := by omega
      have hspec := readPieces_spec hmem rfl hinner hstop hnothing hps
      dsimp only
      rw [← hinside, ← hbefore, hspec, addresses_pieces, List.take_take, Nat.zero_add]
      have hlead : readLead mem backing offset dst.length =
        lead mem.readable (pieces (runsOf backing) offset dst.length) := if_pos hin
      rw [hlead, backingBytes]
      have hfits : lead mem.readable (pieces (runsOf backing) offset dst.length) ≤ dst.length := by
        rw [← hlead]
        exact readLead_le mem backing offset dst.length
      rw [Nat.min_eq_left hfits]
    · rw [hmissing (by omega)]
      exact ⟨(hpast hin).symm, hcursor⟩

/-- **A range is read to its end when each of its bytes is mapped.** -/
theorem readLead_eq_iff (hmem : mem.Bytewise) (hlen : 0 < len) :
    readLead mem backing offset len = len ↔ (logicalBytes mem (runsOf backing) offset len).isSome = true := by
  unfold readLead
  by_cases hin : offset + len ≤ runsLength (runsOf backing)
  · rw [if_pos hin, logicalBytes_inside hin, ← addresses_pieces]
    have htotal : runsLength (pieces (runsOf backing) offset len) = len := by
      rw [← length_addresses, addresses_pieces, List.length_take, List.length_drop, length_addresses]
      omega
    conv_lhs => rhs; rw [← htotal]
    rw [lead_eq_iff fun r hr => pieces_pos hr]
    constructor
    · intro hall
      rw [mapM_byteAt fun a ha => ?_]
      · rfl
      · obtain ⟨r, hr, hrange⟩ := mem_addresses.mp ha
        exact (hmem.read (pieces_pos hr)).mp (hall r hr) a (List.mem_range'_1.mpr hrange)
    · intro hsome r hr
      obtain ⟨data, hdata⟩ := Option.isSome_iff_exists.mp hsome
      refine (hmem.read (pieces_pos hr)).mpr fun a ha => readable_of_mapM hdata a (mem_addresses.mpr ⟨r, hr, ?_⟩)
      exact List.mem_range'_1.mp ha
  · rw [if_neg hin, logicalBytes_past hlen hin]
    simp only [Option.isSome_none, Bool.false_eq_true, iff_false]
    omega

/-- What was read before a piece that is not mapped are mapped bytes. -/
theorem logicalByte_lead (hmem : mem.Bytewise) {j : Nat} (hj : j < readLead mem backing offset len) :
    (backingBytes mem backing offset (readLead mem backing offset len))[j]? = logicalByte mem (runsOf backing)
      (offset + j) := by
  have hle := readLead_le mem backing offset len
  obtain ⟨hin, hlead⟩ : offset + len ≤ runsLength (runsOf backing) ∧
      readLead mem backing offset len = lead mem.readable (pieces (runsOf backing) offset len) := by
    unfold readLead at hj ⊢
    split at hj
    · rename_i hin
      exact ⟨hin, if_pos hin⟩
    · omega
  have hplace : offset + j < (addresses (runsOf backing)).length := by
    rw [length_addresses]
    omega
  unfold backingBytes logicalByte
  rw [List.getElem?_map, List.getElem?_take_of_lt hj, List.getElem?_drop, List.getElem?_eq_getElem hplace,
    Option.map_some,
    Option.bind_some]
  have hmember : (addresses (runsOf backing))[offset + j] ∈
      (addresses (pieces (runsOf backing) offset len)).take
        (lead mem.readable (pieces (runsOf backing) offset len)) := by
    rw [← hlead, addresses_pieces, List.take_take, Nat.min_eq_left hle]
    refine List.mem_of_getElem? (i := j) ?_
    rw [List.getElem?_take_of_lt hj, List.getElem?_drop, List.getElem?_eq_getElem hplace]
  obtain ⟨r, hr, hok, hrange⟩ := mem_take_lead hmember
  have hmapped := (hmem.read (pieces_pos hr)).mp hok _ (List.mem_range'_1.mpr hrange)
  exact (if_pos hmapped).symm

theorem default_valid (backing : List BackingEntry) : BackingReadCursor.default.Valid backing := rfl

/-- **A small read** succeeds when each byte is mapped, and then has the bytes. -/
theorem readFromBackingInto_eq (hmem : mem.Bytewise) (hfit : runsLength (runsOf backing) < 2 ^ 64) (hdst : dst ≠ []) :
    match logicalBytes mem (runsOf backing) offset dst.length with
    | some data => readFromBackingInto mem backing offset dst = (data, true)
    | none => (readFromBackingInto mem backing offset dst).2 = false := by
  have hlen : 0 < dst.length := List.length_pos_iff.mpr hdst
  have hread : (readFromBackingIntoFrom mem backing offset dst .default).1 = _ :=
    (readFromBackingIntoFrom_eq hmem hfit (default_valid backing) hdst).1
  have hlead : readLead mem backing offset dst.length = dst.length ↔ _ := readLead_eq_iff hmem hlen
  unfold readFromBackingInto
  rw [hread]
  cases hdata : logicalBytes mem (runsOf backing) offset dst.length with
  | some data =>
    obtain ⟨hbytes, hcount⟩ := logicalBytes_eq hlen hdata
    have hall : readLead mem backing offset dst.length = dst.length := by
      rw [hlead, hdata]
      rfl
    dsimp only
    rw [hall, backingBytes, ← hbytes, splice_all hcount, decide_eq_true rfl]
  | none =>
    have hpart : ¬readLead mem backing offset dst.length = dst.length := by
      rw [hlead, hdata]
      simp
    exact decide_eq_false hpart

end Reads

end BridgeVm.VirtioGpu.Transfer
