import BridgeVm.FwCfg.Device
import BridgeVm.MappedRam

/-!
# A DMA command is a run of the data register (`fwcfg.rs`)

Many reads of the data register are one read of the padded rest of the item (`readData_eq`), and so are the rounds of a
DMA read (`dmaReadIntoGuest_spec`). A command that fails leaves the items as they were; a read that fails has moved a
first part of its bytes.
-/

namespace BridgeVm.FwCfg

open Lib

/-! ## What a command is to do -/

section Spec

/-- The item with bytes stored from a place on, as far as it reaches. -/
def Entry.store (entry : Entry) (offset : Nat) (bytes : List UInt8) : Entry where
  data := splice entry.data offset (bytes.take (entry.data.length - offset))
  writable := entry.writable
  fits := by
    refine lt_of_eq_of_lt ?_ entry.fits
    by_cases h : offset ≤ entry.data.length
    · refine length_splice ?_
      rw [List.length_take]
      omega
    · rw [Nat.sub_eq_zero_of_le (by omega), List.take_zero, splice_nil]

/-- The guest addresses of the buffer of a command. -/
def buffer (access : FwCfgDmaAccess) : List Nat := List.range' access.address.toNat access.length.toNat

/-- What a command does once its item is selected, by reads of the data register. -/
inductive DataPort (fw : FwCfg) (mem : GuestMemory) (access : FwCfgDmaAccess) : FwCfg × GuestMemory × UInt32 → Prop
  | read (hread : access.has dmaCtlRead) (hbacked : ∀ a ∈ buffer access, mem.writable a 1 = true) :
    DataPort fw mem access ((readData access.length.toNat fw).1,
      mem.store access.address.toNat (readData access.length.toNat fw).2, 0)
  /-- A first part of the bytes is stored, up to a chunk that the memory refuses or to the end of the addresses; the
  cursor has also passed what was refused. -/
  | readStopped (taken refused : Nat) (hread : access.has dmaCtlRead) (hle : taken + refused ≤ access.length.toNat)
      (hbacked : ∀ a ∈ (buffer access).take taken, mem.writable a 1 = true)
      (hrefused : (∃ a ∈ ((buffer access).drop taken).take refused, mem.writable a 1 = false) ∨
        refused = 0 ∧ taken < access.length.toNat ∧ 2 ^ 64 ≤ access.address.toNat + taken) :
    DataPort fw mem access ((readData (taken + refused) fw).1,
      mem.store access.address.toNat ((readData access.length.toNat fw).2.take taken), dmaCtlError)
  | write (entry : Entry) (hread : ¬access.has dmaCtlRead) (hwrite : access.has dmaCtlWrite)
      (hentry : fw.current = some entry) (hwritable : entry.writable = true)
      (hbacked : ∀ a ∈ buffer access, mem.readable a 1 = true)
      (hfit : access.address.toNat + access.length.toNat < 2 ^ 64) :
    DataPort fw mem access ({ (readData access.length.toNat fw).1 with
      entries := fw.entries.modify fw.selector fun entry =>
        entry.store fw.offset.toNat (mem.span access.address.toNat access.length.toNat) }, mem, 0)
  | writeRefused (hread : ¬access.has dmaCtlRead) (hwrite : access.has dmaCtlWrite)
      (hrefused : (∀ entry, fw.current = some entry → entry.writable = false) ∨
        (∃ a ∈ buffer access, mem.readable a 1 = false) ∨ 2 ^ 64 ≤ access.address.toNat + access.length.toNat) :
    DataPort fw mem access (fw, mem, dmaCtlError)
  | skip (hread : ¬access.has dmaCtlRead) (hwrite : ¬access.has dmaCtlWrite) (hskip : access.has dmaCtlSkip) :
    DataPort fw mem access ((readData access.length.toNat fw).1, mem, 0)
  | nothing (hread : ¬access.has dmaCtlRead) (hwrite : ¬access.has dmaCtlWrite) (hskip : ¬access.has dmaCtlSkip) :
    DataPort fw mem access (fw, mem, 0)

/-- The item that the command selects, or the one selected before. -/
def selected (fw : FwCfg) (access : FwCfgDmaAccess) : FwCfg :=
  if access.has dmaCtlSelect then fw.select (access.control >>> 16).toUInt16 else fw

/-- A command is a run of the data register; where it reports an error the items are as before, and the guest memory
outside its buffer. -/
structure Command (fw : FwCfg) (mem : GuestMemory) (access : FwCfgDmaAccess) (out : FwCfg × GuestMemory × UInt32) :
    Prop where
  port : DataPort (fw.selected access) mem access out
  items : out.2.2 ≠ 0 → out.1.entries = fw.entries
  outside : ∀ a, a ∉ buffer access → out.2.1.bytes a = mem.bytes a

/-- A guest access to the register window. -/
inductive Access
  | read (offset : UInt64) (size : UInt8)
  | write (offset value : UInt64)

def step (s : FwCfg × GuestMemory) : Access → FwCfg × GuestMemory
  | .read offset size => ((s.1.mmioRead offset size).1, s.2)
  | .write offset value => s.1.mmioWrite offset value s.2

/-- One access, with its DMA command carried out over the data register. -/
inductive PortStep (s : FwCfg × GuestMemory) : Access → FwCfg × GuestMemory → Prop
  | data (size : UInt8) : PortStep s (.read regData size) ((readData size.toNat s.1).1, s.2)
  | select (value : UInt64) : PortStep s (.write regSelector value) (s.1.select (UInt16.ofNat (swapBytes 2 value)), s.2)
  | noCommand (value : UInt64) (h : s.2.readBytes (UInt64.ofNat (swapBytes 8 value)).toNat 16 = none) :
    PortStep s (.write regDma value) s
  | command (value : UInt64) (buf : List UInt8) (out : FwCfg × GuestMemory × UInt32)
      (h : s.2.readBytes (UInt64.ofNat (swapBytes 8 value)).toNat 16 = some buf)
      (hcommand : Command s.1 s.2 (.fromBytes buf) out) :
    PortStep s (.write regDma value)
      (out.1, (out.2.1.writeBytes (UInt64.ofNat (swapBytes 8 value)).toNat (toBeBytes 4 out.2.2.toNat)).1)
  | otherRead (offset : UInt64) (size : UInt8) (h : offset ≠ regData) : PortStep s (.read offset size) s
  | otherWrite (offset value : UInt64) (hselector : offset ≠ regSelector) (hdma : offset ≠ regDma) :
    PortStep s (.write offset value) s

inductive PortRun : FwCfg × GuestMemory → List Access → FwCfg × GuestMemory → Prop
  | nil (s : FwCfg × GuestMemory) : PortRun s [] s
  | cons {s s' s'' : FwCfg × GuestMemory} {access : Access} {accesses : List Access} (h : PortStep s access s')
      (hrest : PortRun s' accesses s'') : PortRun s (access :: accesses) s''

end Spec

/-! ## Reads of the data register -/

section Stream

variable {fw : FwCfg} {m n : Nat}

theorem saturatingAdd_zero (a : UInt64) : saturatingAdd a 0 = a := by
  have hlt := a.toNat_lt
  rw [saturatingAdd, Nat.add_zero, min_eq_left (by omega), UInt64.ofNat_toNat]

theorem toNat_saturatingAdd (a : UInt64) (n : Nat) : (saturatingAdd a n).toNat = min (a.toNat + n) (2 ^ 64 - 1) := by
  rw [saturatingAdd, UInt64.toNat_ofNat', Nat.mod_eq_of_lt (by omega)]

theorem saturatingAdd_add (a : UInt64) (m n : Nat) : saturatingAdd (saturatingAdd a m) n = saturatingAdd a (m + n) := by
  refine UInt64.toNat_inj.1 ?_
  rw [toNat_saturatingAdd, toNat_saturatingAdd, toNat_saturatingAdd]
  omega

@[simp] theorem advance_zero : fw.advance 0 = fw := by
  unfold advance
  rw [saturatingAdd_zero]

@[simp] theorem advance_advance : (fw.advance m).advance n = fw.advance (m + n) := by
  unfold advance
  rw [saturatingAdd_add]

@[simp] theorem advance_current : (fw.advance n).current = fw.current := rfl

@[simp] theorem available_advance : (fw.advance n).available = fw.available.drop n := by
  unfold available
  rw [advance_current]
  cases fw.current with
  | none => exact List.drop_nil.symm
  | some entry =>
    have hfits := entry.fits
    dsimp only [advance]
    rw [toNat_saturatingAdd, List.drop_drop]
    by_cases h : fw.offset.toNat + n ≤ 2 ^ 64 - 1
    · rw [min_eq_left h]
    · rw [min_eq_right (by omega), List.drop_of_length_le (by omega), List.drop_of_length_le (by omega)]

theorem readDataByte_eq : fw.readDataByte = (fw.advance 1, fw.available.headD 0) := by
  unfold readDataByte available
  cases fw.current with
  | none => rfl
  | some entry => simp [List.headD_eq_head?_getD, List.head?_drop]

theorem readData_eq : readData n fw = (fw.advance n, fw.available.takeD n 0) := by
  induction n generalizing fw with
  | zero => rw [advance_zero]; rfl
  | succ n ih =>
    rw [readData, readDataByte_eq]
    dsimp only
    rw [ih, advance_advance, available_advance, Nat.add_comm 1 n, List.drop_one]
    rfl

theorem takeD_add (xs : List UInt8) (m n : Nat) : xs.takeD (m + n) 0 = xs.takeD m 0 ++ (xs.drop m).takeD n 0 := by
  induction m generalizing xs with
  | zero => rw [Nat.zero_add, List.takeD_zero, List.nil_append, List.drop_zero]
  | succ m ih => rw [Nat.add_right_comm, List.takeD_succ, List.takeD_succ, ih, List.cons_append, List.drop_tail]

theorem take_takeD (xs : List UInt8) (h : m ≤ n) : (xs.takeD n 0).take m = xs.takeD m 0 := by
  obtain ⟨k, rfl⟩ := Nat.exists_eq_add_of_le h
  rw [takeD_add, List.take_left' (List.takeD_length ..)]

theorem takeD_of_le (xs : List UInt8) (h : n ≤ xs.length) : xs.takeD n 0 = xs.take n := by
  induction n generalizing xs with
  | zero => rfl
  | succ n ih =>
    cases xs with
    | nil => exact absurd h (by simp)
    | cons x xs => exact congrArg (x :: ·) (ih xs (by simpa using h))

theorem nextChunk_eq (fw : FwCfg) (len : Nat) : fw.nextChunk len = fw.available.takeD (fw.nextChunk len).length 0 := by
  unfold nextChunk
  split
  · rename_i hempty
    rw [List.isEmpty_iff.1 hempty, List.takeD_nil, List.length_replicate]
  · rw [List.length_take, takeD_of_le _ (by omega)]
    congr 1
    omega

end Stream

/-! ## The rounds of a DMA read -/

section Read

variable {mem : GuestMemory} {gpa len : Nat}

theorem store_nil : mem.store gpa [] = mem := by
  rw [store_eq_poke]
  rfl

theorem store_store (xs ys : List UInt8) :
    (mem.store gpa xs).store (gpa + xs.length) ys = mem.store gpa (xs ++ ys) := by
  rw [store_eq_poke, store_eq_poke, store_eq_poke, ← poke_append, List.length_append, ← List.range'_append_1,
    List.zip_append (by rw [List.length_range'])]

theorem store_bytes_of_notMem {data : List UInt8} {a : Nat} (h : a ∉ List.range' gpa data.length) :
    (mem.store gpa data).bytes a = mem.bytes a := by
  rw [List.mem_range'_1] at h
  unfold GuestMemory.store
  dsimp only
  split
  · rw [List.getElem?_eq_none (by omega), Option.getD_none]
  · rfl

/-- What the rounds of a read come to. -/
inductive ReadOutcome (fw : FwCfg) (mem : GuestMemory) (gpa len : Nat) : FwCfg × GuestMemory × Bool → Prop
  | done (hbacked : ∀ a ∈ List.range' gpa len, mem.writable a 1 = true) :
    ReadOutcome fw mem gpa len (fw.advance len, mem.store gpa (fw.available.takeD len 0), true)
  | stopped (taken refused : Nat) (hle : taken + refused ≤ len)
      (hbacked : ∀ a ∈ List.range' gpa taken, mem.writable a 1 = true)
      (hrefused : (∃ a ∈ List.range' (gpa + taken) refused, mem.writable a 1 = false) ∨
        refused = 0 ∧ taken < len ∧ 2 ^ 64 ≤ gpa + taken) :
    ReadOutcome fw mem gpa len
      (fw.advance (taken + refused), mem.store gpa (fw.available.takeD taken 0), false)

/-- A round that stores its chunk, before the other rounds. -/
theorem ReadOutcome.step {fw : FwCfg} {chunk : Nat} {out : FwCfg × GuestMemory × Bool} (hle : chunk ≤ len)
    (hbacked : ∀ a ∈ List.range' gpa chunk, mem.writable a 1 = true)
    (h : ReadOutcome (fw.advance chunk) (mem.store gpa (fw.available.takeD chunk 0)) (gpa + chunk) (len - chunk) out) :
    ReadOutcome fw mem gpa len out := by
  have hlen : (fw.available.takeD chunk 0).length = chunk := List.takeD_length ..
  have hstore : ∀ n, (mem.store gpa (fw.available.takeD chunk 0)).store (gpa + chunk)
      ((fw.available.drop chunk).takeD n 0) = mem.store gpa (fw.available.takeD (chunk + n) 0) := by
    intro n
    rw [takeD_add, ← store_store, hlen]
  have hupto : ∀ n, (∀ a ∈ List.range' (gpa + chunk) n, mem.writable a 1 = true) →
      ∀ a ∈ List.range' gpa (chunk + n), mem.writable a 1 = true := by
    intro n hrest a ha
    rw [List.mem_range'_1] at ha
    by_cases hin : a < gpa + chunk
    · exact hbacked a (List.mem_range'_1.2 ⟨ha.1, hin⟩)
    · exact hrest a (List.mem_range'_1.2 ⟨by omega, by omega⟩)
  cases h with
  | done hrest =>
    rw [advance_advance, available_advance, hstore, Nat.add_sub_cancel' hle]
    refine .done fun a ha => hupto _ hrest a ?_
    rwa [Nat.add_sub_cancel' hle]
  | stopped taken refused hfew hrest hrefused =>
    rw [advance_advance, available_advance, hstore, ← Nat.add_assoc]
    refine .stopped (chunk + taken) refused (by omega) (hupto _ hrest) ?_
    rw [← Nat.add_assoc]
    exact hrefused.imp_right fun ⟨hnone, hfew, hend⟩ => ⟨hnone, by omega, hend⟩

/-- The rounds of a read are one read of all the bytes, or of a first part of them. -/
theorem dmaReadIntoGuest_spec (fw : FwCfg) (hmem : mem.Bytewise) :
    ReadOutcome fw mem gpa len (fw.dmaReadIntoGuest gpa len mem) := by
  induction len using Nat.strong_induction_on generalizing fw gpa mem with
  | _ len ih =>
    rw [dmaReadIntoGuest]
    by_cases hzero : len = 0
    · rw [if_pos hzero, hzero]
      have hdone : ReadOutcome fw mem gpa 0 (fw.advance 0, mem.store gpa (fw.available.takeD 0 0), true) :=
        .done (by simp)
      rwa [advance_zero, List.takeD_zero, store_nil] at hdone
    · rw [if_neg hzero]
      have hpos := fw.length_nextChunk_pos hzero
      have hle := fw.length_nextChunk_le len
      have hchunk := nextChunk_eq fw len
      obtain ⟨chunk, hsize⟩ : ∃ chunk, chunk = (fw.nextChunk len).length := ⟨_, rfl⟩
      dsimp only
      unfold GuestMemory.writeBytes
      rw [← hsize] at hpos hle hchunk ⊢
      rw [hchunk]
      by_cases hwritable : mem.writable gpa chunk = true
      · have hbacked := (hmem.write hpos).1 hwritable
        rw [if_pos hwritable]
        dsimp only
        by_cases hfit : gpa + chunk < 2 ^ 64
        · rw [checkedAdd_of_lt hfit]
          dsimp only
          rw [if_pos rfl]
          exact .step hle hbacked (ih (len - chunk) (by omega) _ ⟨hmem.read, hmem.write, hmem.below⟩)
        · have hnone : checkedAdd gpa chunk = none := if_neg hfit
          rw [hnone]
          dsimp only
          rw [Bool.true_and]
          by_cases hlast : len - chunk = 0
          · have hall : chunk = len := by omega
            rw [hall] at hbacked ⊢
            rw [Nat.sub_self]
            exact .done hbacked
          · have hstopped : ReadOutcome fw mem gpa len
                (fw.advance (chunk + 0), mem.store gpa (fw.available.takeD chunk 0), false) := by
              exact .stopped chunk 0 (by omega) hbacked (.inr ⟨rfl, by omega, by omega⟩)
            rw [Nat.add_zero] at hstopped
            have hleft : (len - chunk == 0) = false := beq_eq_false_iff_ne.2 hlast
            rwa [hleft]
      · rw [if_neg hwritable]
        dsimp only
        have hstopped : ReadOutcome fw mem gpa len
            (fw.advance (0 + chunk), mem.store gpa (fw.available.takeD 0 0), false) := by
          refine .stopped 0 chunk (by omega) (by simp) (.inl ?_)
          by_contra hall
          push Not at hall
          exact hwritable ((hmem.write hpos).2 fun a ha => Bool.eq_true_of_not_eq_false (hall a ha))
        rw [Nat.zero_add, List.takeD_zero, store_nil] at hstopped
        cases checkedAdd gpa chunk with
        | none => exact hstopped
        | some next => exact hstopped

end Read

/-! ## The rounds of a DMA write -/

section Write

variable {mem : GuestMemory} {gpa len : Nat}

theorem span_add (m n : Nat) : mem.span gpa (m + n) = mem.span gpa m ++ mem.span (gpa + m) n := by
  rw [span_eq_map, span_eq_map, span_eq_map, ← List.map_append, List.range'_append_1]

theorem guestRangeReadable_iff (hmem : mem.Bytewise) (hgpa : gpa < 2 ^ 64) : guestRangeReadable mem gpa len = true ↔
    (∀ a ∈ List.range' gpa len, mem.readable a 1 = true) ∧ gpa + len < 2 ^ 64 := by
  induction len using Nat.strong_induction_on generalizing gpa with
  | _ len ih =>
    rw [guestRangeReadable]
    by_cases hzero : len = 0
    · rw [if_pos hzero, hzero]
      simpa using hgpa
    · rw [if_neg hzero]
      obtain ⟨chunk, hchunk⟩ : ∃ chunk, chunk = min len 256 := ⟨_, rfl⟩
      rw [← hchunk]
      have hpos : 0 < chunk := by omega
      have hbytes : ∀ b ∈ List.range' gpa chunk, b ∈ List.range' gpa len := by
        intro b hb
        rw [List.mem_range'_1] at hb ⊢
        omega
      unfold GuestMemory.readBytes
      by_cases hread : mem.readable gpa chunk = true
      · rw [if_pos hread]
        dsimp only
        by_cases hfit : gpa + chunk < 2 ^ 64
        · rw [checkedAdd_of_lt hfit]
          dsimp only
          rw [ih (len - chunk) (by omega) hfit]
          have hfirst := (hmem.read hpos).1 hread
          constructor
          · rintro ⟨hrest, hlt⟩
            refine ⟨fun a ha => ?_, by omega⟩
            rw [List.mem_range'_1] at ha
            by_cases hin : a < gpa + chunk
            · exact hfirst a (List.mem_range'_1.2 ⟨ha.1, hin⟩)
            · exact hrest a (List.mem_range'_1.2 ⟨by omega, by omega⟩)
          · rintro ⟨hall, hlt⟩
            refine ⟨fun a ha => hall a ?_, by omega⟩
            rw [List.mem_range'_1] at ha ⊢
            omega
        · have hnone : checkedAdd gpa chunk = none := if_neg hfit
          rw [hnone]
          refine ⟨nofun, fun h => absurd h.2 (by omega)⟩
      · rw [if_neg hread]
        exact ⟨nofun, fun h => absurd ((hmem.read hpos).2 fun b hb => h.1 b (hbytes b hb)) hread⟩

/-- The rounds of a write are one write, as far as the item reaches. -/
theorem copyGuestPrefix_eq (hmem : mem.Bytewise) {remaining entryOffset consumed : Nat} {data : List UInt8}
    (hdata : data.length < 2 ^ 63) (hbacked : ∀ a ∈ List.range' gpa remaining, mem.readable a 1 = true)
    (hfit : gpa + remaining < 2 ^ 64) : copyGuestPrefix mem gpa remaining entryOffset consumed data =
      (splice data (entryOffset + consumed)
        ((mem.span gpa remaining).take (data.length - (entryOffset + consumed))), true) := by
  induction remaining using Nat.strong_induction_on generalizing gpa consumed data with
  | _ remaining ih =>
    rw [copyGuestPrefix]
    by_cases hzero : remaining = 0
    · rw [if_pos hzero, hzero]
      simp [GuestMemory.span, splice_nil]
    · rw [if_neg hzero]
      by_cases hoffset : entryOffset + consumed < 2 ^ 64
      · rw [checkedAdd_of_lt hoffset]
        dsimp only
        obtain ⟨pos, hpos⟩ : ∃ pos, pos = entryOffset + consumed := ⟨_, rfl⟩
        rw [← hpos]
        by_cases hend : data.length ≤ pos
        · rw [if_pos hend, Nat.sub_eq_zero_of_le hend, List.take_zero, splice_nil]
        · rw [if_neg hend]
          obtain ⟨chunk, hchunk⟩ : ∃ chunk, chunk = min (min remaining 256) (data.length - pos) := ⟨_, rfl⟩
          rw [← hchunk]
          have hread : mem.readBytes gpa chunk = some (mem.span gpa chunk) := by
            refine if_pos ((hmem.read (by omega)).2 fun a ha => hbacked a ?_)
            rw [List.mem_range'_1] at ha ⊢
            omega
          have hlen : (splice data pos (mem.span gpa chunk)).length = data.length := by
            refine length_splice ?_
            rw [length_span]
            omega
          rw [hread]
          dsimp only
          rw [checkedAdd_of_lt (by omega)]
          dsimp only
          rw [ih (remaining - chunk) (by omega) (by rwa [hlen]) (fun a ha => hbacked a ?_) (by omega), hlen,
            ← Nat.add_assoc, ← hpos]
          · have hall : mem.span gpa remaining = mem.span gpa chunk ++ mem.span (gpa + chunk) (remaining - chunk) := by
              rw [← span_add, Nat.add_sub_cancel' (by omega)]
            have hrest : data.length - pos = chunk + (data.length - (pos + chunk)) := by omega
            obtain ⟨rest, hbehind⟩ : ∃ rest, rest = (mem.span (gpa + chunk) (remaining - chunk)).take
                (data.length - (pos + chunk)) := ⟨_, rfl⟩
            have hshort : rest.length ≤ data.length - (pos + chunk) := by
              rw [hbehind, List.length_take]
              exact min_le_left _ _
            have hjoin : splice (splice data pos (mem.span gpa chunk)) (pos + (mem.span gpa chunk).length) rest =
                splice data pos (mem.span gpa chunk ++ rest) := splice_splice (by rw [length_span]; omega)
            have hfirst : (mem.span gpa chunk).take (chunk + (data.length - (pos + chunk))) = mem.span gpa chunk :=
              List.take_of_length_le (by rw [length_span]; omega)
            rw [length_span] at hjoin
            rw [← hbehind, hjoin, hall, hrest, List.take_append, length_span, Nat.add_sub_cancel_left,
              hfirst, hbehind]
          · rw [List.mem_range'_1] at ha ⊢
            omega
      · have hnone : checkedAdd entryOffset consumed = none := if_neg hoffset
        rw [hnone]
        dsimp only
        rw [Nat.sub_eq_zero_of_le (by omega), List.take_zero, splice_nil]

theorem copyGuestPrefixIntoEntry_eq (hmem : mem.Bytewise)
    (hbacked : ∀ a ∈ List.range' gpa len, mem.readable a 1 = true) (hfit : gpa + len < 2 ^ 64) (offset : Nat)
    (entry : Entry) : copyGuestPrefixIntoEntry mem gpa len offset entry =
      (entry.store offset (mem.span gpa len), true) := by
  have hcopy : copyGuestPrefix mem gpa len offset 0 entry.data =
      (splice entry.data offset ((mem.span gpa len).take (entry.data.length - offset)), true) := by
    rw [copyGuestPrefix_eq hmem entry.fits hbacked hfit, Nat.add_zero]
  unfold copyGuestPrefixIntoEntry Entry.store
  simp only [hcopy]

end Write

/-! ## Commands -/

section Commands

variable {mem : GuestMemory} {fw : FwCfg} {access : FwCfgDmaAccess} {out : FwCfg × GuestMemory × UInt32}

theorem dmaExecute_port (hmem : mem.Bytewise) :
    DataPort (fw.selected access) mem access (fw.dmaExecute access mem) := by
  unfold dmaExecute
  rw [← selected]
  generalize fw.selected access = fw
  dsimp only
  by_cases hread : access.has dmaCtlRead = true
  · rw [if_pos hread]
    have hspec : ReadOutcome fw mem access.address.toNat access.length.toNat
        (fw.dmaReadIntoGuest access.address.toNat access.length.toNat mem) := dmaReadIntoGuest_spec fw hmem
    generalize fw.dmaReadIntoGuest access.address.toNat access.length.toNat mem = out at hspec
    cases hspec with
    | done hbacked =>
      have hport : DataPort fw mem access _ := .read hread hbacked
      rwa [readData_eq] at hport
    | stopped taken refused hle hbacked hrefused =>
      have hport : DataPort fw mem access _ := .readStopped taken refused hread hle
        (by rwa [buffer, List.take_range'_of_length_ge (by omega)])
        (by rwa [buffer, List.drop_range', Nat.mul_one, List.take_range'_of_length_ge (by omega)])
      rwa [readData_eq, readData_eq, take_takeD _ (by omega)] at hport
  · rw [if_neg hread]
    by_cases hwrite : access.has dmaCtlWrite = true
    · rw [if_pos hwrite]
      have hlt := access.address.toNat_lt
      cases hentry : fw.current with
      | none => exact .writeRefused hread hwrite (.inl (by simp [hentry]))
      | some entry =>
        dsimp only
        by_cases hwritable : entry.writable = true
        · rw [hwritable]
          by_cases hreadable : guestRangeReadable mem access.address.toNat access.length.toNat = true
          · obtain ⟨hbacked, hfit⟩ := (guestRangeReadable_iff hmem hlt).1 hreadable
            have hport : DataPort fw mem access _ := .write entry hread hwrite hentry hwritable hbacked hfit
            rw [readData_eq] at hport
            rw [hreadable, copyGuestPrefixIntoEntry_eq hmem hbacked hfit]
            simp only [copyGuestPrefixIntoEntry_eq hmem hbacked hfit]
            exact hport
          · have hnot := mt (guestRangeReadable_iff hmem hlt).2 hreadable
            rw [Bool.not_eq_true] at hreadable
            rw [hreadable]
            refine .writeRefused hread hwrite (.inr ?_)
            by_cases hfit : access.address.toNat + access.length.toNat < 2 ^ 64
            · left
              by_contra hall
              refine hnot ⟨fun a ha => ?_, hfit⟩
              by_contra hno
              exact hall ⟨a, ha, by simpa using hno⟩
            · exact .inr (by omega)
        · rw [Bool.not_eq_true] at hwritable
          rw [hwritable]
          exact .writeRefused hread hwrite (.inl (by simp [hentry, hwritable]))
    · rw [if_neg hwrite]
      by_cases hskip : access.has dmaCtlSkip = true
      · rw [if_pos hskip]
        have hport : DataPort fw mem access _ := .skip hread hwrite hskip
        rwa [readData_eq] at hport
      · rw [if_neg hskip]
        exact .nothing hread hwrite hskip

@[simp] theorem selected_entries : (fw.selected access).entries = fw.entries := by
  unfold selected
  split <;> rfl

theorem DataPort.items (h : DataPort fw mem access out) (herror : out.2.2 ≠ 0) : out.1.entries = fw.entries := by
  cases h with
  | read => exact absurd rfl herror
  | readStopped => rw [readData_eq]; rfl
  | write => exact absurd rfl herror
  | writeRefused => rfl
  | skip => exact absurd rfl herror
  | nothing => rfl

theorem DataPort.outside (h : DataPort fw mem access out) {a : Nat} (ha : a ∉ buffer access) :
    out.2.1.bytes a = mem.bytes a := by
  unfold buffer at ha
  rw [List.mem_range'_1] at ha
  cases h with
  | read =>
    refine store_bytes_of_notMem ?_
    rw [List.mem_range'_1, readData_eq, List.takeD_length]
    exact ha
  | readStopped taken =>
    refine store_bytes_of_notMem ?_
    rw [List.mem_range'_1, readData_eq, List.length_take, List.takeD_length]
    omega
  | write => rfl
  | writeRefused => rfl
  | skip => rfl
  | nothing => rfl

theorem DataPort.backing (h : DataPort fw mem access out) : mem.SameBacking out.2.1 := by
  cases h <;> exact ⟨rfl, rfl⟩

theorem dmaExecute_command (hmem : mem.Bytewise) : Command fw mem access (fw.dmaExecute access mem) where
  port := dmaExecute_port hmem
  items herror := by rw [(dmaExecute_port hmem).items herror, selected_entries]
  outside _ ha := (dmaExecute_port hmem).outside ha

end Commands

/-! ## Runs of guest accesses -/

section Runs

variable {s : FwCfg × GuestMemory}

theorem step_port (hmem : s.2.Bytewise) (access : Access) :
    PortStep s access (step s access) ∧ s.2.SameBacking (step s access).2 := by
  cases access with
  | read offset size =>
    refine ⟨?_, .refl _⟩
    unfold step mmioRead
    dsimp only
    by_cases hdata : offset = regData
    · rw [if_pos hdata, hdata]
      exact .data size
    · rw [if_neg hdata]
      split <;> exact .otherRead offset size hdata
  | write offset value =>
    unfold step mmioWrite
    dsimp only
    by_cases hselector : offset = regSelector
    · rw [if_pos hselector, hselector]
      exact ⟨.select value, .refl _⟩
    · rw [if_neg hselector]
      by_cases hdma : offset = regDma
      · rw [if_pos hdma, hdma]
        unfold runDmaAt
        cases hbuf : s.2.readBytes (UInt64.ofNat (swapBytes 8 value)).toNat 16 with
        | none => exact ⟨.noCommand value hbuf, .refl _⟩
        | some buf =>
          have hcommand : Command s.1 s.2 (.fromBytes buf) (s.1.dmaExecute (.fromBytes buf) s.2) :=
            dmaExecute_command hmem
          exact ⟨.command value buf _ hbuf hcommand, hcommand.port.backing.trans writeBytes_backing⟩
      · rw [if_neg hdma]
        exact ⟨.otherWrite offset value hselector hdma, .refl _⟩

/-- **DMA commands equal the data port.** Over every run of guest accesses to the window, each DMA command is carried
out as reads of the data register from the same cursor. -/
theorem dma_equals_data_port (s : FwCfg × GuestMemory) (hmem : s.2.Bytewise) (accesses : List Access) :
    PortRun s accesses (accesses.foldl step s) := by
  induction accesses generalizing s with
  | nil => exact .nil s
  | cons access accesses ih =>
    obtain ⟨hstep, hbacking⟩ := step_port hmem access
    exact .cons hstep (ih _ (hmem.of_backing hbacking))

end Runs

section PastTheEnd

/-- A control block for a read of eight bytes of the signature at address 16, and four bytes of guest memory behind
it. -/
def shortBuffer : GuestMemory :=
  mappedRam 0 (toBeBytes 4 0x0a ++ toBeBytes 4 8 ++ toBeBytes 8 16 ++ [0, 0, 0, 0])

theorem shortBuffer_bytewise : shortBuffer.Bytewise := mappedRam_bytewise (by decide)

theorem dma_equals_data_port_short :
    PortRun (new, shortBuffer) [.write regDma 0, .read regData 2]
      ([Access.write regDma 0, .read regData 2].foldl step (new, shortBuffer)) :=
  dma_equals_data_port (new, shortBuffer) shortBuffer_bytewise _

/-- The read reports an error and has stored the four bytes that there was room for. -/
theorem failed_read_changes_memory :
    shortBuffer.Bytewise ∧
      (new.dmaExecute (.fromBytes (shortBuffer.span 0 16)) shortBuffer).2.2 = dmaCtlError ∧
      (new.dmaExecute (.fromBytes (shortBuffer.span 0 16)) shortBuffer).2.1.bytes 16 ≠ shortBuffer.bytes 16 := by
  refine ⟨shortBuffer_bytewise, ?_⟩
  decide +kernel

end PastTheEnd

end BridgeVm.FwCfg
