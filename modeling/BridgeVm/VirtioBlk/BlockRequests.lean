import BridgeVm.VirtioBlk.RequestLayout

/-!
# Block requests (`virtio_blk/block_requests.rs`, `virtio_blk/media_backend.rs`)

A read request copies the media to the data buffers, in pieces of at most 64 KiB and never across two descriptors, and
stops at the first piece that cannot be read or stored. So what it stores is always the beginning of one log, the data
addresses in order with the media bytes (`copyData_prefix`), and all of it when nothing fails (`copyData_complete`).
-/

namespace BridgeVm.VirtioBlk

open Lib

def sectorSize : Nat := 512

def readChunkBytes : Nat := 64 * 1024

def virtioBlkTIn : Nat := 0

def virtioBlkTOut : Nat := 1

def virtioBlkSOk : UInt8 := 0

def virtioBlkSIoErr : UInt8 := 1

def virtioBlkSUnsupp : UInt8 := 2

/-- `RawFileBackend`: the length of the file when it was opened, its bytes and which of its ranges `read_exact_at`
reads. File lengths are signed 64-bit numbers. -/
structure RawFileBackend where
  len : Nat
  file : Nat → UInt8
  readExact : Nat → Nat → Bool
  len_lt : len < 2 ^ 63

/-- `capacity_sectors`. -/
def RawFileBackend.capacitySectors (b : RawFileBackend) : Nat := (b.len + (sectorSize - 1)) / sectorSize

/-- `read_at_into`: zero past the end of the file. -/
def RawFileBackend.readAtInto (b : RawFileBackend) (byteOffset count : Nat) : Option (List UInt8) :=
  (checkedAdd byteOffset count).bind fun stop =>
    if stop > b.capacitySectors * sectorSize then none
    else if byteOffset ≥ b.len then some (List.replicate count 0)
    else
      let readable := min (b.len - byteOffset) count
      if b.readExact byteOffset readable then
        some ((List.range' byteOffset readable).map b.file ++ List.replicate (count - readable) 0)
      else none

/-- The `while` loop over one data run: the bytes written, and whether no piece failed. -/
def copyRun (b : RawFileBackend) : Nat → GuestMemory → Nat → Nat → Nat → GuestMemory × Nat × Bool
  | 0, mem, _, _, _ => (mem, 0, true)
  | fuel + 1, mem, guestAddr, len, byteOffset =>
    if len = 0 then (mem, 0, true)
    else
      let chunkLen := min len readChunkBytes
      match b.readAtInto byteOffset chunkLen with
      | none => (mem, 0, false)
      | some bytes =>
        match mem.writeBytes guestAddr bytes with
        | (_, false) => (mem, 0, false)
        | (mem₁, true) =>
          let (mem₂, written, ok) := copyRun b fuel mem₁ (guestAddr + chunkLen) (len - chunkLen)
            (byteOffset + chunkLen)
          (mem₂, chunkLen + written, ok)

/-- The loop `'data`. -/
def copyData (b : RawFileBackend) : GuestMemory → List (Nat × Nat) → Nat → GuestMemory × Nat × Bool
  | mem, [], _ => (mem, 0, true)
  | mem, run :: runs, byteOffset =>
    match copyRun b run.2 mem run.1 run.2 byteOffset with
    | (mem₁, written, false) => (mem₁, written, false)
    | (mem₁, written, true) =>
      let (mem₂, rest, ok) := copyData b mem₁ runs (byteOffset + written)
      (mem₂, written + rest, ok)

/-- `valid_offset`: where the data begin on the media. -/
def validOffset (b : RawFileBackend) (layout : RequestLayout) (sector : Nat) : Option Nat :=
  let mediaLen := min (b.capacitySectors * sectorSize) (2 ^ 64 - 1)
  if sector * sectorSize < 2 ^ 64 ∧ layout.readableLen = 16 ∧ layout.dataLen % sectorSize = 0 ∧
      layout.dataLen < 2 ^ 32 - 1 ∧ (checkedAdd (sector * sectorSize) layout.dataLen).any fun stop =>
        stop ≤ mediaLen then
    some (sector * sectorSize)
  else none

/-- `write_status`, with the used length. -/
def writeStatus (mem : GuestMemory) (layout : RequestLayout) (status : UInt8) (writtenLen : Nat) : GuestMemory × Nat :=
  let (mem', statusWritten) := mem.writeBytes layout.statusAddr [status]
  (mem', writtenLen + if statusWritten ∧ writtenLen = layout.dataLen then 1 else 0)

/-- `process_descriptor_chain` after the walk. -/
def processDescriptors (b : RawFileBackend) (mem : GuestMemory) (descs : List Descriptor) : GuestMemory × Nat :=
  match RequestLayout.parse descs with
  | none => (mem, 0)
  | some layout =>
    match layout.header mem descs with
    | none => writeStatus mem layout virtioBlkSIoErr 0
    | some header =>
      let reqType := ofLeBytes (header.take 4)
      let sector := ofLeBytes ((header.drop 8).take 8)
      if reqType ≠ virtioBlkTIn then
        writeStatus mem layout (if reqType = virtioBlkTOut then virtioBlkSIoErr else virtioBlkSUnsupp) 0
      else
        match validOffset b layout sector with
        | none => writeStatus mem layout virtioBlkSIoErr 0
        | some byteOffset =>
          let (mem₁, writtenLen, ok) := copyData b mem (layout.data descs) byteOffset
          writeStatus mem₁ layout (if ok then virtioBlkSOk else virtioBlkSIoErr) writtenLen

/-- `process_descriptor_chain`: the memory and the used length. -/
def processDescriptorChain (b : RawFileBackend) (mem : GuestMemory) (queueDesc queueNum head : Nat) :
    GuestMemory × Nat :=
  match descriptorChain mem queueDesc queueNum head with
  | none => (mem, 0)
  | some descs => processDescriptors b mem descs

/-! ## The media as bytes -/

/-- A byte of the media: zero past the end of the file. -/
def RawFileBackend.byte (b : RawFileBackend) (offset : Nat) : UInt8 := if offset < b.len then b.file offset else 0

/-- Every range of the file can be read. -/
def RawFileBackend.Reads (b : RawFileBackend) : Prop := ∀ offset count, offset + count ≤ b.len →
    b.readExact offset count = true

/-- The media bytes from `byteOffset` on, each with the address it goes to. -/
def mediaLog (b : RawFileBackend) (dest : List Nat) (byteOffset : Nat) : List (Nat × UInt8) :=
  dest.zip ((List.range' byteOffset dest.length).map b.byte)

section Media

variable {b : RawFileBackend} {byteOffset count : Nat} {bytes : List UInt8} {dest dest' : List Nat}

@[simp] theorem mediaLog_nil : mediaLog b [] byteOffset = [] := rfl

@[simp] theorem length_mediaLog : (mediaLog b dest byteOffset).length = dest.length := by simp [mediaLog]

theorem mediaLog_append : mediaLog b (dest ++ dest') byteOffset =
    mediaLog b dest byteOffset ++ mediaLog b dest' (byteOffset + dest.length) := by
  have hrange : List.range' byteOffset (dest ++ dest').length =
      List.range' byteOffset dest.length ++ List.range' (byteOffset + dest.length) dest'.length := by
    rw [List.length_append, List.range'_append_1]
  unfold mediaLog
  rw [hrange, List.map_append]
  exact List.zip_append (by simp)

theorem take_mediaLog_append {n : Nat} (hlen : dest.length = count) :
    (mediaLog b (dest ++ dest') byteOffset).take (count + n) =
      mediaLog b dest byteOffset ++ (mediaLog b dest' (byteOffset + count)).take n := by
  have hlog : count = (mediaLog b dest byteOffset).length := by simpa using hlen.symm
  rw [mediaLog_append, hlen]
  conv_lhs => rw [hlog]
  rw [List.take_length_add_append, ← hlog]

theorem map_byte_past {start : Nat} (count : Nat) (h : b.len ≤ start) :
    (List.range' start count).map b.byte = List.replicate count 0 := by
  calc
    _ = (List.range' start count).map fun _ => (0 : UInt8) := by
      refine List.map_congr_left fun o ho => ?_
      rw [List.mem_range'_1] at ho
      exact if_neg (by omega)
    _ = _ := by simp

theorem map_byte_inside {start : Nat} (h : start + count ≤ b.len) :
    (List.range' start count).map b.byte = (List.range' start count).map b.file := by
  refine List.map_congr_left fun o ho => ?_
  rw [List.mem_range'_1] at ho
  exact if_pos (by omega)

/-- **What `read_at_into` reads are the bytes of the media.** -/
theorem readAtInto_bytes (h : b.readAtInto byteOffset count = some bytes) :
    bytes = (List.range' byteOffset count).map b.byte := by
  unfold RawFileBackend.readAtInto at h
  obtain ⟨stop, -, h⟩ := Option.bind_eq_some_iff.mp h
  split at h
  · cases h
  · split at h
    · rename_i hpast
      rw [map_byte_past count hpast]
      exact (Option.some.inj h).symm
    · rename_i hin
      dsimp only at h
      split at h
      · obtain ⟨readable, hreadable⟩ : ∃ readable, readable = min (b.len - byteOffset) count := ⟨_, rfl⟩
        rw [← hreadable] at h
        have hsplit : List.range' byteOffset count =
            List.range' byteOffset readable ++ List.range' (byteOffset + readable) (count - readable) := by
          rw [List.range'_append_1]
          congr 1
          omega
        have hfile : (List.range' byteOffset readable).map b.byte = (List.range' byteOffset readable).map b.file :=
          map_byte_inside (by omega)
        have hzero : (List.range' (byteOffset + readable) (count - readable)).map b.byte =
            List.replicate (count - readable) 0 := by
          by_cases hall : readable = count
          · rw [hall, Nat.sub_self]
            rfl
          · exact map_byte_past _ (by omega)
        rw [hsplit, List.map_append, hfile, hzero]
        exact (Option.some.inj h).symm
      · cases h

theorem readAtInto_complete (hreads : b.Reads) (hin : byteOffset + count ≤ b.capacitySectors * sectorSize) :
    b.readAtInto byteOffset count = some ((List.range' byteOffset count).map b.byte) := by
  have hlen := b.len_lt
  have hcapacity : b.capacitySectors * sectorSize ≤ b.len + 511 := by
    unfold RawFileBackend.capacitySectors sectorSize
    exact Nat.div_mul_le_self _ _
  have hsome : ∃ bytes, b.readAtInto byteOffset count = some bytes := by
    unfold RawFileBackend.readAtInto
    rw [checkedAdd_of_lt (by omega), Option.bind_some, if_neg (by omega)]
    split
    · exact ⟨_, rfl⟩
    · dsimp only
      rw [if_pos (hreads _ _ (by omega))]
      exact ⟨_, rfl⟩
  obtain ⟨bytes, hbytes⟩ := hsome
  rw [hbytes, readAtInto_bytes hbytes]

end Media

/-! ## The data loops -/

section Copies

variable {b : RawFileBackend} {mem mem' : GuestMemory} {fuel guestAddr len byteOffset written : Nat} {ok : Bool}
  {runs : List (Nat × Nat)}

theorem store_media (b : RawFileBackend) (mem : GuestMemory) (guestAddr byteOffset count : Nat) :
    mem.store guestAddr ((List.range' byteOffset count).map b.byte) =
      mem.poke (mediaLog b (List.range' guestAddr count) byteOffset) := by
  rw [store_eq_poke]
  simp [mediaLog]

/-- **One run is stored from its beginning on.** -/
theorem copyRun_prefix (hfuel : len ≤ fuel) (h : copyRun b fuel mem guestAddr len byteOffset = (mem', written, ok)) :
    written ≤ len ∧ (ok = true → written = len) ∧
      mem' = mem.poke ((mediaLog b (List.range' guestAddr len) byteOffset).take written) := by
  induction fuel generalizing mem guestAddr len byteOffset written with
  | zero =>
    obtain rfl : len = 0 := by omega
    rw [copyRun] at h
    cases h
    simp
  | succ fuel ih =>
    rw [copyRun] at h
    by_cases hzero : len = 0
    · rw [if_pos hzero] at h
      cases h
      simp [hzero]
    · rw [if_neg hzero] at h
      dsimp only at h
      have hpos : 0 < min len readChunkBytes := by
        have : readChunkBytes = 65536 := rfl
        omega
      obtain ⟨chunkLen, hchunk⟩ : ∃ chunkLen, chunkLen = min len readChunkBytes := ⟨_, rfl⟩
      rw [← hchunk] at h hpos
      cases hread : b.readAtInto byteOffset chunkLen with
      | none =>
        rw [hread] at h
        cases h
        simp
      | some bytes =>
        rw [hread] at h
        have hbytes := readAtInto_bytes hread
        dsimp only at h
        cases hwrite : mem.writeBytes guestAddr bytes with
        | mk mem₁ stored =>
          rw [hwrite] at h
          cases stored with
          | false =>
            cases h
            simp
          | true =>
            dsimp only at h
            have hmem₁ : mem₁ = mem.poke (mediaLog b (List.range' guestAddr chunkLen) byteOffset) := by
              have hstore := writeBytes_store (congrArg Prod.snd hwrite)
              rw [hwrite] at hstore
              rw [← store_media, ← hbytes]
              exact hstore
            cases hrest : copyRun b fuel mem₁ (guestAddr + chunkLen) (len - chunkLen) (byteOffset + chunkLen) with
            | mk mem₂ result =>
              obtain ⟨rest, done⟩ := result
              rw [hrest] at h
              cases h
              obtain ⟨hle, hdone, hmem₂⟩ := ih (by omega) hrest
              dsimp only
              refine ⟨by omega, fun hok => ?_, ?_⟩
              · have := hdone hok
                omega
              · have hsplit : List.range' guestAddr len =
                    List.range' guestAddr chunkLen ++ List.range' (guestAddr + chunkLen) (len - chunkLen) := by
                  rw [List.range'_append_1]
                  congr 1
                  omega
                rw [hsplit, take_mediaLog_append List.length_range', poke_append, ← hmem₁]
                exact hmem₂

/-- Nothing fails over mapped memory and a readable file. -/
theorem copyRun_complete (hmem : mem.Bytewise) (hreads : b.Reads) (hfuel : len ≤ fuel)
    (hmapped : ∀ a ∈ List.range' guestAddr len, mem.writable a 1 = true)
    (hin : byteOffset + len ≤ b.capacitySectors * sectorSize) :
    (copyRun b fuel mem guestAddr len byteOffset).2 = (len, true) := by
  induction fuel generalizing mem guestAddr len byteOffset with
  | zero =>
    obtain rfl : len = 0 := by omega
    rfl
  | succ fuel ih =>
    rw [copyRun]
    by_cases hzero : len = 0
    · rw [if_pos hzero, hzero]
    · rw [if_neg hzero]
      dsimp only
      have hpos : 0 < min len readChunkBytes := by
        have : readChunkBytes = 65536 := rfl
        omega
      obtain ⟨chunkLen, hchunk⟩ : ∃ chunkLen, chunkLen = min len readChunkBytes := ⟨_, rfl⟩
      rw [← hchunk] at hpos ⊢
      rw [readAtInto_complete hreads (by omega)]
      dsimp only
      have hsplit : List.range' guestAddr len =
          List.range' guestAddr chunkLen ++ List.range' (guestAddr + chunkLen) (len - chunkLen) := by
        rw [List.range'_append_1]
        congr 1
        omega
      rw [hsplit] at hmapped
      have hwritable : mem.writable guestAddr chunkLen = true :=
        (hmem.write hpos).mpr fun a ha => hmapped a (List.mem_append_left _ ha)
      have hwrite : mem.writeBytes guestAddr ((List.range' byteOffset chunkLen).map b.byte) =
          (mem.poke (mediaLog b (List.range' guestAddr chunkLen) byteOffset), true) := by
        rw [GuestMemory.writeBytes, store_media]
        simp [hwritable]
      rw [hwrite]
      dsimp only
      have hrest : (copyRun b fuel (mem.poke (mediaLog b (List.range' guestAddr chunkLen) byteOffset))
        (guestAddr + chunkLen)
          (len - chunkLen) (byteOffset + chunkLen)).2 = (len - chunkLen, true) :=
        ih hmem.poke (by omega) (fun a ha => hmapped a (List.mem_append_right _ ha)) (by omega)
      cases hcopy : copyRun b fuel (mem.poke (mediaLog b (List.range' guestAddr chunkLen) byteOffset))
        (guestAddr + chunkLen)
          (len - chunkLen) (byteOffset + chunkLen) with
      | mk mem₂ result =>
        rw [hcopy] at hrest
        obtain rfl : result = (len - chunkLen, true) := hrest
        have hsum : chunkLen + (len - chunkLen) = len := by omega
        rw [Prod.mk.injEq]
        exact ⟨hsum, rfl⟩

/-- **The data are stored from their beginning on**: a prefix of the log of the data addresses and the media. -/
theorem copyData_prefix (h : copyData b mem runs byteOffset = (mem', written, ok)) :
    written ≤ runsLength runs ∧ (ok = true → written = runsLength runs) ∧
      mem' = mem.poke ((mediaLog b (addresses runs) byteOffset).take written) := by
  induction runs generalizing mem byteOffset written with
  | nil =>
    rw [copyData] at h
    cases h
    simp
  | cons run runs ih =>
    rw [copyData] at h
    rw [addresses_cons, runsLength_cons]
    cases hrun : copyRun b run.2 mem run.1 run.2 byteOffset with
    | mk mem₁ result =>
      obtain ⟨count, done⟩ := result
      rw [hrun] at h
      obtain ⟨hle, hdone, hmem₁⟩ := copyRun_prefix (Nat.le_refl run.2) hrun
      cases done with
      | false =>
        cases h
        have hpart : written ≤ (mediaLog b (List.range' run.1 run.2) byteOffset).length := by simpa using hle
        exact ⟨by omega, by simp, by rw [mediaLog_append, List.take_append_of_le_length hpart, hmem₁]⟩
      | true =>
        obtain rfl := hdone rfl
        dsimp only at h
        cases hrest : copyData b mem₁ runs (byteOffset + run.2) with
        | mk mem₂ result =>
          obtain ⟨rest, more⟩ := result
          rw [hrest] at h
          cases h
          obtain ⟨hle₂, hdone₂, hmem₂⟩ := ih hrest
          dsimp only
          refine ⟨by omega, fun hok => by rw [hdone₂ hok], ?_⟩
          have hmem₁' : mem₁ = mem.poke (mediaLog b (List.range' run.1 run.2) byteOffset) := by
            rw [hmem₁]
            congr 1
            exact List.take_of_length_le (by simp)
          rw [take_mediaLog_append List.length_range', poke_append, ← hmem₁']
          exact hmem₂

/-- **All of them over mapped memory and a readable file.** -/
theorem copyData_complete (hmem : mem.Bytewise) (hreads : b.Reads)
    (hmapped : ∀ a ∈ addresses runs, mem.writable a 1 = true)
    (hin : byteOffset + runsLength runs ≤ b.capacitySectors * sectorSize) :
    copyData b mem runs byteOffset = (mem.poke (mediaLog b (addresses runs) byteOffset), runsLength runs, true) := by
  have hresult : (copyData b mem runs byteOffset).2 = (runsLength runs, true) := by
    induction runs generalizing mem byteOffset with
    | nil => rfl
    | cons run runs ih =>
      rw [addresses_cons] at hmapped
      rw [runsLength_cons] at hin ⊢
      have hrun : (copyRun b run.2 mem run.1 run.2 byteOffset).2 = (run.2, true) :=
        copyRun_complete hmem hreads (Nat.le_refl run.2) (fun a ha => hmapped a (List.mem_append_left _ ha)) (by omega)
      rw [copyData]
      cases hcopy : copyRun b run.2 mem run.1 run.2 byteOffset with
      | mk mem₁ result =>
        rw [hcopy] at hrun
        obtain rfl : result = (run.2, true) := hrun
        obtain ⟨-, -, hmem₁⟩ := copyRun_prefix (Nat.le_refl run.2) hcopy
        have hrest : (copyData b mem₁ runs (byteOffset + run.2)).2 = (runsLength runs, true) := by
          rw [hmem₁]
          exact ih hmem.poke (fun a ha => hmapped a (List.mem_append_right _ ha)) (by omega)
        dsimp only
        cases hmore : copyData b mem₁ runs (byteOffset + run.2) with
        | mk mem₂ result =>
          rw [hmore] at hrest
          obtain rfl : result = (runsLength runs, true) := hrest
          rfl
  cases hcopy : copyData b mem runs byteOffset with
  | mk mem' result =>
    rw [hcopy] at hresult
    obtain rfl : result = (runsLength runs, true) := hresult
    obtain ⟨-, -, hmem'⟩ := copyData_prefix hcopy
    rw [hmem', List.take_of_length_le (by simp)]

end Copies

end BridgeVm.VirtioBlk
