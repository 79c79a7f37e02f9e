import BridgeVm.VirtioBlk.BlockRequests

/-!
# A block request is its logical buffers

A driver lays a request out as one sequence of readable bytes and one of writable addresses (`Request`) and splits both
into descriptors as it likes (`Splitting`). `processDescriptors_split` reads `process_descriptor_chain` in these terms,
and `byLogicalBuffers` collects what follows: the result does not depend on the splitting, a valid read fills the data
from the media and ends with the status, the used length is that of a written prefix, and a request that is not a valid
read leaves every data byte.
-/

namespace BridgeVm.VirtioBlk

open Lib

/-- A request as its driver sees it: the readable bytes, `none` where nothing is mapped, and the writable addresses. -/
structure Request where
  content : List (Option UInt8)
  dest : List Nat

/-- The buffers of a request, split into descriptors. -/
structure Splitting (mem : GuestMemory) (r : Request) (reads writes : List Descriptor) : Prop where
  framed : Framed reads writes
  content : (bufferAddresses reads).map mem.byteAt = r.content
  dest : bufferAddresses writes = r.dest

/-- The first sixteen readable bytes. -/
def Request.header (r : Request) : Option (List UInt8) :=
  if r.content.length < 16 then none else (r.content.take 16).mapM id

/-- Where the data of a valid read begin on the media. -/
def Request.mediaOffset (b : RawFileBackend) (r : Request) : Option Nat :=
  r.header.bind fun header =>
    let offset := ofLeBytes ((header.drop 8).take 8) * sectorSize
    if ofLeBytes (header.take 4) = virtioBlkTIn ∧ r.content.length = 16 ∧ (r.dest.length - 1) % sectorSize = 0 ∧
        r.dest.length - 1 < 2 ^ 32 - 1 ∧ offset + (r.dest.length - 1) ≤ b.capacitySectors * sectorSize then
      some offset
    else none

/-- The status of a request that is not a valid read. -/
def Request.refusal (r : Request) : UInt8 :=
  match r.header with
  | none => virtioBlkSIoErr
  | some header =>
    if ofLeBytes (header.take 4) = virtioBlkTIn ∨ ofLeBytes (header.take 4) = virtioBlkTOut then virtioBlkSIoErr
    else virtioBlkSUnsupp

/-- Where a valid read stores is mapped, and the media can be read. -/
def Request.Served (b : RawFileBackend) (mem : GuestMemory) (r : Request) : Prop :=
  ∀ offset, r.mediaOffset b = some offset → (∀ a ∈ r.dest.dropLast, mem.writable a 1 = true) ∧ b.Reads

/-- What a request leaves behind: the first `count` data bytes from the media, and perhaps the status, which the used
length counts after all of the data only. -/
def Completed (b : RawFileBackend) (mem : GuestMemory) (dest : List Nat) (result : GuestMemory × Nat) : Prop :=
  ∃ offset count, count ≤ dest.dropLast.length ∧
    (result = (mem.poke ((mediaLog b dest.dropLast offset).take count), count) ∨
      ∃ last status, dest.getLast? = some last ∧
        result = ((mem.poke ((mediaLog b dest.dropLast offset).take count)).poke [(last, status)],
          if count = dest.dropLast.length then count + 1 else count))

section Requests

variable {b : RawFileBackend} {mem : GuestMemory} {r : Request} {descs reads writes : List Descriptor}
  {desc size head : Nat}

theorem readDescriptor_len {index : Nat} {d : Descriptor} (h : mem.readDescriptor desc index = some d) :
    d.len < 2 ^ 32 := by
  unfold GuestMemory.readDescriptor at h
  obtain ⟨_, -, h⟩ := Option.bind_eq_some_iff.mp h
  obtain ⟨_, -, h⟩ := Option.bind_eq_some_iff.mp h
  obtain ⟨bytes, -, rfl⟩ := Option.map_eq_some_iff.mp h
  have hlt := ofLeBytes_lt ((bytes.drop 8).take 4)
  have hlen : ((bytes.drop 8).take 4).length ≤ 4 := List.length_take_le 4 _
  have hpow : 256 ^ ((bytes.drop 8).take 4).length ≤ 256 ^ 4 := Nat.pow_le_pow_right (by omega) hlen
  exact Nat.lt_of_lt_of_le hlt hpow

theorem chain_len (hchain : DescriptorChain mem desc size head descs) : ∀ d ∈ descs, d.len < 2 ^ 32 := by
  have hentry : ∀ {i : Nat} {d : Descriptor} {next : Option Nat}, tableEntry mem desc i = some (d, next) →
    d.len < 2 ^ 32 := by
    intro i d next h
    obtain ⟨d', hd, heq⟩ := Option.map_eq_some_iff.mp h
    cases heq
    exact readDescriptor_len hd
  unfold DescriptorChain at hchain
  induction hchain with
  | last _ hnode => exact List.forall_mem_singleton.mpr (hentry hnode)
  | link _ hnode _ ih => exact List.forall_mem_cons.mpr ⟨hentry hnode, ih⟩

theorem capacity_le {bound : Nat} (h : ∀ d ∈ descs, d.len ≤ bound) : capacity descs ≤ descs.length * bound := by
  induction descs with
  | nil => simp
  | cons d ds ih =>
    obtain ⟨hd, hds⟩ := List.forall_mem_cons.mp h
    have hrest := ih hds
    rw [capacity_cons, List.length_cons, Nat.add_mul]
    omega

theorem capacity_lt (hchain : DescriptorChain mem desc size head descs) (hsize : size < 2 ^ 16) :
    capacity descs < 2 ^ 64 := by
  have hlen : ∀ d ∈ descs, d.len ≤ 2 ^ 32 := fun d hd => Nat.le_of_lt (chain_len hchain d hd)
  have hle := capacity_le hlen
  have hcount := Walk.length_le hchain
  omega

theorem capacity_append (ds ds' : List Descriptor) : capacity (ds ++ ds') = capacity ds + capacity ds' := by
  simp [capacity]

/-- The checked bounds of `valid_offset` are bounds of the numbers. -/
theorem validOffset_eq {layout : RequestLayout} (sector : Nat) : validOffset b layout sector =
    if layout.readableLen = 16 ∧ layout.dataLen % sectorSize = 0 ∧ layout.dataLen < 2 ^ 32 - 1 ∧
        sector * sectorSize + layout.dataLen ≤ b.capacitySectors * sectorSize then some (sector * sectorSize)
          else none := by
  have hlen := b.len_lt
  have hcapacity : b.capacitySectors * sectorSize ≤ b.len + 511 := Nat.div_mul_le_self _ _
  have hmin : min (b.capacitySectors * sectorSize) (2 ^ 64 - 1) = b.capacitySectors * sectorSize := by omega
  unfold validOffset
  rw [hmin]
  dsimp only
  congr 1
  rw [eq_iff_iff]
  constructor
  · rintro ⟨-, hreadable, haligned, hsmall, hstop⟩
    cases hadd : checkedAdd (sector * sectorSize) layout.dataLen with
    | none =>
      rw [hadd] at hstop
      cases hstop
    | some stop =>
      rw [hadd] at hstop
      obtain rfl := checkedAdd_some hadd
      exact ⟨hreadable, haligned, hsmall, by simpa using hstop⟩
  · rintro ⟨hreadable, haligned, hsmall, hle⟩
    refine ⟨by omega, hreadable, haligned, hsmall, ?_⟩
    rw [checkedAdd_of_lt (by omega)]
    simpa using hle

theorem writeStatus_eq (mem : GuestMemory) (layout : RequestLayout) (status : UInt8) (writtenLen : Nat) :
    writeStatus mem layout status writtenLen =
      if mem.writable layout.statusAddr 1 then
        (mem.poke [(layout.statusAddr, status)], if writtenLen = layout.dataLen then writtenLen + 1 else writtenLen)
      else (mem, writtenLen) := by
  unfold writeStatus GuestMemory.writeBytes
  rw [store_eq_poke]
  by_cases hmapped : mem.writable layout.statusAddr 1 = true
  · have hone : mem.writable layout.statusAddr [status].length = true := hmapped
    rw [if_pos hone, if_pos hmapped]
    by_cases hall : writtenLen = layout.dataLen <;> simp [hall]
  · have hone : ¬mem.writable layout.statusAddr [status].length = true := hmapped
    rw [if_neg hone, if_neg hmapped]
    simp

/-- The layout of a split request with its status at `last`. -/
def splitLayout (reads writes : List Descriptor) (last : Nat) : RequestLayout :=
  ⟨capacity reads, capacity writes - 1, last, reads.length⟩

theorem dataLen_split (hsplit : Splitting mem r reads writes) (last : Nat) :
    (splitLayout reads writes last).dataLen = r.dest.length - 1 := by
  rw [← hsplit.dest, length_bufferAddresses]
  rfl

theorem parse_split (hsplit : Splitting mem r reads writes) (hfit : capacity (reads ++ writes) < 2 ^ 64) {last : Nat}
    (hlast : r.dest.getLast? = some last) :
    RequestLayout.parse (reads ++ writes) = some (splitLayout reads writes last) := by
  rw [capacity_append] at hfit
  refine parse_iff.mpr ⟨reads, writes, rfl, hsplit.framed, by omega, by omega, ?_, rfl, rfl, rfl⟩
  rw [hsplit.dest]
  exact hlast

theorem header_split (hmem : mem.Bytewise) (hsplit : Splitting mem r reads writes) (last : Nat) :
    (splitLayout reads writes last).header mem (reads ++ writes) = r.header := by
  have hlen : r.content.length = capacity reads := by rw [← hsplit.content, List.length_map, length_bufferAddresses]
  have hid : ∀ l : List Nat, (l.map mem.byteAt).mapM id = l.mapM mem.byteAt := by
    intro l
    induction l with
    | nil => rfl
    | cons a l ih => rw [List.map_cons, List.mapM_cons, List.mapM_cons, ih, id]
  rw [header_eq hmem rfl rfl]
  unfold Request.header
  rw [hlen, ← hsplit.content, ← List.map_take, hid]

/-- **`process_descriptor_chain` in terms of the logical buffers.** -/
theorem processDescriptors_split (hmem : mem.Bytewise) (hsplit : Splitting mem r reads writes)
    (hfit : capacity (reads ++ writes) < 2 ^ 64) {last : Nat} (hlast : r.dest.getLast? = some last) :
    processDescriptors b mem (reads ++ writes) =
      match r.mediaOffset b with
      | none => writeStatus mem (splitLayout reads writes last) r.refusal 0
      | some byteOffset =>
        let (mem₁, writtenLen, ok) :=
          copyData b mem ((splitLayout reads writes last).data (reads ++ writes)) byteOffset
        writeStatus mem₁ (splitLayout reads writes last)
          (if ok then virtioBlkSOk else virtioBlkSIoErr) writtenLen := by
  have hreadable : (splitLayout reads writes last).readableLen = r.content.length := by
    rw [← hsplit.content, List.length_map, length_bufferAddresses]
    rfl
  unfold processDescriptors
  rw [parse_split hsplit hfit hlast]
  dsimp only
  rw [header_split hmem hsplit]
  unfold Request.mediaOffset Request.refusal
  cases hheader : r.header with
  | none => rfl
  | some header =>
    dsimp only
    rw [Option.bind_some]
    by_cases hread : ofLeBytes (header.take 4) = virtioBlkTIn
    · rw [if_neg (not_not_intro hread), validOffset_eq, hreadable, dataLen_split hsplit]
      by_cases hvalid : r.content.length = 16 ∧ (r.dest.length - 1) % sectorSize = 0 ∧
        r.dest.length - 1 < 2 ^ 32 - 1 ∧
          ofLeBytes ((header.drop 8).take 8) * sectorSize + (r.dest.length - 1) ≤ b.capacitySectors * sectorSize
      · simp only [hread, true_and, if_pos hvalid]
      · simp only [hread, true_and, true_or, if_true, if_neg hvalid]
    · have hwrite : ∀ x y : UInt8,
        (if ofLeBytes (header.take 4) = virtioBlkTIn ∨ ofLeBytes (header.take 4) = virtioBlkTOut
          then x else y) = if ofLeBytes (header.take 4) = virtioBlkTOut then x else y := by
        intro x y
        simp [hread]
      rw [if_pos hread, hwrite]
      simp only [hread, false_and, if_false]

theorem addresses_splitData (hsplit : Splitting mem r reads writes) (last : Nat) :
    addresses ((splitLayout reads writes last).data (reads ++ writes)) = r.dest.dropLast := by
  rw [addresses_data rfl rfl, hsplit.dest]

theorem mediaOffset_inside {byteOffset : Nat} (h : r.mediaOffset b = some byteOffset) :
    byteOffset + (r.dest.length - 1) ≤ b.capacitySectors * sectorSize := by
  unfold Request.mediaOffset at h
  obtain ⟨header, -, h⟩ := Option.bind_eq_some_iff.mp h
  dsimp only at h
  split at h
  · rename_i hvalid
    rw [← Option.some.inj h]
    exact hvalid.2.2.2.2
  · cases h

theorem processDescriptors_served (hmem : mem.Bytewise) (hsplit : Splitting mem r reads writes)
    (hfit : capacity (reads ++ writes) < 2 ^ 64) (hserved : r.Served b mem) {last byteOffset : Nat}
    (hlast : r.dest.getLast? = some last) (hoffset : r.mediaOffset b = some byteOffset) :
    processDescriptors b mem (reads ++ writes) =
      writeStatus (mem.poke (mediaLog b r.dest.dropLast byteOffset)) (splitLayout reads writes last) virtioBlkSOk
        r.dest.dropLast.length := by
  obtain ⟨hmapped, hreads⟩ := hserved byteOffset hoffset
  have haddresses := addresses_splitData hsplit last
  have hlen : runsLength ((splitLayout reads writes last).data (reads ++ writes)) = r.dest.dropLast.length := by
    rw [← length_addresses, haddresses]
  have hin := mediaOffset_inside hoffset
  rw [processDescriptors_split hmem hsplit hfit hlast, hoffset]
  dsimp only
  rw [copyData_complete hmem hreads (by rw [haddresses]; exact hmapped) (by rw [hlen, List.length_dropLast]; exact hin),
    haddresses, hlen]
  rfl

/-- **Whatever fails, what is left behind is a beginning of the data, and perhaps the status.** -/
theorem completed_of_copy {last byteOffset writtenLen : Nat} {status : UInt8} {layout : RequestLayout}
    {mem₁ : GuestMemory}
    (hlast : r.dest.getLast? = some last) (hstatus : layout.statusAddr = last)
      (hdata : layout.dataLen = r.dest.length - 1)
    (hwritten : writtenLen ≤ r.dest.dropLast.length)
    (hmem₁ : mem₁ = mem.poke ((mediaLog b r.dest.dropLast byteOffset).take writtenLen)) :
    Completed b mem r.dest (writeStatus mem₁ layout status writtenLen) := by
  refine ⟨byteOffset, writtenLen, hwritten, ?_⟩
  rw [writeStatus_eq, hstatus, hdata, ← List.length_dropLast, ← hmem₁]
  split
  · exact .inr ⟨last, status, hlast, rfl⟩
  · exact .inl rfl

theorem Framed.filter_eq (h : Framed reads writes) : (reads ++ writes).filter Descriptor.isWrite = writes := by
  rw [List.filter_append, List.filter_eq_nil_iff.mpr (by simpa using h.readable), List.filter_eq_self.mpr h.writable,
    List.nil_append]

theorem processDescriptorChain_eq (hchain : DescriptorChain mem desc size head descs) :
    processDescriptorChain b mem desc size head = processDescriptors b mem descs := by
  unfold processDescriptorChain
  rw [descriptorChain_iff.mpr hchain]

theorem processDescriptors_refused (h : RequestLayout.parse descs = none) :
    processDescriptors b mem descs = (mem, 0) := by
  unfold processDescriptors
  rw [h]

theorem processDescriptors_empty (hsplit : Splitting mem r reads writes) (hempty : r.dest = []) :
    processDescriptors b mem (reads ++ writes) = (mem, 0) := by
  cases hparse : RequestLayout.parse (reads ++ writes) with
  | none => exact processDescriptors_refused hparse
  | some layout =>
    obtain ⟨reads', writes', happend, hframed, -, -, hstatus, -⟩ := parse_iff.mp hparse
    have hsame : writes' = writes := by rw [← hframed.filter_eq, ← happend, hsplit.framed.filter_eq]
    rw [hsame, hsplit.dest, hempty] at hstatus
    cases hstatus

theorem malformed_keeps (h : ∀ reads writes, DescriptorChain mem desc size head (reads ++ writes) →
    Framed reads writes →
    bufferAddresses writes = []) : processDescriptorChain b mem desc size head = (mem, 0) := by
  unfold processDescriptorChain
  cases hchain : descriptorChain mem desc size head with
  | none => rfl
  | some descs =>
    refine processDescriptors_refused ?_
    cases hparse : RequestLayout.parse descs with
    | none => rfl
    | some layout =>
      obtain ⟨reads, writes, rfl, hframed, -, -, hstatus, -⟩ := parse_iff.mp hparse
      rw [h reads writes (descriptorChain_iff.mp hchain) hframed] at hstatus
      cases hstatus

theorem refused_keeps (hmem : mem.Bytewise) (hsplit : Splitting mem r reads writes)
    (hfit : capacity (reads ++ writes) < 2 ^ 64)
    (hoffset : r.mediaOffset b = none) : (processDescriptors b mem (reads ++ writes)).1 = mem ∨
      ∃ last, r.dest.getLast? = some last ∧
      (processDescriptors b mem (reads ++ writes)).1 = mem.poke [(last, r.refusal)] := by
  cases hlast : r.dest.getLast? with
  | none =>
    rw [processDescriptors_empty hsplit (List.getLast?_eq_none_iff.mp hlast)]
    exact .inl rfl
  | some last =>
    rw [processDescriptors_split hmem hsplit hfit hlast, hoffset]
    dsimp only
    rw [writeStatus_eq]
    split
    · exact .inr ⟨last, rfl, rfl⟩
    · exact .inl rfl

/-- A split request ends as described by `Completed`. -/
theorem split_completed (hmem : mem.Bytewise) (hsplit : Splitting mem r reads writes)
    (hfit : capacity (reads ++ writes) < 2 ^ 64) : Completed b mem r.dest
      (processDescriptors b mem (reads ++ writes)) := by
  cases hlast : r.dest.getLast? with
  | none =>
    rw [processDescriptors_empty hsplit (List.getLast?_eq_none_iff.mp hlast)]
    exact ⟨0, 0, Nat.zero_le _, .inl rfl⟩
  | some last =>
    have hdata := dataLen_split hsplit last
    rw [processDescriptors_split hmem hsplit hfit hlast]
    cases hoffset : r.mediaOffset b with
    | none =>
      have hnothing : mem = mem.poke ((mediaLog b r.dest.dropLast 0).take 0) := rfl
      exact completed_of_copy hlast rfl hdata (Nat.zero_le _) hnothing
    | some byteOffset =>
      cases hcopy : copyData b mem ((splitLayout reads writes last).data (reads ++ writes)) byteOffset with
      | mk mem₁ result =>
        obtain ⟨writtenLen, ok⟩ := result
        obtain ⟨hle, -, hmem₁⟩ := copyData_prefix hcopy
        rw [← length_addresses, addresses_splitData hsplit] at hle
        rw [addresses_splitData hsplit] at hmem₁
        dsimp only
        rw [hcopy]
        exact completed_of_copy hlast rfl hdata hle hmem₁

/-- Two splittings of one served request end alike. -/
theorem splittings_agree (hmem : mem.Bytewise) {reads₁ writes₁ reads₂ writes₂ : List Descriptor}
    (h₁ : Splitting mem r reads₁ writes₁) (h₂ : Splitting mem r reads₂ writes₂)
    (hfit₁ : capacity (reads₁ ++ writes₁) < 2 ^ 64) (hfit₂ : capacity (reads₂ ++ writes₂) < 2 ^ 64)
      (hserved : r.Served b mem) :
    processDescriptors b mem (reads₁ ++ writes₁) = processDescriptors b mem (reads₂ ++ writes₂) := by
  cases hlast : r.dest.getLast? with
  | none =>
    have hempty := List.getLast?_eq_none_iff.mp hlast
    rw [processDescriptors_empty h₁ hempty, processDescriptors_empty h₂ hempty]
  | some last =>
    -- the layouts differ in what the status does not depend on
    have hlayout : ∀ (m : GuestMemory) (status : UInt8) (n : Nat),
        writeStatus m (splitLayout reads₁ writes₁ last) status n =
          writeStatus m (splitLayout reads₂ writes₂ last) status n := by
      intro m status n
      rw [writeStatus_eq, writeStatus_eq, dataLen_split h₁, dataLen_split h₂]
      rfl
    cases hoffset : r.mediaOffset b with
    | none => rw [processDescriptors_split hmem h₁ hfit₁ hlast, processDescriptors_split hmem h₂ hfit₂ hlast,
      hoffset, hlayout]
    | some byteOffset =>
      rw [processDescriptors_served hmem h₁ hfit₁ hserved hlast hoffset,
        processDescriptors_served hmem h₂ hfit₂ hserved hlast hoffset, hlayout]

end Requests

/-- **What a driver may rely on**, whatever its descriptors. -/
structure ByLogicalBuffers (b : RawFileBackend) (mem : GuestMemory) : Prop where
  /-- Two splittings of one request give the same memory and the same used length. -/
  splittings : ∀ {r : Request} {desc₁ size₁ head₁ desc₂ size₂ head₂ : Nat}
    {reads₁ writes₁ reads₂ writes₂ : List Descriptor},
    size₁ < 2 ^ 16 → size₂ < 2 ^ 16 → DescriptorChain mem desc₁ size₁ head₁ (reads₁ ++ writes₁) →
    DescriptorChain mem desc₂ size₂ head₂ (reads₂ ++ writes₂) → Splitting mem r reads₁ writes₁ →
    Splitting mem r reads₂ writes₂ → r.Served b mem →
      processDescriptorChain b mem desc₁ size₁ head₁ = processDescriptorChain b mem desc₂ size₂ head₂
  /-- A valid read fills the data from the media and puts the status in the last writable byte. -/
  reads : ∀ {r : Request} {desc size head byteOffset last : Nat} {reads writes : List Descriptor},
    size < 2 ^ 16 → DescriptorChain mem desc size head (reads ++ writes) → Splitting mem r reads writes →
    r.Served b mem → r.mediaOffset b = some byteOffset → r.dest.getLast? = some last →
    mem.writable last 1 = true →
      processDescriptorChain b mem desc size head =
        ((mem.poke (mediaLog b r.dest.dropLast byteOffset)).poke [(last, virtioBlkSOk)], r.dest.length)
  /-- The used length is that of a written prefix of the writable bytes, also when a request fails midway. -/
  used : ∀ {r : Request} {desc size head : Nat} {reads writes : List Descriptor},
    size < 2 ^ 16 → DescriptorChain mem desc size head (reads ++ writes) → Splitting mem r reads writes →
      Completed b mem r.dest (processDescriptorChain b mem desc size head)
  /-- A chain that is malformed or runs past the address space leaves the memory. -/
  malformed : ∀ {desc size head : Nat}, (∀ reads writes, DescriptorChain mem desc size head (reads ++ writes) →
    Framed reads writes → bufferAddresses writes = []) → processDescriptorChain b mem desc size head = (mem, 0)
  /-- A request that is not a valid read, as one past the media, leaves every byte but the status. -/
  refused : ∀ {r : Request} {desc size head : Nat} {reads writes : List Descriptor},
    size < 2 ^ 16 → DescriptorChain mem desc size head (reads ++ writes) → Splitting mem r reads writes →
    r.mediaOffset b = none → (processDescriptorChain b mem desc size head).1 = mem ∨
      ∃ last, r.dest.getLast? = some last ∧
        (processDescriptorChain b mem desc size head).1 = mem.poke [(last, r.refusal)]

/-- **Block requests depend on the logical buffers only.** -/
theorem byLogicalBuffers (b : RawFileBackend) (mem : GuestMemory) (hmem : mem.Bytewise) : ByLogicalBuffers b mem where
  splittings hsize₁ hsize₂ hchain₁ hchain₂ h₁ h₂ hserved := by
    rw [processDescriptorChain_eq hchain₁, processDescriptorChain_eq hchain₂]
    exact splittings_agree hmem h₁ h₂ (capacity_lt hchain₁ hsize₁) (capacity_lt hchain₂ hsize₂) hserved
  reads {r desc size head byteOffset last reads writes} hsize hchain hsplit hserved hoffset hlast hmapped := by
    have hdata : r.dest.dropLast.length = (splitLayout reads writes last).dataLen := by
      rw [List.length_dropLast, dataLen_split hsplit]
    have hpos : r.dest.dropLast.length + 1 = r.dest.length := by
      have hne : r.dest ≠ [] := by
        intro hempty
        rw [hempty] at hlast
        cases hlast
      have := List.length_pos_iff.mpr hne
      rw [List.length_dropLast]
      omega
    have hmapped' : (mem.poke (mediaLog b r.dest.dropLast byteOffset)).writable
        (splitLayout reads writes last).statusAddr 1 = true := hmapped
    rw [processDescriptorChain_eq hchain,
      processDescriptors_served hmem hsplit (capacity_lt hchain hsize) hserved hlast hoffset, writeStatus_eq,
      if_pos hmapped', if_pos hdata, hpos]
    rfl
  used hsize hchain hsplit := by
    rw [processDescriptorChain_eq hchain]
    exact split_completed hmem hsplit (capacity_lt hchain hsize)
  malformed h := malformed_keeps h
  refused hsize hchain hsplit hoffset := by
    rw [processDescriptorChain_eq hchain]
    exact refused_keeps hmem hsplit (capacity_lt hchain hsize) hoffset

/-! ## A read whose data end past the RAM -/

/-- The sixteen bytes of a descriptor. -/
def descriptorBytes (d : Descriptor) : List UInt8 :=
  toLeBytes 8 d.addr ++ toLeBytes 4 d.len ++ toLeBytes 2 d.flags ++ toLeBytes 2 d.next

/-- A request of one sector in two descriptors and, from 80 on, in three; `mapped` of its writable bytes are RAM. -/
def sectorReads (mapped : Nat) : GuestMemory :=
  mappedRam 0 (descriptorBytes ⟨64, 16, 1, 1⟩ ++ descriptorBytes ⟨128, 513, 2, 0⟩ ++ List.replicate 48 0 ++
    descriptorBytes ⟨64, 16, 1, 1⟩ ++ descriptorBytes ⟨128, 256, 3, 2⟩ ++
      descriptorBytes ⟨384, 257, 2, 0⟩ ++
    List.replicate mapped 0)

/-- A file of one sector. -/
def sectorFile : RawFileBackend := ⟨512, fun _ => 7, fun _ _ => true, by decide⟩

def sectorRequest (mapped : Nat) : Request :=
  ⟨(List.range' 64 16).map (sectorReads mapped).byteAt, List.range' 128 513⟩

theorem sectorReads_whole (mapped : Nat) :
    Splitting (sectorReads mapped) (sectorRequest mapped) [⟨64, 16, 1, 1⟩] [⟨128, 513, 2, 0⟩] where
  framed := ⟨by decide, by decide, by simp [Descriptor.NoWrap], by simp [Descriptor.NoWrap]⟩
  content := by simp [sectorRequest]
  dest := by simp [sectorRequest]

theorem sectorReads_halves (mapped : Nat) :
    Splitting (sectorReads mapped) (sectorRequest mapped) [⟨64, 16, 1, 1⟩] [⟨128, 256, 3, 2⟩,
      ⟨384, 257, 2, 0⟩] where
  framed := ⟨by decide, by decide, by simp [Descriptor.NoWrap], by simp [Descriptor.NoWrap]⟩
  content := by simp [sectorRequest]
  dest := by
    rw [bufferAddresses_cons, bufferAddresses_cons, bufferAddresses_nil, List.append_nil]
    exact List.range'_append_1

theorem byLogicalBuffers_sector :
    processDescriptorChain sectorFile (sectorReads 513) 0 2 0 = processDescriptorChain sectorFile
      (sectorReads 513) 80 3 0 ∧
      (processDescriptorChain sectorFile (sectorReads 513) 0 2 0).2 = 513 := by
  have hmem : (sectorReads 513).Bytewise := mappedRam_bytewise (by decide +kernel)
  have hwhole : DescriptorChain (sectorReads 513) 0 2 0 [⟨64, 16, 1, 1⟩, ⟨128, 513, 2, 0⟩] :=
    descriptorChain_iff.mp (by decide +kernel)
  have hhalves : DescriptorChain (sectorReads 513) 80 3 0 [⟨64, 16, 1, 1⟩, ⟨128, 256, 3, 2⟩,
    ⟨384, 257, 2, 0⟩] :=
    descriptorChain_iff.mp (by decide +kernel)
  have hserved : (sectorRequest 513).Served sectorFile (sectorReads 513) := by
    intro offset _
    exact ⟨by decide +kernel, fun _ _ _ => rfl⟩
  have hby := byLogicalBuffers sectorFile (sectorReads 513) hmem
  refine ⟨hby.splittings (by decide) (by decide) hwhole hhalves (sectorReads_whole 513)
    (sectorReads_halves 513) hserved, ?_⟩
  have hoffset : (sectorRequest 513).mediaOffset sectorFile = some 0 := by decide +kernel
  have hlast : (sectorRequest 513).dest.getLast? = some 640 := by decide +kernel
  rw [hby.reads (by decide) hwhole (sectorReads_whole 513) hserved hoffset hlast (by decide +kernel)]
  exact List.length_range'

/-- **Data past the RAM**: one descriptor is refused as a whole, of two the first is filled. -/
theorem splitting_shows : ¬∀ (b : RawFileBackend) (mem : GuestMemory) (r : Request)
    (desc₁ size₁ head₁ desc₂ size₂ head₂ : Nat)
    (reads₁ writes₁ reads₂ writes₂ : List Descriptor), mem.Bytewise → b.Reads → size₁ < 2 ^ 16 →
    size₂ < 2 ^ 16 →
    DescriptorChain mem desc₁ size₁ head₁ (reads₁ ++ writes₁) →
    DescriptorChain mem desc₂ size₂ head₂ (reads₂ ++ writes₂) →
    Splitting mem r reads₁ writes₁ → Splitting mem r reads₂ writes₂ →
      processDescriptorChain b mem desc₁ size₁ head₁ = processDescriptorChain b mem desc₂ size₂ head₂ := by
  intro hall
  have hmem : (sectorReads 256).Bytewise := mappedRam_bytewise (by decide +kernel)
  have hsame := hall sectorFile (sectorReads 256) (sectorRequest 256) 0 2 0 80 3 0 [⟨64, 16, 1, 1⟩]
    [⟨128, 513, 2, 0⟩]
    [⟨64, 16, 1, 1⟩] [⟨128, 256, 3, 2⟩, ⟨384, 257, 2, 0⟩] hmem (fun _ _ _ => rfl) (by decide) (by decide)
    (descriptorChain_iff.mp (by decide +kernel)) (descriptorChain_iff.mp (by decide +kernel)) (sectorReads_whole 256)
    (sectorReads_halves 256)
  have hused : (processDescriptorChain sectorFile (sectorReads 256) 0 2 0).2 = 0 ∧
      (processDescriptorChain sectorFile (sectorReads 256) 80 3 0).2 = 256 := by decide +kernel
  rw [hsame] at hused
  omega

end BridgeVm.VirtioBlk
