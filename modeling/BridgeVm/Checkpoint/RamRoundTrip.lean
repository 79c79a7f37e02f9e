import BridgeVm.Checkpoint.RoundTrip
import BridgeVm.Machine

/-!
# RAM through a checkpoint (`sparse_ram_chunks`, `encode_ram_chunks`, `decode_ram_chunks`, `restore_sparse_ram`)

A RAM that fits the machine comes back (`sparse_ram_round_trip`); what is decoded is in bounds, aligned and in order
whatever the bytes (`ChunksFit.ordered`). The chunk count of the encoding has 32 bits, so a RAM of any size comes back
exactly when it has fewer than `2 ^ 32` nonzero pages (`throughCheckpoint_iff`).
-/

namespace BridgeVm.Checkpoint

open Lib Reader

/-- The pages of `ram` that hold a nonzero byte. -/
def nonzeroPages (ram : List UInt8) : Nat :=
  (List.range ((ram.length + sparseRamChunkSize - 1) / sparseRamChunkSize)).countP fun i =>
    (ramChunk ram i).any (· ≠ 0)

/-- The RAM after its checkpoint was restored over `old`. -/
def throughCheckpoint (ram old : List UInt8) : Except String (List UInt8) :=
  decodeRamChunks (encodeRamChunks (sparseRamChunks ram)) (.ofNat ram.length) >>= restoreSparseRam old

variable {ram old : List UInt8} {ramLen : UInt64} {chunk : SparseRamChunk} {chunks : List SparseRamChunk}
  {n previousEnd : Nat}

/-! ## Chunks that fit -/

theorem SparseRamChunk.Fits.mono {earlier : Nat} (h : chunk.Fits ramLen previousEnd) (hle : earlier ≤ previousEnd) :
    chunk.Fits ramLen earlier :=
  { h with after := hle.trans h.after }

theorem ChunksFit.ordered (h : ChunksFit ramLen previousEnd chunks) :
    (∀ chunk ∈ chunks, chunk.Fits ramLen previousEnd) ∧
      chunks.Pairwise fun a b => a.offset.toNat + a.bytes.length ≤ b.offset.toNat := by
  induction chunks generalizing previousEnd with
  | nil => exact ⟨nofun, .nil⟩
  | cons first chunks ih =>
    obtain ⟨hfirst, hrest⟩ := h
    obtain ⟨hfits, hsorted⟩ := ih hrest
    have hbehind : previousEnd ≤ first.offset.toNat + first.bytes.length := hfirst.after.trans (Nat.le_add_right _ _)
    refine ⟨fun chunk hchunk => ?_,
      List.pairwise_cons.2 ⟨fun chunk hchunk => (hfits chunk hchunk).after, hsorted⟩⟩
    rcases List.mem_cons.1 hchunk with rfl | hchunk
    · exact hfirst
    · exact (hfits chunk hchunk).mono hbehind

theorem ChunksFit.take (h : ChunksFit ramLen previousEnd chunks) (n : Nat) :
    ChunksFit ramLen previousEnd (chunks.take n) := by
  induction chunks generalizing previousEnd n with
  | nil => simpa using h
  | cons first chunks ih =>
    cases n with
    | zero => trivial
    | succ n => exact ⟨h.1, ih h.2 n⟩

/-! ## Lengths -/

theorem length_sparseRamChunks (ram : List UInt8) : (sparseRamChunks ram).length = nonzeroPages ram := by
  unfold sparseRamChunks nonzeroPages
  rw [List.length_filterMap_eq_countP]
  refine List.countP_congr fun i _ => ?_
  unfold sparseChunk
  split
  · rename_i hany
    simpa using hany
  · rename_i hany
    simpa using hany

theorem length_encodeRamChunk (chunk : SparseRamChunk) : (encodeRamChunk chunk).length = 16 + chunk.bytes.length := by
  simp [encodeRamChunk, writeBlob]
  omega

theorem length_encodeRamChunks_le (h : ChunksFit ramLen previousEnd chunks) :
    (encodeRamChunks chunks).length ≤ 8 + 16400 * chunks.length := by
  have hchunks : (chunks.flatMap encodeRamChunk).length ≤ 16400 * chunks.length := by
    have hsmall : ∀ chunk ∈ chunks, chunk.bytes.length ≤ sparseRamChunkSize := fun chunk hchunk =>
      (h.ordered.1 chunk hchunk).small
    clear h
    induction chunks with
    | nil => exact Nat.zero_le _
    | cons first chunks ih =>
      have hfirst := hsmall first List.mem_cons_self
      have hrest := ih fun chunk hchunk => hsmall chunk (List.mem_cons_of_mem _ hchunk)
      have hsize : sparseRamChunkSize = 16384 := rfl
      rw [List.flatMap_cons, List.length_append, length_encodeRamChunk, List.length_cons]
      omega
  simp only [encodeRamChunks, List.length_append, length_writeU32]
  omega

theorem length_encodeRamChunks_sparse (hram : ram.length < 2 ^ 63) :
    (encodeRamChunks (sparseRamChunks ram)).length < 2 ^ 64 := by
  have hfit : ChunksFit (.ofNat ram.length) 0 (sparseRamChunks ram) := sparseRamChunks_fit (by omega)
  have hle := length_encodeRamChunks_le hfit
  have hcount : (sparseRamChunks ram).length ≤ (ram.length + sparseRamChunkSize - 1) / sparseRamChunkSize := by
    rw [length_sparseRamChunks]
    exact List.countP_le_length.trans (Nat.le_of_eq List.length_range)
  have hsize : sparseRamChunkSize = 16384 := rfl
  rw [hsize] at hcount
  omega

/-! ## The round trip -/

theorem ok_bind {ε α β : Type} (a : α) (f : α → Except ε β) : (Except.ok a >>= f) = f a := rfl

theorem throughCheckpoint_of_lt (hram : ram.length < 2 ^ 63) (hpages : nonzeroPages ram < 2 ^ 32)
    (hold : old.length = ram.length) : throughCheckpoint ram old = .ok ram := by
  have hdecode : decodeRamChunks (encodeRamChunks (sparseRamChunks ram)) (.ofNat ram.length) =
      .ok (sparseRamChunks ram) :=
    (decodeRamChunks_eq_ok (length_encodeRamChunks_sparse hram)).2
      ⟨rfl, (length_sparseRamChunks ram).trans_lt hpages, sparseRamChunks_fit (by omega)⟩
  rw [throughCheckpoint, hdecode, ok_bind]
  exact restoreSparseRam_sparse (by omega) hold

/-- A count of 32 bits that does not hold the chunks is read as a smaller one, with bytes behind. -/
theorem decodeRamChunks_truncated (hfit : ChunksFit ramLen 0 chunks) (hlen : (encodeRamChunks chunks).length < 2 ^ 64)
    (hcount : 2 ^ 32 ≤ chunks.length) (read : List SparseRamChunk) :
    decodeRamChunks (encodeRamChunks chunks) ramLen ≠ .ok read := by
  intro hread
  obtain ⟨hsame, hfew, hreadFit⟩ := (decodeRamChunks_eq_ok hlen).1 hread
  have htail : chunks.flatMap encodeRamChunk = read.flatMap encodeRamChunk := by
    simp only [encodeRamChunks, List.append_assoc] at hsame
    have hwords := List.append_inj hsame (by rw [length_writeU32, length_writeU32])
    exact List.append_cancel_left hwords.2
  have hsplit : (chunks.take read.length).flatMap encodeRamChunk ++ (chunks.drop read.length).flatMap encodeRamChunk =
      read.flatMap encodeRamChunk ++ [] := by
    rw [← List.flatMap_append, List.take_append_drop, List.append_nil, htail]
  have hbytes : (encodeRamChunks chunks).length = 8 + (chunks.flatMap encodeRamChunk).length := by
    simp only [encodeRamChunks, List.length_append, length_writeU32]
  have hwhole := congrArg List.length hsplit
  rw [List.length_append, List.append_nil, ← htail] at hwhole
  obtain ⟨-, -, hnone⟩ := (decodeRamChunksLoop_accepts ramLen read.length 0).unique
    ⟨rfl, by rw [List.length_take]; omega, hfit.take _⟩ ⟨rfl, rfl, hreadFit⟩ (by omega)
      (by rw [← htail]; omega) hsplit
  have hmore : chunks.drop read.length ≠ [] := by
    intro hnil
    have := congrArg List.length hnil
    rw [List.length_drop, List.length_nil] at this
    omega
  obtain ⟨first, rest, hcons⟩ := List.exists_cons_of_ne_nil hmore
  have hzero := congrArg List.length hnone
  rw [hcons, List.flatMap_cons, List.length_append, length_encodeRamChunk, List.length_nil] at hzero
  omega

theorem throughCheckpoint_truncated (hram : ram.length < 2 ^ 63) (hpages : 2 ^ 32 ≤ nonzeroPages ram) :
    throughCheckpoint ram old ≠ .ok ram := by
  intro hok
  have hcount := length_sparseRamChunks ram
  obtain ⟨read, hread, -⟩ := bind_eq_ok.1 hok
  exact decodeRamChunks_truncated (sparseRamChunks_fit (by omega)) (length_encodeRamChunks_sparse hram)
    (by omega) read hread

theorem throughCheckpoint_iff (hram : ram.length < 2 ^ 63) :
    (∀ old, old.length = ram.length → throughCheckpoint ram old = .ok ram) ↔ nonzeroPages ram < 2 ^ 32 := by
  refine ⟨fun h => ?_, fun hpages old hold => throughCheckpoint_of_lt hram hpages hold⟩
  by_contra hpages
  exact throughCheckpoint_truncated hram (Nat.le_of_not_lt hpages) (h ram rfl)

theorem nonzeroPages_lt (hram : Machine.ramBase + ram.length ≤ Machine.pcieMmio64.endAddr) :
    nonzeroPages ram < 2 ^ 32 := by
  have hend : Machine.pcieMmio64.endAddr = 0x10000000000 := rfl
  have hsize : sparseRamChunkSize = 16384 := rfl
  have hcount : nonzeroPages ram ≤ (ram.length + sparseRamChunkSize - 1) / sparseRamChunkSize :=
    List.countP_le_length.trans (Nat.le_of_eq List.length_range)
  rw [hsize] at hcount
  omega

/-- **A RAM of the machine comes back through its checkpoint, whatever was there before**, and only chunks in bounds,
aligned, sorted and apart are decoded. -/
theorem sparse_ram_round_trip (ram : List UInt8)
    (hram : Machine.ramBase + ram.length ≤ Machine.pcieMmio64.endAddr) :
    (∀ old, old.length = ram.length → throughCheckpoint ram old = .ok ram) ∧
    ∀ data ramLen chunks, data.length < 2 ^ 63 → decodeRamChunks data ramLen = .ok chunks →
      (∀ chunk ∈ chunks, chunk.Fits ramLen 0) ∧
        chunks.Pairwise fun a b => a.offset.toNat + a.bytes.length ≤ b.offset.toNat := by
  have hend : Machine.pcieMmio64.endAddr = 0x10000000000 := rfl
  refine ⟨(throughCheckpoint_iff (by omega)).2 (nonzeroPages_lt hram), fun data ramLen chunks hdata hok => ?_⟩
  exact ((decodeRamChunks_eq_ok (by omega)).1 hok).2.2.ordered

/-- A page of zeros, one of sevens, another of zeros, and two bytes. -/
def threePages : List UInt8 :=
  List.replicate 16384 0 ++ List.replicate 16384 7 ++ List.replicate 16384 0 ++ [0, 9]

theorem sparse_ram_round_trip_three_pages : throughCheckpoint threePages (List.replicate 49154 1) = .ok threePages := by
  have hlen : threePages.length = 49154 := by
    simp only [threePages, List.length_append, List.length_replicate]
    rfl
  have hram : Machine.ramBase + threePages.length ≤ Machine.pcieMmio64.endAddr := by
    rw [hlen]
    decide
  exact (sparse_ram_round_trip threePages hram).1 _ (by rw [List.length_replicate, hlen])

end BridgeVm.Checkpoint
