import BridgeVm.Checkpoint.File
import Mathlib.Data.List.Range

/-!
# Guest RAM as sparse chunks (`sparse_ram_chunks`, `restore_sparse_ram`)

The nonzero chunks of a RAM are in order and inside it, and writing them over zeros gives the RAM back.
-/

namespace BridgeVm.Checkpoint

open Lib

/-- A chunk that `decode_ram_chunks` takes after `previousEnd`. -/
structure SparseRamChunk.Fits (ramLen : UInt64) (previousEnd : Nat) (chunk : SparseRamChunk) : Prop where
  after : previousEnd ≤ chunk.offset.toNat
  inside : chunk.offset.toNat + chunk.bytes.length ≤ ramLen.toNat
  nonempty : chunk.bytes ≠ []
  small : chunk.bytes.length ≤ sparseRamChunkSize
  aligned : chunk.offset.toNat % sparseRamChunkSize = 0

/-- Chunks in order, each behind the one before it. -/
def ChunksFit (ramLen : UInt64) : Nat → List SparseRamChunk → Prop
  | _, [] => True
  | previousEnd, chunk :: chunks =>
    chunk.Fits ramLen previousEnd ∧ ChunksFit ramLen (chunk.offset.toNat + chunk.bytes.length) chunks

variable {ram : List UInt8}

theorem length_ramChunk (ram : List UInt8) (i : Nat) :
    (ramChunk ram i).length = min sparseRamChunkSize (ram.length - i * sparseRamChunkSize) := by
  simp [ramChunk, slice]

theorem sparseChunk_fits {i previousEnd : Nat} {chunk : SparseRamChunk} (hram : ram.length < 2 ^ 64)
    (hi : i * sparseRamChunkSize < ram.length) (hprev : previousEnd ≤ i * sparseRamChunkSize)
    (h : sparseChunk ram i = some chunk) : chunk.Fits (.ofNat ram.length) previousEnd ∧
      chunk.offset.toNat + chunk.bytes.length ≤ (i + 1) * sparseRamChunkSize := by
  unfold sparseChunk at h
  split at h
  · rename_i hany
    cases h
    have hlen := length_ramChunk ram i
    have hoffset : (UInt64.ofNat (i * sparseRamChunkSize)).toNat = i * sparseRamChunkSize := by
      rw [UInt64.toNat_ofNat', Nat.mod_eq_of_lt (by omega)]
    have hne : ramChunk ram i ≠ [] := by
      intro hnil
      simp [hnil] at hany
    have hramLen : (UInt64.ofNat ram.length).toNat = ram.length := by
      rw [UInt64.toNat_ofNat', Nat.mod_eq_of_lt hram]
    rw [Nat.succ_mul]
    refine ⟨⟨?_, ?_, hne, ?_, ?_⟩, ?_⟩ <;> dsimp only <;> simp only [hoffset, hramLen, hlen]
    · exact hprev
    · omega
    · omega
    · exact Nat.mul_mod_left i _
    · omega
  · cases h

theorem chunksFit_from (hram : ram.length < 2 ^ 64) (count i previousEnd : Nat)
    (hend : ∀ j < i + count, j * sparseRamChunkSize < ram.length) (hprev : previousEnd ≤ i * sparseRamChunkSize) :
    ChunksFit (.ofNat ram.length) previousEnd ((List.range' i count).filterMap (sparseChunk ram)) := by
  induction count generalizing i previousEnd with
  | zero => exact trivial
  | succ count ih =>
    rw [List.range'_succ, List.filterMap_cons]
    have hnext : ∀ j < i + 1 + count, j * sparseRamChunkSize < ram.length := fun j hj => hend j (by omega)
    cases h : sparseChunk ram i with
    | none => exact ih (i + 1) previousEnd hnext (by rw [Nat.succ_mul]; omega)
    | some chunk =>
      obtain ⟨hfits, hle⟩ := sparseChunk_fits hram (hend i (by omega)) hprev h
      exact ⟨hfits, ih (i + 1) _ hnext hle⟩

theorem sparseRamChunks_fit (hram : ram.length < 2 ^ 64) :
    ChunksFit (.ofNat ram.length) 0 (sparseRamChunks ram) := by
  rw [sparseRamChunks, List.range_eq_range']
  refine chunksFit_from hram _ 0 0 (fun j hj => ?_) (Nat.zero_le _)
  have hsize : sparseRamChunkSize = 16384 := rfl
  rw [hsize] at hj ⊢
  omega

/-! ## Restoring -/

/-- `ram` up to `n`, zeros behind. -/
def RestoredTo (ram : List UInt8) (n : Nat) (out : List UInt8) : Prop :=
  out.length = ram.length ∧ ∀ i < ram.length, out[i]? = if i < n then ram[i]? else some 0

theorem zero_of_sparseChunk {n i : Nat} (h : sparseChunk ram n = none) (hn : n * sparseRamChunkSize ≤ i)
    (hi : i < (n + 1) * sparseRamChunkSize) (hlen : i < ram.length) : ram[i]? = some 0 := by
  rw [Nat.succ_mul] at hi
  have hbyte : (ramChunk ram n)[i - n * sparseRamChunkSize]? = ram[i]? := by
    rw [ramChunk, getElem?_slice, if_pos (by omega), Nat.add_sub_cancel' hn]
  rw [List.getElem?_eq_getElem hlen] at hbyte ⊢
  have hzero : ∀ b ∈ ramChunk ram n, b = 0 := by simpa [sparseChunk] using h
  rw [hzero _ (List.mem_of_getElem? hbyte)]

/-- One more chunk of the RAM. -/
theorem restoreChunk_sparse {n : Nat} {out : List UInt8} (hram : ram.length < 2 ^ 64)
    (hn : n * sparseRamChunkSize < ram.length) (h : RestoredTo ram (n * sparseRamChunkSize) out) :
    ∃ out', (sparseChunk ram n).toList.foldlM restoreChunk out = .ok out' ∧
      RestoredTo ram ((n + 1) * sparseRamChunkSize) out' := by
  obtain ⟨hlen, hbytes⟩ := h
  have hchunk := length_ramChunk ram n
  cases hsparse : sparseChunk ram n with
  | none =>
    refine ⟨out, rfl, hlen, fun i hi => ?_⟩
    rw [hbytes i hi]
    by_cases hbefore : i < n * sparseRamChunkSize
    · rw [if_pos hbefore, if_pos (by rw [Nat.succ_mul]; omega)]
    · rw [if_neg hbefore]
      split
      · rename_i hinside
        exact (zero_of_sparseChunk hsparse (by omega) hinside hi).symm
      · rfl
  | some chunk =>
    unfold sparseChunk at hsparse
    split at hsparse
    · cases hsparse
      have hoffset : (UInt64.ofNat (n * sparseRamChunkSize)).toNat = n * sparseRamChunkSize := by
        rw [UInt64.toNat_ofNat', Nat.mod_eq_of_lt (by omega)]
      have hspace : n * sparseRamChunkSize + (ramChunk ram n).length ≤ out.length := by omega
      refine ⟨splice out (n * sparseRamChunkSize) (ramChunk ram n), ?_, ?_, fun i hi => ?_⟩
      · simp only [Option.toList_some, List.foldlM_cons, List.foldlM_nil, restoreChunk, hoffset]
        rw [if_neg (by omega), if_neg (by omega)]
        rfl
      · rw [length_splice hspace, hlen]
      · rw [getElem?_splice hspace, Nat.succ_mul]
        by_cases hinside : n * sparseRamChunkSize ≤ i ∧ i < n * sparseRamChunkSize + (ramChunk ram n).length
        · rw [if_pos hinside, if_pos (by omega), ramChunk, getElem?_slice, if_pos (by omega),
            Nat.add_sub_cancel' hinside.1]
        · rw [if_neg hinside, hbytes i hi]
          by_cases hbefore : i < n * sparseRamChunkSize
          · rw [if_pos hbefore, if_pos (by omega)]
          · rw [if_neg hbefore, if_neg (by omega)]
    · cases hsparse

theorem restore_range {out : List UInt8} (hram : ram.length < 2 ^ 64) (n : Nat)
    (hn : ∀ j < n, j * sparseRamChunkSize < ram.length) (h : RestoredTo ram 0 out) :
    ∃ out', ((List.range n).filterMap (sparseChunk ram)).foldlM restoreChunk out = .ok out' ∧
      RestoredTo ram (n * sparseRamChunkSize) out' := by
  induction n with
  | zero => exact ⟨out, rfl, by simpa using h⟩
  | succ n ih =>
    obtain ⟨mid, hmid, hrestored⟩ := ih fun j hj => hn j (by omega)
    obtain ⟨out', hout, hrestored⟩ := restoreChunk_sparse hram (hn n (by omega)) hrestored
    refine ⟨out', ?_, hrestored⟩
    have hlast : [n].filterMap (sparseChunk ram) = (sparseChunk ram n).toList := by
      cases h : sparseChunk ram n <;> simp [h]
    rw [List.range_succ, List.filterMap_append, List.foldlM_append, hmid, hlast]
    exact hout

theorem restoreSparseRam_sparse {old : List UInt8} (hram : ram.length < 2 ^ 64) (hold : old.length = ram.length) :
    restoreSparseRam old (sparseRamChunks ram) = .ok ram := by
  have hsize : sparseRamChunkSize = 16384 := rfl
  have hstart : RestoredTo ram 0 (List.replicate old.length 0) := by
    refine ⟨by simp [hold], fun i hi => ?_⟩
    rw [if_neg (Nat.not_lt_zero i), List.getElem?_replicate, if_pos (hold ▸ hi)]
  obtain ⟨out, hout, hlen, hbytes⟩ := restore_range hram
    ((ram.length + sparseRamChunkSize - 1) / sparseRamChunkSize) (fun j hj => by rw [hsize] at hj ⊢; omega) hstart
  have heq : out = ram := by
    refine List.ext_getElem? fun i => ?_
    by_cases hi : i < ram.length
    · rw [hbytes i hi, if_pos (by rw [hsize]; omega)]
    · rw [List.getElem?_eq_none (by omega), List.getElem?_eq_none (by omega)]
  rw [restoreSparseRam, sparseRamChunks, hout, heq]

end BridgeVm.Checkpoint
