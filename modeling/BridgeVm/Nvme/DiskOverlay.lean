import BridgeVm.Nvme.Disk

/-!
# The copy-on-write overlay refines a flat byte array

- `RawFileDisk.Wf`: the invariant of a read-only disk, with the overlay's accounting;
- `writeChunk_spec`, `writeChunks_spec`: a turn and a run of the write loop, which always ends and leaves a prefix of
  the data in place;
- `readAt_eq`: a read returns the bytes of the disk's contents;
- `overlay_run_refines`: along runs whose writes are not torn by a refusal, reads are those of a flat copy.
-/

namespace BridgeVm.Nvme

open Lib

variable {d d' : RawFileDisk} {io : HostIo} {abs offset n i : Nat} {rest data : List UInt8}

theorem chunk_pos : 0 < fileOverlayChunkSize := by decide

/-! ## The invariant -/

/-- The byte the guest sees at a position. -/
def RawFileDisk.byteAt (d : RawFileDisk) (i : Nat) : Option UInt8 :=
  ChunkMap.elemAt fileOverlayChunkSize d.file d.overlay i

/-- A read-only disk: chunks aligned in the image, their bytes counted, and the count under the quota. -/
structure RawFileDisk.Wf (d : RawFileDisk) : Prop where
  readOnly : d.writeBack = false
  fileLen : d.file.length = d.len
  aligned : ChunkMap.Aligned fileOverlayChunkSize d.len d.overlay
  counted : d.overlayBytes = d.overlay.totalLength
  underQuota : d.overlayBytes ≤ d.overlayQuotaBytes

/-- What no write changes. -/
def RawFileDisk.SameFile (d d' : RawFileDisk) : Prop :=
  d'.file = d.file ∧ d'.len = d.len ∧ d'.overlayQuotaBytes = d.overlayQuotaBytes

theorem SameFile.refl (d : RawFileDisk) : d.SameFile d := ⟨rfl, rfl, rfl⟩

theorem SameFile.trans {d₁ d₂ d₃ : RawFileDisk} (h₁ : d₁.SameFile d₂) (h₂ : d₂.SameFile d₃) :
    d₁.SameFile d₃ :=
  ⟨h₂.1.trans h₁.1, h₂.2.1.trans h₁.2.1, h₂.2.2.trans h₁.2.2⟩

theorem rawFile_wf (file : List UInt8) (quota : Nat) : (RawFileDisk.rawFile file quota false).Wf where
  readOnly := rfl
  fileLen := rfl
  aligned := ChunkMap.aligned_empty
  counted := rfl
  underQuota := Nat.zero_le _

/-! ## One turn of the write loop -/

/-- Length of the chunk at a base of the image. -/
def RawFileDisk.spanAt (d : RawFileDisk) (base : Nat) : Nat := chunkSpan fileOverlayChunkSize d.len base

/-- The bytes a turn copies: to the end of the chunk or of the data. -/
def RawFileDisk.turnLen (d : RawFileDisk) (abs n : Nat) : Nat :=
  let base := chunkBase fileOverlayChunkSize abs
  min n (d.spanAt base - (abs - base))

theorem chunkLen_eq (h : abs < d.len) :
    d.chunkLen (chunkBase fileOverlayChunkSize abs) = .ok (d.spanAt (chunkBase fileOverlayChunkSize abs)) := by
  have hle := chunkBase_le fileOverlayChunkSize abs
  rw [RawFileDisk.chunkLen, if_neg (by omega)]
  rfl

/-- The chunk a write goes into, when it is held or can be. -/
theorem holdChunk_ok {base chunkOff copyLen overlayBytes : Nat} {chunk : List UInt8} (hwf : d.Wf)
    (hbase : base < d.len) (hmod : base % fileOverlayChunkSize = 0)
    (h : d.holdChunk io base (d.spanAt base) chunkOff copyLen = .ok (chunk, overlayBytes)) :
    chunk.length = d.spanAt base ∧ overlayBytes ≤ d.overlayQuotaBytes ∧
      overlayBytes = d.overlayBytes + (if d.overlay.contains base then 0 else d.spanAt base) ∧
      ((chunkOff ≠ 0 ∨ copyLen ≠ d.spanAt base) → ∀ j < d.spanAt base, chunk[j]? = d.byteAt (base + j)) := by
  have hspan : base + d.spanAt base ≤ d.len := by
    unfold RawFileDisk.spanAt chunkSpan
    omega
  have hown : ∀ j < d.spanAt base, chunkBase fileOverlayChunkSize (base + j) = base := fun j hj => by
    refine (eq_chunkBase hmod (by omega) ?_).symm
    unfold RawFileDisk.spanAt chunkSpan at hj
    omega
  unfold RawFileDisk.holdChunk at h
  cases hc : d.overlay[base]? with
  | some c =>
    rw [hc] at h
    cases h
    have hcont : d.overlay.contains base = true := by
      rw [Std.TreeMap.contains_eq_isSome_getElem?, hc]; rfl
    refine ⟨(hwf.aligned _ _ hc).2.2, hwf.underQuota, by simp [hcont], fun _ j hj => ?_⟩
    rw [RawFileDisk.byteAt, ChunkMap.elemAt, hown j hj, hc, Nat.add_sub_cancel_left]
  | none =>
    rw [hc] at h
    have hcont : d.overlay.contains base = false := by
      rw [Std.TreeMap.contains_eq_isSome_getElem?, hc]; rfl
    dsimp only at h
    split at h
    · cases h
    · rename_i hquota
      split at h
      · rename_i hpart
        unfold RawFileDisk.readExactAt at h
        split_ifs at h
        · cases h
        · cases h
        · cases h
          have hlen : (slice d.file base (d.spanAt base)).length = d.spanAt base :=
            length_slice (by rw [hwf.fileLen]; exact hspan)
          refine ⟨hlen, by omega, by simp [hcont], fun _ j hj => ?_⟩
          rw [RawFileDisk.byteAt, ChunkMap.elemAt, hown j hj, hc, getElem?_slice, if_pos hj]
      · rename_i hwhole
        cases h
        exact ⟨List.length_replicate, by omega, by simp [hcont], fun hp => absurd hp hwhole⟩

/-- What one turn does when its chunk is held or can be: it keeps the invariant and puts `rest`'s bytes in place. -/
theorem writeChunk_spec (hwf : d.Wf) (hne : rest ≠ []) (hin : abs + rest.length ≤ d.len)
    (h : d.writeChunk io abs rest = .ok (d', n)) :
    d'.Wf ∧ d.SameFile d' ∧ n = d.turnLen abs rest.length ∧ 0 < n ∧ n ≤ rest.length ∧
      (∀ i, d'.byteAt i = if abs ≤ i ∧ i < abs + n then rest[i - abs]? else d.byteAt i) ∧
      (∀ b, d'.overlay.contains b = (d.overlay.contains b || decide (b = chunkBase fileOverlayChunkSize abs))) ∧
      d'.overlayBytes = d.overlayBytes +
        (if d.overlay.contains (chunkBase fileOverlayChunkSize abs) then 0
          else d.spanAt (chunkBase fileOverlayChunkSize abs)) := by
  have hpos : 0 < rest.length := List.length_pos_iff.mpr hne
  have habs : abs < d.len := by omega
  obtain ⟨base, hbase⟩ : ∃ base, base = chunkBase fileOverlayChunkSize abs := ⟨_, rfl⟩
  have hle : base ≤ abs := hbase ▸ chunkBase_le _ _
  have hmod : base % fileOverlayChunkSize = 0 := hbase ▸ chunkBase_mod _ _
  have hspan : abs < base + d.spanAt base := hbase ▸ lt_chunkBase_add_span chunk_pos habs
  have hspanle : base + d.spanAt base ≤ d.len := by
    unfold RawFileDisk.spanAt chunkSpan
    omega
  have hlen := chunkLen_eq (d := d) habs
  unfold RawFileDisk.writeChunk at h
  rw [show abs / fileOverlayChunkSize * fileOverlayChunkSize = base from hbase.symm] at h
  rw [← hbase] at hlen ⊢
  dsimp only at h
  rw [hlen] at h
  dsimp only at h
  obtain ⟨copyLen, hcopy⟩ : ∃ copyLen, copyLen = min rest.length (d.spanAt base - (abs - base)) := ⟨_, rfl⟩
  rw [← hcopy] at h
  cases hh : d.holdChunk io base (d.spanAt base) (abs - base) copyLen with
  | error e => rw [hh] at h; cases h
  | ok r =>
    obtain ⟨chunk, overlayBytes⟩ := r
    rw [hh] at h
    cases h
    obtain ⟨hclen, hquota, hcount, hbytes⟩ := holdChunk_ok hwf (by omega) hmod hh
    have htake : (rest.take n).length = n := by rw [List.length_take]; omega
    have hroom : abs - base + (rest.take n).length ≤ chunk.length := by rw [htake, hclen]; omega
    have hnewlen : (splice chunk (abs - base) (rest.take n)).length = d.spanAt base := by
      rw [length_splice hroom, hclen]
    refine ⟨⟨hwf.readOnly, hwf.fileLen, ?_, ?_, hquota⟩, ⟨rfl, rfl, rfl⟩, ?_, by omega, by omega, fun i => ?_,
      fun b => ?_, hcount⟩
    · exact ChunkMap.aligned_insert hwf.aligned hmod (lt_of_le_of_lt hle habs) hnewlen
    · -- the count follows the overlay: a new chunk adds its length, a held one keeps it
      dsimp only
      cases hc : d.overlay[base]? with
      | none =>
        rw [ChunkMap.totalLength_insert_new hc, hnewlen, ← hwf.counted, hcount]
        simp [Std.TreeMap.contains_eq_isSome_getElem?, hc]
      | some c =>
        have hl := (hwf.aligned _ _ hc).2.2
        rw [ChunkMap.totalLength_insert_replace hc (by rw [hnewlen, hl]; rfl), ← hwf.counted, hcount]
        simp [Std.TreeMap.contains_eq_isSome_getElem?, hc]
    · unfold RawFileDisk.turnLen
      rw [← hbase]
      exact hcopy
    · -- the bytes of the chunk are the new ones where the turn wrote and the old ones elsewhere
      unfold RawFileDisk.byteAt
      rw [ChunkMap.elemAt_insert]
      by_cases hown : chunkBase fileOverlayChunkSize i = base
      · have hil : base ≤ i := hown ▸ chunkBase_le _ _
        rw [if_pos hown, getElem?_splice hroom, htake]
        by_cases hwrote : abs ≤ i ∧ i < abs + n
        · rw [if_pos hwrote, if_pos (by omega), List.getElem?_take_of_lt (by omega)]
          congr 1
          omega
        · rw [if_neg hwrote, if_neg (by omega)]
          by_cases hj : i - base < d.spanAt base
          · have hpart : abs - base ≠ 0 ∨ n ≠ d.spanAt base := by omega
            rw [hbytes hpart _ hj, RawFileDisk.byteAt, Nat.add_sub_cancel' hil]
          · have hilen : d.len ≤ i := by
              have := lt_chunkBase_add chunk_pos i
              rw [hown] at this
              unfold RawFileDisk.spanAt chunkSpan at hj
              omega
            rw [List.getElem?_eq_none (by omega), ChunkMap.elemAt, hown]
            cases hc : d.overlay[base]? with
            | some c =>
              have hl := (hwf.aligned _ _ hc).2.2
              exact (List.getElem?_eq_none (by rw [hl]; exact Nat.not_lt.mp hj)).symm
            | none => exact (List.getElem?_eq_none (by rw [hwf.fileLen]; exact hilen)).symm
      · rw [if_neg hown, if_neg]
        rintro ⟨h1, h2⟩
        refine hown (eq_chunkBase hmod (by omega) ?_).symm
        unfold RawFileDisk.spanAt chunkSpan at hcopy
        omega
    · dsimp only
      rw [Std.TreeMap.contains_insert]
      by_cases hb : b = base
      · simp [hb]
      · have : ¬base = b := fun e => hb e.symm
        simp [hb, this]

/-- The chunk a turn goes into cannot be held: it is missing and over the quota, or its backing read fails. -/
def RawFileDisk.Refused (d : RawFileDisk) (io : HostIo) (abs n : Nat) : Prop :=
  let base := chunkBase fileOverlayChunkSize abs
  d.overlay.contains base = false ∧
    (d.overlayQuotaBytes < d.overlayBytes + d.spanAt base ∨
      ((abs ≠ base ∨ n < d.spanAt base) ∧ io.readFails base = true))

/-- A turn fails exactly when its chunk is refused. -/
theorem writeChunk_error_iff (hwf : d.Wf) (hne : rest ≠ []) (hin : abs + rest.length ≤ d.len) :
    (∃ e, d.writeChunk io abs rest = .error e) ↔ d.Refused io abs rest.length := by
  have hpos : 0 < rest.length := List.length_pos_iff.mpr hne
  have habs : abs < d.len := by omega
  have hle := chunkBase_le fileOverlayChunkSize abs
  have hspan := lt_chunkBase_add_span (n := d.len) chunk_pos habs
  have hlen := chunkLen_eq (d := d) habs
  unfold RawFileDisk.Refused RawFileDisk.writeChunk
  rw [show abs / fileOverlayChunkSize * fileOverlayChunkSize = chunkBase fileOverlayChunkSize abs from rfl]
  dsimp only
  rw [hlen]
  dsimp only
  generalize hb : chunkBase fileOverlayChunkSize abs = base at hle hspan hlen
  have hspanle : base + d.spanAt base ≤ d.len := by
    unfold RawFileDisk.spanAt chunkSpan
    omega
  change abs < base + d.spanAt base at hspan
  unfold RawFileDisk.holdChunk
  rw [Std.TreeMap.contains_eq_isSome_getElem?]
  cases hc : d.overlay[base]? with
  | some c => simp
  | none =>
    simp only [Option.isSome_none, true_and]
    by_cases hquota : d.overlayBytes + d.spanAt base > d.overlayQuotaBytes
    · rw [if_pos hquota]
      exact ⟨fun _ => Or.inl hquota, fun _ => ⟨_, rfl⟩⟩
    · rw [if_neg hquota]
      by_cases hpart : abs - base ≠ 0 ∨ min rest.length (d.spanAt base - (abs - base)) ≠ d.spanAt base
      · rw [if_pos hpart]
        unfold RawFileDisk.readExactAt
        cases hf : io.readFails base with
        | true =>
          rw [if_pos rfl]
          exact ⟨fun _ => Or.inr ⟨by omega, rfl⟩, fun _ => ⟨_, rfl⟩⟩
        | false =>
          rw [if_neg Bool.false_ne_true, if_neg (by rw [hwf.fileLen]; omega)]
          constructor
          · rintro ⟨e, he⟩
            cases he
          · rintro (h | ⟨-, h⟩)
            · exact absurd h hquota
            · cases h
      · rw [if_neg hpart]
        constructor
        · rintro ⟨e, he⟩
          cases he
        · rintro (h | ⟨h, -⟩)
          · exact absurd h hquota
          · exact absurd (by omega) hpart

/-! ## The write loop -/

/-- **The write loop**, inside the image: it ends, keeps the invariant and leaves a prefix of the data in place, all of
it when it succeeds. -/
theorem writeChunks_spec (io : HostIo) (hwf : d.Wf) (hin : abs + rest.length ≤ d.len) {fuel : Nat}
    (hfuel : rest.length ≤ fuel) :
    ∃ done ≤ rest.length,
      (RawFileDisk.writeChunks io fuel d abs rest).1.Wf ∧
      d.SameFile (RawFileDisk.writeChunks io fuel d abs rest).1 ∧
      (RawFileDisk.writeChunks io fuel d abs rest).2 ≠ .stuck ∧
      ((RawFileDisk.writeChunks io fuel d abs rest).2 = .done → done = rest.length) ∧
      ∀ i, (RawFileDisk.writeChunks io fuel d abs rest).1.byteAt i =
        if abs ≤ i ∧ i < abs + done then rest[i - abs]? else d.byteAt i := by
  induction fuel generalizing d abs rest with
  | zero =>
    have hnil : rest = [] := List.length_eq_zero_iff.mp (by omega)
    subst hnil
    exact ⟨0, le_rfl, hwf, SameFile.refl d, by simp [RawFileDisk.writeChunks], fun _ => rfl,
      fun i => by rw [if_neg (by omega)]; rfl⟩
  | succ fuel ih =>
    cases rest with
    | nil =>
      exact ⟨0, le_rfl, hwf, SameFile.refl d, by simp [RawFileDisk.writeChunks], fun _ => rfl,
        fun i => by rw [if_neg (by omega)]; rfl⟩
    | cons b rest =>
      unfold RawFileDisk.writeChunks
      cases hc : d.writeChunk io abs (b :: rest) with
      | error e =>
        exact ⟨0, Nat.zero_le _, hwf, SameFile.refl d, by simp, by simp, fun i => by rw [if_neg (by omega)]⟩
      | ok r =>
        obtain ⟨d', n⟩ := r
        obtain ⟨hwf', hsame, -, hn, hnle, hbytes, -, -⟩ := writeChunk_spec hwf (List.cons_ne_nil b rest) hin hc
        have hdrop : ((b :: rest).drop n).length = (b :: rest).length - n := List.length_drop
        have hin' : abs + n + ((b :: rest).drop n).length ≤ d'.len := by
          rw [hsame.2.1, hdrop]
          omega
        obtain ⟨done, hdone, hwf'', hsame', hstuck, hall, hbytes'⟩ := ih hwf' hin' (by omega)
        refine ⟨n + done, by omega, hwf'', SameFile.trans hsame hsame', hstuck, fun h => ?_, fun i => ?_⟩
        · have := hall h
          omega
        · dsimp only
          rw [hbytes' i, hbytes i]
          by_cases h1 : abs + n ≤ i ∧ i < abs + n + done
          · rw [if_pos h1, if_pos (by omega), List.getElem?_drop]
            congr 1
            omega
          · rw [if_neg h1]
            by_cases h2 : abs ≤ i ∧ i < abs + n
            · rw [if_pos h2, if_pos (by omega)]
            · rw [if_neg h2, if_neg (by omega)]

theorem writeAt_spec (io : HostIo) (hwf : d.Wf) (hin : offset + data.length ≤ d.len) :
    ∃ done ≤ data.length, (d.writeAt io offset data).1.Wf ∧ d.SameFile (d.writeAt io offset data).1 ∧
      (d.writeAt io offset data).2 ≠ .stuck ∧ ((d.writeAt io offset data).2 = .done → done = data.length) ∧
      ∀ i, (d.writeAt io offset data).1.byteAt i =
        if offset ≤ i ∧ i < offset + done then data[i - offset]? else d.byteAt i := by
  unfold RawFileDisk.writeAt
  cases data with
  | nil =>
    rw [if_pos List.isEmpty_nil]
    exact ⟨0, le_rfl, hwf, SameFile.refl d, by simp, fun _ => rfl, fun i => by rw [if_neg (by omega)]⟩
  | cons b data =>
    rw [if_neg (by simp), if_neg (by rw [hwf.readOnly]; decide)]
    exact writeChunks_spec io hwf hin le_rfl

/-! ## Reads -/

/-- **A read** of a read-only disk returns the bytes of its contents. -/
theorem readAt_eq (hwf : d.Wf) (hin : offset + n ≤ d.len) (hio : io.readFails offset = false) :
    ∃ bytes, d.readAt io offset n = .ok bytes ∧ bytes.length = n ∧ ∀ j < n,
    bytes[j]? = d.byteAt (offset + j) := by
  unfold RawFileDisk.readAt
  by_cases hn : n = 0
  · rw [if_pos hn]
    exact ⟨[], rfl, by simp [hn], fun j hj => by omega⟩
  · have hdst : d.readExactAt io offset n = .ok (slice d.file offset n) := by
      rw [RawFileDisk.readExactAt, hio, if_neg Bool.false_ne_true, if_neg (by rw [hwf.fileLen]; omega)]
    have hlen : (slice d.file offset n).length = n := length_slice (by rw [hwf.fileLen]; exact hin)
    rw [if_neg hn, hdst]
    refine ⟨_, rfl, ?_, fun j hj => ?_⟩
    · rw [ChunkMap.length_foldl_mergeChunk, hlen]
      intro e he
      rw [ChunkMap.range, List.mem_filter, Bool.and_eq_true, decide_eq_true_eq, decide_eq_true_eq] at he
      rw [hlen]
      exact he.2.2
    · have hal : ChunkMap.Aligned fileOverlayChunkSize d.file.length d.overlay := by
        rw [hwf.fileLen]
        exact hwf.aligned
      exact ChunkMap.getElem?_merge_range chunk_pos hal (by rw [hwf.fileLen]; exact hin) hj

/-! ## Writes that are not torn -/

/-- Bases of the chunks that `n > 0` bytes at `abs` touch. -/
def spannedChunks (abs n : Nat) : List Nat :=
  (List.range' (abs / fileOverlayChunkSize)
    ((abs + n - 1) / fileOverlayChunkSize - abs / fileOverlayChunkSize + 1)).map (· * fileOverlayChunkSize)

/-- Overlay bytes that a write would add: the spans of the chunks it touches that are not held. -/
def RawFileDisk.missingBytes (d : RawFileDisk) (abs n : Nat) : Nat :=
  (((spannedChunks abs n).filter fun b => !d.overlay.contains b).map d.spanAt).sum

/-- Everything the write needs fits under the quota, and the backing reads of its partial chunks succeed. -/
structure RawFileDisk.Fits (d : RawFileDisk) (io : HostIo) (abs n : Nat) : Prop where
  quota : d.overlayBytes + d.missingBytes abs n ≤ d.overlayQuotaBytes
  reads : ∀ b ∈ spannedChunks abs n, d.overlay.contains b = false →
    (b < abs ∨ abs + n < b + d.spanAt b) → io.readFails b = false

/-- The write goes through whole or is refused before its first byte. -/
def RawFileDisk.Untorn (d : RawFileDisk) (io : HostIo) (offset n : Nat) : Prop :=
  n = 0 ∨ d.Fits io offset n ∨ d.Refused io offset n

theorem turnLen_eq (d : RawFileDisk) (abs n : Nat) :
    d.turnLen abs n = min n (min (d.len - abs / fileOverlayChunkSize * fileOverlayChunkSize) fileOverlayChunkSize -
      (abs - abs / fileOverlayChunkSize * fileOverlayChunkSize)) := rfl

theorem turn_end (hin : abs + n ≤ d.len) (hturn : d.turnLen abs n < n) :
    abs + d.turnLen abs n = (abs / fileOverlayChunkSize + 1) * fileOverlayChunkSize := by
  have hle : abs / fileOverlayChunkSize * fileOverlayChunkSize ≤ abs := chunkBase_le fileOverlayChunkSize abs
  have hlt : abs < abs / fileOverlayChunkSize * fileOverlayChunkSize + fileOverlayChunkSize :=
    lt_chunkBase_add chunk_pos abs
  have hlen := turnLen_eq d abs n
  rw [Nat.succ_mul]
  omega

theorem turn_last (hn : 0 < n) (hturn : ¬d.turnLen abs n < n) :
    abs + n - 1 < (abs / fileOverlayChunkSize + 1) * fileOverlayChunkSize := by
  have hle : abs / fileOverlayChunkSize * fileOverlayChunkSize ≤ abs := chunkBase_le fileOverlayChunkSize abs
  have hlt : abs < abs / fileOverlayChunkSize * fileOverlayChunkSize + fileOverlayChunkSize :=
    lt_chunkBase_add chunk_pos abs
  have hlen := turnLen_eq d abs n
  rw [Nat.succ_mul]
  omega

/-- The chunks of a write: the first, and those of what is left after its turn. -/
theorem spannedChunks_turn (hn : 0 < n) (hin : abs + n ≤ d.len) :
    spannedChunks abs n = chunkBase fileOverlayChunkSize abs ::
      (if d.turnLen abs n < n then spannedChunks (abs + d.turnLen abs n) (n - d.turnLen abs n) else []) := by
  unfold spannedChunks
  rw [List.range'_succ, List.map_cons]
  refine congrArg _ ?_
  by_cases hturn : d.turnLen abs n < n
  · have hfull := turn_end hin hturn
    have hdiv : (abs + d.turnLen abs n) / fileOverlayChunkSize = abs / fileOverlayChunkSize + 1 := by
      rw [hfull, Nat.mul_div_cancel _ chunk_pos]
    have hlast : abs / fileOverlayChunkSize + 1 ≤ (abs + n - 1) / fileOverlayChunkSize := by
      rw [Nat.le_div_iff_mul_le chunk_pos, ← hfull]
      omega
    rw [if_pos hturn, hdiv, show abs + d.turnLen abs n + (n - d.turnLen abs n) - 1 = abs + n - 1 by omega]
    congr 2
    omega
  · have hlast : (abs + n - 1) / fileOverlayChunkSize = abs / fileOverlayChunkSize := by
      refine le_antisymm (Nat.lt_succ_iff.mp ((Nat.div_lt_iff_lt_mul chunk_pos).mpr (turn_last hn hturn))) ?_
      exact Nat.div_le_div_right (by omega)
    rw [if_neg hturn, hlast]
    simp

theorem lt_of_mem_rest_chunks {b : Nat} (hin : abs + n ≤ d.len) (hturn : d.turnLen abs n < n)
    (hb : b ∈ spannedChunks (abs + d.turnLen abs n) (n - d.turnLen abs n)) :
    chunkBase fileOverlayChunkSize abs < b ∧ abs + d.turnLen abs n ≤ b := by
  have hle : chunkBase fileOverlayChunkSize abs = abs / fileOverlayChunkSize * fileOverlayChunkSize := rfl
  have hfull := turn_end hin hturn
  unfold spannedChunks at hb
  rw [List.mem_map] at hb
  obtain ⟨q, hq, rfl⟩ := hb
  rw [List.mem_range'_1, hfull, Nat.mul_div_cancel _ chunk_pos] at hq
  have hmul : (abs / fileOverlayChunkSize + 1) * fileOverlayChunkSize ≤ q * fileOverlayChunkSize :=
    Nat.mul_le_mul_right _ hq.1
  have hc := chunk_pos
  rw [Nat.succ_mul] at hfull hmul
  omega

theorem not_refused_of_fits (hfit : d.Fits io abs n) (hn : 0 < n) (hin : abs + n ≤ d.len) : ¬d.Refused io abs n := by
  have hsp := spannedChunks_turn (d := d) hn hin
  have hle := chunkBase_le fileOverlayChunkSize abs
  rintro ⟨hmiss, hor⟩
  have hmem : chunkBase fileOverlayChunkSize abs ∈ spannedChunks abs n := by
    rw [hsp]
    exact List.mem_cons_self ..
  rcases hor with hquota | ⟨hpart, hfail⟩
  · have hq := hfit.quota
    unfold RawFileDisk.missingBytes at hq
    rw [hsp, List.filter_cons_of_pos (by rw [hmiss]; rfl), List.map_cons, List.sum_cons] at hq
    omega
  · rw [hfit.reads _ hmem hmiss (by omega)] at hfail
    cases hfail

/-- What is left of a write that fits still fits after a turn. -/
theorem fits_turn (hfit : d.Fits io abs n) (hn : 0 < n) (hin : abs + n ≤ d.len) (hturn : d.turnLen abs n < n)
    (hsame : d.SameFile d')
    (hcont : ∀ b, d'.overlay.contains b =
      (d.overlay.contains b || decide (b = chunkBase fileOverlayChunkSize abs)))
    (hcount : d'.overlayBytes = d.overlayBytes +
      (if d.overlay.contains (chunkBase fileOverlayChunkSize abs) then 0
        else d.spanAt (chunkBase fileOverlayChunkSize abs))) :
    d'.Fits io (abs + d.turnLen abs n) (n - d.turnLen abs n) := by
  have hsp := spannedChunks_turn (d := d) hn hin
  rw [if_pos hturn] at hsp
  have hspan : d'.spanAt = d.spanAt := by
    funext b
    unfold RawFileDisk.spanAt
    rw [hsame.2.1]
  have hkeep : ∀ b ∈ spannedChunks (abs + d.turnLen abs n) (n - d.turnLen abs n),
      d'.overlay.contains b = d.overlay.contains b := by
    intro b hb
    have hne : b ≠ chunkBase fileOverlayChunkSize abs := (lt_of_mem_rest_chunks hin hturn hb).1.ne'
    rw [hcont, decide_eq_false hne, Bool.or_false]
  have hfilter : (spannedChunks (abs + d.turnLen abs n) (n - d.turnLen abs n)).filter
        (fun b => !d'.overlay.contains b) =
      (spannedChunks (abs + d.turnLen abs n) (n - d.turnLen abs n)).filter (fun b => !d.overlay.contains b) :=
    List.filter_congr fun b hb => by rw [hkeep b hb]
  constructor
  · have hq := hfit.quota
    unfold RawFileDisk.missingBytes at hq ⊢
    rw [hfilter, hspan, hcount, hsame.2.2]
    rw [hsp, List.filter_cons] at hq
    cases hheld : d.overlay.contains (chunkBase fileOverlayChunkSize abs) with
    | true => simpa [hheld] using hq
    | false =>
      simp only [hheld, Bool.not_false, if_true, List.map_cons, List.sum_cons, Bool.false_eq_true, if_false] at hq ⊢
      omega
  · intro b hb hmiss hpart
    have hmem : b ∈ spannedChunks abs n := by
      rw [hsp]
      exact List.mem_cons_of_mem _ hb
    rw [hspan] at hpart
    refine hfit.reads b hmem (by rw [← hkeep b hb]; exact hmiss) ?_
    have := (lt_of_mem_rest_chunks hin hturn hb).2
    omega

/-- The loop completes a write that fits. -/
theorem writeChunks_done (io : HostIo) (hwf : d.Wf) (hin : abs + rest.length ≤ d.len)
    (hfit : rest ≠ [] → d.Fits io abs rest.length) {fuel : Nat} (hfuel : rest.length ≤ fuel) :
    (RawFileDisk.writeChunks io fuel d abs rest).2 = .done := by
  induction fuel generalizing d abs rest with
  | zero =>
    have hnil : rest = [] := List.length_eq_zero_iff.mp (by omega)
    subst hnil
    rfl
  | succ fuel ih =>
    cases rest with
    | nil => rfl
    | cons b rest =>
      have hne : b :: rest ≠ [] := List.cons_ne_nil b rest
      have hpos : 0 < (b :: rest).length := Nat.succ_pos _
      unfold RawFileDisk.writeChunks
      cases hc : d.writeChunk io abs (b :: rest) with
      | error e =>
        exact absurd ((writeChunk_error_iff hwf hne hin).mp ⟨e, hc⟩) (not_refused_of_fits (hfit hne) hpos hin)
      | ok r =>
        obtain ⟨d', n⟩ := r
        obtain ⟨hwf', hsame, hturn, hn, hnle, -, hcont, hcount⟩ := writeChunk_spec hwf hne hin hc
        have hdrop : ((b :: rest).drop n).length = (b :: rest).length - n := List.length_drop
        refine ih hwf' (by rw [hsame.2.1, hdrop]; omega) (fun hrest => ?_) (by omega)
        have hlt : n < (b :: rest).length := by
          by_contra hge
          exact hrest (List.drop_eq_nil_of_le (by omega))
        rw [hdrop]
        subst hturn
        exact fits_turn (hfit hne) hpos hin hlt hsame hcont hcount

/-- **A write that is not torn**: its bytes are all there, or the disk is untouched. -/
theorem writeAt_untorn (hwf : d.Wf) (hin : offset + data.length ≤ d.len) (h : d.Untorn io offset data.length) :
    ((d.writeAt io offset data).2 = .done ∧
      ∀ i, (d.writeAt io offset data).1.byteAt i =
        if offset ≤ i ∧ i < offset + data.length then data[i - offset]? else d.byteAt i) ∨
    ((∃ e, (d.writeAt io offset data).2 = .failed e) ∧ (d.writeAt io offset data).1 = d) := by
  obtain ⟨done, -, -, -, -, hall, hbytes⟩ := writeAt_spec io hwf hin
  have hdone : (d.writeAt io offset data).2 = .done →
      ∀ i, (d.writeAt io offset data).1.byteAt i =
        if offset ≤ i ∧ i < offset + data.length then data[i - offset]? else d.byteAt i := by
    intro hd
    rw [← hall hd]
    exact hbytes
  cases hdata : data with
  | nil =>
    subst hdata
    exact Or.inl ⟨rfl, hdone rfl⟩
  | cons b rest =>
    have hne : data ≠ [] := by rw [hdata]; exact List.cons_ne_nil b rest
    have hpos : 0 < data.length := List.length_pos_iff.mpr hne
    have hrun : d.writeAt io offset data = RawFileDisk.writeChunks io data.length d offset data := by
      rw [RawFileDisk.writeAt, if_neg (by simpa using hne), if_neg (by rw [hwf.readOnly]; decide)]
    rw [← hdata]
    rcases h with h0 | hfit | href
    · omega
    · have hd : (d.writeAt io offset data).2 = .done := by
        rw [hrun]
        exact writeChunks_done io hwf hin (fun _ => hfit) le_rfl
      exact Or.inl ⟨hd, hdone hd⟩
    · obtain ⟨e, he⟩ := (writeChunk_error_iff hwf hne hin).mpr href
      refine Or.inr ⟨⟨e, ?_⟩, ?_⟩
      · rw [hrun, hdata]
        rw [hdata] at he
        simp only [RawFileDisk.writeChunks, List.length_cons, he]
      · rw [hrun, hdata]
        rw [hdata] at he
        simp only [RawFileDisk.writeChunks, List.length_cons, he]

/-! ## Runs -/

/-- A write of the guest with the host calls it meets. -/
structure DiskWrite where
  io : HostIo
  offset : Nat
  data : List UInt8

/-- Runs of a read-only disk on `image` whose writes satisfy `ok`, with the flat copy that takes the writes that
succeeded. -/
inductive OverlayRun (image : List UInt8) (quota : Nat) (ok : RawFileDisk → DiskWrite → Prop) :
    RawFileDisk → List UInt8 → Prop
  | start : OverlayRun image quota ok (RawFileDisk.rawFile image quota false) image
  | write {d : RawFileDisk} {flat : List UInt8} {w : DiskWrite} :
    OverlayRun image quota ok d flat → w.offset + w.data.length ≤ image.length → ok d w →
    OverlayRun image quota ok (d.writeAt w.io w.offset w.data).1
      (if (d.writeAt w.io w.offset w.data).2 = .done then splice flat w.offset w.data else flat)

section Runs

variable {image flat : List UInt8} {quota : Nat} {ok : RawFileDisk → DiskWrite → Prop}

theorem overlay_run_wf (h : OverlayRun image quota ok d flat) :
    d.Wf ∧ (RawFileDisk.rawFile image quota false).SameFile d := by
  induction h with
  | start => exact ⟨rawFile_wf image quota, SameFile.refl _⟩
  | @write d flat w _ hin _ ih =>
    obtain ⟨hwf, hsame⟩ := ih
    obtain ⟨-, -, hwf', hsame', -⟩ := writeAt_spec w.io hwf (by rw [hsame.2.1]; exact hin)
    exact ⟨hwf', SameFile.trans hsame hsame'⟩

/-- A write for which the flat copy follows the disk. -/
def untornWrite (d : RawFileDisk) (w : DiskWrite) : Prop := d.Untorn w.io w.offset w.data.length

theorem overlay_run_flat (h : OverlayRun image quota untornWrite d flat) :
    flat.length = image.length ∧ ∀ i, flat[i]? = d.byteAt i := by
  induction h with
  | start => exact ⟨rfl, fun i => (ChunkMap.elemAt_empty image).symm⟩
  | @write d flat w hrun hin hok ih =>
    obtain ⟨hlen, hbytes⟩ := ih
    obtain ⟨hwf, hsame⟩ := overlay_run_wf hrun
    have hin' : w.offset + w.data.length ≤ d.len := by rw [hsame.2.1]; exact hin
    rcases writeAt_untorn hwf hin' hok with ⟨hdone, hnew⟩ | ⟨⟨e, hfail⟩, hd⟩
    · rw [if_pos hdone]
      refine ⟨by rw [length_splice (by omega), hlen], fun i => ?_⟩
      rw [getElem?_splice (by omega), hnew i, hbytes i]
    · rw [if_neg (by rw [hfail]; simp), hd]
      exact ⟨hlen, hbytes⟩

/-- **The overlay refines a flat array**: along a run whose writes go through whole or are refused before their first
byte, every read returns what the flat copy holds; the backing file is the image, and the overlay's count is the sum of
its chunk lengths, under the quota. -/
theorem overlay_run_refines (h : OverlayRun image quota untornWrite d flat) :
    d.file = image ∧ d.overlayBytes = d.overlay.totalLength ∧ d.overlayBytes ≤ quota ∧
      ∀ io offset n, offset + n ≤ image.length → io.readFails offset = false →
        d.readAt io offset n = .ok (slice flat offset n) := by
  obtain ⟨hwf, hsame⟩ := overlay_run_wf h
  obtain ⟨-, hbytes⟩ := overlay_run_flat h
  refine ⟨hsame.1, hwf.counted, hwf.underQuota.trans_eq hsame.2.2, fun io offset n hin hio => ?_⟩
  obtain ⟨bytes, hread, hlen, hget⟩ := readAt_eq hwf (by rw [hsame.2.1]; exact hin) hio
  rw [hread]
  refine congrArg _ (eq_slice_of_getElem? hlen fun i hi => ?_)
  rw [hget i hi, hbytes]

/-- A write over the end of a chunk of a fresh disk, read back with the bytes around it. -/
theorem overlay_run_refines_write :
    ((RawFileDisk.rawFile (List.replicate 4098 0) 8192 false).writeAt HostIo.fine 4095
      [7, 8]).1.readAt HostIo.fine 4094 4 =
      .ok [0, 7, 8, 0] := by
  have hfit : untornWrite (RawFileDisk.rawFile (List.replicate 4098 0) 8192 false) ⟨HostIo.fine, 4095, [7, 8]⟩ :=
    Or.inr (Or.inl ⟨by decide +kernel, fun _ _ _ _ => rfl⟩)
  have hstart : OverlayRun (List.replicate 4098 0) 8192 untornWrite
      (RawFileDisk.rawFile (List.replicate 4098 0) 8192 false) (List.replicate 4098 0) := OverlayRun.start
  have hrun := OverlayRun.write hstart (by decide +kernel) hfit
  rw [(overlay_run_refines hrun).2.2.2 HostIo.fine 4094 4 (by decide +kernel) rfl]
  decide +kernel

/-- A write over two chunks under a quota of one is refused, and its first byte stays. -/
theorem torn_write_is_read :
    let image := List.replicate 4097 (0 : UInt8)
    let d := (RawFileDisk.rawFile image 4096 false).writeAt HostIo.fine 4095 [1, 1]
    d.2 = .failed (.outOfMemory 4097 4096) ∧ d.1.readAt HostIo.fine 4095 1 = .ok [1] ∧
      slice image 4095 1 = [0] := by
  decide +kernel

end Runs

end BridgeVm.Nvme
