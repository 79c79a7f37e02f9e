import BridgeVm.Nvme.DiskOverlay

/-!
# What a refused overlay write leaves behind (`nvme/disk_overlay.rs`)

- `Room`: the prefixes that the write loop gets past, from the state before the write;
- `Accepted`: the disk after the loop accepted a prefix; prefixes compose (`Accepted.trans`, `Accepted.room_add`);
- `writeChunks_accepts`: the loop accepts the longest prefix there is room for, also past the end of the image;
- `refused_write_unchanged_iff`: when a write that fails leaves the disk as it was.
-/

namespace BridgeVm.Nvme

open Lib

variable {d d' d₁ d₂ : RawFileDisk} {io : HostIo} {abs offset n k m i b : Nat} {rest data : List UInt8}

/-! ## The chunks of a prefix -/

/-- Bases of the chunks that `k` bytes at `abs` touch. -/
def touchedChunks (abs k : Nat) : List Nat := if k = 0 then [] else spannedChunks abs k

theorem mem_touchedChunks :
    b ∈ touchedChunks abs k ↔ 0 < k ∧ b % fileOverlayChunkSize = 0 ∧ abs < b + fileOverlayChunkSize ∧
    b < abs + k := by
  unfold touchedChunks
  by_cases hk : k = 0
  · rw [if_pos hk]
    simp [hk]
  · rw [if_neg hk]
    unfold spannedChunks fileOverlayChunkSize
    rw [List.mem_map]
    constructor
    · rintro ⟨q, hq, rfl⟩
      rw [List.mem_range'_1] at hq
      omega
    · rintro ⟨-, hmod, hlt, hlt'⟩
      refine ⟨b / 4096, ?_, by omega⟩
      rw [List.mem_range'_1]
      omega

/-- The chunks of a longer prefix: those of the prefix, and new ones. What follows the prefix touches the new ones, and
perhaps the chunk the prefix ends in. -/
theorem touchedChunks_add (abs k m : Nat) : ∃ shared new, touchedChunks abs (k + m) = touchedChunks abs k ++ new ∧
    touchedChunks (abs + k) m = shared ++ new ∧ (∀ b ∈ shared, b ∈ touchedChunks abs k) ∧
    ∀ b ∈ new, b ∉ touchedChunks abs k := by
  rcases Nat.eq_zero_or_pos k with rfl | hk
  · exact ⟨[], touchedChunks abs m, by simp [touchedChunks], rfl, nofun, by simp [touchedChunks]⟩
  rcases Nat.eq_zero_or_pos m with rfl | hm
  · exact ⟨[], [], (List.append_nil _).symm, rfl, nofun, nofun⟩
  obtain ⟨s, hs⟩ : ∃ s, s = abs / fileOverlayChunkSize := ⟨_, rfl⟩
  obtain ⟨t, ht⟩ : ∃ t, t = (abs + k - 1) / fileOverlayChunkSize := ⟨_, rfl⟩
  obtain ⟨e, he⟩ : ∃ e, e = (abs + k + m - 1) / fileOverlayChunkSize := ⟨_, rfl⟩
  have hst : s ≤ t := hs ▸ ht ▸ Nat.div_le_div_right (by omega)
  have hte : t ≤ e := ht ▸ he ▸ Nat.div_le_div_right (by omega)
  -- the bytes that follow start in the chunk the prefix ends in, or in the next one
  have hu : (abs + k) / fileOverlayChunkSize = t ∨ (abs + k) / fileOverlayChunkSize = t + 1 ∧ t + 1 ≤ e := by
    unfold fileOverlayChunkSize at ht he ⊢
    omega
  have hlong : touchedChunks abs (k + m) = (List.range' s (e - s + 1)).map (· * fileOverlayChunkSize) := by
    unfold touchedChunks spannedChunks
    rw [if_neg (by omega), ← hs, ← Nat.add_assoc, ← he]
  have hshort : touchedChunks abs k = (List.range' s (t - s + 1)).map (· * fileOverlayChunkSize) := by
    unfold touchedChunks spannedChunks
    rw [if_neg (by omega), ← hs, ← ht]
  have hnew : ∀ b ∈ (List.range' (t + 1) (e - t)).map (· * fileOverlayChunkSize), b ∉ touchedChunks abs k := by
    intro b hb hmem
    obtain ⟨q, hq, rfl⟩ := List.mem_map.1 hb
    rw [List.mem_range'_1] at hq
    have hlt := (mem_touchedChunks.1 hmem).2.2.2
    unfold fileOverlayChunkSize at ht hlt
    omega
  have hsplit : List.range' s (e - s + 1) = List.range' s (t - s + 1) ++ List.range' (t + 1) (e - t) := by
    have hstart : t + 1 = s + (t - s + 1) := by omega
    have hlen : e - s + 1 = t - s + 1 + (e - t) := by omega
    rw [hlen, hstart, ← List.range'_append_1]
  rcases hu with hu | ⟨hu, hle⟩
  · refine ⟨[t * fileOverlayChunkSize], _, by rw [hlong, hshort, hsplit, List.map_append], ?_, ?_, hnew⟩
    · unfold touchedChunks spannedChunks
      rw [if_neg (by omega), hu, ← he, List.range'_succ, List.map_cons]
      rfl
    · intro b hb
      rw [List.mem_singleton] at hb
      subst hb
      rw [hshort]
      refine List.mem_map.2 ⟨t, ?_, rfl⟩
      rw [List.mem_range'_1]
      omega
  · refine ⟨[], _, by rw [hlong, hshort, hsplit, List.map_append], ?_, nofun, hnew⟩
    unfold touchedChunks spannedChunks
    rw [if_neg (by omega), hu, ← he, List.nil_append, show e - (t + 1) + 1 = e - t by omega]

/-! ## Prefixes there is room for -/

/-- Overlay bytes that a prefix of `k` bytes would add. -/
def RawFileDisk.prefixBytes (d : RawFileDisk) (abs k : Nat) : Nat :=
  (((touchedChunks abs k).filter fun b => !d.overlay.contains b).map d.spanAt).sum

/-- The loop of an `n`-byte write at `abs` gets past its first `k` bytes: they lie in the image, the quota has room for
their chunks, and the backing reads that the write needs for these succeed. -/
structure RawFileDisk.Room (d : RawFileDisk) (io : HostIo) (abs n k : Nat) : Prop where
  inImage : k ≤ d.len - abs
  quota : d.overlayBytes + d.prefixBytes abs k ≤ d.overlayQuotaBytes
  reads : ∀ b ∈ touchedChunks abs k, d.overlay.contains b = false →
    (b < abs ∨ abs + n < b + d.spanAt b) → io.readFails b = false

theorem room_zero (hwf : d.Wf) : d.Room io abs n 0 :=
  ⟨Nat.zero_le _, hwf.underQuota, nofun⟩

theorem RawFileDisk.Room.of_le (h : d.Room io abs n k) (hm : m ≤ k) : d.Room io abs n m := by
  obtain ⟨j, rfl⟩ := Nat.exists_eq_add_of_le hm
  obtain ⟨shared, new, hlong, -, -, -⟩ := touchedChunks_add abs m j
  refine ⟨hm.trans h.inImage, le_trans ?_ h.quota,
    fun b hb => h.reads b (by rw [hlong]; exact List.mem_append_left _ hb)⟩
  unfold RawFileDisk.prefixBytes
  rw [hlong, List.filter_append, List.map_append, List.sum_append]
  omega

/-- What the loop did when it got past `k` bytes of `rest`. -/
structure RawFileDisk.Accepted (d d' : RawFileDisk) (abs : Nat) (rest : List UInt8) (k : Nat) : Prop where
  wf : d'.Wf
  same : d.SameFile d'
  bytes : ∀ i, d'.byteAt i = if abs ≤ i ∧ i < abs + k then rest[i - abs]? else d.byteAt i
  held : ∀ b, d'.overlay.contains b = (d.overlay.contains b || decide (b ∈ touchedChunks abs k))
  counted : d'.overlayBytes = d.overlayBytes + d.prefixBytes abs k

theorem accepted_zero (hwf : d.Wf) (rest : List UInt8) : d.Accepted d abs rest 0 where
  wf := hwf
  same := SameFile.refl d
  bytes i := by rw [if_neg (by omega)]
  held b := by simp [touchedChunks]
  counted := rfl

theorem RawFileDisk.Accepted.prefixBytes_add (h : d.Accepted d' abs rest k) (m : Nat) :
    d.prefixBytes abs (k + m) = d.prefixBytes abs k + d'.prefixBytes (abs + k) m := by
  obtain ⟨shared, new, hlong, hrest, hshared, hnew⟩ := touchedChunks_add abs k m
  have hspan : d'.spanAt = d.spanAt := by
    funext b
    unfold RawFileDisk.spanAt
    rw [h.same.2.1]
  have hold : shared.filter (fun b => !d'.overlay.contains b) = [] := by
    refine List.filter_eq_nil_iff.2 fun b hb => ?_
    rw [h.held, decide_eq_true (hshared b hb)]
    simp
  have hfresh : new.filter (fun b => !d'.overlay.contains b) = new.filter fun b => !d.overlay.contains b := by
    refine List.filter_congr fun b hb => ?_
    rw [h.held, decide_eq_false (hnew b hb), Bool.or_false]
  unfold RawFileDisk.prefixBytes
  rw [hlong, hrest, List.filter_append, List.filter_append, hold, hfresh, hspan, List.map_append, List.sum_append,
    List.nil_append]

theorem ite_prefix_add {x : Option UInt8} : (if abs + k ≤ i ∧ i < abs + k + m then (rest.drop k)[i - (abs + k)]?
      else if abs ≤ i ∧ i < abs + k then rest[i - abs]? else x) =
    if abs ≤ i ∧ i < abs + (k + m) then rest[i - abs]? else x := by
  by_cases hlast : abs + k ≤ i ∧ i < abs + k + m
  · rw [if_pos hlast, if_pos (by omega), List.getElem?_drop]
    congr 1
    omega
  · rw [if_neg hlast]
    by_cases hfirst : abs ≤ i ∧ i < abs + k
    · rw [if_pos hfirst, if_pos (by omega)]
    · rw [if_neg hfirst, if_neg (by omega)]

theorem RawFileDisk.Accepted.trans (h : d.Accepted d₁ abs rest k)
    (h' : d₁.Accepted d₂ (abs + k) (rest.drop k) m) :
    d.Accepted d₂ abs rest (k + m) where
  wf := h'.wf
  same := SameFile.trans h.same h'.same
  bytes i := by
    rw [h'.bytes i, h.bytes i, ite_prefix_add]
  held b := by
    obtain ⟨shared, new, hlong, hrest, hshared, -⟩ := touchedChunks_add abs k m
    rw [h'.held, h.held, Bool.or_assoc, hlong, hrest]
    congr 1
    rw [← Bool.decide_or]
    refine decide_eq_decide.2 ?_
    rw [List.mem_append, List.mem_append]
    have hold := hshared b
    tauto
  counted := by rw [h'.counted, h.counted, h.prefixBytes_add, Nat.add_assoc]

/-- There is room for more than what was accepted when there is room for the rest now. -/
theorem RawFileDisk.Accepted.room_add (h : d.Accepted d' abs rest k) (hroom : d.Room io abs n k) (hk : k ≤ n) :
    d.Room io abs n (k + m) ↔ d'.Room io (abs + k) (n - k) m := by
  obtain ⟨shared, new, hlong, hrest, hshared, hnew⟩ := touchedChunks_add abs k m
  have hlen := h.same.2.1
  have hin := hroom.inImage
  have hcount := h.prefixBytes_add m
  have hbytes := h.counted
  have hquota := h.same.2.2
  have hspan : ∀ b, d'.spanAt b = d.spanAt b := fun b => by
    unfold RawFileDisk.spanAt
    rw [hlen]
  have hfresh : ∀ b ∈ new, d'.overlay.contains b = d.overlay.contains b := fun b hb => by
    rw [h.held, decide_eq_false (hnew b hb), Bool.or_false]
  constructor
  · intro hfull
    refine ⟨by have := hfull.inImage; omega, by have := hfull.quota; omega, fun b hb hmiss hpart => ?_⟩
    rw [hrest, List.mem_append] at hb
    rcases hb with hb | hb
    · rw [h.held, decide_eq_true (hshared b hb), Bool.or_true] at hmiss
      cases hmiss
    · refine hfull.reads b (by rw [hlong]; exact List.mem_append_right _ hb) (by rw [← hfresh b hb]; exact hmiss) ?_
      -- a new chunk starts past the prefix
      have hmem : b ∈ touchedChunks (abs + k) m := by rw [hrest]; exact List.mem_append_right _ hb
      obtain ⟨-, hmod, hstart, -⟩ := mem_touchedChunks.1 hmem
      have hold : ¬(0 < k ∧ b < abs + k) :=
        fun ⟨hpos, hlt⟩ => hnew b hb (mem_touchedChunks.2 ⟨hpos, hmod, by omega, hlt⟩)
      rw [hspan] at hpart
      omega
  · intro htail
    refine ⟨by have := htail.inImage; omega, by have := htail.quota; omega, fun b hb hmiss hpart => ?_⟩
    rw [hlong, List.mem_append] at hb
    rcases hb with hb | hb
    · exact hroom.reads b hb hmiss hpart
    · refine htail.reads b (by rw [hrest]; exact List.mem_append_right _ hb) (by rw [hfresh b hb]; exact hmiss) ?_
      rw [hspan]
      omega

/-! ## One turn -/

theorem touchedChunks_turn (hk : 0 < k) (hturn : k ≤ d.turnLen abs n) :
    touchedChunks abs k = [chunkBase fileOverlayChunkSize abs] := by
  have hlast : (abs + k - 1) / fileOverlayChunkSize - abs / fileOverlayChunkSize + 1 = 1 := by
    rw [turnLen_eq] at hturn
    unfold fileOverlayChunkSize at hturn ⊢
    omega
  unfold touchedChunks spannedChunks
  rw [if_neg (by omega), hlast]
  rfl

theorem prefixBytes_turn (hk : 0 < k) (hturn : k ≤ d.turnLen abs n) : d.prefixBytes abs k =
    if d.overlay.contains (chunkBase fileOverlayChunkSize abs) then 0
      else d.spanAt (chunkBase fileOverlayChunkSize abs) := by
  unfold RawFileDisk.prefixBytes
  rw [touchedChunks_turn hk hturn]
  cases hc : d.overlay.contains (chunkBase fileOverlayChunkSize abs) <;> simp [hc]

/-- There is room for the first turn of a write when its chunk is not refused. -/
theorem room_turn_iff (hwf : d.Wf) (habs : abs < d.len) (hk : 0 < k) (hturn : k ≤ d.turnLen abs n) :
    d.Room io abs n k ↔ ¬d.Refused io abs n := by
  have hle := chunkBase_le fileOverlayChunkSize abs
  have hspan : d.spanAt (chunkBase fileOverlayChunkSize abs) =
      min (d.len - chunkBase fileOverlayChunkSize abs) fileOverlayChunkSize := rfl
  have htouch := touchedChunks_turn hk hturn
  have hgrows := prefixBytes_turn hk hturn
  unfold RawFileDisk.turnLen at hturn
  unfold RawFileDisk.Refused
  dsimp only at hturn ⊢
  constructor
  · rintro hroom ⟨hmiss, hor⟩
    rcases hor with hquota | ⟨hpart, hfail⟩
    · have hq := hroom.quota
      rw [hgrows, hmiss, if_neg Bool.false_ne_true] at hq
      omega
    · have hok := hroom.reads (chunkBase fileOverlayChunkSize abs)
        (by rw [htouch]; exact List.mem_singleton_self _) hmiss
        (by omega)
      rw [hok] at hfail
      cases hfail
  · intro hnot
    refine ⟨by omega, ?_, fun b hb hmiss hpart => ?_⟩
    · rw [hgrows]
      cases hheld : d.overlay.contains (chunkBase fileOverlayChunkSize abs) with
      | true => exact hwf.underQuota
      | false => exact Nat.not_lt.1 fun hquota => hnot ⟨hheld, .inl hquota⟩
    · rw [htouch, List.mem_singleton] at hb
      subst hb
      by_contra hfail
      exact hnot ⟨hmiss, .inr ⟨by omega, by simpa using hfail⟩⟩

/-- Only the part inside the image decides a turn that starts there. -/
theorem writeChunk_take (habs : abs < d.len) (rest : List UInt8) :
    d.writeChunk io abs rest = d.writeChunk io abs (rest.take (d.len - abs)) := by
  have hlen := chunkLen_eq (d := d) habs
  have hspan' : d.spanAt (chunkBase fileOverlayChunkSize abs) =
      min (d.len - chunkBase fileOverlayChunkSize abs) fileOverlayChunkSize := rfl
  have hle := chunkBase_le fileOverlayChunkSize abs
  have hcopy : min (rest.take (d.len - abs)).length
        (d.spanAt (chunkBase fileOverlayChunkSize abs) - (abs - chunkBase fileOverlayChunkSize abs)) =
      min rest.length (d.spanAt (chunkBase fileOverlayChunkSize abs) - (abs - chunkBase fileOverlayChunkSize abs)) := by
    rw [List.length_take]
    omega
  unfold RawFileDisk.writeChunk
  rw [show abs / fileOverlayChunkSize * fileOverlayChunkSize = chunkBase fileOverlayChunkSize abs from rfl]
  dsimp only
  rw [hlen]
  dsimp only
  have hinside : min (min rest.length
    (d.spanAt (chunkBase fileOverlayChunkSize abs) - (abs - chunkBase fileOverlayChunkSize abs)))
      (d.len - abs) = min rest.length
        (d.spanAt (chunkBase fileOverlayChunkSize abs) - (abs - chunkBase fileOverlayChunkSize abs)) := by
    omega
  rw [hcopy, List.take_take, hinside]

theorem refused_take (habs : abs < d.len) : d.Refused io abs (rest.take (d.len - abs)).length ↔
    d.Refused io abs rest.length := by
  have hle := chunkBase_le fileOverlayChunkSize abs
  have hspan : d.spanAt (chunkBase fileOverlayChunkSize abs) =
      min (d.len - chunkBase fileOverlayChunkSize abs) fileOverlayChunkSize := rfl
  rw [List.length_take]
  unfold RawFileDisk.Refused
  dsimp only
  refine and_congr_right fun _ => or_congr_right (and_congr_left fun _ => ?_)
  omega

theorem writeChunk_error (hwf : d.Wf) (hne : rest ≠ []) (habs : abs < d.len) {e : IoError}
    (h : d.writeChunk io abs rest = .error e) : ¬d.Room io abs rest.length 1 := by
  have hlen : (rest.take (d.len - abs)).length = min (d.len - abs) rest.length := List.length_take
  have hpos : 0 < rest.length := List.length_pos_iff.2 hne
  rw [writeChunk_take habs] at h
  have href := (writeChunk_error_iff hwf (List.length_pos_iff.1 (by omega)) (by omega)).1 ⟨e, h⟩
  rw [refused_take habs] at href
  have hspan := lt_chunkBase_add_span (n := d.len) chunk_pos habs
  have hturn : 1 ≤ d.turnLen abs rest.length := by
    change 1 ≤ min rest.length (chunkSpan fileOverlayChunkSize d.len (chunkBase fileOverlayChunkSize abs) -
      (abs - chunkBase fileOverlayChunkSize abs))
    have hle := chunkBase_le fileOverlayChunkSize abs
    omega
  rw [room_turn_iff hwf habs Nat.one_pos hturn, not_not]
  exact href

/-- A turn inside the image that does not fail accepts the bytes it copies. -/
theorem writeChunk_accepted (hwf : d.Wf) (hne : rest ≠ []) (habs : abs < d.len)
    (h : d.writeChunk io abs rest = .ok (d', m)) :
    0 < m ∧ m ≤ rest.length ∧ d.Accepted d' abs rest m ∧ d.Room io abs rest.length m := by
  have hlen : (rest.take (d.len - abs)).length = min (d.len - abs) rest.length := List.length_take
  have hpos : 0 < rest.length := List.length_pos_iff.2 hne
  have hne' : rest.take (d.len - abs) ≠ [] := List.length_pos_iff.1 (by omega)
  have hin : abs + (rest.take (d.len - abs)).length ≤ d.len := by omega
  rw [writeChunk_take habs] at h
  obtain ⟨hwf', hsame, hturn, hm, hmle, hbytes, hheld, hcount⟩ := writeChunk_spec hwf hne' hin h
  have hspan : d.spanAt (chunkBase fileOverlayChunkSize abs) =
      min (d.len - chunkBase fileOverlayChunkSize abs) fileOverlayChunkSize := rfl
  have hle := chunkBase_le fileOverlayChunkSize abs
  have hturn' : m ≤ d.turnLen abs rest.length := by
    rw [hturn]
    unfold RawFileDisk.turnLen
    dsimp only
    omega
  refine ⟨hm, by omega, ⟨hwf', hsame, fun i => ?_, fun b => ?_, ?_⟩, ?_⟩
  · rw [hbytes i]
    split
    · rw [List.getElem?_take_of_lt (by omega)]
    · rfl
  · rw [hheld b, touchedChunks_turn hm hturn']
    simp
  · rw [hcount, prefixBytes_turn hm hturn']
  · rw [room_turn_iff hwf habs hm hturn']
    intro href
    obtain ⟨e, he⟩ := (writeChunk_error_iff hwf hne' hin).2 ((refused_take habs).2 href)
    rw [h] at he
    cases he

/-! ## Past the image -/

/-- A turn that starts at or past the image's end fails, or holds its chunk and copies nothing. -/
theorem writeChunk_past (io : HostIo) (hpast : d.len ≤ abs) (rest : List UInt8) :
    (∃ e, d.writeChunk io abs rest = .error e ∧ (chunkBase fileOverlayChunkSize abs < d.len →
        d.overlay.contains (chunkBase fileOverlayChunkSize abs) = false)) ∨
      chunkBase fileOverlayChunkSize abs < d.len ∧ ∃ d', d.writeChunk io abs rest = .ok (d', 0) ∧
      d'.len = d.len ∧
        d'.overlay.contains (chunkBase fileOverlayChunkSize abs) = true := by
  obtain ⟨base, hbase⟩ : ∃ base, base = chunkBase fileOverlayChunkSize abs := ⟨_, rfl⟩
  unfold RawFileDisk.writeChunk RawFileDisk.chunkLen
  rw [← hbase, show abs / fileOverlayChunkSize * fileOverlayChunkSize = base from hbase.symm]
  dsimp only
  by_cases hin : base < d.len
  · have hzero : min rest.length (min (d.len - base) fileOverlayChunkSize - (abs - base)) = 0 := by omega
    rw [if_neg (by omega)]
    dsimp only
    rw [hzero]
    cases hhold : d.holdChunk io base (min (d.len - base) fileOverlayChunkSize) (abs - base) 0 with
    | error e =>
      refine .inl ⟨e, rfl, fun _ => ?_⟩
      unfold RawFileDisk.holdChunk at hhold
      rw [Std.TreeMap.contains_eq_isSome_getElem?]
      cases hc : d.overlay[base]? with
      | none => rfl
      | some chunk =>
        rw [hc] at hhold
        cases hhold
    | ok r =>
      refine .inr ⟨hin, _, rfl, rfl, ?_⟩
      rw [Std.TreeMap.contains_insert]
      simp
  · rw [if_pos (by omega)]
    exact .inl ⟨_, rfl, fun h => absurd h hin⟩

theorem writeChunks_stuck (io : HostIo) (hpast : d.len ≤ abs) (hbase : chunkBase fileOverlayChunkSize abs < d.len)
    (hheld : d.overlay.contains (chunkBase fileOverlayChunkSize abs) = true) (hne : rest ≠ []) (fuel : Nat) :
    (RawFileDisk.writeChunks io fuel d abs rest).2 = .stuck := by
  obtain ⟨b, rest, rfl⟩ := List.exists_cons_of_ne_nil hne
  induction fuel generalizing d with
  | zero => rfl
  | succ fuel ih =>
    unfold RawFileDisk.writeChunks
    obtain ⟨e, -, hmiss⟩ | ⟨-, d', hok, hlen, hheld'⟩ := writeChunk_past io hpast (b :: rest)
    · rw [hmiss hbase] at hheld
      cases hheld
    · rw [hok]
      exact ih (hlen ▸ hpast) (hlen ▸ hbase) hheld'

/-- At or past the image's end the loop fails at once, or never ends; at the end of the image, it ends only when the
chunk there is not held. -/
theorem writeChunks_past (io : HostIo) (hpast : d.len ≤ abs) (hne : rest ≠ []) {fuel : Nat} (hfuel : 0 < fuel) :
    (∃ e, RawFileDisk.writeChunks io fuel d abs rest = (d, .failed e) ∧
      (chunkBase fileOverlayChunkSize abs < d.len →
        d.overlay.contains (chunkBase fileOverlayChunkSize abs) = false)) ∨
      (RawFileDisk.writeChunks io fuel d abs rest).2 = .stuck ∧ chunkBase fileOverlayChunkSize abs < d.len := by
  obtain ⟨b, rest, rfl⟩ := List.exists_cons_of_ne_nil hne
  obtain ⟨fuel, rfl⟩ : ∃ f, fuel = f + 1 := ⟨fuel - 1, by omega⟩
  unfold RawFileDisk.writeChunks
  obtain ⟨e, he, hmiss⟩ | ⟨hbase, d', hok, hlen, hheld⟩ := writeChunk_past io hpast (b :: rest)
  · rw [he]
    exact .inl ⟨e, rfl, hmiss⟩
  · rw [hok]
    exact .inr ⟨writeChunks_stuck io (hlen ▸ hpast) (hlen ▸ hbase) hheld (List.cons_ne_nil b rest) fuel, hbase⟩

/-! ## The loop -/

/-- How the loop ends when it accepted `k` of `n` bytes at `abs`: it is done when these are all, and never ends when it
came to the end of the image inside a chunk that is held. -/
structure Ending (d : RawFileDisk) (abs n k : Nat) (r : RawFileDisk × WriteResult) : Prop where
  done : r.2 = .done ↔ k = n
  stuck : r.2 = .stuck → d.len ≤ abs + k ∧ chunkBase fileOverlayChunkSize (abs + k) < d.len
  failed : (∃ e, r.2 = .failed e) → d.len ≤ abs + k → chunkBase fileOverlayChunkSize (abs + k) < d.len →
    r.1.overlay.contains (chunkBase fileOverlayChunkSize (abs + k)) = false

/-- **The write loop** accepts the longest prefix there is room for. -/
theorem writeChunks_accepts (io : HostIo) (hwf : d.Wf) (abs : Nat) (rest : List UInt8) {fuel : Nat}
    (hfuel : rest.length ≤ fuel) :
    ∃ k ≤ rest.length, d.Room io abs rest.length k ∧ (k < rest.length → ¬d.Room io abs rest.length (k + 1)) ∧
      ((RawFileDisk.writeChunks io fuel d abs rest).2 ≠ .stuck →
        d.Accepted (RawFileDisk.writeChunks io fuel d abs rest).1 abs rest k) ∧
      Ending d abs rest.length k (RawFileDisk.writeChunks io fuel d abs rest) := by
  induction fuel generalizing d abs rest with
  | zero =>
    obtain rfl := List.length_eq_zero_iff.1 (Nat.le_zero.1 hfuel)
    exact ⟨0, le_rfl, room_zero hwf, (by rintro ⟨⟩), fun _ => accepted_zero hwf _,
      ⟨by simp [RawFileDisk.writeChunks], (by rintro ⟨⟩), by simp [RawFileDisk.writeChunks]⟩⟩
  | succ fuel ih =>
    rcases eq_or_ne rest [] with rfl | hne
    · exact ⟨0, le_rfl, room_zero hwf, (by rintro ⟨⟩), fun _ => accepted_zero hwf _,
        ⟨by simp [RawFileDisk.writeChunks], (by rintro ⟨⟩), by simp [RawFileDisk.writeChunks]⟩⟩
    have hpos := List.length_pos_iff.2 hne
    by_cases hpast : d.len ≤ abs
    · -- nothing can be accepted any more
      have hnone : 0 < rest.length → ¬d.Room io abs rest.length (0 + 1) := fun _ hroom => by
        have := hroom.inImage
        omega
      obtain ⟨e, he, hmiss⟩ | ⟨hstuck, hbase⟩ := writeChunks_past io hpast hne (Nat.succ_pos fuel)
      · rw [he]
        exact ⟨0, hpos.le, room_zero hwf, hnone, fun _ => accepted_zero hwf _,
          ⟨⟨(by rintro ⟨⟩), fun h => absurd h hpos.ne⟩, (by rintro ⟨⟩), fun _ _ => hmiss⟩⟩
      · refine ⟨0, hpos.le, room_zero hwf, hnone, fun h => absurd hstuck h,
          ⟨?_, fun _ => ⟨hpast, hbase⟩, ?_⟩⟩
        · rw [hstuck]
          exact ⟨(by rintro ⟨⟩), fun h => absurd h hpos.ne⟩
        · rw [hstuck]
          rintro ⟨e, he⟩
          cases he
    · have habs : abs < d.len := Nat.not_le.1 hpast
      obtain ⟨b, rest, rfl⟩ := List.exists_cons_of_ne_nil hne
      unfold RawFileDisk.writeChunks
      cases hc : d.writeChunk io abs (b :: rest) with
      | error e =>
        exact ⟨0, hpos.le, room_zero hwf, fun _ => writeChunk_error hwf hne habs hc, fun _ => accepted_zero hwf _,
          ⟨⟨(by rintro ⟨⟩), fun h => absurd h hpos.ne⟩, (by rintro ⟨⟩),
            fun _ hend => absurd hend hpast⟩⟩
      | ok r =>
        obtain ⟨d', m⟩ := r
        obtain ⟨hm, hmle, hacc, hroom⟩ := writeChunk_accepted hwf hne habs hc
        have hdrop : ((b :: rest).drop m).length = (b :: rest).length - m := List.length_drop
        obtain ⟨k, hk, hroom', hmax, haccepted, hend⟩ := ih hacc.wf (abs + m) ((b :: rest).drop m) (by omega)
        rw [hdrop] at hk hroom' hmax hend
        refine ⟨m + k, by omega, (hacc.room_add hroom hmle).2 hroom', fun hlt => ?_,
          fun hns => hacc.trans (haccepted hns), ?_⟩
        · rw [Nat.add_assoc, hacc.room_add hroom hmle]
          exact hmax (by omega)
        · have hstuck := hend.stuck
          have hfailed := hend.failed
          rw [hacc.same.2.1, Nat.add_assoc] at hstuck hfailed
          exact ⟨hend.done.trans (by omega), hstuck, hfailed⟩

/-! ## When a refused write changes nothing -/

/-- The disk reads as before, and its overlay holds the same chunks and counts the same bytes. -/
structure RawFileDisk.Unchanged (d d' : RawFileDisk) : Prop where
  reads : ∀ io offset n, d'.readAt io offset n = d.readAt io offset n
  chunks : ∀ b, d'.overlay.contains b = d.overlay.contains b
  counted : d'.overlayBytes = d.overlayBytes

/-- The prefix is on the disk already: its chunks are held, with its bytes. -/
structure RawFileDisk.Present (d : RawFileDisk) (offset : Nat) (data : List UInt8) (k : Nat) : Prop where
  chunks : ∀ b ∈ touchedChunks offset k, d.overlay.contains b = true
  bytes : ∀ i < k, data[i]? = d.byteAt (offset + i)

/-- The write gets to an image's end that lies inside a chunk, and goes on past it. -/
structure RawFileDisk.RunsOff (d : RawFileDisk) (io : HostIo) (offset n : Nat) : Prop where
  unaligned : d.len % fileOverlayChunkSize ≠ 0
  starts : offset < d.len
  past : d.len < offset + n
  room : d.Room io offset n (d.len - offset)

/-- The write is not refused, or every prefix that it gets past is on the disk already. -/
def RawFileDisk.Harmless (d : RawFileDisk) (io : HostIo) (offset : Nat) (data : List UInt8) : Prop :=
  d.Room io offset data.length data.length ∨ d.RunsOff io offset data.length ∨
    ∀ k ≤ data.length, d.Room io offset data.length k → d.Present offset data k

theorem present_zero (offset : Nat) (data : List UInt8) : d.Present offset data 0 :=
  ⟨fun _ hb => absurd (mem_touchedChunks.1 hb).1 (Nat.lt_irrefl 0), fun i hi => absurd hi (Nat.not_lt_zero i)⟩

theorem chunkBase_lt_iff : chunkBase fileOverlayChunkSize n < n ↔ n % fileOverlayChunkSize ≠ 0 := by
  unfold chunkBase fileOverlayChunkSize
  omega

theorem RawFileDisk.Present.of_le (h : d.Present offset data k) (hm : m ≤ k) : d.Present offset data m := by
  refine ⟨fun b hb => h.chunks b ?_, fun i hi => h.bytes i (by omega)⟩
  rw [mem_touchedChunks] at hb ⊢
  omega

/-- Disks on one file with the same bytes read the same. -/
theorem readAt_congr (hwf : d.Wf) (hwf' : d'.Wf) (hsame : d.SameFile d') (h : ∀ i, d'.byteAt i = d.byteAt i)
    (io : HostIo)
    (offset n : Nat) : d'.readAt io offset n = d.readAt io offset n := by
  by_cases hok : offset + n ≤ d.len ∧ io.readFails offset = false
  · obtain ⟨hin, hio⟩ := hok
    obtain ⟨bytes, hread, hlen, hget⟩ := readAt_eq hwf hin hio
    obtain ⟨bytes', hread', hlen', hget'⟩ := readAt_eq hwf' (by rw [hsame.2.1]; exact hin) hio
    rw [hread, hread']
    congr 1
    refine List.ext_getElem? fun j => ?_
    by_cases hj : j < n
    · rw [hget j hj, hget' j hj, h]
    · rw [List.getElem?_eq_none (by omega), List.getElem?_eq_none (by omega)]
  · -- both reads fail in the same way
    have hexact : d'.readExactAt io offset n = d.readExactAt io offset n := by
      unfold RawFileDisk.readExactAt
      rw [hsame.1]
    unfold RawFileDisk.readAt
    split
    · rfl
    · rw [hexact]
      have herr : ∃ e, d.readExactAt io offset n = .error e := by
        unfold RawFileDisk.readExactAt
        rw [hwf.fileLen]
        split
        · exact ⟨_, rfl⟩
        · rename_i hio
          rw [if_pos (Nat.not_le.1 fun hin => hok ⟨hin, by simpa using hio⟩)]
          exact ⟨_, rfl⟩
      obtain ⟨e, he⟩ := herr
      rw [he]
      rfl

theorem byteAt_of_reads (hwf : d.Wf) (hwf' : d'.Wf) (hlen : d'.len = d.len)
    (h : ∀ io offset n, d'.readAt io offset n = d.readAt io offset n) (hi : i < d.len) : d'.byteAt i =
      d.byteAt i := by
  have hio : HostIo.fine.readFails i = false := rfl
  obtain ⟨bytes, hread, -, hget⟩ := readAt_eq (n := 1) hwf hi hio
  obtain ⟨bytes', hread', -, hget'⟩ := readAt_eq (n := 1) hwf' (hlen ▸ hi) hio
  rw [h, hread] at hread'
  cases hread'
  exact (hget' 0 Nat.one_pos).symm.trans (hget 0 Nat.one_pos)

/-- After a prefix was accepted, the disk is unchanged when the prefix was there before. -/
theorem RawFileDisk.Accepted.unchanged_iff (hwf : d.Wf) (h : d.Accepted d' offset data k)
    (hroom : k ≤ d.len - offset) : d.Unchanged d' ↔ d.Present offset data k := by
  constructor
  · intro hun
    refine ⟨fun b hb => ?_, fun i hi => ?_⟩
    · rw [← hun.chunks b, h.held b, decide_eq_true hb, Bool.or_true]
    · rw [← byteAt_of_reads hwf h.wf h.same.2.1 hun.reads (by omega), h.bytes, if_pos ⟨by omega, by omega⟩,
        Nat.add_sub_cancel_left]
  · intro hpres
    have hbytes : ∀ i, d'.byteAt i = d.byteAt i := by
      intro i
      rw [h.bytes i]
      split
      · rename_i hi
        rw [hpres.bytes _ (by omega), Nat.add_sub_cancel' hi.1]
      · rfl
    refine ⟨readAt_congr hwf h.wf h.same hbytes, fun b => ?_, ?_⟩
    · rw [h.held b]
      by_cases hb : b ∈ touchedChunks offset k
      · rw [hpres.chunks b hb, Bool.true_or]
      · rw [decide_eq_false hb, Bool.or_false]
    · -- no chunk of the prefix was missing
      have hnone : (touchedChunks offset k).filter (fun b => !d.overlay.contains b) = [] :=
        List.filter_eq_nil_iff.2 fun b hb => by simp [hpres.chunks b hb]
      rw [h.counted, RawFileDisk.prefixBytes, hnone]
      rfl

theorem writeAt_overlay (io : HostIo) (hwf : d.Wf) (offset : Nat) (data : List UInt8) :
    d.writeAt io offset data = RawFileDisk.writeChunks io data.length d offset data := by
  unfold RawFileDisk.writeAt
  rw [hwf.readOnly, if_neg Bool.false_ne_true]
  cases data <;> rfl

/-- **A refused write changes nothing** exactly when it is harmless: the chunks and bytes before the one that is refused
are on the disk already. -/
theorem refused_write_unchanged_iff (io : HostIo) (hwf : d.Wf) (offset : Nat) (data : List UInt8) :
    ((∃ e, (d.writeAt io offset data).2 = .failed e) → d.Unchanged (d.writeAt io offset data).1) ↔
    d.Harmless io offset data := by
  rw [writeAt_overlay io hwf]
  obtain ⟨k, hk, hroom, hmax, hacc, hend⟩ := writeChunks_accepts io hwf offset data le_rfl
  generalize RawFileDisk.writeChunks io data.length d offset data = r at *
  -- every prefix there is room for is one of the accepted bytes
  have hle : ∀ j ≤ data.length, d.Room io offset data.length j → j ≤ k := fun j hj hjroom =>
    Nat.not_lt.1 fun hlt => hmax (by omega) (hjroom.of_le hlt)
  obtain ⟨d', result⟩ := r
  cases result with
  | done =>
    have hall : k = data.length := hend.done.1 rfl
    exact ⟨fun _ => .inl (hall ▸ hroom), fun _ => nofun⟩
  | stuck =>
    refine ⟨fun _ => .inr ?_, fun _ => nofun⟩
    obtain ⟨hpast, hbase⟩ := hend.stuck rfl
    have hin := hroom.inImage
    rcases Nat.eq_zero_or_pos k with rfl | hpos
    · refine .inr fun j hj hjroom => ?_
      rw [Nat.le_zero.1 (hle j hj hjroom)]
      exact present_zero offset data
    · have hstop : offset + k = d.len := by omega
      have hlt : k < data.length := lt_of_le_of_ne hk fun h => WriteResult.noConfusion (hend.done.2 h)
      rw [hstop] at hbase
      exact .inl
        ⟨chunkBase_lt_iff.1 hbase, by omega, by omega, by rw [← hstop, Nat.add_sub_cancel_left]; exact hroom⟩
  | failed e =>
    have hiff := (hacc nofun).unchanged_iff hwf hroom.inImage
    have hlt : k < data.length := lt_of_le_of_ne hk fun h => WriteResult.noConfusion (hend.done.2 h)
    constructor
    · intro hun
      exact .inr (.inr fun j hj hjroom => (hiff.1 (hun ⟨e, rfl⟩)).of_le (hle j hj hjroom))
    · rintro (hfull | hoff | hpres) -
      · exact absurd (hle _ le_rfl hfull) (by omega)
      · -- the chunk at the image's end was written, so the loop would not have failed there
        have hin := hroom.inImage
        have hreach := hle _ (by have := hoff.past; omega) hoff.room
        have hstarts := hoff.starts
        have hstop : offset + k = d.len := by omega
        have hbase := chunkBase_lt_iff.2 hoff.unaligned
        have hmiss := hend.failed ⟨e, rfl⟩ hstop.ge (by rw [hstop]; exact hbase)
        have hmem : chunkBase fileOverlayChunkSize d.len ∈ touchedChunks offset k :=
          mem_touchedChunks.2 ⟨by omega, chunkBase_mod _ _, hstarts.trans (lt_chunkBase_add chunk_pos _), by omega⟩
        rw [hstop, (hacc nofun).held, decide_eq_true hmem, Bool.or_true] at hmiss
        cases hmiss
      · exact hiff.2 (hpres k hk hroom)

/-- A one at the end of the first chunk took up the quota. -/
def heldChunk : RawFileDisk :=
  ((RawFileDisk.rawFile (List.replicate 4097 0) 4096 false).writeAt HostIo.fine 4095 [1]).1

/-- The same byte again, and one of the next chunk: the write is refused, and nothing changes. -/
theorem refused_write_unchanged_iff_held : heldChunk.Unchanged (heldChunk.writeAt HostIo.fine 4095 [1, 1]).1 := by
  have hwf : heldChunk.Wf := by
    have hin : 4095 + ([1] : List UInt8).length ≤ (RawFileDisk.rawFile (List.replicate 4097 0) 4096 false).len := by
      decide +kernel
    obtain ⟨-, -, hwf, -⟩ := writeAt_spec HostIo.fine (rawFile_wf (List.replicate 4097 0) 4096) hin
    exact hwf
  refine (refused_write_unchanged_iff HostIo.fine hwf 4095 [1, 1]).2 (.inr (.inr fun k hk hroom => ?_))
    ⟨.outOfMemory 4097 4096, by decide +kernel⟩
  change k ≤ 2 at hk
  obtain rfl | rfl | rfl : k = 0 ∨ k = 1 ∨ k = 2 := by omega
  · exact present_zero 4095 [1, 1]
  · exact ⟨by decide +kernel, by decide +kernel⟩
  · exact absurd hroom.quota (by decide +kernel)

/-- A write over two chunks under a quota of one is refused, and the overlay has grown by the first. -/
theorem refused_write_grows_overlay :
    ¬((∃ e, ((RawFileDisk.rawFile (List.replicate 4097 0) 4096 false).writeAt HostIo.fine 4095 [1, 1]).2 =
      .failed e) →
      (RawFileDisk.rawFile (List.replicate 4097 0) 4096 false).Unchanged
        ((RawFileDisk.rawFile (List.replicate 4097 0) 4096 false).writeAt HostIo.fine 4095 [1, 1]).1) := by
  intro h
  exact absurd (h ⟨.outOfMemory 4097 4096, by decide +kernel⟩).counted (by decide +kernel)

end BridgeVm.Nvme
