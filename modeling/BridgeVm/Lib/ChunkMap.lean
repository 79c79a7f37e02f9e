import BridgeVm.Lib.Splice

/-!
# Sparse overlays of aligned chunks

A map from chunk bases to chunks laid over a base sequence of `n` elements: a chunk at base `k` covers the positions
`k .. k + chunk`, chunks are aligned to `size` and only the last one is shorter. Reading merges the chunks into a span
of the base sequence; the total length of the chunks is what the overlay occupies.
-/

namespace BridgeVm.Lib

universe u

variable {α : Type u}

/-- Base of the chunk that holds a position. -/
def chunkBase (size i : Nat) : Nat := i / size * size

/-- Length of the chunk at a base, in a sequence of `n` elements. -/
def chunkSpan (size n base : Nat) : Nat := min (n - base) size

section Bases

variable {size n i k : Nat}

theorem chunkBase_le (size i : Nat) : chunkBase size i ≤ i := Nat.div_mul_le_self i size

theorem lt_chunkBase_add (hs : 0 < size) (i : Nat) : i < chunkBase size i + size := by
  have h := Nat.div_add_mod' i size
  have hm := Nat.mod_lt i hs
  unfold chunkBase
  omega

theorem chunkBase_mod (size i : Nat) : chunkBase size i % size = 0 := Nat.mul_mod_left _ _

/-- The position lies in the chunk at its base. -/
theorem lt_chunkBase_add_span (hs : 0 < size) (hi : i < n) :
    i < chunkBase size i + chunkSpan size n (chunkBase size i) := by
  have h1 := chunkBase_le size i
  have h2 := lt_chunkBase_add hs i
  unfold chunkSpan
  omega

/-- An aligned base whose chunk holds a position is the base of that position. -/
theorem eq_chunkBase (hk : k % size = 0) (h1 : k ≤ i) (h2 : i < k + size) : k = chunkBase size i := by
  obtain ⟨q, rfl⟩ := Nat.dvd_of_mod_eq_zero hk
  have hq : i / size = q := by
    refine Nat.div_eq_of_lt_le (by rw [Nat.mul_comm]; exact h1) ?_
    rw [Nat.succ_mul, Nat.mul_comm q size]
    exact h2
  rw [chunkBase, hq, Nat.mul_comm]

end Bases

/-- A map of chunks by their base. -/
abbrev ChunkMap (α : Type u) := Std.TreeMap Nat (List α)

namespace ChunkMap

variable {m : ChunkMap α} {size n k i : Nat} {c chunk : List α}

/-- Every chunk is aligned, starts inside the sequence and has the length of its span. -/
def Aligned (size n : Nat) (m : ChunkMap α) : Prop :=
  ∀ k c, m[k]? = some c → k % size = 0 ∧ k < n ∧ c.length = chunkSpan size n k

/-- The element at a position: of its chunk, or of the base sequence. -/
def elemAt (size : Nat) (base : List α) (m : ChunkMap α) (i : Nat) : Option α :=
  match m[chunkBase size i]? with
  | some chunk => chunk[i - chunkBase size i]?
  | none => base[i]?

/-- What the chunks occupy. -/
def totalLength (m : ChunkMap α) : Nat := (m.toList.map fun e => e.2.length).sum

theorem aligned_empty : Aligned size n (∅ : ChunkMap α) := by
  intro k c h
  simp at h

theorem elemAt_empty (base : List α) : elemAt size base (∅ : ChunkMap α) i = base[i]? := by
  simp [elemAt]

theorem aligned_insert (h : Aligned size n m) (hk : k % size = 0) (hn : k < n) (hc : c.length = chunkSpan size n k) :
    Aligned size n (m.insert k c) := by
  intro k' c' h'
  rw [Std.TreeMap.getElem?_insert] at h'
  split at h'
  · rename_i heq
    cases h'
    cases Nat.compare_eq_eq.mp heq
    exact ⟨hk, hn, hc⟩
  · exact h k' c' h'

/-- An inserted chunk is read at the positions it holds, the rest is as before. -/
theorem elemAt_insert (base : List α) :
    elemAt size base (m.insert k chunk) i =
      if chunkBase size i = k then chunk[i - k]? else elemAt size base m i := by
  unfold elemAt
  rw [Std.TreeMap.getElem?_insert]
  by_cases h : chunkBase size i = k
  · rw [if_pos h, if_pos (Nat.compare_eq_eq.mpr h.symm), h]
  · rw [if_neg h, if_neg (fun e => h (Nat.compare_eq_eq.mp e).symm)]

theorem totalLength_insert_perm :
    totalLength (m.insert k c) =
      c.length + ((m.toList.filter fun e => ¬(k == e.1) = true).map fun e => e.2.length).sum := by
  unfold totalLength
  rw [(Std.TreeMap.toList_insert_perm.map _).sum_nat, List.map_cons, List.sum_cons]

/-- A new chunk adds its length. -/
theorem totalLength_insert_new (h : m[k]? = none) : totalLength (m.insert k c) = totalLength m + c.length := by
  rw [totalLength_insert_perm, List.filter_eq_self.mpr, totalLength, Nat.add_comm]
  rintro ⟨k', c'⟩ hmem
  rw [Std.TreeMap.mem_toList_iff_getElem?_eq_some] at hmem
  simp only [decide_eq_true_eq, beq_iff_eq]
  rintro rfl
  rw [h] at hmem
  cases hmem

/-- Replacing a chunk by one of its length keeps the total. -/
theorem totalLength_insert_replace {c' : List α} (h : m[k]? = some c') (hlen : c.length = c'.length) :
    totalLength (m.insert k c) = totalLength m := by
  have hself : totalLength (m.insert k c') = totalLength m := by
    have heq : Std.TreeMap.Equiv (m.insert k c') m := by
      refine Std.TreeMap.Equiv.of_forall_constGet?_eq fun j => ?_
      rw [Std.TreeMap.getElem?_insert]
      by_cases hj : k = j
      · rw [if_pos (Nat.compare_eq_eq.mpr hj), ← hj, h]
      · rw [if_neg fun e => hj (Nat.compare_eq_eq.mp e)]
    unfold totalLength
    rw [heq.toList_eq]
  rw [← hself, totalLength_insert_perm, totalLength_insert_perm, hlen]

/-! ## Merging chunks into a span -/

/-- One chunk merged into the span `dst` that starts at position `off`; a chunk that ends before it is skipped. -/
def mergeChunk (off : Nat) (dst : List α) (e : Nat × List α) : List α :=
  let stop := off + dst.length
  let chunkEnd := e.1 + e.2.length
  if chunkEnd ≤ off then dst
  else
    let copyStart := max off e.1
    let copyEnd := min stop chunkEnd
    splice dst (copyStart - off) (slice e.2 (copyStart - e.1) (copyEnd - copyStart))

/-- The chunks that can touch the span, in order of their bases. -/
def range (m : ChunkMap α) (lo hi : Nat) : List (Nat × List α) :=
  m.toList.filter fun e => decide (lo ≤ e.1) && decide (e.1 < hi)

section Merge

variable {off : Nat} {dst : List α} {e : Nat × List α} {es : List (Nat × List α)} {j : Nat}

/-- A chunk that starts before the end of the span overwrites the positions it covers. -/
theorem getElem?_mergeChunk (he : e.1 < off + dst.length) (hj : j < dst.length) :
    (mergeChunk off dst e)[j]? =
      if e.1 ≤ off + j ∧ off + j < e.1 + e.2.length then e.2[off + j - e.1]? else dst[j]? := by
  unfold mergeChunk
  dsimp only
  by_cases hskip : e.1 + e.2.length ≤ off
  · rw [if_pos hskip, if_neg (by omega)]
  · rw [if_neg hskip]
    have hlen : (slice e.2 (max off e.1 - e.1) (min (off + dst.length) (e.1 + e.2.length) - max off e.1)).length =
        min (off + dst.length) (e.1 + e.2.length) - max off e.1 := length_slice (by omega)
    rw [getElem?_splice (by omega), hlen, getElem?_slice]
    by_cases hin : e.1 ≤ off + j ∧ off + j < e.1 + e.2.length
    · rw [if_pos (by omega), if_pos (by omega), if_pos hin]
      congr 1
      omega
    · rw [if_neg (by omega), if_neg hin]

theorem length_mergeChunk (he : e.1 < off + dst.length) : (mergeChunk off dst e).length = dst.length := by
  unfold mergeChunk
  dsimp only
  split
  · rfl
  · refine length_splice ?_
    rw [length_slice (by omega)]
    omega

/-- Merging chunks with distinct bases, each aligned and inside its span: a position reads its own chunk. -/
theorem getElem?_foldl_mergeChunk {size n : Nat} (hs : 0 < size)
    (hend : ∀ e ∈ es, e.1 < off + dst.length)
    (hal : ∀ e ∈ es, e.1 % size = 0 ∧ e.2.length = chunkSpan size n e.1)
    (hdis : es.Pairwise fun a b => a.1 ≠ b.1) (hj : j < dst.length) (hn : off + j < n) :
    (∀ chunk, (chunkBase size (off + j), chunk) ∈ es →
      (es.foldl (mergeChunk off) dst)[j]? = chunk[off + j - chunkBase size (off + j)]?) ∧
    ((∀ c, (chunkBase size (off + j), c) ∉ es) → (es.foldl (mergeChunk off) dst)[j]? = dst[j]?) := by
  induction es generalizing dst with
  | nil => simp
  | cons e es ih =>
    obtain ⟨hmod, hlen⟩ := hal e (List.mem_cons_self ..)
    have hlt := hend e (List.mem_cons_self ..)
    have hdst : (mergeChunk off dst e).length = dst.length := length_mergeChunk hlt
    have hpos := lt_chunkBase_add_span hs hn
    rw [List.pairwise_cons] at hdis
    have hend' : ∀ x ∈ es, x.1 < off + (mergeChunk off dst e).length := by
      rw [hdst]
      exact fun x hx => hend x (List.mem_cons_of_mem _ hx)
    obtain ⟨ih1, ih2⟩ := ih hend' (fun x hx => hal x (List.mem_cons_of_mem _ hx)) hdis.2 (by rw [hdst]; exact hj)
    -- the position is inside this chunk exactly when this is its base
    have hin : (e.1 ≤ off + j ∧ off + j < e.1 + e.2.length) ↔ e.1 = chunkBase size (off + j) := by
      constructor
      · rintro ⟨h1, h2⟩
        refine eq_chunkBase hmod h1 ?_
        unfold chunkSpan at hlen
        omega
      · intro he
        rw [hlen, he]
        exact ⟨chunkBase_le _ _, hpos⟩
    rw [List.foldl_cons]
    refine ⟨fun c hc => ?_, fun hno => ?_⟩
    · rcases List.mem_cons.mp hc with rfl | hc
      · rw [ih2 fun c' hc' => hdis.1 _ hc' rfl, getElem?_mergeChunk hlt hj, if_pos (hin.mpr rfl)]
      · exact ih1 c hc
    · rw [ih2 fun c hc => hno c (List.mem_cons_of_mem _ hc), getElem?_mergeChunk hlt hj, if_neg]
      intro h
      refine hno e.2 ?_
      rw [← hin.mp h]
      exact List.mem_cons_self ..

theorem length_foldl_mergeChunk (hend : ∀ e ∈ es, e.1 < off + dst.length) :
    (es.foldl (mergeChunk off) dst).length = dst.length := by
  induction es generalizing dst with
  | nil => rfl
  | cons e es ih =>
    have hdst : (mergeChunk off dst e).length = dst.length := length_mergeChunk (hend e (List.mem_cons_self ..))
    rw [List.foldl_cons, ih (by rw [hdst]; exact fun x hx => hend x (List.mem_cons_of_mem _ hx)), hdst]

/-- **Merged reads**: a span of the base sequence with the overlay's chunks merged in reads, at every position, the
chunk that holds it or the base. -/
theorem getElem?_merge_range {size len : Nat} {base : List α} (hs : 0 < size) (hm : Aligned size base.length m)
    (hn : off + len ≤ base.length) (hj : j < len) :
    ((m.range (off - (size - 1)) (off + len)).foldl (mergeChunk off) (slice base off len))[j]? =
      elemAt size base m (off + j) := by
  have hlen : (slice base off len).length = len := length_slice hn
  have hmem : ∀ e, e ∈ m.range (off - (size - 1)) (off + len) ↔
      m[e.1]? = some e.2 ∧ off - (size - 1) ≤ e.1 ∧ e.1 < off + len := by
    rintro ⟨k, c⟩
    simp only [range, List.mem_filter, Std.TreeMap.mem_toList_iff_getElem?_eq_some, Bool.and_eq_true,
      decide_eq_true_eq]
  have hdis : (m.range (off - (size - 1)) (off + len)).Pairwise fun a b => a.1 ≠ b.1 := by
    refine List.Pairwise.sublist List.filter_sublist ?_
    exact Std.TreeMap.distinct_keys_toList.imp fun h e => h (Nat.compare_eq_eq.mpr e)
  have hal : ∀ e ∈ m.range (off - (size - 1)) (off + len),
      e.1 % size = 0 ∧ e.2.length = chunkSpan size base.length e.1 := by
    intro e he
    obtain ⟨ha, -, hl⟩ := hm e.1 e.2 ((hmem e).mp he).1
    exact ⟨ha, hl⟩
  have hend : ∀ e ∈ m.range (off - (size - 1)) (off + len), e.1 < off + (slice base off len).length := by
    intro e he
    rw [hlen]
    exact ((hmem e).mp he).2.2
  obtain ⟨h1, h2⟩ := getElem?_foldl_mergeChunk hs hend hal hdis (by rw [hlen]; exact hj) (by omega)
  have hle := chunkBase_le size (off + j)
  have hlt := lt_chunkBase_add hs (off + j)
  unfold elemAt
  cases hc : m[chunkBase size (off + j)]? with
  | some c => exact h1 c ((hmem _).mpr ⟨hc, by dsimp only; omega, by dsimp only; omega⟩)
  | none =>
    dsimp only
    have hno : ∀ c, (chunkBase size (off + j), c) ∉ m.range (off - (size - 1)) (off + len) := by
      intro c hmemc
      rw [((hmem _).mp hmemc).1] at hc
      cases hc
    rw [h2 hno, getElem?_slice, if_pos hj]

end Merge

end ChunkMap

end BridgeVm.Lib
