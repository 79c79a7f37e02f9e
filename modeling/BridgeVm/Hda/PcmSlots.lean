import Mathlib.Data.Nat.ModEq
import BridgeVm.Hda.PcmRing
import BridgeVm.Lib.Chunks

/-!
# The slots of the PCM ring

Frames are counted from the ring's first one, without wrapping: the writes to the head and to the tail are running
totals (`Counts`), and frame `a` is the write `a / physical + 1` of its slot (`SlotsOk`).
-/

namespace BridgeVm.Hda.PcmRing

open Lib

/-! ## Counters that wrap -/

/-- The counter after `n` frames. -/
def counter (start n : Nat) : Nat := (start + n) % USIZE

section Counter

variable {start n k a b : Nat}

theorem wrappingAdd_counter : wrappingAdd (counter start n) k = counter start (n + k) := by
  unfold wrappingAdd counter
  rw [Nat.mod_add_mod, Nat.add_assoc]

theorem wrappingSub_counter (hle : a ≤ b) (hlt : b < a + USIZE) :
    wrappingSub (counter start b) (counter start a) = b - a := by
  obtain ⟨d, rfl⟩ := Nat.exists_eq_add_of_le hle
  unfold wrappingSub counter
  have hU : USIZE = 18446744073709551616 := rfl
  rw [hU] at hlt ⊢
  omega

end Counter

/-- The writes to a counter that was advanced by each of `steps`. -/
structure Counts (start : Nat) (steps : List Nat) (writes : List (Write Loc Nat)) : Prop where
  length : writes.length = steps.length + 1
  value : ∀ n w, writes[n]? = some w → w.value = counter start (steps.take n).sum

section Counts

variable {start : Nat} {steps : List Nat} {writes : List (Write Loc Nat)} {n m k : Nat}

theorem sum_take_mono (steps : List Nat) (h : n ≤ m) : (steps.take n).sum ≤ (steps.take m).sum := by
  obtain ⟨d, rfl⟩ := Nat.exists_eq_add_of_le h
  rw [List.take_add, List.sum_append]
  exact Nat.le_add_right _ _

theorem sum_take_le (steps : List Nat) (n : Nat) : (steps.take n).sum ≤ steps.sum := by
  conv_rhs => rw [← List.take_append_drop n steps, List.sum_append]
  exact Nat.le_add_right _ _

theorem sum_take_append_le (steps more : List Nat) (n : Nat) : (steps.take n).sum ≤ ((steps ++ more).take n).sum := by
  rw [List.take_append, List.sum_append]
  exact Nat.le_add_right _ _

theorem Counts.init (hstart : start < USIZE) : Counts start [] [⟨start, fun _ => 0⟩] where
  length := rfl
  value := by
    intro n w hw
    rw [List.getElem?_singleton] at hw
    split at hw
    · cases hw
      rw [List.take_nil, List.sum_nil]
      exact (Nat.mod_eq_of_lt hstart).symm
    · cases hw

theorem Counts.append (h : Counts start steps writes) {w : Write Loc Nat}
    (hw : w.value = counter start (steps.sum + k)) :
    Counts start (steps ++ [k]) (writes ++ [w]) where
  length := by simp [h.length]
  value := by
    intro n x hx
    rcases Nat.lt_or_ge n writes.length with hn | hn
    · rw [List.getElem?_append_left hn] at hx
      rw [h.value n x hx, List.take_append_of_le_length (by have := h.length; omega)]
    · rw [List.getElem?_append_right hn, List.getElem?_singleton] at hx
      split at hx
      · cases hx
        have hlen := h.length
        rw [hw, List.take_of_length_le (by simp; omega), List.sum_append, List.sum_singleton]
      · cases hx

theorem Counts.last (h : Counts start steps writes) {w : Write Loc Nat} (hn : writes.length ≤ n + 1)
    (hw : writes[n]? = some w) :
    w.value = counter start steps.sum := by
  have hlen := h.length
  rw [h.value n w hw, List.take_of_length_le (by omega)]

end Counts

/-! ## Frames of a batch -/

def frames (batch : List UInt8) : Nat := batch.length / FRAME_BYTES

def words (batch : List UInt8) : List Nat := (List.range (frames batch)).map (wordOf batch [])

section Words

variable {first second piece rest batch : List UInt8}

theorem byteOf_eq (first second : List UInt8) (offset : Nat) :
    byteOf first second offset = (first ++ second).getD offset 0 := by
  unfold byteOf
  simp only [List.getD_eq_getElem?_getD, List.getElem?_append]
  split <;> rfl

theorem wordOf_eq (first second : List UInt8) (frame : Nat) :
    wordOf first second frame = wordOf (first ++ second) [] frame := by
  unfold wordOf
  congr 1
  refine List.map_congr_left fun i _ => ?_
  rw [byteOf_eq, byteOf_eq, List.append_nil]

@[simp] theorem length_words (batch : List UInt8) : (words batch).length = frames batch := by simp [words]

theorem wordOf_zero (hpiece : piece.length = FRAME_BYTES) (rest : List UInt8) :
    wordOf (piece ++ rest) [] 0 = ofLeBytes piece := by
  match piece, hpiece with
  | [a, b, c, d], _ => rfl

theorem wordOf_succ (hpiece : piece.length = FRAME_BYTES) (rest : List UInt8) (frame : Nat) :
    wordOf (piece ++ rest) [] (frame + 1) = wordOf rest [] frame := by
  unfold wordOf
  congr 1
  refine List.map_congr_left fun i _ => ?_
  have hoffset : (frame + 1) * FRAME_BYTES + i = FRAME_BYTES + (frame * FRAME_BYTES + i) := by
    rw [Nat.add_one_mul, Nat.add_right_comm, Nat.add_comm]
  rw [byteOf_eq, byteOf_eq, List.append_nil, List.append_nil, List.getD_eq_getElem?_getD, List.getD_eq_getElem?_getD,
    hoffset, List.getElem?_append_right (by rw [hpiece]; exact Nat.le_add_right _ _), hpiece, Nat.add_sub_cancel_left]

theorem words_append (hpiece : piece.length = FRAME_BYTES) (rest : List UInt8) :
    words (piece ++ rest) = ofLeBytes piece :: words rest := by
  have hframes : frames (piece ++ rest) = frames rest + 1 := by
    rw [frames, List.length_append, hpiece, frames, Nat.add_comm, Nat.add_div_right _ (by decide)]
  rw [words, hframes, List.range_succ_eq_map, List.map_cons, wordOf_zero hpiece, List.map_map, words]
  congr 1
  exact List.map_congr_left fun frame _ => wordOf_succ hpiece rest frame

theorem flatMap_words (batch : List UInt8) (h : batch.length % FRAME_BYTES = 0) :
    (words batch).flatMap (toLeBytes FRAME_BYTES) = batch := by
  induction batch using chunkInduction (show 0 < FRAME_BYTES by decide) with
  | nil => rfl
  | short xs hne hlt =>
    rw [Nat.mod_eq_of_lt hlt, List.length_eq_zero_iff] at h
    exact absurd h hne
  | append piece rest hpiece ih =>
    rw [List.length_append, hpiece, Nat.add_mod_left] at h
    have hback : toLeBytes FRAME_BYTES (ofLeBytes piece) = piece := by
      rw [← hpiece]
      exact toLeBytes_ofLeBytes piece
    rw [words_append hpiece, List.flatMap_cons, ih h, hback]

theorem length_flatMap_words (batches : List (List UInt8)) :
    (batches.flatMap words).length = (batches.map frames).sum := by
  induction batches with
  | nil => rfl
  | cons batch batches ih =>
    rw [List.flatMap_cons, List.length_append, ih, length_words, List.map_cons, List.sum_cons]

theorem flatMap_flatMap_words (batches : List (List UInt8)) (h : ∀ b ∈ batches, b.length % FRAME_BYTES = 0) :
    (batches.flatMap words).flatMap (toLeBytes FRAME_BYTES) = batches.flatten := by
  induction batches with
  | nil => rfl
  | cons batch batches ih =>
    rw [List.flatMap_cons, List.flatMap_append, flatMap_words batch (h batch List.mem_cons_self),
      ih fun b hb => h b (List.mem_cons_of_mem _ hb), List.flatten_cons]

theorem length_flatten_batches (batches : List (List UInt8)) (h : ∀ b ∈ batches, b.length % FRAME_BYTES = 0) :
    batches.flatten.length = (batches.map frames).sum * FRAME_BYTES := by
  induction batches with
  | nil => rfl
  | cons batch batches ih =>
    have hwhole := h batch List.mem_cons_self
    rw [List.flatten_cons, List.length_append, ih fun b hb => h b (List.mem_cons_of_mem _ hb), List.map_cons,
      List.sum_cons, Nat.add_mul, frames, Nat.div_mul_cancel (Nat.dvd_of_mod_eq_zero hwhole)]

end Words

theorem length_flatMap_toLeBytes (ws : List Nat) :
    (ws.flatMap (toLeBytes FRAME_BYTES)).length = ws.length * FRAME_BYTES := by
  induction ws with
  | nil => rfl
  | cons w ws ih =>
    rw [List.flatMap_cons, List.length_append, length_toLeBytes, ih, List.length_cons, Nat.add_one_mul, Nat.add_comm]

/-! ## Slots -/

/-- The sizes of a ring: the physical one divides the period of the counters. -/
structure Sized (ring : AtomicPcmRing) : Prop where
  physical : ∃ k ≤ 64, ring.mask + 1 = 2 ^ k
  fits : ring.logicalFrames ≤ ring.mask + 1
  small : ring.logicalFrames < USIZE

theorem sized_new (capacityBytes : Nat) (h : capacityBytes < USIZE) : Sized (AtomicPcmRing.new capacityBytes) := by
  have hmask : (AtomicPcmRing.new capacityBytes).mask + 1 = 2 ^ Nat.clog 2 (max (capacityBytes / FRAME_BYTES) 1) :=
    Nat.sub_add_cancel Nat.one_le_two_pow
  have hsmall : capacityBytes / FRAME_BYTES < USIZE := lt_of_le_of_lt (Nat.div_le_self _ _) h
  refine ⟨⟨_, Nat.clog_le_of_le_pow ?_, hmask⟩, ?_, hsmall⟩
  · exact max_le hsmall.le Nat.one_le_two_pow
  · rw [hmask]
    exact (le_max_left _ _).trans (Nat.le_pow_clog (by decide) _)

section Slots

variable {ring : AtomicPcmRing} {start a b n : Nat}

theorem slot_counter (hring : Sized ring) : ring.slot (counter start a) b = (start + (a + b)) % (ring.mask + 1) := by
  obtain ⟨k, hk, hmask⟩ := hring.physical
  have hand : ∀ x, x &&& ring.mask = x % (ring.mask + 1) := fun x => by
    rw [hmask, show ring.mask = 2 ^ k - 1 by omega, Nat.and_two_pow_sub_one_eq_mod]
  have hdvd : ring.mask + 1 ∣ USIZE := by
    rw [hmask]
    exact Nat.pow_dvd_pow 2 hk
  rw [AtomicPcmRing.slot, wrappingAdd_counter, hand, counter, Nat.mod_mod_of_dvd _ hdvd]

/-- The stores to the slots: frame `a` is the one in the slot of that frame that comes after `a / physical` others. -/
structure SlotsOk (ring : AtomicPcmRing) (start : Nat) (written : List (Nat × Nat)) (memory : Memory Loc Loc.Value) :
    Prop where
  length : ∀ a, written.length ≤ a → a < written.length + (ring.mask + 1) →
    (memory (.slot ((start + a) % (ring.mask + 1)))).length = a / (ring.mask + 1) + 1
  value : ∀ a x, written[a]? = some x → x.1 = (start + a) % (ring.mask + 1) ∧
    ∃ w, (memory (.slot x.1))[a / (ring.mask + 1) + 1]? = some w ∧ w.value = x.2

/-- A view that has seen the first `n` frames. -/
def Covers (ring : AtomicPcmRing) (start n : Nat) (view : View Loc) : Prop :=
  ∀ a < n, a / (ring.mask + 1) + 1 ≤ view (.slot ((start + a) % (ring.mask + 1)))

theorem Covers.mono {view view' : View Loc} (h : Covers ring start n view)
    (hle : ∀ i, view (.slot i) ≤ view' (.slot i)) :
    Covers ring start n view' := fun a ha => (h a ha).trans (hle _)

variable {written : List (Nat × Nat)} {memory memory' : Memory Loc Loc.Value} {view : View Loc}

theorem SlotsOk.congr (h : SlotsOk ring start written memory) (hsame : ∀ i, memory' (.slot i) = memory (.slot i)) :
    SlotsOk ring start written memory' where
  length := fun a hle hlt => by rw [hsame]; exact h.length a hle hlt
  value := fun a x hx => by rw [hsame]; exact h.value a x hx

theorem mod_ne_of_lt {p : Nat} (hab : a < b) (hlt : b < a + p) : (start + a) % p ≠ (start + b) % p := by
  intro heq
  have hmod : a % p = b % p := Nat.ModEq.add_left_cancel' start heq
  have hdvd : p ∣ b - a := (Nat.modEq_iff_dvd' hab.le).mp hmod
  exact absurd (Nat.le_of_dvd (by omega) hdvd) (by omega)

/-- The next frame is stored. -/
theorem SlotsOk.store (h : SlotsOk ring start written memory) (w : Write Loc Nat) :
    SlotsOk ring start (written ++ [((start + written.length) % (ring.mask + 1), w.value)])
      (memory.append (.slot ((start + written.length) % (ring.mask + 1))) w) where
  length := by
    intro a hle hlt
    rw [List.length_append, List.length_singleton] at hle hlt
    rcases Nat.lt_or_ge a (written.length + (ring.mask + 1)) with ha | ha
    · have hne : (start + written.length) % (ring.mask + 1) ≠ (start + a) % (ring.mask + 1) :=
      mod_ne_of_lt (by omega) ha
      rw [Memory.append_of_ne (by simpa using hne.symm)]
      exact h.length a (by omega) ha
    · -- the frame that will take this slot next
      obtain rfl : a = written.length + (ring.mask + 1) := by omega
      have hold := h.length written.length le_rfl (by omega)
      rw [← Nat.add_assoc, Nat.add_mod_right, Memory.append_self, List.length_append, hold,
        Nat.add_div_right _ (by omega)]
      rfl
  value := by
    intro a x hx
    rcases Nat.lt_or_ge a written.length with ha | ha
    · rw [List.getElem?_append_left ha] at hx
      obtain ⟨hslot, y, hy, hval⟩ := h.value a x hx
      refine ⟨hslot, y, ?_, hval⟩
      by_cases hsame : x.1 = (start + written.length) % (ring.mask + 1)
      · rw [hsame] at hy ⊢
        rw [Memory.append_self]
        exact List.getElem?_append_left (List.getElem?_eq_some_iff.mp hy).1 ▸ hy
      · rw [Memory.append_of_ne (by simpa using hsame)]
        exact hy
    · rw [List.getElem?_append_right ha, List.getElem?_singleton] at hx
      split at hx
      · cases hx
        obtain rfl : a = written.length := by omega
        refine ⟨rfl, w, ?_, rfl⟩
        have hold := h.length written.length le_rfl (by omega)
        rw [Memory.append_self, List.getElem?_append_right hold.le, hold, Nat.sub_self]
        rfl
      · cases hx

theorem Covers.store (hcovers : Covers ring start written.length view) (h : SlotsOk ring start written memory) :
    Covers ring start (written.length + 1)
      (memory.written view (.slot ((start + written.length) % (ring.mask + 1)))) := by
  intro a ha
  by_cases hsame : (start + a) % (ring.mask + 1) = (start + written.length) % (ring.mask + 1)
  · rw [hsame, Memory.written_self, h.length written.length le_rfl (by omega)]
    exact Nat.add_le_add_right (Nat.div_le_div_right (by omega)) 1
  · rw [Memory.written_of_ne (by simpa using hsame)]
    refine hcovers a ?_
    have hne : a ≠ written.length := fun heq => hsame (by rw [heq])
    omega

theorem SlotsOk.load (h : SlotsOk ring start written memory) (hview : Covers ring start n view) (ha : a < n)
    (hstored : n ≤ written.length) (hkept : written.length ≤ a + (ring.mask + 1)) {k : Nat} {w : Write Loc Nat}
    (hseen : view (.slot ((start + a) % (ring.mask + 1))) ≤ k)
    (hw : (memory (.slot ((start + a) % (ring.mask + 1))))[k]? = some w) :
    (written.map Prod.snd)[a]? = some w.value := by
  obtain ⟨x, hx⟩ : ∃ x, written[a]? = some x := ⟨_, List.getElem?_eq_getElem (ha.trans_le hstored)⟩
  obtain ⟨hslot, y, hy, hval⟩ := h.value a x hx
  have hlen := h.length (a + (ring.mask + 1)) hkept (by omega)
  rw [← Nat.add_assoc, Nat.add_mod_right, Nat.add_div_right _ (by omega)] at hlen
  have hk := (List.getElem?_eq_some_iff.mp hw).1
  have hle := hview a ha
  obtain rfl : k = a / (ring.mask + 1) + 1 := by omega
  rw [hslot, hw] at hy
  cases hy
  rw [List.getElem?_map, hx, hval]
  rfl

end Slots

end BridgeVm.Hda.PcmRing
