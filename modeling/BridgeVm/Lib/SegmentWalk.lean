import BridgeVm.Lib.Ring
import Mathlib.Algebra.BigOperators.Group.Finset.Basic
import Mathlib.Algebra.Order.BigOperators.Group.Finset

/-!
# Walks around a sequence of segments

A walk takes one byte at a time of the segments `0..last`, in a circle, and starts over at each multiple of a period.
Many bytes of one segment are one step (`iterate_next`); while the lengths stay the same, the `n`-th byte is the one at
`(n % period) % total` of the segments laid out one after the other (`walk_onCircle`).
-/

namespace BridgeVm.Lib

/-- Where a walk stands: the segment, the offset into it, and the bytes taken since it started over. -/
structure Cursor where
  index : Nat
  offset : Nat
  position : Nat
deriving DecidableEq, Repr

namespace Cursor

variable {last period length k n : Nat} {c : Cursor}

def start : Cursor := ⟨0, 0, 0⟩

/-- On to the next segment. -/
def nextSegment (last : Nat) (c : Cursor) : Cursor := ⟨if last ≤ c.index then 0 else c.index + 1, 0, c.position⟩

/-- `k` bytes into the segment. -/
def into (k : Nat) (c : Cursor) : Cursor := ⟨c.index, c.offset + k, c.position + k⟩

/-- One byte on, of a segment of some length. -/
def next (last period length : Nat) (c : Cursor) : Cursor :=
  if period ≤ c.position + 1 then start
  else if length ≤ c.offset + 1 then (c.into 1).nextSegment last
  else c.into 1

/-- The walk over segments of the given lengths, after `n` bytes. -/
def walk (last period : Nat) (lengths : Nat → Nat) : Nat → Cursor
  | 0 => start
  | n + 1 => (walk last period lengths n).next last period (lengths (walk last period lengths n).index)

@[simp] theorem index_into : (c.into k).index = c.index := rfl

@[simp] theorem offset_into : (c.into k).offset = c.offset + k := rfl

@[simp] theorem position_into : (c.into k).position = c.position + k := rfl

theorem nextSegment_last (h : last ≤ c.index) : c.nextSegment last = ⟨0, 0, c.position⟩ := by
  simp [nextSegment, h]

theorem nextSegment_inner (h : ¬last ≤ c.index) : c.nextSegment last = ⟨c.index + 1, 0, c.position⟩ := by
  simp [nextSegment, h]

theorem into_into (j k : Nat) (c : Cursor) : (c.into j).into k = c.into (j + k) := by
  simp only [into, Nat.add_assoc]

theorem iterate_next_inner (ho : c.offset + k < length) (hp : c.position + k < period) :
    (next last period length)^[k] c = c.into k := by
  induction k with
  | zero => rfl
  | succ k ih =>
    rw [Function.iterate_succ_apply', ih (by omega) (by omega)]
    unfold next
    rw [position_into, offset_into, if_neg (by omega), if_neg (by omega), into_into]

/-- Some bytes of one segment, up to its end and the end of the period. -/
theorem iterate_next (hk : 0 < k) (ho : c.offset + k ≤ length) (hp : c.position + k ≤ period) :
    (next last period length)^[k] c =
      if period ≤ c.position + k then start
      else if length ≤ c.offset + k then (c.into k).nextSegment last
      else c.into k := by
  obtain ⟨k, rfl⟩ : ∃ j, k = j + 1 := ⟨k - 1, by omega⟩
  rw [Function.iterate_succ_apply', iterate_next_inner (by omega) (by omega)]
  unfold next
  rw [position_into, offset_into, into_into, Nat.add_assoc, Nat.add_assoc]

theorem position_iterate_next (hk : 0 < k) (ho : c.offset + k ≤ length) (hp : c.position + k ≤ period) :
    ((next last period length)^[k] c).position = (c.position + k) % period := by
  rw [iterate_next hk ho hp]
  split
  · rename_i hend
    rw [Nat.le_antisymm hp hend, Nat.mod_self]
    rfl
  · rename_i hinner
    rw [Nat.mod_eq_of_lt (by omega)]
    split
    · rfl
    · rfl

/-! ## Segments one after the other -/

/-- Where a segment starts when the segments are laid out one after the other. -/
def segmentStart (lengths : Nat → Nat) (i : Nat) : Nat := ∑ j ∈ Finset.range i, lengths j

theorem segmentStart_succ (lengths : Nat → Nat) (i : Nat) :
    segmentStart lengths (i + 1) = segmentStart lengths i + lengths i := Finset.sum_range_succ _ _

theorem segmentStart_mono {lengths : Nat → Nat} {i j : Nat} (h : i ≤ j) :
    segmentStart lengths i ≤ segmentStart lengths j :=
  Finset.sum_le_sum_of_subset (Finset.range_subset_range.mpr h)

/-- A cursor at byte `n` of the walk over segments laid out one after the other. -/
structure OnCircle (last period : Nat) (lengths : Nat → Nat) (n : Nat) (c : Cursor) : Prop where
  position : c.position = n % period
  index : c.index ≤ last
  offset : c.offset < lengths c.index
  place : segmentStart lengths c.index + c.offset = n % period % segmentStart lengths (last + 1)

variable {lengths : Nat → Nat}

theorem onCircle_start (hpos : ∀ i ≤ last, 0 < lengths i) : OnCircle last period lengths 0 start :=
  ⟨by simp [start], Nat.zero_le _, hpos 0 (Nat.zero_le _), by simp [start, segmentStart]⟩

/-- The next byte is the next on the circle. -/
theorem OnCircle.next (h : OnCircle last period lengths n c) (hpos : ∀ i ≤ last, 0 < lengths i)
    (hperiod : 0 < period) :
    OnCircle last period lengths (n + 1) (c.next last period (lengths c.index)) := by
  obtain ⟨hposition, hindex, hoffset, hplace⟩ := h
  have hlt : c.position < period := hposition ▸ Nat.mod_lt n hperiod
  have hnext := segmentStart_succ lengths c.index
  unfold Cursor.next
  split
  · rename_i hend
    have hmod : (n + 1) % period = 0 := (pass_last (by omega)).1
    exact ⟨by simp [start, hmod], Nat.zero_le _, hpos 0 (Nat.zero_le _), by simp [start, segmentStart, hmod]⟩
  · rename_i hinside
    have hmod : (n + 1) % period = n % period + 1 := (pass_inner (by omega)).1
    split
    · rename_i hlast
      by_cases hwrap : last ≤ c.index
      · -- the last segment ends the circle
        have heq : c.index = last := Nat.le_antisymm hindex hwrap
        have hzero : (n % period + 1) % segmentStart lengths (last + 1) = 0 := by
          refine (pass_last ?_).1
          rw [← hplace, ← heq, hnext]
          omega
        rw [nextSegment_last (by rwa [index_into])]
        refine ⟨by rw [hmod, ← hposition, position_into], Nat.zero_le _, hpos 0 (Nat.zero_le _), ?_⟩
        rw [hmod, hzero]
        simp [segmentStart]
      · have hle : segmentStart lengths (c.index + 1 + 1) ≤ segmentStart lengths (last + 1) :=
          segmentStart_mono (by omega)
        have hlater := segmentStart_succ lengths (c.index + 1)
        have hsome := hpos (c.index + 1) (by omega)
        have hinner : (n % period + 1) % segmentStart lengths (last + 1) = segmentStart lengths c.index +
          c.offset + 1 := by
          rw [hplace]
          refine (pass_inner ?_).1
          rw [← hplace]
          omega
        rw [nextSegment_inner (by rwa [index_into])]
        refine ⟨by rw [hmod, ← hposition, position_into], ?_, hsome, ?_⟩
        · show c.index + 1 ≤ last
          omega
        · show segmentStart lengths (c.index + 1) + 0 = _
          rw [hmod, hinner]
          omega
    · rename_i hmore
      have hle : segmentStart lengths (c.index + 1) ≤ segmentStart lengths (last + 1) := segmentStart_mono (by omega)
      have hinner : (n % period + 1) % segmentStart lengths (last + 1) = segmentStart lengths c.index +
        c.offset + 1 := by
        rw [hplace]
        refine (pass_inner ?_).1
        rw [← hplace]
        omega
      refine ⟨by rw [hmod, ← hposition, position_into], hindex, ?_, ?_⟩
      · rw [offset_into, index_into]
        omega
      · rw [hmod, hinner, index_into, offset_into]
        omega

theorem walk_succ (last period : Nat) (lengths : Nat → Nat) (n : Nat) : walk last period lengths (n + 1) =
    (walk last period lengths n).next last period (lengths (walk last period lengths n).index) := rfl

/-- Some bytes on, inside a segment. -/
theorem walk_add_inner {n k : Nat}
    (ho : (walk last period lengths n).offset + k < lengths (walk last period lengths n).index)
    (hp : (walk last period lengths n).position + k < period) :
    walk last period lengths (n + k) = (walk last period lengths n).into k := by
  induction k with
  | zero => rfl
  | succ k ih =>
    rw [← Nat.add_assoc, walk_succ, ih (by omega) (by omega)]
    unfold next
    rw [position_into, offset_into, index_into, if_neg (by omega), if_neg (by omega), into_into]

/-- Some bytes on, up to the end of a segment. -/
theorem walk_add {n k : Nat} (hk : 0 < k)
    (ho : (walk last period lengths n).offset + k ≤ lengths (walk last period lengths n).index)
    (hp : (walk last period lengths n).position + k ≤ period) :
    walk last period lengths (n + k) =
      (next last period (lengths (walk last period lengths n).index))^[k] (walk last period lengths n) := by
  obtain ⟨k, rfl⟩ : ∃ j, k = j + 1 := ⟨k - 1, by omega⟩
  rw [← Nat.add_assoc, walk_succ, Function.iterate_succ_apply', iterate_next_inner (by omega) (by omega),
    walk_add_inner (by omega) (by omega), index_into]

/-- **The closed form of a walk.** -/
theorem walk_onCircle (hpos : ∀ i ≤ last, 0 < lengths i) (hperiod : 0 < period) (n : Nat) :
    OnCircle last period lengths n (walk last period lengths n) := by
  induction n with
  | zero => exact onCircle_start hpos
  | succ n ih => exact ih.next hpos hperiod

end Cursor

end BridgeVm.Lib
