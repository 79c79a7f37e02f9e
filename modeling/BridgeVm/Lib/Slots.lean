import Mathlib.Tactic.Linarith

/-!
# Tables of slots, and tables of words

A growing list of slots, each empty or taken; and a growing list of words whose missing entries are a default.
-/

namespace BridgeVm.Lib

universe u

variable {α : Type u} {xs : List (Option α)} {i j : Nat} {a : α}

/-- What slot `i` holds; a slot past the end is empty. -/
def slot (xs : List (Option α)) (i : Nat) : Option α := (xs[i]?).join

/-- Take slot `i`, growing the table to it. -/
def putSlot (xs : List (Option α)) (i : Nat) (a : α) : List (Option α) :=
  (xs ++ List.replicate (i + 1 - xs.length) none).set i (some a)

/-- Empty slot `i`. -/
def clearSlot (xs : List (Option α)) (i : Nat) : List (Option α) := xs.set i none

theorem slot_append_none (xs : List (Option α)) (n i : Nat) : slot (xs ++ List.replicate n none) i = slot xs i := by
  unfold slot
  by_cases h : i < xs.length
  · rw [List.getElem?_append_left h]
  · rw [List.getElem?_append_right (by omega), List.getElem?_replicate, List.getElem?_eq_none (by omega)]
    split <;> rfl

/-- A taken slot, and the others. -/
theorem slot_putSlot (xs : List (Option α)) (i j : Nat) (a : α) :
    slot (putSlot xs i a) j = if j = i then some a else slot xs j := by
  have hlen : i < (xs ++ List.replicate (i + 1 - xs.length) (none : Option α)).length := by
    rw [List.length_append, List.length_replicate]
    omega
  by_cases h : j = i
  · subst h
    rw [if_pos rfl, slot, putSlot, List.getElem?_set_self hlen]
    rfl
  · rw [if_neg h, ← slot_append_none xs (i + 1 - xs.length) j, slot, slot, putSlot, List.getElem?_set_ne (Ne.symm h)]

theorem slot_clearSlot (xs : List (Option α)) (i j : Nat) :
    slot (clearSlot xs i) j = if j = i then none else slot xs j := by
  by_cases h : j = i
  · subst h
    rw [if_pos rfl, slot, clearSlot, List.getElem?_set]
    by_cases hlt : j < xs.length
    · simp [hlt]
    · simp [hlt]
  · rw [if_neg h, slot, slot, clearSlot, List.getElem?_set_ne (Ne.symm h)]

/-- The slots of a table whose entries are changed one by one. -/
theorem slot_map {β : Type u} (f : α → β) (xs : List (Option α)) (i : Nat) :
    slot (xs.map (Option.map f)) i = (slot xs i).map f := by
  unfold slot
  rw [List.getElem?_map]
  cases xs[i]? with
  | none => rfl
  | some x => rfl

@[simp] theorem slot_none (i : Nat) : slot [(none : Option α)] i = none := by
  cases i <;> rfl

theorem slot_mem (h : slot xs i = some a) : some a ∈ xs := by
  unfold slot at h
  cases hx : xs[i]? with
  | none => rw [hx] at h; cases h
  | some o =>
    rw [hx] at h
    have ho : o = some a := h
    exact ho ▸ List.mem_of_getElem? hx

/-- What holds of each taken slot, when one more is taken. -/
theorem forall_putSlot {P : Nat → α → Prop} (h : ∀ j b, slot xs j = some b → P j b) (ha : P i a) :
    ∀ j b, slot (putSlot xs i a) j = some b → P j b := by
  intro j b hb
  rw [slot_putSlot] at hb
  split at hb
  · rename_i hj
    cases hb
    exact hj ▸ ha
  · exact h j b hb

theorem isSome_putSlot (h : (slot xs j).isSome) (i : Nat) (a : α) : (slot (putSlot xs i a) j).isSome := by
  rw [slot_putSlot]
  split
  · rfl
  · exact h

theorem forall_clearSlot {P : Nat → α → Prop} (h : ∀ j b, slot xs j = some b → P j b) (i : Nat) :
    ∀ j b, slot (clearSlot xs i) j = some b → P j b := by
  intro j b hb
  rw [slot_clearSlot] at hb
  split at hb
  · cases hb
  · exact h j b hb

/-! ## Tables of words -/

variable {d : α} {ws : List α} {f : α → α}

/-- Entry `i`, or the default past the end. -/
def entry (d : α) (ws : List α) (i : Nat) : α := (ws[i]?).getD d

/-- Change entry `i`, growing the table to it. -/
def updateEntry (d : α) (ws : List α) (i : Nat) (f : α → α) : List α :=
  (ws ++ List.replicate (i + 1 - ws.length) d).modify i f

theorem entry_append_default (d : α) (ws : List α) (n i : Nat) :
    entry d (ws ++ List.replicate n d) i = entry d ws i := by
  unfold entry
  by_cases h : i < ws.length
  · rw [List.getElem?_append_left h]
  · rw [List.getElem?_append_right (by omega), List.getElem?_replicate, List.getElem?_eq_none (by omega)]
    split <;> rfl

/-- An entry of the table that `f` leaves at the default, or one inside the table. -/
theorem entry_modify (hf : f d = d ∨ i < ws.length) :
    entry d (ws.modify i f) j = if j = i then f (entry d ws i) else entry d ws j := by
  unfold entry
  by_cases h : j = i
  · subst h
    rw [List.getElem?_modify_eq, if_pos rfl]
    cases hw : ws[j]? with
    | some a => rfl
    | none =>
      rcases hf with hf | hf
      · exact hf.symm
      · rw [List.getElem?_eq_getElem hf] at hw
        cases hw
  · rw [List.getElem?_modify_ne _ _ (Ne.symm h), if_neg h]

theorem entry_updateEntry (d : α) (ws : List α) (i j : Nat) (f : α → α) :
    entry d (updateEntry d ws i f) j = if j = i then f (entry d ws i) else entry d ws j := by
  have hlen : i < (ws ++ List.replicate (i + 1 - ws.length) d).length := by
    rw [List.length_append, List.length_replicate]
    omega
  rw [updateEntry, entry_modify (Or.inr hlen), entry_append_default, entry_append_default]

end BridgeVm.Lib
