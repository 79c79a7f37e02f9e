import Mathlib.Logic.Function.Basic
import Mathlib.Order.Lattice

/-!
# Shared memory with release and acquire

Each location keeps the writes made to it, in order, and each thread a view: the last write to each location that it is
known to have seen. A read may take any write that is no older. A release write carries the view of its thread, and an
acquire read that takes it adds that view to the reader's. Threads take their steps in program order.
-/

namespace BridgeVm.Lib

universe u v

/-- For each location, the place of a write among those made to it. -/
abbrev View (L : Type u) := L → Nat

structure Write (L : Type u) (V : Type v) where
  value : V
  /-- What an acquire read of this write learns. -/
  released : View L

/-- The writes to each location, the oldest first. -/
abbrev Memory (L : Type u) (V : L → Type v) := (l : L) → List (Write L (V l))

namespace Memory

variable {L : Type u} {V : L → Type v}

def init (value : (l : L) → V l) : Memory L V := fun l => [⟨value l, fun _ => 0⟩]

/-- The value of the last write. -/
def latest (m : Memory L V) (l : L) : Option (V l) := (m l).getLast?.map Write.value

/-- The `n`-th write, if a thread may read it. -/
def visible (m : Memory L V) (view : View L) (l : L) (n : Nat) : Option (Write L (V l)) :=
  if view l ≤ n then (m l)[n]? else none

variable [DecidableEq L]

def loadRelaxed (m : Memory L V) (view : View L) (l : L) (n : Nat) : Option (V l × View L) :=
  (m.visible view l n).map fun w => (w.value, Function.update view l n)

def loadAcquire (m : Memory L V) (view : View L) (l : L) (n : Nat) : Option (V l × View L) :=
  (m.visible view l n).map fun w => (w.value, Function.update view l n ⊔ w.released)

/-- The view of a thread after it has written. -/
def written (m : Memory L V) (view : View L) (l : L) : View L := Function.update view l (m l).length

def append (m : Memory L V) (l : L) (w : Write L (V l)) : Memory L V := Function.update m l (m l ++ [w])

def storeRelaxed (m : Memory L V) (view : View L) (l : L) (value : V l) : Memory L V × View L :=
  (m.append l ⟨value, fun _ => 0⟩, m.written view l)

def storeRelease (m : Memory L V) (view : View L) (l : L) (value : V l) : Memory L V × View L :=
  (m.append l ⟨value, m.written view l⟩, m.written view l)

/-- A compare-and-exchange that succeeds: it reads the last write, and an acquire read of its own write learns what that
one released. -/
def exchangeAcquire (m : Memory L V) (view : View L) (l : L) [DecidableEq (V l)] (old new : V l) :
    Option (Memory L V × View L) :=
  match (m l).getLast? with
  | some w => if w.value = old then some (m.append l ⟨new, w.released⟩, m.written view l ⊔ w.released) else none
  | none => none

variable {m : Memory L V} {view : View L} {l k : L} {n : Nat} {value : V l} {view' : View L}

omit [DecidableEq L] in
theorem visible_eq_some {w : Write L (V l)} (h : m.visible view l n = some w) : view l ≤ n ∧
    (m l)[n]? = some w := by
  unfold visible at h
  split at h
  · exact ⟨‹_›, h⟩
  · cases h

theorem loadRelaxed_eq_some (h : m.loadRelaxed view l n = some (value, view')) :
    ∃ w, view l ≤ n ∧ (m l)[n]? = some w ∧ value = w.value ∧ view' = Function.update view l n := by
  obtain ⟨w, hw, heq⟩ := Option.map_eq_some_iff.mp h
  obtain ⟨hle, hget⟩ := visible_eq_some hw
  exact ⟨w, hle, hget, (congrArg Prod.fst heq).symm, (congrArg Prod.snd heq).symm⟩

theorem loadAcquire_eq_some (h : m.loadAcquire view l n = some (value, view')) :
    ∃ w, view l ≤ n ∧ (m l)[n]? = some w ∧ value = w.value ∧
    view' = Function.update view l n ⊔ w.released := by
  obtain ⟨w, hw, heq⟩ := Option.map_eq_some_iff.mp h
  obtain ⟨hle, hget⟩ := visible_eq_some hw
  exact ⟨w, hle, hget, (congrArg Prod.fst heq).symm, (congrArg Prod.snd heq).symm⟩

theorem exchangeAcquire_eq_some [DecidableEq (V l)] {old new : V l} {m' : Memory L V}
    (h : m.exchangeAcquire view l old new = some (m', view')) :
    ∃ w, (m l).getLast? = some w ∧ w.value = old ∧ m' = m.append l ⟨new, w.released⟩ ∧
      view' = m.written view l ⊔ w.released := by
  unfold exchangeAcquire at h
  cases hlast : (m l).getLast? with
  | none =>
    rw [hlast] at h
    cases h
  | some w =>
    rw [hlast] at h
    dsimp only at h
    split at h
    · rename_i hold
      cases h
      exact ⟨w, rfl, hold, rfl, rfl⟩
    · cases h

@[simp] theorem append_self (m : Memory L V) (l : L) (w : Write L (V l)) : m.append l w l = m l ++ [w] :=
  Function.update_self ..

theorem append_of_ne {w : Write L (V l)} (h : k ≠ l) : m.append l w k = m k := Function.update_of_ne h ..

@[simp] theorem written_self (m : Memory L V) (view : View L) (l : L) : m.written view l l = (m l).length :=
  Function.update_self ..

theorem written_of_ne (h : k ≠ l) : m.written view l k = view k := Function.update_of_ne h ..

/-- A read of a location moves the reader's view of it no further back. -/
theorem le_update (h : view l ≤ n) (k : L) : view k ≤ Function.update view l n k := by
  by_cases hk : k = l
  · subst hk
    rw [Function.update_self]
    exact h
  · rw [Function.update_of_ne hk]

end Memory

end BridgeVm.Lib
