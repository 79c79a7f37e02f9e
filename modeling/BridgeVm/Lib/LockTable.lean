import Mathlib.Data.Set.Basic

/-!
# All-or-nothing lock tables

Owners hold keys, no two of them the same one. An owner changes what it holds to a whole set of keys at one instant,
where none of them is another's; a table is a value only when the keys of its owners are disjoint.
-/

namespace BridgeVm.Lib

universe u v

/-- Which owner holds which keys, no key held twice. -/
@[ext]
structure LockTable (ο : Type u) (κ : Type v) where
  holds : ο → Set κ
  exclusive : ∀ {o o' k}, k ∈ holds o → k ∈ holds o' → o = o'

namespace LockTable

variable {ο : Type u} {κ : Type v}

/-- A table with nothing held. -/
def free : LockTable ο κ := ⟨fun _ => ∅, fun h => h.elim⟩

/-- An owner holds exactly these keys from now on: none of them is another's, and no other owner's keys change. -/
structure Hold (t : LockTable ο κ) (o : ο) (keys : Set κ) (t' : LockTable ο κ) : Prop where
  free : ∀ o', o' ≠ o → ∀ k ∈ keys, k ∉ t.holds o'
  own : t'.holds o = keys
  other : ∀ o', o' ≠ o → t'.holds o' = t.holds o'

/-- Where one owner's keys change, they were free: no key of the table that comes of it is held twice. -/
theorem Hold.of_change {t t' : LockTable ο κ} {o : ο} {keys : Set κ} (hown : t'.holds o = keys)
    (hother : ∀ o', o' ≠ o → t'.holds o' = t.holds o') : Hold t o keys t' := by
  refine ⟨fun o' hne k hk hk' => hne ?_, hown, hother⟩
  rw [← hother o' hne] at hk'
  rw [← hown] at hk
  exact t'.exclusive hk' hk

/-- A sequence of changes, one after the other. -/
inductive Run : LockTable ο κ → List (ο × Set κ) → LockTable ο κ → Prop
  | nil (t : LockTable ο κ) : Run t [] t
  | cons {o : ο} {keys : Set κ} {ops : List (ο × Set κ)} {t₁ t₂ t₃ : LockTable ο κ}
    (hhold : Hold t₁ o keys t₂)
      (hrun : Run t₂ ops t₃) : Run t₁ ((o, keys) :: ops) t₃

end LockTable

end BridgeVm.Lib
