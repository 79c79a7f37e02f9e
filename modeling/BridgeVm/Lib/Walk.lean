import Mathlib.Data.List.Nodup
import Mathlib.Data.List.Perm.Subperm
import Mathlib.Tactic.Linarith

/-!
# Linked chains in a table

A table of `size` nodes, each with an element and perhaps a link to the next node. A chain is a finite walk from a
node to one without a link; it visits no node twice, so following at most `size` links finds every chain and stops on
every cycle.
-/

namespace BridgeVm.Lib

universe u

variable {α : Type u} {node : Nat → Option (α × Option Nat)} {size fuel i : Nat} {as bs : List α}

/-- The elements met from node `i` to a node without a link, inside the table. -/
inductive Walk (node : Nat → Option (α × Option Nat)) (size : Nat) : Nat → List α → Prop
  | last {i : Nat} {a : α} : i < size → node i = some (a, none) → Walk node size i [a]
  | link {i j : Nat} {a : α} {as : List α} :
    i < size → node i = some (a, some j) → Walk node size j as → Walk node size i (a :: as)

/-- Following at most `fuel` nodes. -/
def follow (node : Nat → Option (α × Option Nat)) (size : Nat) : Nat → Nat → Option (List α)
  | 0, _ => none
  | fuel + 1, i =>
    if i < size then
      match node i with
      | none => none
      | some (a, none) => some [a]
      | some (a, some j) => (follow node size fuel j).map fun as => a :: as
    else none

/-- A chain is determined by its first node. -/
theorem Walk.unique (h : Walk node size i as) (h' : Walk node size i bs) : as = bs := by
  induction h generalizing bs with
  | last _ hnode =>
    cases h' with
    | last _ hnode' => rw [hnode] at hnode'; cases hnode'; rfl
    | link _ hnode' _ => rw [hnode] at hnode'; cases hnode'
  | link _ hnode _ ih =>
    cases h' with
    | last _ hnode' => rw [hnode] at hnode'; cases hnode'
    | link _ hnode' hrest' =>
      rw [hnode] at hnode'
      cases hnode'
      rw [ih hrest']

/-- The nodes of a chain: distinct, in the table, each the start of a chain no longer than the whole. -/
theorem Walk.nodes (h : Walk node size i as) :
    ∃ is : List Nat, is.length = as.length ∧ is.Nodup ∧
      ∀ x ∈ is, x < size ∧ ∃ bs, Walk node size x bs ∧ bs.length ≤ as.length := by
  induction h with
  | @last i a hi hnode =>
    refine ⟨[i], rfl, List.nodup_singleton i, fun x hx => ?_⟩
    rw [List.mem_singleton] at hx
    subst hx
    exact ⟨hi, [a], Walk.last hi hnode, le_rfl⟩
  | @link i j a as hi hnode hrest ih =>
    obtain ⟨is, hlen, hnodup, hstart⟩ := ih
    have hwalk : Walk node size i (a :: as) := Walk.link hi hnode hrest
    have hfresh : i ∉ is := by
      intro hmem
      obtain ⟨-, bs, hbs, hle⟩ := hstart i hmem
      rw [← hwalk.unique hbs, List.length_cons] at hle
      omega
    refine ⟨i :: is, by rw [List.length_cons, List.length_cons, hlen], List.nodup_cons.mpr ⟨hfresh, hnodup⟩,
      fun x hx => ?_⟩
    rcases List.mem_cons.mp hx with rfl | hx
    · exact ⟨hi, a :: as, hwalk, le_rfl⟩
    · obtain ⟨hlt, bs, hbs, hle⟩ := hstart x hx
      exact ⟨hlt, bs, hbs, hle.trans (Nat.le_succ _)⟩

/-- A chain has at most as many elements as the table has nodes. -/
theorem Walk.length_le (h : Walk node size i as) : as.length ≤ size := by
  obtain ⟨is, hlen, hnodup, hstart⟩ := h.nodes
  have hsub : is ⊆ List.range size := fun x hx => List.mem_range.mpr (hstart x hx).1
  have := (hnodup.subperm hsub).length_le
  rw [List.length_range, hlen] at this
  exact this

theorem walk_of_follow (h : follow node size fuel i = some as) : Walk node size i as := by
  induction fuel generalizing i as with
  | zero => cases h
  | succ fuel ih =>
    unfold follow at h
    split at h
    · rename_i hi
      split at h
      · cases h
      · rename_i a hnode
        cases h
        exact Walk.last hi hnode
      · rename_i a j hnode
        obtain ⟨bs, hbs, rfl⟩ := Option.map_eq_some_iff.mp h
        exact Walk.link hi hnode (ih hbs)
    · cases h

theorem follow_of_walk (h : Walk node size i as) (hfuel : as.length ≤ fuel) : follow node size fuel i = some as := by
  induction h generalizing fuel with
  | last hi hnode =>
    cases fuel with
    | zero => simp at hfuel
    | succ fuel => simp [follow, hi, hnode]
  | link hi hnode _ ih =>
    cases fuel with
    | zero => simp at hfuel
    | succ fuel =>
      have hrest := ih (Nat.le_of_succ_le_succ hfuel)
      simp [follow, hi, hnode, hrest]

/-- **Bounded following is complete**: as many nodes as the table has find exactly the chains. -/
theorem follow_iff : follow node size size i = some as ↔ Walk node size i as :=
  ⟨walk_of_follow, fun h => follow_of_walk h h.length_le⟩

end BridgeVm.Lib
