import Mathlib.Algebra.Order.BigOperators.Group.List
import Mathlib.Data.List.Nodup
import Mathlib.Tactic.Linarith

/-!
# Maps with one entry for each key

A hash map as the list of its entries, in the order it iterates; and the total weight of its values.
-/

namespace BridgeVm.Lib

universe u v

/-- A map, one entry for each key. -/
structure AssocMap (κ : Type u) (ν : Type v) where
  entries : List (κ × ν)
  nodup : (entries.map Prod.fst).Nodup

namespace AssocMap

variable {κ : Type u} {ν : Type v}

instance [DecidableEq κ] [DecidableEq ν] : DecidableEq (AssocMap κ ν) := fun a b =>
  decidable_of_iff (a.entries = b.entries) (by cases a; cases b; simp)

def empty : AssocMap κ ν := ⟨[], List.nodup_nil⟩

/-- Keep the entries that meet `p`. -/
def retain (m : AssocMap κ ν) (p : κ × ν → Bool) : AssocMap κ ν :=
  ⟨m.entries.filter p, (List.filter_sublist.map Prod.fst).nodup m.nodup⟩

/-- Change every value. -/
def mapValues (m : AssocMap κ ν) (g : κ → ν → ν) : AssocMap κ ν :=
  ⟨m.entries.map fun kv => (kv.1, g kv.1 kv.2), by
    rw [List.map_map]
    exact m.nodup⟩

variable [DecidableEq κ]

def get (m : AssocMap κ ν) (key : κ) : Option ν := m.entries.lookup key

def remove (m : AssocMap κ ν) (key : κ) : AssocMap κ ν := m.retain fun kv => kv.1 != key

/-- Insert or replace the value of a key. -/
def insert (m : AssocMap κ ν) (key : κ) (value : ν) : AssocMap κ ν where
  entries := (m.remove key).entries ++ [(key, value)]
  nodup := by
    rw [List.map_append, List.nodup_append]
    refine ⟨(m.remove key).nodup, by simp, fun a ha b hb hab => ?_⟩
    obtain ⟨kv, hkv, rfl⟩ := List.mem_map.mp ha
    have hne := (List.mem_filter.mp hkv).2
    simp only [List.map_cons, List.map_nil, List.mem_singleton] at hb
    rw [hab, hb] at hne
    simp at hne

/-- Change the value of one key. -/
def modify (m : AssocMap κ ν) (key : κ) (g : ν → ν) : AssocMap κ ν :=
  m.mapValues fun k v => if k = key then g v else v

/-- Move the value of a key to another key. -/
def rename (m : AssocMap κ ν) (old new : κ) : AssocMap κ ν :=
  match m.get old with
  | some value => (m.remove old).insert new value
  | none => m

/-- Where pairs of an old and a new key move a key. -/
def moved (pairs : List (κ × κ)) (k : κ) : κ := ((pairs.find? fun pair => pair.1 = k).map Prod.snd).getD k

omit [DecidableEq κ]

/-! ## Lookups -/

section Lookup

variable [DecidableEq κ] {m : AssocMap κ ν} {key key' : κ} {value : ν}

theorem mem_iff_get : (key, value) ∈ m.entries ↔ m.get key = some value := by
  constructor
  · intro h
    obtain ⟨value', hget⟩ : ∃ value', m.get key = some value' := by
      refine Option.isSome_iff_exists.1 (List.lookup_isSome_iff.2 ⟨(key, value), h, ?_⟩)
      simp
    have h' : (key, value') ∈ m.entries := by
      obtain ⟨l₁, l₂, heq, -⟩ := List.lookup_eq_some_iff.mp hget
      rw [heq]
      simp
    have heq := List.inj_on_of_nodup_map m.nodup h h' rfl
    rw [hget, (Prod.mk.inj heq).2]
  · intro h
    obtain ⟨l₁, l₂, heq, -⟩ := List.lookup_eq_some_iff.mp h
    rw [heq]
    simp

@[simp] theorem get_empty : (empty : AssocMap κ ν).get key = none := rfl

theorem get_retain {p : κ × ν → Bool} :
    (m.retain p).get key = (m.get key).filter fun value => p (key, value) := by
  refine Option.ext fun value => ?_
  rw [← mem_iff_get, Option.filter_eq_some_iff, ← mem_iff_get]
  exact List.mem_filter

@[simp] theorem get_remove : (m.remove key).get key' = if key' = key then none else m.get key' := by
  refine Option.ext fun value => ?_
  rw [← mem_iff_get]
  show _ ∈ m.entries.filter _ ↔ _
  by_cases h : key' = key
  · simp [List.mem_filter, h]
  · simp [List.mem_filter, h, mem_iff_get]

@[simp] theorem get_insert : (m.insert key value).get key' = if key' = key then some value else m.get key' := by
  refine Option.ext fun value' => ?_
  rw [← mem_iff_get]
  show _ ∈ (m.remove key).entries ++ [(key, value)] ↔ _
  rw [List.mem_append, mem_iff_get, get_remove, List.mem_singleton, Prod.mk.injEq]
  by_cases h : key' = key
  · simp [h, eq_comm]
  · simp [h]

@[simp] theorem get_mapValues {g : κ → ν → ν} : (m.mapValues g).get key = (m.get key).map (g key) := by
  refine Option.ext fun value => ?_
  rw [← mem_iff_get, Option.map_eq_some_iff]
  show _ ∈ m.entries.map _ ↔ _
  rw [List.mem_map]
  constructor
  · rintro ⟨kv, hkv, heq⟩
    cases heq
    exact ⟨kv.2, mem_iff_get.1 hkv, rfl⟩
  · rintro ⟨value', hget, rfl⟩
    exact ⟨(key, value'), mem_iff_get.2 hget, rfl⟩

@[simp] theorem get_modify {g : ν → ν} :
    (m.modify key g).get key' = if key' = key then (m.get key').map g else m.get key' := by
  unfold modify
  rw [get_mapValues]
  by_cases h : key' = key
  · simp only [h, if_true]
  · simp only [h, if_false, Option.map_id']

theorem get_eq_none : m.get key = none ↔ key ∉ m.entries.map Prod.fst := by
  rw [← Option.not_isSome_iff_eq_none, Option.isSome_iff_exists]
  refine not_congr ⟨fun ⟨value, h⟩ => List.mem_map_of_mem (mem_iff_get.2 h), fun h => ?_⟩
  obtain ⟨kv, hkv, rfl⟩ := List.mem_map.1 h
  exact ⟨kv.2, mem_iff_get.1 hkv⟩

/-- Removing a key takes its entry. -/
theorem length_remove (h : m.get key = some value) : (m.remove key).entries.length + 1 = m.entries.length := by
  have hone : m.entries.countP (fun kv => kv.1 == key) = 1 := by
    have hcount := List.count_eq_one_of_mem m.nodup (List.mem_map_of_mem (mem_iff_get.2 h))
    rwa [List.count_eq_countP, List.countP_map] at hcount
  have hsplit := List.length_eq_countP_add_countP (fun kv : κ × ν => kv.1 == key) (l := m.entries)
  have hremoved : (m.remove key).entries.length = m.entries.countP fun kv => !(kv.1 == key) := by
    rw [List.countP_eq_length_filter]
    rfl
  simp only [Bool.not_eq_true, Bool.decide_eq_false] at hsplit
  omega

theorem remove_of_none (h : m.get key = none) : (m.remove key).entries = m.entries := by
  refine List.filter_eq_self.2 fun kv hkv => ?_
  have hne : kv.1 ≠ key := fun heq => get_eq_none.1 h (heq ▸ List.mem_map_of_mem hkv)
  simp [hne]

theorem insert_of_none (h : m.get key = none) : (m.insert key value).entries = m.entries ++ [(key, value)] := by
  show (m.remove key).entries ++ _ = _
  rw [remove_of_none h]

/-! ## Inserting a list -/

section Inserting

universe w

variable {α : Type w} {f : α → κ} {g : α → ν} {xs : List α}

theorem isSome_foldl_insert : ((xs.foldl (fun m x => m.insert (f x) (g x)) m).get key).isSome ↔
    key ∈ xs.map f ∨ (m.get key).isSome := by
  induction xs generalizing m with
  | nil => simp
  | cons x xs ih =>
    rw [List.foldl_cons, ih, get_insert, List.map_cons, List.mem_cons]
    by_cases hkey : key = f x
    · simp [hkey]
    · rw [if_neg hkey]
      simp [hkey]

theorem get_foldl_insert (h : (xs.foldl (fun m x => m.insert (f x) (g x)) m).get key = some value) :
    (∃ x ∈ xs, f x = key ∧ g x = value) ∨ m.get key = some value := by
  induction xs generalizing m with
  | nil => exact .inr h
  | cons x xs ih =>
    rcases ih h with ⟨y, hy, hrest⟩ | hm
    · exact .inl ⟨y, by simp [hy], hrest⟩
    · rw [get_insert] at hm
      by_cases hkey : key = f x
      · rw [if_pos hkey] at hm
        exact .inl ⟨x, by simp, hkey.symm, Option.some.inj hm⟩
      · rw [if_neg hkey] at hm
        exact .inr hm

/-- Inserting a list in which one key of a set occurs in one way finds that key of the set only. -/
theorem get_foldl_insert_of_only {x : α} {p : κ → Prop} (hx : x ∈ xs) (honly : ∀ y ∈ xs, p (f y) → y = x)
    (hp : p key) : (xs.foldl (fun m x => m.insert (f x) (g x)) empty).get key = if key = f x then some (g x)
      else none := by
  cases hget : (xs.foldl (fun m x => m.insert (f x) (g x)) empty).get key with
  | none =>
    rw [if_neg]
    rintro rfl
    have hsome : ((xs.foldl (fun m x => m.insert (f x) (g x)) empty).get (f x)).isSome :=
      isSome_foldl_insert.2 (.inl (List.mem_map_of_mem hx))
    rw [hget] at hsome
    cases hsome
  | some value =>
    rcases get_foldl_insert hget with ⟨y, hy, rfl, rfl⟩ | hempty
    · rw [honly y hy hp, if_pos rfl]
    · cases hempty

end Inserting

/-! ## Moved keys -/

theorem perm_cons_remove (h : m.get key = some value) : m.entries.Perm ((key, value) :: (m.remove key).entries) := by
  have hentry (kv : κ × ν) : kv ∈ (m.remove key).entries ↔ kv ∈ m.entries ∧ kv.1 ≠ key := by
    show kv ∈ m.entries.filter _ ↔ _
    rw [List.mem_filter, bne_iff_ne]
  refine (List.perm_ext_iff_of_nodup m.nodup.of_map ?_).2 fun kv => ?_
  · rw [List.nodup_cons, hentry]
    exact ⟨fun hmem => hmem.2 rfl, (m.remove key).nodup.of_map⟩
  · rw [List.mem_cons, hentry]
    by_cases hkey : kv.1 = key
    · obtain ⟨key', value'⟩ := kv
      obtain rfl : key' = key := hkey
      rw [mem_iff_get, h, Option.some.injEq]
      simp [eq_comm]
    · have hne : kv ≠ (key, value) := fun heq => hkey (congrArg Prod.fst heq)
      simp [hkey, hne]

/-- A rename to a free key keeps every entry, under the new key. -/
theorem rename_perm (h : m.get key' = none) :
    (m.rename key key').entries.Perm (m.entries.map fun kv => (if kv.1 = key then key' else kv.1, kv.2)) := by
  have hkeep (kvs : List (κ × ν)) (hkvs : ∀ kv ∈ kvs, kv.1 ≠ key) :
      kvs.map (fun kv => (if kv.1 = key then key' else kv.1, kv.2)) = kvs := by
    conv_rhs => rw [← List.map_id kvs]
    exact List.map_congr_left fun kv hkv => by simp [hkvs kv hkv]
  cases hget : m.get key with
  | none =>
    rw [rename, hget, hkeep]
    exact fun kv hkv heq => get_eq_none.1 hget (heq ▸ List.mem_map_of_mem hkv)
  | some value =>
    have hfree : (m.remove key).get key' = none := by rw [get_remove, h, ite_self]
    have hremoved : ∀ kv ∈ (m.remove key).entries, kv.1 ≠ key := fun kv hkv =>
      bne_iff_ne.1 (List.mem_filter.1 hkv).2
    rw [rename, hget]
    dsimp only
    rw [insert_of_none hfree]
    refine List.Perm.trans List.perm_append_comm ?_
    refine List.Perm.trans ?_ ((perm_cons_remove hget).map _).symm
    rw [List.map_cons, if_pos rfl, hkeep _ hremoved]
    exact List.Perm.refl _

theorem get_rename_ne {k : κ} (hold : k ≠ key) (hnew : k ≠ key') : (m.rename key key').get k = m.get k := by
  cases hget : m.get key with
  | none => rw [rename, hget]
  | some value => rw [rename, hget, get_insert, if_neg hnew, get_remove, if_neg hold]

theorem moved_mem {pairs : List (κ × κ)} (h : moved pairs key ≠ key) : (key, moved pairs key) ∈ pairs := by
  unfold moved at h ⊢
  cases hfind : pairs.find? fun pair => pair.1 = key with
  | none =>
    rw [hfind] at h
    exact absurd rfl h
  | some pair =>
    obtain rfl : pair.1 = key := by simpa using List.find?_some hfind
    exact List.mem_of_find?_eq_some hfind

theorem moved_of_mem {pairs : List (κ × κ)} (hnodup : (pairs.map Prod.fst).Nodup) (h : (key, key') ∈ pairs) :
    moved pairs key = key' := by
  induction pairs with
  | nil => cases h
  | cons pair pairs ih =>
    rw [List.map_cons, List.nodup_cons] at hnodup
    rcases List.mem_cons.1 h with rfl | h
    · rw [moved, List.find?_cons_of_pos (by simp)]
      rfl
    · have hne : pair.1 ≠ key := fun heq => hnodup.1 (heq ▸ List.mem_map_of_mem h)
      rw [moved, List.find?_cons_of_neg (by simpa using hne)]
      exact ih hnodup.2 h

theorem moved_of_not_mem {pairs : List (κ × κ)} (h : key ∉ pairs.map Prod.fst) : moved pairs key = key := by
  by_contra hmoved
  exact h (List.mem_map_of_mem (moved_mem hmoved))

/-- Renames from keys of the map to free keys keep every entry, where they move it. -/
theorem renames_perm (m : AssocMap κ ν) {pairs : List (κ × κ)}
    (hpairs : ∀ pair ∈ pairs, (m.get pair.1).isSome ∧ m.get pair.2 = none) (hold : (pairs.map Prod.fst).Nodup)
    (hnew : (pairs.map Prod.snd).Nodup) :
    (pairs.foldl (fun m pair => m.rename pair.1 pair.2) m).entries.Perm
      (m.entries.map fun kv => (moved pairs kv.1, kv.2)) := by
  induction pairs generalizing m with
  | nil => simp [moved]
  | cons pair pairs ih =>
    obtain ⟨hsome, hnone⟩ := hpairs pair (by simp)
    rw [List.map_cons, List.nodup_cons] at hold hnew
    have hrest : ∀ p ∈ pairs, ((m.rename pair.1 pair.2).get p.1).isSome ∧
      (m.rename pair.1 pair.2).get p.2 = none := by
      intro p hp
      obtain ⟨hpold, hpnew⟩ := hpairs p (by simp [hp])
      have h1 : p.1 ≠ pair.1 := fun heq => hold.1 (heq ▸ List.mem_map_of_mem hp)
      have h2 : p.1 ≠ pair.2 := by
        intro heq
        rw [heq, hnone] at hpold
        cases hpold
      have h3 : p.2 ≠ pair.1 := by
        intro heq
        rw [← heq, hpnew] at hsome
        cases hsome
      have h4 : p.2 ≠ pair.2 := fun heq => hnew.1 (heq ▸ List.mem_map_of_mem hp)
      rw [get_rename_ne h1 h2, get_rename_ne h3 h4]
      exact ⟨hpold, hpnew⟩
    rw [List.foldl_cons]
    refine (ih _ hrest hold.2 hnew.2).trans ?_
    refine ((rename_perm hnone).map _).trans ?_
    rw [List.map_map]
    refine List.Perm.of_eq (List.map_congr_left fun kv hkv => ?_)
    simp only [Function.comp_apply]
    by_cases hkey : kv.1 = pair.1
    · have hstays : moved pairs pair.2 = pair.2 := by
        have hfind : (pairs.find? fun p => p.1 = pair.2) = none := by
          refine List.find?_eq_none.2 fun p hp heq => ?_
          rw [decide_eq_true_eq] at heq
          have hpold := (hpairs p (by simp [hp])).1
          rw [heq, hnone] at hpold
          cases hpold
        rw [moved, hfind]
        rfl
      rw [if_pos hkey, hstays, moved, List.find?_cons_of_pos (by simp [hkey])]
      rfl
    · rw [if_neg hkey, moved, moved, List.find?_cons_of_neg (by simpa using Ne.symm hkey)]

end Lookup

/-! ## Total weights -/

variable {m m' : AssocMap κ ν} {w : ν → Nat}

/-- The total weight of the values. -/
def total (m : AssocMap κ ν) (w : ν → Nat) : Nat := (m.entries.map fun kv => w kv.2).sum

theorem total_le_of_sublist (h : m'.entries.Sublist m.entries) : m'.total w ≤ m.total w :=
  List.Sublist.sum_le_sum (h.map _) fun _ _ => Nat.zero_le _

theorem total_retain (m : AssocMap κ ν) (p : κ × ν → Bool) : (m.retain p).total w ≤ m.total w :=
  total_le_of_sublist List.filter_sublist

theorem total_mapValues (m : AssocMap κ ν) {g : κ → ν → ν}
    (h : ∀ kv ∈ m.entries, w (g kv.1 kv.2) ≤ w kv.2) :
    (m.mapValues g).total w ≤ m.total w := by
  unfold total mapValues
  rw [List.map_map]
  exact List.sum_le_sum h

theorem total_perm (h : m'.entries.Perm m.entries) : m'.total w = m.total w := (h.map _).sum_eq

theorem total_insert [DecidableEq κ] (m : AssocMap κ ν) (key : κ) (value : ν) :
    (m.insert key value).total w ≤ m.total w + w value := by
  have hremove : (m.remove key).total w ≤ m.total w := total_retain m _
  unfold total insert at *
  rw [List.map_append, List.sum_append]
  simpa using hremove

end AssocMap

end BridgeVm.Lib
