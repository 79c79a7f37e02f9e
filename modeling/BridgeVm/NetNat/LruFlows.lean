import BridgeVm.Lib.AssocMap
import Mathlib.Data.List.MinMax

/-!
# Flows with a least recently active one to lose (`net_nat/icmp_reply_rejection_reason.rs`, `macaddr.rs`)

A flow that is missing is created and inserted, and then the least recently active flow of a map that is too full is
evicted: the new one, when no flow is older and none as old comes before it (`get_or_insert_lru_keeps`).
-/

namespace BridgeVm.NetNat

open Lib

universe u v

/-- `HasLastActivity`. -/
class HasLastActivity (ν : Type v) where
  lastActivity : ν → Nat

export HasLastActivity (lastActivity)

/-- The order in which a hash map iterates, which its entries do not tell. -/
structure Iteration (κ : Type u) (ν : Type v) where
  order : AssocMap κ ν → List (κ × ν)
  perm : ∀ m, (order m).Perm m.entries

variable {κ : Type u} {ν : Type v} {ε : Type} [DecidableEq κ] [HasLastActivity ν]

/-- `evict_lru`, over at most as many rounds as the map has entries: the first of the least recently active flows that
the iteration meets goes. -/
def evictLru (it : Iteration κ ν) (cap : Nat) : Nat → AssocMap κ ν → AssocMap κ ν
  | 0, m => m
  | rounds + 1, m =>
    if m.entries.length ≤ cap then m
    else
      match (it.order m).argmin fun kf => lastActivity kf.2 with
      | none => m
      | some oldest => evictLru it cap rounds (m.remove oldest.1)

/-- `get_or_insert_lru`. -/
def getOrInsertLru (it : Iteration κ ν) (m : AssocMap κ ν) (key : κ) (cap : Nat) (create : Except ε ν) :
    AssocMap κ ν × Except ε (Option ν) :=
  match m.get key with
  | some flow => (m, .ok (some flow))
  | none =>
    match create with
    | .error e => (m, .error e)
    | .ok flow =>
      let m := m.insert key flow
      let m := evictLru it cap m.entries.length m
      (m, .ok (m.get key))

/-- `get_or_create_icmp_flow`, over the socket that is opened for a new flow. -/
def getOrCreateIcmpFlow (it : Iteration κ ν) (icmpFlows : AssocMap κ ν) (key : κ) (maxIcmpFlows : Nat)
    (create : Except String ν) : AssocMap κ ν × Except String ν :=
  let (icmpFlows, found) := getOrInsertLru it icmpFlows key maxIcmpFlows create
  (icmpFlows, found.bind fun flow => flow.elim (.error "icmp flow missing after insert") .ok)

/-- What a lookup that inserts is for. -/
structure KeepsNewFlow (m : AssocMap κ ν) (key : κ) (cap : Nat) (create : Except ε ν)
    (out : AssocMap κ ν × Except ε (Option ν)) : Prop where
  result : (∃ e, create = .error e ∧ out = (m, .error e)) ∨
    ∃ flow, out.2 = .ok (some flow) ∧ out.1.get key = some flow ∧
      (m.get key = some flow ∨ m.get key = none ∧ create = .ok flow)
  capacity : out.1.entries.length ≤ cap
  /-- The other flows are as before, or lost: at most one, and none was active longer ago. -/
  others : ∀ k, k ≠ key → out.1.get k = m.get k ∨ out.1.get k = none
  lost : ∀ k flow, m.get k = some flow → out.1.get k = none →
    (∀ k' flow', m.get k' = some flow' → out.1.get k' = none → k' = k) ∧
      ∀ k' flow', m.get k' = some flow' → lastActivity flow ≤ lastActivity flow'

/-- In the map with the new flow, the iteration meets a flow as old before it, or an older one behind it. -/
def NotFirst (it : Iteration κ ν) (m : AssocMap κ ν) (key : κ) (flow : ν) : Prop :=
  ∃ before after, it.order (m.insert key flow) = before ++ (key, flow) :: after ∧
    ((∃ kf ∈ before, lastActivity kf.2 ≤ lastActivity flow) ∨ ∃ kf ∈ after,
      lastActivity kf.2 < lastActivity flow)

/-- The map is not too full, and a new flow finds room or a flow to take the place of. -/
def HasRoom (it : Iteration κ ν) (m : AssocMap κ ν) (key : κ) (cap : Nat) (create : Except ε ν) : Prop :=
  m.entries.length ≤ cap ∧
    ∀ flow, m.get key = none → create = .ok flow → m.entries.length < cap ∨ NotFirst it m key flow

section Evict

variable {it : Iteration κ ν} {m : AssocMap κ ν} {key : κ} {cap rounds : Nat} {flow : ν} {oldest : κ × ν}

theorem evictLru_of_le (h : m.entries.length ≤ cap) : evictLru it cap rounds m = m := by
  cases rounds with
  | zero => rfl
  | succ rounds => rw [evictLru, if_pos h]

theorem evictLru_one (h : m.entries.length = cap + 1)
    (holdest : (it.order m).argmin (fun kf => lastActivity kf.2) = some oldest) :
    evictLru it cap m.entries.length m = m.remove oldest.1 := by
  have hmem : oldest ∈ m.entries := (it.perm m).mem_iff.1 (List.argmin_mem holdest)
  have hlen := AssocMap.length_remove (AssocMap.mem_iff_get.1 hmem)
  rw [h, evictLru, if_neg (by omega), holdest]
  exact evictLru_of_le (by omega)

theorem evictLru_sublist (rounds : Nat) (m : AssocMap κ ν) :
    (evictLru it cap rounds m).entries.Sublist m.entries := by
  induction rounds generalizing m with
  | zero => exact .refl _
  | succ rounds ih =>
    unfold evictLru
    split
    · exact .refl _
    · split
      · exact .refl _
      · exact (ih _).trans List.filter_sublist

theorem length_evictLru_le (h : m.entries.length ≤ cap + rounds) :
    (evictLru it cap rounds m).entries.length ≤ cap := by
  induction rounds generalizing m with
  | zero => exact h
  | succ rounds ih =>
    unfold evictLru
    split
    · assumption
    · rename_i hfull
      cases holdest : (it.order m).argmin fun kf => lastActivity kf.2 with
      | none =>
        have hempty := (it.perm m).length_eq
        rw [List.argmin_eq_none.1 holdest, List.length_nil] at hempty
        omega
      | some oldest =>
        have hmem : oldest ∈ m.entries := (it.perm m).mem_iff.1 (List.argmin_mem holdest)
        have hlen := AssocMap.length_remove (AssocMap.mem_iff_get.1 hmem)
        exact ih (by omega)

theorem length_getOrInsertLru {create : Except ε ν} (h : m.entries.length ≤ cap) :
    (getOrInsertLru it m key cap create).1.entries.length ≤ cap := by
  unfold getOrInsertLru
  split
  · exact h
  · split
    · exact h
    · exact length_evictLru_le (Nat.le_add_left _ _)

end Evict

section First

variable {α : Type u} {f : α → Nat} {before after : List α} {x : α}

/-- The first of the least elements of a list without duplicates. -/
theorem argmin_split (hnodup : (before ++ x :: after).Nodup) :
    (before ++ x :: after).argmin f = some x ↔ (∀ b ∈ before, f x < f b) ∧ ∀ a ∈ after, f x ≤ f a := by
  classical
  have hx : x ∉ before := fun h =>
    (List.nodup_append.1 hnodup).2.2 x h x List.mem_cons_self rfl
  have hidx : (before ++ x :: after).idxOf x = before.length := by
    rw [List.idxOf_append_of_notMem hx, List.idxOf_cons_self, Nat.add_zero]
  rw [List.argmin_eq_some_iff, hidx]
  constructor
  · rintro ⟨-, hmin, hfirst⟩
    refine ⟨fun b hb => ?_, fun a ha => hmin a (by simp [ha])⟩
    by_contra hle
    have hlater := hfirst b (by simp [hb]) (by omega)
    rw [List.idxOf_append_of_mem hb] at hlater
    have := List.idxOf_lt_length_of_mem hb
    omega
  · rintro ⟨hbefore, hafter⟩
    refine ⟨by simp, fun a ha => ?_, fun a ha hle => ?_⟩
    · rcases List.mem_append.1 ha with hb | ha
      · exact (hbefore a hb).le
      · rcases List.mem_cons.1 ha with rfl | ha
        · exact le_rfl
        · exact hafter a ha
    · rcases List.mem_append.1 ha with hb | ha
      · have := hbefore a hb
        omega
      · by_cases hmem : a ∈ before
        · have := hbefore a hmem
          omega
        · rw [List.idxOf_append_of_notMem hmem]
          omega

end First

section Insert

variable {it : Iteration κ ν} {m : AssocMap κ ν} {key : κ} {cap : Nat} {flow : ν} {create : Except ε ν}

/-- The new flow is the one that is evicted, unless it is not the first of the least recently active ones. -/
theorem oldest_insert : (it.order (m.insert key flow)).argmin (fun kf => lastActivity kf.2) = some (key, flow) ↔
    ¬ NotFirst it m key flow := by
  have hperm := it.perm (m.insert key flow)
  have hnodup : (it.order (m.insert key flow)).Nodup := hperm.nodup_iff.2 (m.insert key flow).nodup.of_map
  have hmem : (key, flow) ∈ it.order (m.insert key flow) := by
    rw [hperm.mem_iff, AssocMap.mem_iff_get, AssocMap.get_insert, if_pos rfl]
  constructor
  · rintro hfirst ⟨before, after, hsplit, hother⟩
    rw [hsplit] at hfirst hnodup
    obtain ⟨hbefore, hafter⟩ := (argmin_split hnodup).1 hfirst
    rcases hother with ⟨kf, hkf, hle⟩ | ⟨kf, hkf, hlt⟩
    · exact absurd hle (hbefore kf hkf).not_ge
    · exact absurd hlt (hafter kf hkf).not_gt
  · intro hnot
    obtain ⟨before, after, hsplit⟩ := List.mem_iff_append.1 hmem
    rw [hsplit] at hnodup ⊢
    refine (argmin_split hnodup).2 ⟨fun kf hkf => ?_, fun kf hkf => ?_⟩
    · by_contra hle
      exact hnot ⟨before, after, hsplit, .inl ⟨kf, hkf, not_lt.1 hle⟩⟩
    · by_contra hlt
      exact hnot ⟨before, after, hsplit, .inr ⟨kf, hkf, not_le.1 hlt⟩⟩

theorem getOrInsertLru_found (h : m.get key = some flow) :
    getOrInsertLru it m key cap create = (m, .ok (some flow)) := by
  unfold getOrInsertLru
  rw [h]

theorem getOrInsertLru_refused {e : ε} (h : m.get key = none) :
    getOrInsertLru it m key cap (.error e) = (m, .error e) := by
  unfold getOrInsertLru
  rw [h]

theorem getOrInsertLru_new (h : m.get key = none) :
    getOrInsertLru it m key cap (.ok flow : Except ε ν) =
      (evictLru it cap (m.entries.length + 1) (m.insert key flow),
        .ok ((evictLru it cap (m.entries.length + 1) (m.insert key flow)).get key)) := by
  have hlen : (m.insert key flow).entries.length = m.entries.length + 1 := by
    rw [AssocMap.insert_of_none h, List.length_append, List.length_singleton]
  unfold getOrInsertLru
  rw [h]
  dsimp only
  rw [hlen]

/-- The new flow takes a free place, or that of an older flow. -/
theorem evictLru_insert (hnew : m.get key = none) (hle : m.entries.length ≤ cap)
    (hroom : m.entries.length < cap ∨ NotFirst it m key flow) :
    evictLru it cap (m.entries.length + 1) (m.insert key flow) = m.insert key flow ∨
      ∃ oldest : κ × ν, oldest.1 ≠ key ∧ m.get oldest.1 = some oldest.2 ∧
        (∀ k flow', m.get k = some flow' → lastActivity oldest.2 ≤ lastActivity flow') ∧
        evictLru it cap (m.entries.length + 1) (m.insert key flow) = (m.insert key flow).remove oldest.1 := by
  have hlen : (m.insert key flow).entries.length = m.entries.length + 1 := by
    rw [AssocMap.insert_of_none hnew, List.length_append, List.length_singleton]
  by_cases hfree : m.entries.length < cap
  · exact .inl (evictLru_of_le (by omega))
  · refine .inr ?_
    have hfirst := hroom.resolve_left hfree
    have hperm := it.perm (m.insert key flow)
    cases holdest : (it.order (m.insert key flow)).argmin fun kf => lastActivity kf.2 with
    | none =>
      have hempty := hperm.length_eq
      rw [List.argmin_eq_none.1 holdest, List.length_nil, hlen] at hempty
      omega
    | some oldest =>
      have hget : (m.insert key flow).get oldest.1 = some oldest.2 :=
        AssocMap.mem_iff_get.1 (hperm.mem_iff.1 (List.argmin_mem holdest))
      rw [AssocMap.get_insert] at hget
      have hne : oldest.1 ≠ key := by
        intro heq
        rw [if_pos heq, Option.some.injEq] at hget
        have hsame : oldest = (key, flow) := Prod.ext heq hget.symm
        exact oldest_insert.1 (hsame ▸ holdest) hfirst
      rw [if_neg hne] at hget
      refine ⟨oldest, hne, hget, fun k flow' hk => ?_, ?_⟩
      · have hmem : (k, flow') ∈ it.order (m.insert key flow) := by
          have hkey : k ≠ key := fun heq => by rw [heq, hnew] at hk; cases hk
          rw [hperm.mem_iff, AssocMap.mem_iff_get, AssocMap.get_insert, if_neg hkey, hk]
        exact List.le_of_mem_argmin (f := fun kf : κ × ν => lastActivity kf.2) hmem holdest
      · rw [← hlen]
        exact evictLru_one (by omega) holdest

omit [HasLastActivity ν] in
theorem length_le_of_lost {m' : AssocMap κ ν} (hnew : m.get key = none) (hkey : m'.get key = some flow)
    (hlost : ∃ k₀, ∀ k, m.get k ≠ none → m'.get k = none → k = k₀) : m.entries.length ≤
      m'.entries.length := by
  obtain ⟨k₀, hlost⟩ := hlost
  have hsub : (m.insert key flow).entries.map Prod.fst ⊆ k₀ :: m'.entries.map Prod.fst := by
    intro k hk
    by_contra hnot
    rw [List.mem_cons, not_or, ← AssocMap.get_eq_none] at hnot
    have hne : k ≠ key := fun heq => by rw [heq, hkey] at hnot; nomatch hnot.2
    have hpresent : m.get k ≠ none := by
      intro hnone
      refine AssocMap.get_eq_none.1 ?_ hk
      rw [AssocMap.get_insert, if_neg hne, hnone]
    exact hnot.1 (hlost k hpresent hnot.2)
  have hle := (List.subperm_of_subset (m.insert key flow).nodup hsub).length_le
  rw [AssocMap.insert_of_none hnew] at hle
  simp only [List.map_append, List.length_append, List.length_map, List.map_cons, List.map_nil, List.length_cons,
    List.length_nil] at hle
  omega

end Insert

section Keeps

variable {it : Iteration κ ν} {m : AssocMap κ ν} {key : κ} {cap : Nat} {flow : ν}

theorem KeepsNewFlow.of_unchanged {create : Except ε ν} {result : Except ε (Option ν)}
    (hle : m.entries.length ≤ cap)
    (hresult : (∃ e, create = .error e ∧ result = .error e) ∨ ∃ flow, result = .ok (some flow) ∧
      m.get key = some flow) :
    KeepsNewFlow m key cap create (m, result) where
  result := by
    rcases hresult with ⟨e, hcreate, rfl⟩ | ⟨flow, rfl, hget⟩
    · exact .inl ⟨e, hcreate, rfl⟩
    · exact .inr ⟨flow, rfl, hget, .inl hget⟩
  capacity := hle
  others _ _ := .inl rfl
  lost k flow' hk hnone := by
    rw [hk] at hnone
    nomatch hnone

theorem KeepsNewFlow.of_new (hnew : m.get key = none) (hle : m.entries.length ≤ cap)
    (hroom : m.entries.length < cap ∨ NotFirst it m key flow) :
    KeepsNewFlow m key cap (.ok flow : Except ε ν) (getOrInsertLru it m key cap (.ok flow)) := by
  have hcap : (getOrInsertLru it m key cap (.ok flow : Except ε ν)).1.entries.length ≤ cap :=
    length_getOrInsertLru hle
  rw [getOrInsertLru_new hnew] at hcap ⊢
  rcases evictLru_insert hnew hle hroom with hsame | ⟨oldest, hne, hold, hleast, hremoved⟩
  · rw [hsame] at hcap ⊢
    refine ⟨.inr ⟨flow, ?_, ?_, .inr ⟨hnew, rfl⟩⟩, hcap, fun k hk => .inl ?_, fun k flow' hk hnone => ?_⟩
    · dsimp only
      rw [AssocMap.get_insert, if_pos rfl]
    · dsimp only
      rw [AssocMap.get_insert, if_pos rfl]
    · dsimp only
      rw [AssocMap.get_insert, if_neg hk]
    · dsimp only at hnone
      rw [AssocMap.get_insert] at hnone
      split at hnone
      · cases hnone
      · rw [hk] at hnone
        cases hnone
  · rw [hremoved] at hcap ⊢
    have hgone : ∀ k flow', m.get k = some flow' → ((m.insert key flow).remove oldest.1).get k = none →
      k = oldest.1 := by
      intro k flow' hk hnone
      by_contra hother
      have hkey : k ≠ key := fun heq => by rw [heq, hnew] at hk; cases hk
      rw [AssocMap.get_remove, if_neg hother, AssocMap.get_insert, if_neg hkey, hk] at hnone
      cases hnone
    have hkept : ((m.insert key flow).remove oldest.1).get key = some flow := by
      rw [AssocMap.get_remove, if_neg hne.symm, AssocMap.get_insert, if_pos rfl]
    refine ⟨.inr ⟨flow, congrArg _ hkept, hkept, .inr ⟨hnew, rfl⟩⟩, hcap, fun k hk => ?_,
      fun k flow' hk hnone => ?_⟩
    · dsimp only
      rw [AssocMap.get_remove, AssocMap.get_insert, if_neg hk]
      split
      · exact .inr rfl
      · exact .inl rfl
    · obtain rfl := hgone k flow' hk hnone
      rw [hold, Option.some.injEq] at hk
      subst hk
      exact ⟨fun k' flow' hk' hnone' => hgone k' flow' hk' hnone', hleast⟩

/-- `get_or_insert_lru` is to keep the flow that it inserts. It does exactly where the map is not full, or where the
new flow is not the first of the least recently active ones that the iteration meets. -/
theorem get_or_insert_lru_keeps (it : Iteration κ ν) (m : AssocMap κ ν) (key : κ) (cap : Nat)
    (create : Except ε ν) :
    KeepsNewFlow m key cap create (getOrInsertLru it m key cap create) ↔ HasRoom it m key cap create := by
  cases hget : m.get key with
  | some flow =>
    rw [getOrInsertLru_found hget]
    refine ⟨fun h => ⟨h.capacity, fun _ hnone => ?_⟩, fun h => ?_⟩
    · rw [hget] at hnone
      nomatch hnone
    · exact .of_unchanged h.1 (.inr ⟨flow, rfl, hget⟩)
  | none =>
    cases create with
    | error e =>
      rw [getOrInsertLru_refused hget]
      exact ⟨fun h => ⟨h.capacity, nofun⟩, fun h => .of_unchanged h.1 (.inl ⟨e, rfl, rfl⟩)⟩
    | ok flow =>
      refine ⟨fun h => ?_, fun h => .of_new hget h.1 (h.2 flow hget rfl)⟩
      rw [getOrInsertLru_new hget] at h
      obtain ⟨e, herr, -⟩ | ⟨kept, hok, hkept, -⟩ := h.result
      · nomatch herr
      have hle : m.entries.length ≤ cap := by
        refine le_trans (length_le_of_lost hget hkept ?_) h.capacity
        by_cases hlost : ∃ k flow', m.get k = some flow' ∧
            (evictLru it cap (m.entries.length + 1) (m.insert key flow)).get k = none
        · obtain ⟨k₀, flow₀, hk₀, hnone₀⟩ := hlost
          refine ⟨k₀, fun k hk hnone => ?_⟩
          obtain ⟨flow', hk⟩ := Option.ne_none_iff_exists'.1 hk
          exact (h.lost k₀ flow₀ hk₀ hnone₀).1 k flow' hk hnone
        · refine ⟨key, fun k hk hnone => absurd ?_ hlost⟩
          obtain ⟨flow', hk⟩ := Option.ne_none_iff_exists'.1 hk
          exact ⟨k, flow', hk, hnone⟩
      refine ⟨hle, fun flow' _ hflow => ?_⟩
      obtain rfl : flow = flow' := Except.ok.inj hflow
      by_contra hnot
      rw [not_or, not_lt] at hnot
      have hlen : (m.insert key flow).entries.length = m.entries.length + 1 := by
        rw [AssocMap.insert_of_none hget, List.length_append, List.length_singleton]
      have hevicted : evictLru it cap (m.insert key flow).entries.length (m.insert key flow) =
          (m.insert key flow).remove key := evictLru_one (by omega) (oldest_insert.2 hnot.2)
      dsimp only at hkept
      rw [← hlen, hevicted, AssocMap.get_remove, if_pos rfl] at hkept
      nomatch hkept

end Keeps

section FullMap

/-- A flow known by the time it was last active. -/
instance : HasLastActivity Nat := ⟨id⟩

/-- The newest entry comes first. -/
def newestFirst : Iteration Nat Nat := ⟨fun m => m.entries.reverse, fun m => m.entries.reverse_perm⟩

/-- One flow, active at 5. -/
def oneFlow : AssocMap Nat Nat := AssocMap.empty.insert 1 5

/-- A second flow of the same millisecond is evicted as it is made, and its echo request is dropped as an error. -/
theorem get_or_insert_lru_evicts_new :
    ¬ KeepsNewFlow oneFlow 2 1 (.ok 5 : Except String Nat) (getOrInsertLru newestFirst oneFlow 2 1 (.ok 5)) ∧
      getOrCreateIcmpFlow newestFirst oneFlow 2 1 (.ok 5) = (oneFlow, .error "icmp flow missing after insert") := by
  have hevicted : getOrInsertLru newestFirst oneFlow 2 1 (.ok 5 : Except String Nat) = (oneFlow, .ok none) := by
    decide +kernel
  refine ⟨fun h => ?_, ?_⟩
  · rw [hevicted] at h
    obtain ⟨e, herr, -⟩ | ⟨kept, hok, -⟩ := h.result
    · nomatch herr
    · nomatch Except.ok.inj hok
  · unfold getOrCreateIcmpFlow
    rw [hevicted]
    rfl

end FullMap

end BridgeVm.NetNat
