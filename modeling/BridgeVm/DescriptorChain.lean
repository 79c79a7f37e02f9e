import BridgeVm.GuestMemory
import BridgeVm.Lib.Walk

/-!
# Chains of descriptors

The walk of a chain through the descriptor table, and the bytes of its buffers as one sequence.
-/

namespace BridgeVm

open Lib

/-- The chain walk from `index`, over at most `fuel` descriptors. -/
def walkTable (mem : GuestMemory) (desc size : Nat) : Nat → Nat → Option (List Descriptor)
  | 0, _ => none
  | fuel + 1, index =>
    match mem.readDescriptor desc index with
    | none => none
    | some d =>
      if !d.hasNext then some [d]
      else if d.next ≥ size then none
      else (walkTable mem desc size fuel d.next).map fun ds => d :: ds

/-- `descriptor_chain_into`. -/
def descriptorChain (mem : GuestMemory) (desc size head : Nat) : Option (List Descriptor) :=
  if head ≥ size then none else walkTable mem desc size size head

/-- The descriptor table: each descriptor with its link. -/
def tableEntry (mem : GuestMemory) (desc index : Nat) : Option (Descriptor × Option Nat) :=
  (mem.readDescriptor desc index).map fun d => (d, if d.hasNext then some d.next else none)

/-- A descriptor chain: a finite walk inside the table. -/
def DescriptorChain (mem : GuestMemory) (desc size head : Nat) (descs : List Descriptor) : Prop :=
  Walk (tableEntry mem desc) size head descs

section Chains

variable {mem : GuestMemory} {desc size head fuel index : Nat} {descs : List Descriptor}

theorem walkTable_eq (h : index < size) :
    walkTable mem desc size fuel index = follow (tableEntry mem desc) size fuel index := by
  induction fuel generalizing index with
  | zero => rfl
  | succ fuel ih =>
    unfold walkTable follow
    rw [if_pos h]
    cases hd : mem.readDescriptor desc index with
    | none => simp [tableEntry, hd]
    | some d =>
      simp only [tableEntry, hd, Option.map_some]
      cases hn : d.hasNext with
      | false => rfl
      | true =>
        simp only [Bool.not_true, Bool.false_eq_true, if_false, if_true]
        by_cases hlt : d.next ≥ size
        · rw [if_pos hlt]
          cases fuel with
          | zero => rfl
          | succ fuel => rw [follow, if_neg (by omega), Option.map_none]
        · rw [if_neg hlt, ih (by omega)]

/-- **`descriptor_chain_into` accepts exactly the chains.** -/
theorem descriptorChain_iff : descriptorChain mem desc size head = some descs ↔
    DescriptorChain mem desc size head descs := by
  unfold descriptorChain DescriptorChain
  by_cases h : head ≥ size
  · rw [if_pos h]
    constructor
    · intro h'
      cases h'
    · intro hw
      cases hw with
      | last hlt _ => omega
      | link hlt _ _ => omega
  · rw [if_neg h, walkTable_eq (by omega), follow_iff]

end Chains

/-! ## The buffers of a chain -/

/-- The length of the buffers together. -/
def capacity (descs : List Descriptor) : Nat := (descs.map Descriptor.len).sum

/-- The memory after `data` was stored along the buffers. -/
def GuestMemory.storeChain (mem : GuestMemory) : List Descriptor → List UInt8 → GuestMemory
  | [], _ => mem
  | d :: ds, data => (mem.store d.addr (data.take d.len)).storeChain ds (data.drop d.len)

/-- What the buffers hold, one after the other. -/
def GuestMemory.chainBytes (mem : GuestMemory) (descs : List Descriptor) : List UInt8 :=
  descs.flatMap fun d => mem.span d.addr d.len

@[simp] theorem capacity_nil : capacity [] = 0 := rfl

@[simp] theorem capacity_cons (d : Descriptor) (ds : List Descriptor) : capacity (d :: ds) = d.len + capacity ds := rfl

section Buffers

variable {mem : GuestMemory} {gpa : Nat} {data : List UInt8} {d : Descriptor} {descs : List Descriptor}

theorem store_nil (mem : GuestMemory) (gpa : Nat) : mem.store gpa [] = mem := by
  unfold GuestMemory.store
  congr 1
  funext a
  simp

theorem store_append (mem : GuestMemory) (gpa : Nat) (xs ys : List UInt8) :
    (mem.store gpa xs).store (gpa + xs.length) ys = mem.store gpa (xs ++ ys) := by
  unfold GuestMemory.store
  congr 1
  funext a
  dsimp only
  by_cases hlow : gpa ≤ a
  · by_cases hxs : a - gpa < xs.length
    · have hout : ¬gpa + xs.length ≤ a := by omega
      rw [if_neg hout, if_pos hlow, if_pos hlow, List.getElem?_append_left hxs]
    · have hin : gpa + xs.length ≤ a := by omega
      have hnone : xs[a - gpa]? = none := List.getElem?_eq_none (by omega)
      rw [if_pos hin, if_pos hlow, if_pos hlow, List.getElem?_append_right (by omega), hnone, Option.getD_none,
        Nat.sub_sub]
  · have hout : ¬gpa + xs.length ≤ a := by omega
    rw [if_neg hout, if_neg hlow, if_neg hlow]

@[simp] theorem storeChain_nil (mem : GuestMemory) (descs : List Descriptor) : mem.storeChain descs [] = mem := by
  induction descs generalizing mem with
  | nil => rfl
  | cons d ds ih => rw [GuestMemory.storeChain, List.take_nil, List.drop_nil, store_nil, ih]

theorem storeChain_take {n : Nat} (h : n = min (capacity descs) data.length) :
    mem.storeChain descs (data.take n) = mem.storeChain descs data := by
  subst h
  induction descs generalizing mem data with
  | nil => rfl
  | cons d ds ih =>
    have hrest : (mem.store d.addr (data.take d.len)).storeChain ds
        ((data.drop d.len).take (min (capacity ds) (data.drop d.len).length)) =
          (mem.store d.addr (data.take d.len)).storeChain ds (data.drop d.len) := ih
    have hdrop : (data.take (min (capacity (d :: ds)) data.length)).drop d.len =
        (data.drop d.len).take (min (capacity ds) (data.drop d.len).length) := by
      rw [List.drop_take, capacity_cons, List.length_drop]
      congr 1
      omega
    have htake : (data.take (min (capacity (d :: ds)) data.length)).take d.len = data.take d.len := by
      rw [List.take_take, capacity_cons, List.take_eq_take_iff]
      omega
    rw [GuestMemory.storeChain, GuestMemory.storeChain, hdrop, htake, hrest]

/-- Two buffers with no byte in common. -/
def Descriptor.Apart (d e : Descriptor) : Prop := d.addr + d.len ≤ e.addr ∨ e.addr + e.len ≤ d.addr

theorem span_storeChain (h : ∀ e ∈ descs, d.Apart e) :
    (mem.storeChain descs data).span d.addr d.len = mem.span d.addr d.len := by
  induction descs generalizing mem data with
  | nil => rfl
  | cons e es ih =>
    rw [GuestMemory.storeChain, ih fun e' he' => h e' (List.mem_cons_of_mem _ he')]
    have hlen : (data.take e.len).length ≤ e.len := by simp
    rcases h e List.mem_cons_self with hbefore | hafter
    · exact span_store_of_disjoint (.inl hbefore)
    · exact span_store_of_disjoint (.inr (by omega))

theorem take_span (mem : GuestMemory) (gpa len n : Nat) : (mem.span gpa len).take n = mem.span gpa (min n len) := by
  rw [GuestMemory.span, GuestMemory.span, ← List.map_take, List.take_range]

/-- **What is stored along buffers that are apart is read back from them.** -/
theorem chainBytes_storeChain (hapart : descs.Pairwise Descriptor.Apart) (hlen : data.length ≤ capacity descs) :
    ((mem.storeChain descs data).chainBytes descs).take data.length = data := by
  induction descs generalizing mem data with
  | nil =>
    have hnil : data = [] := List.eq_nil_of_length_eq_zero (by simpa using hlen)
    simp [hnil]
  | cons d ds ih =>
    obtain ⟨hd, hds⟩ := List.pairwise_cons.mp hapart
    rw [capacity_cons] at hlen
    have hfits : (data.drop d.len).length ≤ capacity ds := by
      rw [List.length_drop]
      omega
    have hrest : (((mem.store d.addr (data.take d.len)).storeChain ds (data.drop d.len)).chainBytes ds).take
        (data.drop d.len).length = data.drop d.len := ih hds hfits
    rw [List.length_drop] at hrest
    unfold GuestMemory.chainBytes at hrest ⊢
    rw [GuestMemory.storeChain, List.flatMap_cons, List.take_append, length_span, span_storeChain hd, hrest, take_span]
    have hfit : (data.take d.len).length = min data.length d.len := by rw [List.length_take, Nat.min_comm]
    rw [span_store_self hfit, List.take_append_drop]

end Buffers

end BridgeVm
