import BridgeVm.DescriptorChain
import BridgeVm.Lib.Scatter
import BridgeVm.VirtioNet.TxExactlyOnce

/-!
# Chains and scattered writes (`virtio_net/virtqueue.rs`)

- `visited_spec`: the chain walk reads at most as many descriptors as the queue has, in a row of links;
- `scatterInto_spec`, `scatterFrom_spec`: what one descriptor takes, and what a list of descriptors takes;
- `descriptor_walk_and_scatter`: the walk against chains as finite walks of the table, and the scattered write against
  one store along the buffers.
-/

namespace BridgeVm.Virtio

open Lib

/-! ## The walk -/

/-- The indices whose descriptors the loop of `descriptor_chain_into` reads, from `index` on. -/
def visited (mem : GuestMemory) (queue : VirtioNetQueue) : Nat → Nat → List Nat
  | 0, _ => []
  | fuel + 1, index =>
    match mem.readDescriptor queue.desc index with
    | none => [index]
    | some desc =>
      if !desc.hasNext then [index]
      else if desc.next ≥ queue.size then [index]
      else index :: visited mem queue fuel desc.next

theorem length_visited_le (mem : GuestMemory) (queue : VirtioNetQueue) (fuel index : Nat) :
    (visited mem queue fuel index).length ≤ fuel := by
  induction fuel generalizing index with
  | zero => exact Nat.le_refl 0
  | succ fuel ih =>
    unfold visited
    split
    · exact Nat.succ_pos fuel
    · split
      · exact Nat.succ_pos fuel
      · split
        · exact Nat.succ_pos fuel
        · exact Nat.succ_le_succ (ih _)

/-! ## `scatter_write_slices` -/

/-- What one descriptor's turn of the loop leads to: the function returns, or the next descriptor takes the slices. -/
inductive ScatterTurn
  | returned (ok : Bool)
  | filled (slices : List (List UInt8)) (written : Nat)
deriving DecidableEq

/-- The loop over one descriptor; the slices are what is left of them, the first one from `slice_offset` on. -/
def scatterInto (totalLen : Nat) (desc : Descriptor) : List (List UInt8) → Nat → Nat → GuestMemory →
    GuestMemory × ScatterTurn
  | [], descOffset, written, mem =>
    if descOffset < desc.len ∧ written < totalLen then (mem, .returned (written = totalLen))
    else (mem, .filled [] written)
  | slice :: slices, descOffset, written, mem =>
    if descOffset < desc.len ∧ written < totalLen then
      if slice = [] then scatterInto totalLen desc slices descOffset written mem
      else
        let copyLen := min (desc.len - descOffset) slice.length
        match checkedAdd desc.addr descOffset with
        | none => (mem, .returned false)
        | some gpa =>
          let (mem, ok) := mem.writeBytes gpa (slice.take copyLen)
          if !ok then (mem, .returned false)
          else if copyLen = slice.length then
            scatterInto totalLen desc slices (descOffset + copyLen) (written + copyLen) mem
          else
            -- The slice goes on behind the end of the descriptor.
            (mem, .filled (slice.drop copyLen :: slices) (written + copyLen))
    else (mem, .filled (slice :: slices) written)

/-- The loop over the descriptors. -/
def scatterFrom (totalLen : Nat) : List Descriptor → List (List UInt8) → Nat → GuestMemory → GuestMemory × Bool
  | [], _, written, mem => (mem, written = totalLen)
  | desc :: descs, slices, written, mem =>
    match scatterInto totalLen desc slices 0 written mem with
    | (mem, .returned ok) => (mem, ok)
    | (mem, .filled slices written) => scatterFrom totalLen descs slices written mem

/-- `scatter_write_slices`. -/
def scatterWriteSlices (mem : GuestMemory) (descs : List Descriptor) (slices : List (List UInt8)) :
    GuestMemory × Bool :=
  let totalLen := (slices.map List.length).sum
  if 2 ^ 64 ≤ totalLen then (mem, false)
  else if totalLen = 0 then (mem, true)
  else if descs.any fun desc => !desc.isWrite then (mem, false)
  else scatterFrom totalLen descs slices 0 mem

/-- The buffers of a list of descriptors as runs. -/
def bufferRuns (descs : List Descriptor) : List (Nat × Nat) := descs.map fun desc => (desc.addr, desc.len)

/-- Where the slices from offset `off` on are written, cut at the ends of the slices and of the runs. -/
def slicePieces (runs : List (Nat × Nat)) : Nat → List (List UInt8) → List (Nat × Nat)
  | _, [] => []
  | off, slice :: slices => pieces runs off slice.length ++ slicePieces runs (off + slice.length) slices

/-- The memory takes a write of this piece. -/
def Takes (mem : GuestMemory) (piece : Nat × Nat) : Prop := piece.1 < 2 ^ 64 ∧ mem.writable piece.1 piece.2 = true

instance (mem : GuestMemory) (piece : Nat × Nat) : Decidable (Takes mem piece) := inferInstanceAs (Decidable (_ ∧ _))

section Scatter

variable {mem mem' : GuestMemory} {desc : Descriptor} {descs : List Descriptor} {slices : List (List UInt8)}
  {slice data : List UInt8} {runs : List (Nat × Nat)} {totalLen off written n : Nat}

theorem slicePieces_skip {r : Nat × Nat} (h : r.2 ≤ off) :
    slicePieces (r :: runs) off slices = slicePieces runs (off - r.2) slices := by
  induction slices generalizing off with
  | nil => rfl
  | cons slice slices ih =>
    have hnext : off + slice.length - r.2 = off - r.2 + slice.length := by omega
    rw [slicePieces, slicePieces, ih (by omega), hnext]
    congr 1
    by_cases hnil : slice.length = 0
    · rw [hnil, pieces_zero, pieces_zero]
    · rw [pieces, if_neg hnil, if_pos h]

theorem slicePieces_cons {r : Nat × Nat} (hoff : off < r.2) (hne : slice ≠ []) :
    slicePieces (r :: runs) off (slice :: slices) =
      (r.1 + off, min (r.2 - off) slice.length) ::
        (if slice.length ≤ r.2 - off then slicePieces (r :: runs) (off + slice.length) slices
        else slicePieces runs 0 (slice.drop (r.2 - off) :: slices)) := by
  have hlen : slice.length ≠ 0 := fun hzero => hne (List.eq_nil_of_length_eq_zero hzero)
  rw [slicePieces, pieces, if_neg hlen, if_neg (by omega), List.cons_append]
  congr 1
  by_cases hfit : slice.length ≤ r.2 - off
  · rw [if_pos hfit, Nat.min_eq_right hfit, Nat.sub_self, pieces_zero, List.nil_append]
  · have hrest : off + slice.length - r.2 = 0 + (slice.drop (r.2 - off)).length := by
      rw [List.length_drop]
      omega
    rw [if_neg hfit, slicePieces, slicePieces_skip (by omega), hrest, List.length_drop, Nat.min_eq_left (by omega)]

theorem slicePieces_flatten_nil (runs : List (Nat × Nat)) (off : Nat) (h : slices.flatten = []) :
    slicePieces runs off slices = [] := by
  induction slices generalizing off with
  | nil => rfl
  | cons slice slices ih =>
    obtain ⟨rfl, hrest⟩ := List.append_eq_nil_iff.1 h
    rw [slicePieces, List.length_nil, pieces_zero, List.nil_append]
    exact ih _ hrest

theorem writeBytes_of_not (h : mem.writable off data.length = false) : mem.writeBytes off data = (mem, false) := by
  unfold GuestMemory.writeBytes
  rw [if_neg (by rw [h]; decide)]

theorem writeBytes_of_writable (h : mem.writable off data.length = true) :
    mem.writeBytes off data = (mem.store off data, true) := if_pos h

/-- What the turn of a descriptor did: it was filled as far as the slices go, or a piece was not taken. -/
structure Scattered (mem : GuestMemory) (desc : Descriptor) (slices : List (List UInt8)) (off written : Nat)
    (mem' : GuestMemory) (turn : ScatterTurn) : Prop where
  stored : ∃ n ≤ desc.len - off, mem' = mem.store (desc.addr + off) (slices.flatten.take n)
  filled : ∀ slices' written', turn = .filled slices' written' →
    mem' = mem.store (desc.addr + off) (slices.flatten.take (desc.len - off)) ∧
      slices'.flatten = slices.flatten.drop (desc.len - off) ∧
      written' + slices'.flatten.length = written + slices.flatten.length ∧
      ∀ runs, (∀ p ∈ slicePieces ((desc.addr, desc.len) :: runs) off slices, Takes mem p) ↔
        ∀ p ∈ slicePieces runs 0 slices', Takes mem p
  returned : ∀ ok, turn = .returned ok → ok = false ∧
    ∀ runs, ¬∀ p ∈ slicePieces ((desc.addr, desc.len) :: runs) off slices, Takes mem p

namespace Scattered

theorem refused (hoff : off < desc.len) (hne : slice ≠ [])
    (h : ¬Takes mem (desc.addr + off, min (desc.len - off) slice.length)) :
    Scattered mem desc (slice :: slices) off written mem (.returned false) where
  stored := ⟨0, Nat.zero_le _, by rw [List.take_zero, store_nil]⟩
  filled _ _ := nofun
  returned ok hok := by
    cases hok
    refine ⟨rfl, fun runs hall => h ?_⟩
    rw [slicePieces_cons hoff hne] at hall
    exact hall _ List.mem_cons_self

theorem done (h : off = desc.len ∨ slices.flatten = []) :
    Scattered mem desc slices off written mem (.filled slices written) where
  stored := ⟨0, Nat.zero_le _, by rw [List.take_zero, store_nil]⟩
  filled slices' written' heq := by
    cases heq
    rcases h with rfl | hnil
    · rw [Nat.sub_self, List.take_zero, store_nil, List.drop_zero]
      refine ⟨rfl, rfl, rfl, fun runs => ?_⟩
      rw [slicePieces_skip (Nat.le_refl _), Nat.sub_self]
    · rw [hnil, List.take_nil, store_nil, List.drop_nil]
      refine ⟨rfl, rfl, rfl, fun runs => ?_⟩
      rw [slicePieces_flatten_nil _ _ hnil, slicePieces_flatten_nil _ _ hnil]
  returned _ := nofun

/-- A piece is taken, and the slice ends with it or before the descriptor does. -/
theorem step (hoff : off < desc.len) (hne : slice ≠ []) (hfit : slice.length ≤ desc.len - off)
    (htakes : Takes mem (desc.addr + off, min (desc.len - off) slice.length)) {turn : ScatterTurn}
    (h : Scattered (mem.store (desc.addr + off) slice) desc slices (off + slice.length) (written + slice.length) mem'
      turn) : Scattered mem desc (slice :: slices) off written mem' turn := by
  have hstore : ∀ n, (mem.store (desc.addr + off) slice).store (desc.addr + (off + slice.length))
    (slices.flatten.take n)
      = mem.store (desc.addr + off) ((slice :: slices).flatten.take (slice.length + n)) := by
    intro n
    rw [← Nat.add_assoc, store_append, List.flatten_cons, List.take_length_add_append]
  refine ⟨?_, fun slices' written' hturn => ?_, fun ok hturn => ?_⟩
  · obtain ⟨n, hn, hmem⟩ := h.stored
    exact ⟨slice.length + n, by omega, hmem.trans (hstore n)⟩
  · obtain ⟨hmem, hflatten, hcount, hpieces⟩ := h.filled slices' written' hturn
    have hroom : desc.len - off = slice.length + (desc.len - (off + slice.length)) := by omega
    refine ⟨?_, ?_, ?_, fun runs => ?_⟩
    · rw [hmem, hstore, hroom]
    · rw [hflatten, List.flatten_cons, hroom, List.drop_length_add_append]
    · rw [hcount, List.flatten_cons, List.length_append]
      omega
    · rw [slicePieces_cons hoff hne, if_pos hfit, List.forall_mem_cons]
      exact ⟨fun hall => (hpieces runs).1 hall.2, fun hall => ⟨htakes, (hpieces runs).2 hall⟩⟩
  · obtain ⟨hok, hpieces⟩ := h.returned ok hturn
    refine ⟨hok, fun runs hall => hpieces runs ?_⟩
    rw [slicePieces_cons hoff hne, if_pos hfit, List.forall_mem_cons] at hall
    exact hall.2

theorem full (hoff : off < desc.len) (hne : slice ≠ []) (hfit : desc.len - off < slice.length)
    (htakes : Takes mem (desc.addr + off, min (desc.len - off) slice.length)) :
    Scattered mem desc (slice :: slices) off written (mem.store (desc.addr + off) (slice.take (desc.len - off)))
      (.filled (slice.drop (desc.len - off) :: slices) (written + (desc.len - off))) where
  stored := by
    refine ⟨desc.len - off, Nat.le_refl _, ?_⟩
    rw [List.flatten_cons, List.take_append_of_le_length (Nat.le_of_lt hfit)]
  filled slices' written' heq := by
    cases heq
    refine ⟨?_, ?_, ?_, fun runs => ?_⟩
    · rw [List.flatten_cons, List.take_append_of_le_length (Nat.le_of_lt hfit)]
    · rw [List.flatten_cons, List.flatten_cons, List.drop_append_of_le_length (Nat.le_of_lt hfit)]
    · rw [List.flatten_cons, List.flatten_cons, List.length_append, List.length_append, List.length_drop]
      omega
    · rw [slicePieces_cons hoff hne, if_neg (by omega), List.forall_mem_cons]
      exact ⟨fun hall => hall.2, fun hall => ⟨htakes, hall⟩⟩
  returned _ := nofun

end Scattered

/-- **What one descriptor takes of the slices.** -/
theorem scatterInto_spec (hwritten : written + slices.flatten.length = totalLen) (hoff : off ≤ desc.len) :
    Scattered mem desc slices off written (scatterInto totalLen desc slices off written mem).1
      (scatterInto totalLen desc slices off written mem).2 := by
  induction slices generalizing off written mem with
  | nil =>
    rw [List.flatten_nil, List.length_nil] at hwritten
    rw [scatterInto, if_neg (by omega)]
    exact .done (.inr rfl)
  | cons slice slices ih =>
    rw [List.flatten_cons, List.length_append] at hwritten
    rw [scatterInto]
    by_cases hmore : off < desc.len ∧ written < totalLen
    · rw [if_pos hmore]
      by_cases hnil : slice = []
      · subst hnil
        rw [if_pos rfl]
        have hspec : Scattered mem desc slices off written _ _ := ih (by simpa using hwritten) hoff
        refine ⟨hspec.stored, hspec.filled, hspec.returned⟩
      · rw [if_neg hnil]
        have hmin : (slice.take (min (desc.len - off) slice.length)).length = min (desc.len - off) slice.length := by
          rw [List.length_take]
          omega
        by_cases haddr : desc.addr + off < 2 ^ 64
        · rw [checkedAdd_of_lt haddr]
          dsimp only
          cases hw : mem.writable (desc.addr + off) (min (desc.len - off) slice.length) with
          | false =>
            rw [writeBytes_of_not (by rw [hmin, hw])]
            exact .refused hmore.1 hnil fun htakes => by rw [htakes.2] at hw; cases hw
          | true =>
            rw [writeBytes_of_writable (by rw [hmin, hw])]
            simp only [Bool.not_true, Bool.false_eq_true, if_false]
            by_cases hfit : slice.length ≤ desc.len - off
            · rw [Nat.min_eq_right hfit, if_pos rfl, List.take_length]
              exact .step hmore.1 hnil hfit ⟨haddr, hw⟩ (ih (by omega) (by omega))
            · rw [Nat.min_eq_left (by omega), if_neg (by omega)]
              exact .full hmore.1 hnil (by omega) ⟨haddr, hw⟩
        · have hnone : checkedAdd desc.addr off = none := if_neg haddr
          rw [hnone]
          exact .refused hmore.1 hnil fun htakes => haddr htakes.1
    · rw [if_neg hmore]
      refine .done ?_
      by_cases hfull : off = desc.len
      · exact .inl hfull
      · right
        refine List.eq_nil_of_length_eq_zero ?_
        rw [List.flatten_cons, List.length_append]
        omega

theorem slicePieces_nil (off : Nat) (slices : List (List UInt8)) : slicePieces [] off slices = [] := by
  induction slices generalizing off with
  | nil => rfl
  | cons slice slices ih => rw [slicePieces, ih, pieces, List.append_nil]

/-- **What a list of descriptors takes of the slices**: all of it when it fits and each piece is taken, and a first part
of it in any case. -/
theorem scatterFrom_spec (hwritten : written + slices.flatten.length = totalLen) :
    (∃ n, (scatterFrom totalLen descs slices written mem).1 = mem.storeChain descs (slices.flatten.take n)) ∧
      ((∀ p ∈ slicePieces (bufferRuns descs) 0 slices, Takes mem p) →
        (scatterFrom totalLen descs slices written mem).1 = mem.storeChain descs slices.flatten) ∧
      ((scatterFrom totalLen descs slices written mem).2 = true ↔
        slices.flatten.length ≤ capacity descs ∧ ∀ p ∈ slicePieces (bufferRuns descs) 0 slices,
        Takes mem p) := by
  induction descs generalizing slices written mem with
  | nil =>
    refine ⟨⟨0, rfl⟩, fun _ => rfl, ?_⟩
    have hruns : bufferRuns [] = [] := rfl
    rw [scatterFrom, hruns, slicePieces_nil, decide_eq_true_eq, capacity_nil]
    constructor
    · intro heq
      exact ⟨by omega, fun _ hr => by cases hr⟩
    · rintro ⟨hle, -⟩
      omega
  | cons desc descs ih =>
    have hspec : Scattered mem desc slices 0 written _ _ := scatterInto_spec hwritten (Nat.zero_le _)
    have hruns : bufferRuns (desc :: descs) = (desc.addr, desc.len) :: bufferRuns descs := rfl
    rw [scatterFrom, hruns, capacity_cons]
    generalize scatterInto totalLen desc slices 0 written mem = result at hspec
    obtain ⟨mem', turn⟩ := result
    dsimp only at hspec
    cases turn with
    | returned ok =>
      obtain ⟨rfl, hpieces⟩ := hspec.returned ok rfl
      obtain ⟨n, hn, hmem⟩ := hspec.stored
      rw [Nat.sub_zero] at hn
      have hchain : mem.storeChain (desc :: descs) (slices.flatten.take n) =
        mem.store desc.addr (slices.flatten.take n) := by
        rw [GuestMemory.storeChain, List.take_take, Nat.min_eq_right hn, List.drop_take,
          Nat.sub_eq_zero_of_le hn, List.take_zero, storeChain_nil]
      refine ⟨⟨n, hmem.trans hchain.symm⟩, fun hall => absurd hall (hpieces _), ?_⟩
      constructor
      · rintro ⟨⟩
      · exact fun hall => absurd hall.2 (hpieces _)
    | filled slices' written' =>
      obtain ⟨hmem, hflatten, hcount, hpieces⟩ := hspec.filled slices' written' rfl
      rw [Nat.add_zero, Nat.sub_zero] at hmem
      rw [Nat.sub_zero] at hflatten
      obtain ⟨⟨n, hpart⟩, hwhole, hok⟩ := @ih mem' slices' written' (by omega)
      have htakes : (∀ p ∈ slicePieces (bufferRuns descs) 0 slices', Takes mem' p) ↔
          ∀ p ∈ slicePieces ((desc.addr, desc.len) :: bufferRuns descs) 0 slices, Takes mem p := by
        rw [hmem]
        exact (hpieces (bufferRuns descs)).symm
      refine ⟨⟨desc.len + n, ?_⟩, fun hall => ?_, ?_⟩
      · rw [GuestMemory.storeChain, List.take_take, Nat.min_eq_left (Nat.le_add_right _ _), List.drop_take,
          Nat.add_sub_cancel_left, ← hmem, ← hflatten]
        exact hpart
      · rw [GuestMemory.storeChain, ← hmem, ← hflatten]
        exact hwhole (htakes.2 hall)
      · rw [hok, htakes, hflatten, List.length_drop]
        constructor
        · rintro ⟨hle, hall⟩
          exact ⟨by omega, hall⟩
        · rintro ⟨hle, hall⟩
          exact ⟨by omega, hall⟩

/-- The chain takes the slices: nothing is to be written, or every buffer is the device's to write, they have the room,
and the memory takes each piece. -/
def ChainTakes (mem : GuestMemory) (descs : List Descriptor) (slices : List (List UInt8)) : Prop :=
  slices.flatten.length < 2 ^ 64 ∧ (slices.flatten = [] ∨ (∀ desc ∈ descs, desc.isWrite = true) ∧
    slices.flatten.length ≤ capacity descs ∧ ∀ p ∈ slicePieces (bufferRuns descs) 0 slices, Takes mem p)

theorem scatterWriteSlices_spec (mem : GuestMemory) (descs : List Descriptor) (slices : List (List UInt8)) :
    (∃ n, (scatterWriteSlices mem descs slices).1 = mem.storeChain descs (slices.flatten.take n)) ∧
      ((scatterWriteSlices mem descs slices).2 = true ↔ ChainTakes mem descs slices) ∧
      (ChainTakes mem descs slices →
        (scatterWriteSlices mem descs slices).1 = mem.storeChain descs slices.flatten) := by
  have htotal : (slices.map List.length).sum = slices.flatten.length := List.length_flatten.symm
  have hnone : ∃ n, mem = mem.storeChain descs (slices.flatten.take n) :=
    ⟨0, by rw [List.take_zero, storeChain_nil]⟩
  unfold scatterWriteSlices ChainTakes
  dsimp only
  rw [htotal]
  by_cases hbig : 2 ^ 64 ≤ slices.flatten.length
  · rw [if_pos hbig]
    exact ⟨hnone, ⟨nofun, fun h => absurd h.1 (by omega)⟩, fun h => absurd h.1 (by omega)⟩
  rw [if_neg hbig]
  by_cases hzero : slices.flatten.length = 0
  · have hnil := List.eq_nil_of_length_eq_zero hzero
    rw [if_pos hzero]
    refine ⟨hnone, ⟨fun _ => ⟨by omega, .inl hnil⟩, fun _ => rfl⟩, fun _ => ?_⟩
    rw [hnil, storeChain_nil]
  rw [if_neg hzero]
  have hne : slices.flatten ≠ [] := fun hnil => hzero (by rw [hnil, List.length_nil])
  by_cases hread : (descs.any fun desc => !desc.isWrite) = true
  · rw [if_pos hread]
    have hsome : ¬∀ desc ∈ descs, desc.isWrite = true := by
      intro hall
      obtain ⟨desc, hdesc, hnot⟩ := List.any_eq_true.1 hread
      rw [hall desc hdesc] at hnot
      cases hnot
    refine ⟨hnone, ⟨nofun, fun h => ?_⟩, fun h => ?_⟩
    · exact (h.2.resolve_left hne).1 |> hsome |>.elim
    · exact (h.2.resolve_left hne).1 |> hsome |>.elim
  · rw [if_neg hread]
    have hall : ∀ desc ∈ descs, desc.isWrite = true := by simpa using hread
    obtain ⟨hpart, hwhole, hok⟩ := @scatterFrom_spec mem descs slices _ 0 (Nat.zero_add _)
    refine ⟨hpart, hok.trans ?_, fun h => hwhole (h.2.resolve_left hne).2.2⟩
    constructor
    · exact fun h => ⟨by omega, .inr ⟨hall, h⟩⟩
    · exact fun h => (h.2.resolve_left hne).2

theorem zip_range' {base len : Nat} (h : data.length ≤ len) :
    (List.range' base len).zip data = (List.range' base data.length).zip data := by
  rw [List.zip_eq_zip_take_min, List.length_range', Nat.min_eq_right h, take_range', Nat.min_eq_left h,
    List.take_length]

theorem storeChain_bytes (mem : GuestMemory) (descs : List Descriptor) (data : List UInt8) :
    (mem.storeChain descs data).bytes = pokes mem.bytes ((addresses (bufferRuns descs)).zip data) := by
  induction descs generalizing mem data with
  | nil => rfl
  | cons desc descs ih =>
    have hruns : bufferRuns (desc :: descs) = (desc.addr, desc.len) :: bufferRuns descs := rfl
    rw [GuestMemory.storeChain, ih, hruns, addresses_cons, append_zip, List.length_range', pokes_append,
      zip_range' (List.length_take_le _ _), pokes_range']
    rfl

theorem storeChain_frame {a : Nat} (h : a ∉ (addresses (bufferRuns descs)).take data.length) :
    (mem.storeChain descs data).bytes a = mem.bytes a := by
  rw [storeChain_bytes]
  refine pokes_of_not_mem fun hmem => h ?_
  rw [List.zip_eq_zip_take_min] at hmem
  obtain ⟨w, hw, rfl⟩ := List.mem_map.1 hmem
  exact List.take_subset_take_left _ (Nat.min_le_right _ _) (List.of_mem_zip hw).1

end Scatter

/-! ## The walk and the write -/

section Walks

variable {mem : GuestMemory} {queue : VirtioNetQueue} {descs : List Descriptor}

/-- The descriptors of a walk that is accepted are those that were read. -/
theorem visited_spec {fuel index : Nat} (h : walkDescriptors mem queue fuel index = some descs) :
    (visited mem queue fuel index).map (mem.readDescriptor queue.desc) = descs.map some := by
  induction fuel generalizing index descs with
  | zero => cases h
  | succ fuel ih =>
    unfold walkDescriptors at h
    unfold visited
    cases hdesc : mem.readDescriptor queue.desc index with
    | none => rw [hdesc] at h; cases h
    | some desc =>
      rw [hdesc] at h
      dsimp only at h ⊢
      split at h
      · cases h
        rw [if_pos ‹_›, List.map_singleton, hdesc]
        rfl
      · rw [if_neg ‹_›]
        split at h
        · cases h
        · obtain ⟨rest, hrest, rfl⟩ := Option.map_eq_some_iff.1 h
          rw [if_neg ‹_›, List.map_cons, hdesc, ih hrest]
          rfl

theorem descriptorChainInto_bounded {head : Nat} : descriptorChainInto mem queue head = some descs ↔
    Chain mem queue head descs ∧ descs.length ≤ queue.size := by
  rw [descriptorChainInto_iff]
  exact ⟨fun h => ⟨h, Walk.length_le h⟩, And.left⟩

theorem visited_chain {head : Nat} (h : descriptorChainInto mem queue head = some descs) :
    (visited mem queue queue.size head).map (mem.readDescriptor queue.desc) = descs.map some := by
  unfold descriptorChainInto at h
  split at h
  · cases h
  · exact visited_spec h

/-- **The chain walk** reads at most `queue.size` descriptors and finds exactly the walks of the table, and **the
scattered write** stores the slices along the buffers where the chain takes them: where it does not, at most a first
part of them, and never a byte behind them. -/
theorem descriptor_walk_and_scatter (mem : GuestMemory) (queue : VirtioNetQueue) (head : Nat) :
    ((visited mem queue queue.size head).length ≤ queue.size ∧
      (∀ descs, descriptorChainInto mem queue head = some descs ↔
        Chain mem queue head descs ∧ descs.length ≤ queue.size) ∧
      ∀ descs, descriptorChainInto mem queue head = some descs →
        (visited mem queue queue.size head).map (mem.readDescriptor queue.desc) = descs.map some) ∧
    ∀ descs slices,
      ((scatterWriteSlices mem descs slices).2 = true ↔ ChainTakes mem descs slices) ∧
      (ChainTakes mem descs slices → slices.flatten.length ≤ capacity descs ∧
        (scatterWriteSlices mem descs slices).1.bytes =
          pokes mem.bytes ((addresses (bufferRuns descs)).zip slices.flatten)) ∧
      (∃ n, (scatterWriteSlices mem descs slices).1.bytes =
        pokes mem.bytes ((addresses (bufferRuns descs)).zip (slices.flatten.take n))) ∧
      ∀ a ∉ (addresses (bufferRuns descs)).take slices.flatten.length,
        (scatterWriteSlices mem descs slices).1.bytes a = mem.bytes a := by
  refine ⟨⟨length_visited_le _ _ _ _, fun _ => descriptorChainInto_bounded, fun _ => visited_chain⟩,
    fun descs slices => ?_⟩
  obtain ⟨⟨n, hpart⟩, hok, hwhole⟩ := scatterWriteSlices_spec mem descs slices
  refine ⟨hok, fun htakes => ⟨?_, ?_⟩, ⟨n, ?_⟩, fun a ha => ?_⟩
  · rcases htakes.2 with hnil | ⟨-, hroom, -⟩
    · rw [hnil]
      exact Nat.zero_le _
    · exact hroom
  · rw [hwhole htakes, storeChain_bytes]
  · rw [hpart, storeChain_bytes]
  · rw [hpart]
    refine storeChain_frame fun hmem => ha ?_
    exact List.take_subset_take_left _ (List.length_take_le' _ _) hmem

/-- **What an accepted write stores is read back from the chain**, where its buffers are apart. -/
theorem scatterWriteSlices_reads_back {mem : GuestMemory} {descs : List Descriptor} {slices : List (List UInt8)}
    (h : (scatterWriteSlices mem descs slices).2 = true) (hapart : descs.Pairwise Descriptor.Apart) :
    ((scatterWriteSlices mem descs slices).1.chainBytes descs).take slices.flatten.length = slices.flatten := by
  obtain ⟨-, hok, hwhole⟩ := scatterWriteSlices_spec mem descs slices
  have htakes := hok.mp h
  rw [hwhole htakes]
  refine chainBytes_storeChain hapart ?_
  obtain hnil | ⟨-, hroom, -⟩ := htakes.2
  · rw [hnil]
    exact Nat.zero_le _
  · exact hroom

end Walks

/-- A table of one descriptor: a buffer of one byte, for the device to write. -/
def oneByteBuffer : GuestMemory :=
  ⟨fun a => if a = 24 then 1 else if a = 28 then 2 else 0, fun _ _ => true, fun _ _ => true⟩

/-- The second slice goes on in the second buffer, which lies before the first one. -/
theorem scatterWriteSlices_reads_back_two :
    ((scatterWriteSlices oneByteBuffer [⟨8, 2, 2, 0⟩, ⟨0, 4, 2, 0⟩] [[1], [2, 3]]).1.chainBytes
      [⟨8, 2, 2, 0⟩, ⟨0, 4, 2, 0⟩]).take [[1], [2, 3]].flatten.length = [[1], [2, 3]].flatten :=
  @scatterWriteSlices_reads_back oneByteBuffer [⟨8, 2, 2, 0⟩, ⟨0, 4, 2, 0⟩] [[1], [2, 3]] (by decide +kernel)
    (by simp [Descriptor.Apart])

def oneEntryQueue : VirtioNetQueue := ⟨1, true, 16, 64, 128, 0, false⟩

/-- Of two slices only the first byte fits, and it is written. -/
theorem short_chain_takes_a_part :
    ¬∀ (mem : GuestMemory) (queue : VirtioNetQueue) (head : Nat) (descs : List Descriptor)
    (slices : List (List UInt8)), descriptorChainInto mem queue head = some descs →
      ((scatterWriteSlices mem descs slices).1.chainBytes descs).take slices.flatten.length = slices.flatten := by
  intro h
  have hwritten := h oneByteBuffer oneEntryQueue 0 [⟨0, 1, 2, 0⟩] [[7], [9]] (by decide +kernel)
  exact absurd hwritten (by decide +kernel)

end BridgeVm.Virtio
