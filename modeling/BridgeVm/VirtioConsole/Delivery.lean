import BridgeVm.VirtioConsole.Console

/-!
# Delivery into the guest's buffers

A delivery that succeeds stores as much of the bytes as the chain holds, in order, whichever way the bytes are split
into two slices. A chain that is too short for one slice takes one write a descriptor, so it succeeds exactly when each
of them is backed.
-/

namespace BridgeVm.Console

open Lib

variable {first second bytes : List UInt8} {mem mem' : GuestMemory} {descs : List Descriptor}
  {fuel addr remaining offset offset' written : Nat}

theorem slicePairChunk_spec (h : offset < first.length + second.length) : ∃ chunk rest,
    slicePairChunk first second offset = some chunk ∧ (first ++ second).drop offset = chunk ++ rest ∧
    0 < chunk.length := by
  unfold slicePairChunk
  by_cases hfirst : offset < first.length
  · rw [if_pos hfirst]
    refine ⟨_, second, rfl, ?_, ?_⟩
    · rw [List.drop_append_of_le_length (by omega)]
    · rw [List.length_drop]
      omega
  · have hsecond : offset - first.length < second.length := by omega
    rw [if_neg hfirst, if_pos hsecond]
    refine ⟨_, [], rfl, ?_, ?_⟩
    · rw [List.drop_append, List.drop_of_length_le (by omega), List.nil_append, List.append_nil]
    · rw [List.length_drop]
      omega

theorem scatterInto_backing (first second : List UInt8) (fuel addr remaining offset : Nat) (mem : GuestMemory) :
    mem.SameBacking (scatterInto first second fuel addr remaining offset mem).1 := by
  induction fuel generalizing addr remaining offset mem with
  | zero => exact .refl mem
  | succ fuel ih =>
    unfold scatterInto
    split
    · exact .refl mem
    split
    · exact .refl mem
    dsimp only
    split
    · exact .refl mem
    split
    · exact writeBytes_backing
    split
    · exact writeBytes_backing
    · exact writeBytes_backing.trans (ih _ _ _ _)

/-- What goes into one descriptor. -/
theorem scatterInto_spec (hfuel : first.length + second.length - offset ≤ fuel)
    (hle : offset ≤ first.length + second.length)
    (h : scatterInto first second fuel addr remaining offset mem = (mem', some offset')) :
    offset' = min (offset + remaining) (first.length + second.length) ∧
      mem' = mem.store addr (((first ++ second).drop offset).take remaining) := by
  induction fuel generalizing addr remaining offset mem with
  | zero =>
    have hend : offset = first.length + second.length := by omega
    have hnil : (first ++ second).drop offset = [] := List.drop_of_length_le (by rw [List.length_append]; omega)
    simp only [scatterInto, Prod.mk.injEq, Option.some.injEq] at h
    rw [hnil, List.take_nil, store_nil]
    exact ⟨by omega, h.1.symm⟩
  | succ fuel ih =>
    unfold scatterInto at h
    split at h
    · rename_i hdone
      simp only [Prod.mk.injEq, Option.some.injEq] at h
      have hnil : ((first ++ second).drop offset).take remaining = [] := by
        rcases hdone with rfl | hend
        · exact List.take_zero
        · rw [List.drop_of_length_le (by rw [List.length_append]; omega), List.take_nil]
      rw [hnil, store_nil]
      exact ⟨by omega, h.1.symm⟩
    · rename_i hmore
      push Not at hmore
      obtain ⟨chunk, rest, hchunk, hdrop, hpos⟩ := slicePairChunk_spec hmore.2
      have hlength : chunk.length + rest.length = first.length + second.length - offset := by
        rw [← List.length_append, ← hdrop, List.length_drop, List.length_append]
      rw [hchunk] at h
      dsimp only at h
      rw [if_neg (by omega)] at h
      split at h
      · cases h
      · rename_i hwritten
        have hstore : (mem.writeBytes addr (chunk.take (min remaining chunk.length))).1 =
            mem.store addr (chunk.take (min remaining chunk.length)) := writeBytes_store (by simpa using hwritten)
        rw [hstore] at h
        split at h
        · cases h
        · rename_i addr' haddr
          rw [checkedAdd_some haddr] at h
          obtain ⟨hoffset, hmem⟩ := ih (by omega) (by omega) h
          refine ⟨by omega, ?_⟩
          have htake : (chunk.take (min remaining chunk.length)).length = min remaining chunk.length := by
            rw [List.length_take]
            omega
          have hnext : (first ++ second).drop (offset + min remaining chunk.length) =
              chunk.drop (min remaining chunk.length) ++ rest := by
            rw [← List.drop_drop, hdrop, List.drop_append_of_le_length (by omega)]
          rw [hmem, hnext, hdrop]
          have happend := store_append mem addr (chunk.take (min remaining chunk.length))
            ((chunk.drop (min remaining chunk.length) ++ rest).take (remaining - min remaining chunk.length))
          rw [htake] at happend
          rw [happend]
          congr 1
          by_cases hshort : remaining ≤ chunk.length
          · rw [Nat.min_eq_left hshort, Nat.sub_self, List.take_zero, List.append_nil,
              List.take_append_of_le_length hshort]
          · have hall : (chunk ++ rest).take remaining = chunk ++ rest.take (remaining - chunk.length) := by
              rw [List.take_append, List.take_of_length_le (by omega)]
            rw [Nat.min_eq_right (by omega), List.take_length, List.drop_length, List.nil_append, hall]

theorem scatterDescs_backing : mem.SameBacking (scatterDescs first second descs offset mem).1 := by
  induction descs generalizing offset mem with
  | nil => exact .refl mem
  | cons desc descs ih =>
    have hinto := scatterInto_backing first second (first.length + second.length - offset) desc.addr desc.len offset mem
    unfold scatterDescs
    split
    · rename_i hnone
      rw [hnone] at hinto
      exact hinto
    · rename_i hsome
      rw [hsome] at hinto
      split
      · exact hinto
      · exact hinto.trans ih

/-- What goes into the descriptors from an offset on. -/
theorem scatterDescs_spec (hle : offset ≤ first.length + second.length)
    (h : scatterDescs first second descs offset mem = (mem', some written)) :
    0 < written ∧ written = min (offset + capacity descs) (first.length + second.length) ∧
      mem' = mem.storeChain descs ((first ++ second).drop offset) := by
  induction descs generalizing offset mem with
  | nil =>
    simp only [scatterDescs, Prod.mk.injEq] at h
    obtain ⟨rfl, hwritten⟩ := h
    split at hwritten
    · cases hwritten
      exact ⟨by omega, by simpa using hle, rfl⟩
    · cases hwritten
  | cons desc descs ih =>
    unfold scatterDescs at h
    split at h
    · cases h
    · rename_i mid offset₁ hinto
      obtain ⟨hoffset, hmid⟩ := scatterInto_spec (Nat.le_refl _) hle hinto
      rw [GuestMemory.storeChain, ← hmid, capacity_cons, List.drop_drop]
      split at h
      · rename_i hend
        have hnil : (first ++ second).drop (offset + desc.len) = [] :=
          List.drop_of_length_le (by rw [List.length_append]; omega)
        rw [hnil, storeChain_nil]
        simp only [Prod.mk.injEq] at h
        obtain ⟨rfl, hwritten⟩ := h
        split at hwritten
        · cases hwritten
          exact ⟨by omega, by omega, rfl⟩
        · cases hwritten
      · obtain ⟨hpos, hwritten, hmem⟩ := ih (by omega) h
        have heq : offset₁ = offset + desc.len := by omega
        rw [heq] at hmem hwritten
        exact ⟨hpos, by omega, hmem⟩

theorem scatter_backing (mem : GuestMemory) (descs : List Descriptor) (first second : List UInt8) :
    mem.SameBacking (scatterWritePartialSlices mem descs first second).1 := by
  unfold scatterWritePartialSlices
  split
  · exact .refl mem
  · exact scatterDescs_backing

/-- **What a scatter that succeeds writes.** -/
theorem scatter_spec (h : scatterWritePartialSlices mem descs first second = (mem', some written)) :
    (∀ d ∈ descs, d.isWrite = true) ∧ 0 < written ∧ written = min (capacity descs) (first ++ second).length ∧
      mem' = mem.storeChain descs ((first ++ second).take written) := by
  unfold scatterWritePartialSlices at h
  split at h
  · cases h
  · rename_i hwrite
    obtain ⟨hpos, hwritten, hmem⟩ := scatterDescs_spec (Nat.zero_le _) h
    rw [Nat.zero_add, ← List.length_append] at hwritten
    refine ⟨?_, hpos, hwritten, ?_⟩
    · intro d hd
      by_contra hread
      exact hwrite (List.any_eq_true.mpr ⟨d, hd, by simpa using hread⟩)
    · rw [hmem, List.drop_zero, storeChain_take hwritten]

/-! ## One slice -/

/-- The buffers that would be written are backed. -/
def Backed (mem : GuestMemory) (descs : List Descriptor) : Prop :=
  ∀ d ∈ descs, 0 < d.len → mem.writable d.addr d.len = true ∧ d.addr + d.len < 2 ^ 64

/-- A descriptor that is shorter than the slice takes one write. -/
theorem scatterInto_short (mem : GuestMemory) (addr : Nat) (hlen : offset + remaining < bytes.length) :
    (scatterInto bytes [] (bytes.length - offset) addr remaining offset mem).2 =
      if 0 < remaining → mem.writable addr remaining = true ∧ addr + remaining < 2 ^ 64 then
        some (offset + remaining)
      else none := by
  obtain ⟨fuel, hfuel⟩ : ∃ fuel, bytes.length - offset = fuel + 2 ∨ remaining = 0 ∧
    bytes.length - offset = fuel + 1 := by
    by_cases hzero : remaining = 0
    · exact ⟨bytes.length - offset - 1, .inr ⟨hzero, by omega⟩⟩
    · exact ⟨bytes.length - offset - 2, .inl (by omega)⟩
  rcases hfuel with hfuel | ⟨rfl, hfuel⟩
  · rw [hfuel, scatterInto]
    by_cases hzero : remaining = 0
    · subst hzero
      simp
    have hchunk : slicePairChunk bytes [] offset = some (bytes.drop offset) := if_pos (by omega)
    have hwritable : min remaining (bytes.drop offset).length = remaining := by
      rw [List.length_drop]
      omega
    have hdata : ((bytes.drop offset).take remaining).length = remaining := by
      rw [List.length_take, hwritable]
    rw [if_neg (by rw [List.length_nil]; omega), hchunk]
    dsimp only
    rw [hwritable, if_neg hzero]
    unfold GuestMemory.writeBytes checkedAdd
    rw [hdata]
    by_cases hw : mem.writable addr remaining = true
    · by_cases hfit : addr + remaining < 2 ^ 64
      · have hcond : 0 < remaining → mem.writable addr remaining = true ∧ addr + remaining < 2 ^ 64 :=
          fun _ => ⟨hw, hfit⟩
        rw [if_pos hcond]
        simp only [if_pos hw, if_pos hfit, Bool.not_true, Bool.false_eq_true, if_false, Nat.sub_self]
        cases fuel <;> simp [scatterInto]
      · have hcond : ¬(0 < remaining → mem.writable addr remaining = true ∧ addr + remaining < 2 ^ 64) :=
          fun h => hfit (h (by omega)).2
        rw [if_neg hcond]
        simp only [if_pos hw, if_neg hfit, Bool.not_true, Bool.false_eq_true, if_false]
    · have hcond : ¬(0 < remaining → mem.writable addr remaining = true ∧ addr + remaining < 2 ^ 64) :=
        fun h => hw (h (by omega)).1
      rw [if_neg hcond]
      simp only [if_neg hw, Bool.not_false, if_true]
  · rw [hfuel, scatterInto]
    simp

theorem Backed.of_backing (hb : mem.SameBacking mem') : Backed mem' descs ↔ Backed mem descs := by
  unfold Backed
  rw [hb.2]

theorem scatterDescs_short (mem : GuestMemory) (hlen : offset + capacity descs < bytes.length) :
    (∃ mem', scatterDescs bytes [] descs offset mem = (mem', some (offset + capacity descs))) ↔
      Backed mem descs ∧ 0 < offset + capacity descs := by
  induction descs generalizing offset mem with
  | nil =>
    simp only [scatterDescs, capacity_nil, Nat.add_zero, Prod.mk.injEq, exists_eq_left', Backed, List.not_mem_nil,
      false_imp_iff, implies_true, true_and]
    by_cases hpos : 0 < offset
    · rw [if_pos hpos]
      exact ⟨fun _ => hpos, fun _ => rfl⟩
    · rw [if_neg hpos]
      exact ⟨fun h => absurd h (by simp), fun h => absurd h hpos⟩
  | cons desc descs ih =>
    rw [capacity_cons] at hlen ⊢
    have hinto := scatterInto_short mem desc.addr (show offset + desc.len < bytes.length by omega)
    have hbacking := scatterInto_backing bytes [] (bytes.length - offset) desc.addr desc.len offset mem
    have hsplit : Backed mem (desc :: descs) ↔
        (0 < desc.len → mem.writable desc.addr desc.len = true ∧ desc.addr + desc.len < 2 ^ 64) ∧
        Backed mem descs :=
      List.forall_mem_cons
    rw [hsplit]
    unfold scatterDescs
    rw [List.length_nil, Nat.add_zero]
    split at hinto
    · rename_i hfirst
      split
      · rename_i hnone
        rw [hnone] at hinto
        cases hinto
      · rename_i mid offset₁ hsome
        rw [hsome] at hinto hbacking
        obtain rfl : offset₁ = offset + desc.len := Option.some.inj hinto
        rw [if_neg (by omega), ← Nat.add_assoc, ih _ (by omega), Backed.of_backing hbacking]
        constructor
        · rintro ⟨hrest, hpos⟩
          exact ⟨⟨hfirst, hrest⟩, hpos⟩
        · rintro ⟨⟨_, hrest⟩, hpos⟩
          exact ⟨hrest, hpos⟩
    · rename_i hfirst
      split
      · constructor
        · rintro ⟨_, h⟩
          cases h
        · rintro ⟨⟨h, _⟩, _⟩
          exact absurd h hfirst
      · rename_i hsome
        rw [hsome] at hinto
        cases hinto

/-- **A chain too short for one slice** is filled exactly when all of it is writable and backed. -/
theorem scatter_short (hlen : capacity descs < bytes.length) :
    (∃ mem', scatterWritePartialSlices mem descs bytes [] = (mem', some (capacity descs))) ↔
      (∀ d ∈ descs, d.isWrite = true) ∧ Backed mem descs ∧ 0 < capacity descs := by
  have hshort := scatterDescs_short mem (show 0 + capacity descs < bytes.length by omega)
  rw [Nat.zero_add] at hshort
  unfold scatterWritePartialSlices
  by_cases hread : (descs.any fun desc => !desc.isWrite) = true
  · rw [if_pos hread]
    obtain ⟨d, hd, hdread⟩ := List.any_eq_true.mp hread
    constructor
    · rintro ⟨_, h⟩
      cases h
    · rintro ⟨hwrite, _⟩
      rw [hwrite d hd] at hdread
      cases hdread
  · rw [if_neg hread, hshort]
    have hwrite : ∀ d ∈ descs, d.isWrite = true := by
      intro d hd
      by_contra hdread
      exact hread (List.any_eq_true.mpr ⟨d, hd, by simpa using hdread⟩)
    exact ⟨fun h => ⟨hwrite, h⟩, fun h => h.2⟩

/-! ## One delivery -/

/-- What the driver set up, without what the device keeps of its work. -/
def ConsoleQueue.registers (q : ConsoleQueue) : ConsoleQueue := { q with lastAvailIdx := 0, pendingMsix := false }

/-- What one used receive buffer is: the head of its ring slot, a chain of buffers to write, filled with the data in
order, and reported with its length. -/
structure RxUsed.Ok (queues : Fin 6 → ConsoleQueue) (u : RxUsed) : Prop where
  head : u.before.readU16At (queues u.queue).driver (ringOff u.availIdx (queues u.queue).size) = some u.head
  chain : DescriptorChain u.before (queues u.queue).desc (queues u.queue).size u.head u.descs
  writable : ∀ d ∈ u.descs, d.isWrite = true
  nonempty : 0 < u.data.length
  fits : u.data.length ≤ capacity u.descs
  filled : u.filled = u.before.storeChain u.descs u.data
  after : u.after =
    u.filled.writeUsed (queues u.queue).device (queues u.queue).size u.head (min u.data.length (2 ^ 32 - 1))

section Delivery

variable {s s' : ConsoleState} {queueIndex : Fin 6} {head : Nat} {queues : Fin 6 → ConsoleQueue}

/-- The queues keep what the driver set up. -/
def SameRegisters (queues : Fin 6 → ConsoleQueue) (s : ConsoleState) : Prop :=
  ∀ i, (s.dev.queues i).registers = (queues i).registers

theorem offered_spec (h : s.offered queueIndex = some (head, descs)) :
    s.mem.readU16At (s.dev.queues queueIndex).driver
        (ringOff (s.dev.queues queueIndex).lastAvailIdx (s.dev.queues queueIndex).size) = some head ∧
      DescriptorChain s.mem (s.dev.queues queueIndex).desc (s.dev.queues queueIndex).size head descs := by
  unfold ConsoleState.offered at h
  dsimp only at h
  split at h
  · cases h
  split at h
  · cases h
  split at h
  · cases h
  split at h
  · cases h
  · rename_i hhead
    obtain ⟨descs', hdescs, heq⟩ := Option.map_eq_some_iff.mp h
    cases heq
    exact ⟨hhead, descriptorChain_iff.mp hdescs⟩

/-- **A delivery** leaves everything but bytes of the memory, or uses one buffer. -/
theorem deliver_cases (s : ConsoleState) (queueIndex : Fin 6) (first second : List UInt8) :
    (∃ mem', s.mem.SameBacking mem' ∧
      s.deliverPartialSlices queueIndex first second = ({ s with mem := mem' }, none)) ∨
      ∃ u : RxUsed, u.Ok s.dev.queues ∧ u.queue = queueIndex ∧
        s.offered queueIndex = some (u.head, u.descs) ∧ u.before = s.mem ∧
        u.availIdx = (s.dev.queues queueIndex).lastAvailIdx ∧
        u.data.length = min (capacity u.descs) (first ++ second).length ∧
        u.data = (first ++ second).take u.data.length ∧
        s.deliverPartialSlices queueIndex first second =
          ({ dev := (s.dev.advance queueIndex).markQueueInterrupt queueIndex
             mem := u.after
             log := .rxUsed u :: s.log }, some u.data.length) := by
  unfold ConsoleState.deliverPartialSlices
  dsimp only
  split
  · exact .inl ⟨s.mem, .refl _, rfl⟩
  split
  · exact .inl ⟨s.mem, .refl _, rfl⟩
  rename_i head descs hoffered
  obtain ⟨hhead, hchain⟩ := offered_spec hoffered
  split
  · rename_i mem' hscatter
    refine .inl ⟨mem', ?_, rfl⟩
    have hbacking := scatter_backing s.mem descs first second
    rw [hscatter] at hbacking
    exact hbacking
  · rename_i mem' written hscatter
    obtain ⟨hwrite, hpos, hwritten, hmem⟩ := scatter_spec hscatter
    have hlength : ((first ++ second).take written).length = written := by
      rw [List.length_take]
      omega
    have hfits : ((first ++ second).take written).length ≤ capacity descs := by omega
    refine .inr ⟨⟨queueIndex, (s.dev.queues queueIndex).lastAvailIdx, head, descs,
      (first ++ second).take written, s.mem,
      mem', writeUsed mem' (s.dev.queues queueIndex) head (min written (2 ^ 32 - 1))⟩, ?_, rfl, hoffered, rfl, rfl,
      ?_, ?_, ?_⟩
    · exact ⟨hhead, hchain, hwrite, by rw [hlength]; exact hpos, hfits, hmem, by rw [hlength]; rfl⟩
    · rw [hlength]
      exact hwritten
    · rw [hlength]
    · rw [hlength]

theorem deliver_short (hoffered : s.offered queueIndex = some (head, descs)) (hlen : capacity descs < bytes.length) :
    (s.deliverPartialSlices queueIndex bytes []).2 = some (capacity descs) ↔
      (∀ d ∈ descs, d.isWrite = true) ∧ Backed s.mem descs ∧ 0 < capacity descs := by
  rw [← scatter_short hlen]
  unfold ConsoleState.deliverPartialSlices
  dsimp only
  rw [if_neg (by omega), hoffered]
  dsimp only
  rcases hscatter : scatterWritePartialSlices s.mem descs bytes [] with ⟨mem', _ | written⟩
  · simp
  · simp

theorem registers_eq {q q' : ConsoleQueue} (h : q.registers = q'.registers) :
    q.size = q'.size ∧ q.desc = q'.desc ∧ q.driver = q'.driver ∧ q.device = q'.device := by
  cases q
  cases q'
  simp only [ConsoleQueue.registers, ConsoleQueue.mk.injEq] at h
  exact ⟨h.1, h.2.2.1, h.2.2.2.1, h.2.2.2.2.1⟩

theorem RxUsed.Ok.of_registers {u : RxUsed} (h : u.Ok s.dev.queues) (hregs : SameRegisters queues s) : u.Ok queues := by
  obtain ⟨hsize, hdesc, hdriver, hdevice⟩ := registers_eq (hregs u.queue)
  refine ⟨?_, ?_, h.writable, h.nonempty, h.fits, h.filled, ?_⟩
  · rw [← hsize, ← hdriver]
    exact h.head
  · rw [← hsize, ← hdesc]
    exact h.chain
  · rw [← hsize, ← hdevice]
    exact h.after

end Delivery

end BridgeVm.Console
