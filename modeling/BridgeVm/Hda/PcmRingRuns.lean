import BridgeVm.Hda.PcmInvariant

/-!
# The PCM ring is a lossless queue

In every state reached, what the callbacks have drained is what was accepted first, in whole batches, and a slot is
stored to again only after its frame was copied out. A call that is refused changes nothing.
-/

namespace BridgeVm.Hda.PcmRing

open Lib

/-! ## What the ring keeps -/

/-- What is left for a callback to drain before it must look at the head again. -/
def Draining.left : Draining → Option Nat
  | .consumer c => some c.len
  | .copying c _ frame => some (c.len - frame * FRAME_BYTES)
  | _ => none

/-- The producer has changed nothing that others see. -/
structure Unchanged (s s' : System) : Prop where
  memory : s'.memory = s.memory
  callbacks : s'.callbacks = s.callbacks
  accepted : s'.accepted = s.accepted
  written : s'.written = s.written
  copied : s'.copied = s.copied

/-- **A lossless queue.** -/
structure Lossless (ring : AtomicPcmRing) (s : System) : Prop where
  /-- What has been drained is what was accepted first. -/
  drained : s.drained <+: s.accepted.flatten
  /-- A callback sees whole batches: what it can drain ends at the end of one. -/
  batches : ∀ c left, (s.callbacks c).place.left = some left →
    ∃ n ≤ s.accepted.length, s.drained.length + left = (s.accepted.take n).flatten.length
  /-- A frame whose slot has been stored to again has been copied out. -/
  copied : ∀ a b slot word word', s.written[a]? = some (slot, word) →
    s.written[b]? = some (slot, word') → a < b →
    a < s.copied.length
  copied_written : s.copied <+: s.written.map Prod.snd
  capacity : ∀ head tail, s.memory.latest .head = some head → s.memory.latest .tail = some tail →
    wrappingSub head tail ≤ ring.logicalFrames
  /-- At most one callback has a consumer. -/
  one : ∀ c d, (s.callbacks c).place ≠ .outside → (s.callbacks d).place ≠ .outside → c = d
  /-- A call that ends with a refusal has changed nothing: neither its first step nor the one that refuses does. -/
  refused : ∀ a s', step ring s a = some s' →
    (∃ first second capacity write, a = .publish first second capacity write) ∨ s'.refused ≠ s.refused →
    Unchanged s s'

/-! ## What the invariant says -/

section Inv

variable {ring : AtomicPcmRing} {start : Nat} {s : System}

namespace Inv

theorem drains_le_copied (h : Inv ring start s) : s.drains.sum ≤ s.copied.length := by
  cases h.turn with
  | free w last clear outside owner copied => exact copied.ge
  | held c w last set outside owner place =>
    cases hplace : (s.callbacks c).place with
    | outside =>
      rw [hplace] at place
      exact place.elim
    | claimed =>
      rw [hplace] at place
      exact Eq.ge place
    | cursorLoaded | consumer =>
      rw [hplace] at place
      exact place.1.ge
    | copying =>
      rw [hplace] at place
      exact (Nat.le_add_right _ _).trans place.1.ge

theorem copied_le (h : Inv ring start s) : s.copied.length ≤ s.total := by
  have hdrains := h.drains_le
  cases h.turn with
  | free w last clear outside owner copied => omega
  | held c w last set outside owner place =>
    cases hplace : (s.callbacks c).place with
    | outside =>
      rw [hplace] at place
      exact place.elim
    | claimed =>
      rw [hplace] at place
      exact (show s.copied.length = _ from place).trans_le hdrains
    | cursorLoaded | consumer =>
      rw [hplace] at place
      exact place.1.trans_le hdrains
    | copying =>
      rw [hplace] at place
      obtain ⟨hcopied, hframe, n, hn, hroom⟩ := place
      have htotal := s.framesUpTo_le n
      omega

theorem drained_prefix (h : Inv ring start s) : s.drained <+: s.accepted.flatten := by
  obtain ⟨rest, hrest⟩ : s.accepted.flatMap words <+: s.written.map Prod.snd := by
    have hpublishing := h.publishing
    cases hp : s.publishing <;> rw [hp] at hpublishing
    case idle => exact hpublishing ▸ List.prefix_refl _
    case headLoaded => exact hpublishing.1 ▸ List.prefix_refl _
    case copying => exact hpublishing.1 ▸ List.prefix_append _ _
  have hcopied : s.copied <+: s.accepted.flatMap words := by
    refine List.prefix_of_prefix_length_le h.copied ⟨rest, hrest⟩ ?_
    rw [length_flatMap_words]
    exact h.copied_le
  obtain ⟨more, hmore⟩ := hcopied
  rw [← flatMap_flatMap_words _ h.aligned, ← hmore, List.flatMap_append]
  exact List.prefix_append _ _

theorem batches (h : Inv ring start s) (hring : Sized ring) {c left : Nat}
    (hleft : (s.callbacks c).place.left = some left) :
    ∃ n ≤ s.accepted.length, s.drained.length + left = (s.accepted.take n).flatten.length := by
  have hdrained : s.drained.length = s.copied.length * FRAME_BYTES := length_flatMap_toLeBytes _
  have hbytes : ∀ n, (s.accepted.take n).flatten.length = s.framesUpTo n * FRAME_BYTES := fun n => by
    rw [length_flatten_batches _ fun b hb => h.aligned b (List.mem_of_mem_take hb), List.map_take, System.framesUpTo]
  have hin : (s.callbacks c).place ≠ .outside := by
    intro hout
    rw [hout] at hleft
    cases hleft
  obtain ⟨_, _, _, hok⟩ := h.turn.of_inside hin
  cases hplace : (s.callbacks c).place with
  | outside | claimed | cursorLoaded =>
    rw [hplace] at hleft
    cases hleft
  | consumer consumer =>
    rw [hplace] at hleft hok
    cases hleft
    obtain ⟨hcopied, n, hn⟩ := hok
    refine ⟨n, hn.accepted, ?_⟩
    rw [hdrained, hbytes, h.len_eq hring hn, hcopied, ← Nat.add_mul, Nat.add_sub_cancel' hn.drained]
  | copying consumer count frame =>
    rw [hplace] at hleft hok
    cases hleft
    obtain ⟨hcopied, hframe, n, hn, hroom⟩ := hok
    refine ⟨n, hn.accepted, ?_⟩
    rw [hdrained, hbytes, h.len_eq hring hn, hcopied, ← Nat.sub_mul, ← Nat.add_mul]
    congr 1
    omega

theorem copied_before_stored (h : Inv ring start s) (hring : Sized ring) {a b slot word word' : Nat}
    (ha : s.written[a]? = some (slot, word)) (hb : s.written[b]? = some (slot, word')) (hab : a < b) :
    a < s.copied.length := by
  have hsame : (start + a) % (ring.mask + 1) = (start + b) % (ring.mask + 1) :=
    (h.slots.value a _ ha).1.symm.trans (h.slots.value b _ hb).1
  have hfar : a + (ring.mask + 1) ≤ b := by
    by_contra hnear
    exact mod_ne_of_lt hab (by omega) hsame
  have hlt := (List.getElem?_eq_some_iff.mp hb).1
  have hroom := h.length_written.2
  have hseen := s.drainedSeen_le
  have hfits := hring.fits
  have hcopied := h.drains_le_copied
  omega

theorem capacity (h : Inv ring start s) (hring : Sized ring) {head tail : Nat}
    (hhead : s.memory.latest .head = some head)
    (htail : s.memory.latest .tail = some tail) : wrappingSub head tail ≤ ring.logicalFrames := by
  have hlast : ∀ {steps writes value}, Counts start steps writes →
    (writes.getLast?).map Write.value = some value →
      value = counter start steps.sum := by
    intro steps writes value hcounts hvalue
    obtain ⟨w, hw, rfl⟩ := Option.map_eq_some_iff.mp hvalue
    rw [List.getLast?_eq_getElem?] at hw
    exact hcounts.last (by have := hcounts.length; omega) hw
  have hfits := h.fits
  have hseen := s.drainedSeen_le
  have hsmall := hring.small
  have hdrains := h.drains_le
  have hused : wrappingSub head tail = s.total - s.drains.sum := by
    rw [hlast h.head hhead, hlast h.tail htail]
    exact wrappingSub_counter hdrains (by have : s.total = (s.accepted.map frames).sum := rfl; omega)
  omega

theorem one (h : Inv ring start s) {c d : Nat} (hc : (s.callbacks c).place ≠ .outside)
    (hd : (s.callbacks d).place ≠ .outside) :
    c = d := by
  obtain ⟨_, houtside, _, _⟩ := h.turn.of_inside hc
  by_contra hne
  exact hd (houtside d (Ne.symm hne))

end Inv

end Inv

/-! ## Refused batches -/

section Refused

variable {ring : AtomicPcmRing} {s s' : System}

theorem publish_unchanged {first second : List UInt8} {capacity write : Nat}
    (hstep : s.publish first second capacity write = some s') : Unchanged s s' := by
  unfold System.publish at hstep
  split at hstep
  · split at hstep
    · cases hstep
      exact ⟨rfl, rfl, rfl, rfl, rfl⟩
    · obtain ⟨_, _, rfl⟩ := Option.map_eq_some_iff.mp hstep
      exact ⟨rfl, rfl, rfl, rfl, rfl⟩
  · cases hstep
    exact ⟨rfl, rfl, rfl, rfl, rfl⟩
  · cases hstep

theorem loadTail_unchanged {write : Nat} (hstep : s.loadTail ring write = some s') : Unchanged s s' := by
  unfold System.loadTail at hstep
  split at hstep
  · obtain ⟨_, _, rfl⟩ := Option.map_eq_some_iff.mp hstep
    dsimp only
    split <;> exact ⟨rfl, rfl, rfl, rfl, rfl⟩
  · cases hstep

/-- Only two steps refuse a batch. -/
theorem refused_eq {a : Action} (hstep : step ring s a = some s') (hpublish : ∀ first second capacity write,
    a ≠ .publish first second capacity write)
    (hload : ∀ write, a ≠ .loadTail write) : s'.refused = s.refused := by
  cases a with
  | publish first second capacity write => exact absurd rfl (hpublish first second capacity write)
  | loadTail write => exact absurd rfl (hload write)
  | storeSlot =>
    simp only [step, System.storeSlot] at hstep
    split at hstep
    · split at hstep
      · cases hstep
        rfl
      · cases hstep
    · cases hstep
  | commit =>
    simp only [step, System.commit] at hstep
    split at hstep
    · split at hstep
      · cases hstep
      · cases hstep
        rfl
    · cases hstep
  | exchange callback =>
    simp only [step, System.exchange] at hstep
    split at hstep
    · obtain ⟨_, _, rfl⟩ := Option.map_eq_some_iff.mp hstep
      rfl
    · cases hstep
  | exchangeFails callback write =>
    simp only [step, System.exchangeFails] at hstep
    split at hstep
    · cases hstep
      rfl
    · cases hstep
  | loadCursor callback write =>
    simp only [step, System.loadCursor] at hstep
    split at hstep
    · obtain ⟨_, _, rfl⟩ := Option.map_eq_some_iff.mp hstep
      rfl
    · cases hstep
  | loadPublished callback write =>
    simp only [step, System.loadPublished] at hstep
    split at hstep
    · obtain ⟨_, _, rfl⟩ := Option.map_eq_some_iff.mp hstep
      rfl
    · cases hstep
  | drainInto callback destination =>
    simp only [step, System.drainInto] at hstep
    split at hstep
    · cases hstep
      rfl
    · cases hstep
  | loadSlot callback write =>
    simp only [step, System.loadSlot] at hstep
    split at hstep
    · split at hstep
      · obtain ⟨_, _, rfl⟩ := Option.map_eq_some_iff.mp hstep
        rfl
      · cases hstep
    · cases hstep
  | storeTail callback =>
    simp only [step, System.storeTail] at hstep
    split at hstep
    · split at hstep
      · cases hstep
      · cases hstep
        rfl
    · cases hstep
  | drop callback =>
    simp only [step, System.drop] at hstep
    split at hstep
    · cases hstep
      rfl
    · cases hstep

theorem unchanged_of_refused {a : Action} (hstep : step ring s a = some s')
    (ha : (∃ first second capacity write, a = .publish first second capacity write) ∨ s'.refused ≠ s.refused) :
    Unchanged s s' := by
  by_cases hpublish : ∃ first second capacity write, a = .publish first second capacity write
  · obtain ⟨first, second, capacity, write, rfl⟩ := hpublish
    exact publish_unchanged hstep
  by_cases hload : ∃ write, a = .loadTail write
  · obtain ⟨write, rfl⟩ := hload
    exact loadTail_unchanged hstep
  · refine absurd (refused_eq hstep
      (fun first second capacity write h => hpublish ⟨first, second, capacity, write, h⟩)
      fun write h => hload ⟨write, h⟩) ?_
    exact ha.resolve_left hpublish

end Refused

/-- **The PCM ring is a lossless queue**, whatever its capacity and wherever its counters start. -/
theorem pcm_ring_lossless (capacityBytes : Nat) (hcapacity : capacityBytes < USIZE) (start : Nat)
    (hstart : start < USIZE)
    (s : System)
    (hreach : Reaches (step (AtomicPcmRing.new capacityBytes)) (fun _ _ => True) (init start) s) :
    Lossless (AtomicPcmRing.new capacityBytes) s := by
  have hring := sized_new capacityBytes hcapacity
  have hinv : Inv (AtomicPcmRing.new capacityBytes) start s :=
    hreach.invariant (Inv.init _ hstart) fun _ _ _ h _ hstep => h.step hring hstep
  exact {
    drained := hinv.drained_prefix
    batches := fun _ _ hleft => hinv.batches hring hleft
    copied := fun _ _ _ _ _ ha hb hab => hinv.copied_before_stored hring ha hb hab
    copied_written := hinv.copied
    capacity := fun _ _ hhead htail => hinv.capacity hring hhead htail
    one := fun _ _ hc hd => hinv.one hc hd
    refused := fun _ _ hstep ha => unchanged_of_refused hstep ha }

/-- Two batches through a ring of three frames whose counters wrap, the second into a slot that has been drained. -/
theorem pcm_ring_lossless_wrapping : ∃ s, Lossless (AtomicPcmRing.new 12) s ∧
    s.drained = [1, 2, 3, 4, 5, 6, 7, 8] ∧
    s.accepted = [[1, 2, 3, 4, 5, 6, 7, 8, 9, 10, 11, 12], [13, 14, 15, 16]] := by
  obtain ⟨s, hrun, hs⟩ : ∃ s, runs (guarded (step (AtomicPcmRing.new 12)) fun _ _ => True) (init (2 ^ 64 - 2))
      [.publish [1, 2, 3] [4, 5, 6, 7, 8, 9, 10, 11, 12] 12 0, .loadTail 0, .storeSlot, .exchange 0, .storeSlot,
        .storeSlot,
        .loadCursor 0 0, .commit, .exchangeFails 1 1, .loadPublished 0 1, .drainInto 0 9, .loadSlot 0 1,
        .publish [13, 14, 15, 16] [] 12 1, .loadSlot 0 1, .storeTail 0, .loadTail 1, .storeSlot, .drop 0,
          .commit] = some s ∧
      s.drained = [1, 2, 3, 4, 5, 6, 7, 8] ∧
      s.accepted = [[1, 2, 3, 4, 5, 6, 7, 8, 9, 10, 11, 12], [13, 14, 15, 16]] :=
    ⟨_, rfl, by decide +kernel, by decide +kernel⟩
  exact ⟨s, pcm_ring_lossless 12 (by decide) (2 ^ 64 - 2) (by decide) s (Reaches.start.of_runs hrun), hs⟩

end BridgeVm.Hda.PcmRing
