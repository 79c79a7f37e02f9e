import BridgeVm.Hda.PcmSlots

/-!
# What every step of the PCM ring keeps

The writes to the head are the totals of the accepted batches, those to the tail the totals of the drains, and the
slots hold the frames (`Inv`). The producer stays within the tail it has seen, and the one callback that holds the flag
(`Turn`) has seen the last tail and every frame below the head it has captured.
-/

namespace BridgeVm.Hda.PcmRing

open Lib

/-! ## The invariant -/

theorem prefix_concat {α : Type} {xs ys : List α} {x : α} (h : xs <+: ys) (hx : ys[xs.length]? = some x) :
    xs ++ [x] <+: ys := by
  obtain ⟨rest, rfl⟩ := h
  rw [List.getElem?_append_right le_rfl, Nat.sub_self] at hx
  cases rest with
  | nil => cases hx
  | cons y rest =>
    cases hx
    exact ⟨rest, by rw [List.append_assoc]; rfl⟩

/-- The frames of the first `n` accepted batches. -/
def System.framesUpTo (s : System) (n : Nat) : Nat := ((s.accepted.map frames).take n).sum

/-- The frames of all accepted batches. -/
def System.total (s : System) : Nat := (s.accepted.map frames).sum

/-- The frames that the producer knows to have been drained. -/
def System.drainedSeen (s : System) : Nat := (s.drains.take (s.view .tail)).sum

/-- Where the producer stands. -/
def Publishing.Ok (ring : AtomicPcmRing) (start : Nat) (s : System) : Publishing → Prop
  | .idle => s.written.map Prod.snd = s.accepted.flatMap words
  | .headLoaded first second _ bytes head =>
    s.written.map Prod.snd = s.accepted.flatMap words ∧ bytes = first.length + second.length ∧
      bytes % FRAME_BYTES = 0 ∧
      head = counter start s.total
  | .copying first second head count frame =>
    s.written.map Prod.snd = s.accepted.flatMap words ++ (words (first ++ second)).take frame ∧
      (first ++ second).length % FRAME_BYTES = 0 ∧ count = frames (first ++ second) ∧
      head = counter start s.total ∧
      frame ≤ count ∧ s.total + count ≤ s.drainedSeen + ring.logicalFrames

/-- A consumer: it has captured the head after the first `n` batches and has seen every frame below it. -/
structure Captured (ring : AtomicPcmRing) (start : Nat) (s : System) (view : View Loc) (c : Consumer) (n : Nat) :
    Prop where
  cursor : c.cursor = counter start s.drains.sum
  published : c.published = counter start (s.framesUpTo n)
  seen : n ≤ view .head
  accepted : n ≤ s.accepted.length
  drained : s.drains.sum ≤ s.framesUpTo n
  covers : Covers ring start (s.framesUpTo n) view

/-- Where the callback that holds the flag stands. -/
def Draining.Ok (ring : AtomicPcmRing) (start : Nat) (s : System) (view : View Loc) : Draining → Prop
  | .outside => False
  | .claimed => s.copied.length = s.drains.sum
  | .cursorLoaded cursor => s.copied.length = s.drains.sum ∧ cursor = counter start s.drains.sum
  | .consumer c => s.copied.length = s.drains.sum ∧ ∃ n, Captured ring start s view c n
  | .copying c count frame => s.copied.length = s.drains.sum + frame ∧ frame ≤ count ∧
      ∃ n, Captured ring start s view c n ∧ s.drains.sum + count ≤ s.framesUpTo n

/-- A view that has seen the last tail, and a head no less. -/
structure Owner (s : System) (view : View Loc) : Prop where
  tail : (s.memory .tail).length ≤ view .tail + 1
  head : s.drains.sum ≤ s.framesUpTo (view .head)

/-- Whose turn it is to drain: nobody's while the flag is clear, and else that of one callback. -/
inductive Turn (ring : AtomicPcmRing) (start : Nat) (s : System) : Prop
  | free (w : Write Loc Bool) (last : (s.memory .consuming).getLast? = some w) (clear : w.value = false)
      (outside : ∀ c, (s.callbacks c).place = .outside) (owner : Owner s w.released)
        (copied : s.copied.length = s.drains.sum)
  | held (c : Nat) (w : Write Loc Bool) (last : (s.memory .consuming).getLast? = some w) (set : w.value = true)
      (outside : ∀ d, d ≠ c → (s.callbacks d).place = .outside) (owner : Owner s (s.callbacks c).view)
      (place : (s.callbacks c).place.Ok ring start s (s.callbacks c).view)

/-- What every step keeps. -/
structure Inv (ring : AtomicPcmRing) (start : Nat) (s : System) : Prop where
  head : Counts start (s.accepted.map frames) (s.memory .head)
  tail : Counts start s.drains (s.memory .tail)
  /-- A head releases the frames below it. -/
  released : ∀ n w, (s.memory .head)[n]? = some w → Covers ring start (s.framesUpTo n) w.released
  slots : SlotsOk ring start s.written s.memory
  aligned : ∀ b ∈ s.accepted, b.length % FRAME_BYTES = 0
  headSeen : (s.memory .head).length ≤ s.view .head + 1
  covers : Covers ring start s.written.length s.view
  fits : s.total ≤ s.drainedSeen + ring.logicalFrames
  publishing : s.publishing.Ok ring start s
  copied : s.copied <+: s.written.map Prod.snd
  turn : Turn ring start s

section Inv

variable {ring : AtomicPcmRing} {start : Nat} {s s' : System} {view view' : View Loc}

theorem System.framesUpTo_le (s : System) (n : Nat) : s.framesUpTo n ≤ s.total := sum_take_le _ n

theorem System.framesUpTo_mono (s : System) {n m : Nat} (h : n ≤ m) : s.framesUpTo n ≤ s.framesUpTo m :=
    sum_take_mono _ h

theorem System.drainedSeen_le (s : System) : s.drainedSeen ≤ s.drains.sum := sum_take_le _ _

theorem Owner.mono (h : Owner s view) (htail : view .tail ≤ view' .tail) (hhead : view .head ≤ view' .head) :
    Owner s view' where
  tail := h.tail.trans (Nat.add_le_add_right htail 1)
  head := h.head.trans (s.framesUpTo_mono hhead)

theorem framesUpTo_append {batch : List (List UInt8)} (haccepted : s'.accepted = s.accepted ++ batch) (n : Nat) :
    s.framesUpTo n ≤ s'.framesUpTo n ∧ (n ≤ s.accepted.length → s'.framesUpTo n = s.framesUpTo n) := by
  unfold System.framesUpTo
  rw [haccepted, List.map_append]
  exact ⟨sum_take_append_le _ _ _, fun hn => by rw [List.take_append_of_le_length (by simpa using hn)]⟩

/-- The producer may accept more batches while a callback drains. -/
theorem Draining.Ok.congr {place : Draining} (h : place.Ok ring start s view) {batch : List (List UInt8)}
    (hdrains : s'.drains = s.drains) (hcopied : s'.copied = s.copied) (haccepted : s'.accepted = s.accepted ++ batch) :
    place.Ok ring start s' view := by
  have hcaptured : ∀ c n, Captured ring start s view c n → Captured ring start s' view c n := fun c n h => by
    have hsame := (framesUpTo_append haccepted n).2 h.accepted
    exact ⟨by rw [hdrains]; exact h.cursor, by rw [hsame]; exact h.published, h.seen,
      by rw [haccepted, List.length_append]; exact h.accepted.trans (Nat.le_add_right _ _),
      by rw [hdrains, hsame]; exact h.drained, by rw [hsame]; exact h.covers⟩
  cases place with
  | outside => exact h
  | claimed | cursorLoaded =>
    rw [Draining.Ok, hcopied, hdrains]
    exact h
  | consumer c =>
    obtain ⟨hlen, n, hn⟩ := h
    rw [Draining.Ok, hcopied, hdrains]
    exact ⟨hlen, n, hcaptured c n hn⟩
  | copying c count frame =>
    obtain ⟨hlen, hframe, n, hn, hle⟩ := h
    rw [Draining.Ok, hcopied, hdrains]
    exact ⟨hlen, hframe, n, hcaptured c n hn, hle.trans (framesUpTo_append haccepted n).1⟩

theorem Turn.of_producer (h : Turn ring start s) {batch : List (List UInt8)} (hcallbacks : s'.callbacks = s.callbacks)
    (hconsuming : s'.memory .consuming = s.memory .consuming) (htail : s'.memory .tail = s.memory .tail)
    (hdrains : s'.drains = s.drains) (hcopied : s'.copied = s.copied) (haccepted : s'.accepted = s.accepted ++ batch) :
    Turn ring start s' := by
  have howner : ∀ view, Owner s view → Owner s' view := fun view h =>
    ⟨by rw [htail]; exact h.tail, by rw [hdrains]; exact h.head.trans (framesUpTo_append haccepted _).1⟩
  cases h with
  | free w last clear outside owner copied =>
    exact .free w (hconsuming ▸ last) clear (fun c => hcallbacks ▸ outside c) (howner _ owner)
      (by rw [hcopied, hdrains]; exact copied)
  | held c w last set outside owner place =>
    refine .held c w (hconsuming ▸ last) set (fun d hd => hcallbacks ▸ outside d hd)
      (hcallbacks ▸ howner _ owner) ?_
    rw [hcallbacks]
    exact place.congr hdrains hcopied haccepted

theorem Turn.of_inside (h : Turn ring start s) {c : Nat} (hin : (s.callbacks c).place ≠ .outside) :
    (∃ w, (s.memory .consuming).getLast? = some w ∧ w.value = true) ∧
    (∀ d, d ≠ c → (s.callbacks d).place = .outside) ∧
      Owner s (s.callbacks c).view ∧ (s.callbacks c).place.Ok ring start s (s.callbacks c).view := by
  cases h with
  | free w last clear outside owner copied => exact absurd (outside c) hin
  | held d w last set outside owner place =>
    by_cases hd : c = d
    · subst hd
      exact ⟨⟨w, last, set⟩, outside, owner, place⟩
    · exact absurd (outside c hd) hin

theorem Turn.moved (h : Turn ring start s) {c : Nat} (hin : (s.callbacks c).place ≠ .outside) (callback : Callback)
    (howner : Owner s callback.view) (copied : List Nat)
    (hplace : callback.place.Ok ring start { s with copied } callback.view) :
    Turn ring start { s with callbacks := Function.update s.callbacks c callback, copied } := by
  obtain ⟨⟨w, hlast, hset⟩, houtside, _, _⟩ := h.of_inside hin
  refine .held c w hlast hset (fun d hd => ?_) ?_ ?_
  · dsimp only
    rw [Function.update_of_ne hd]
    exact houtside d hd
  · dsimp only
    rw [Function.update_self]
    exact ⟨howner.tail, howner.head⟩
  · dsimp only
    rw [Function.update_self]
    exact hplace.congr rfl rfl (List.append_nil _).symm

theorem Publishing.Ok.mono {publishing : Publishing} (h : publishing.Ok ring start s)
    (hwritten : s'.written = s.written)
    (haccepted : s'.accepted = s.accepted) (hseen : s.drainedSeen ≤ s'.drainedSeen) :
    publishing.Ok ring start s' := by
  have htotal : s'.total = s.total := by rw [System.total, haccepted, System.total]
  cases publishing with
  | idle =>
    rw [Publishing.Ok, hwritten, haccepted]
    exact h
  | headLoaded first second capacity bytes head =>
    rw [Publishing.Ok, hwritten, haccepted, htotal]
    exact h
  | copying first second head count frame =>
    obtain ⟨hframes, hwhole, hcount, hhead, hframe, hroom⟩ := h
    rw [Publishing.Ok, hwritten, haccepted, htotal]
    exact ⟨hframes, hwhole, hcount, hhead, hframe, hroom.trans (Nat.add_le_add_right hseen _)⟩

theorem Captured.mono {c : Consumer} {n : Nat} (h : Captured ring start s view c n) (hle : ∀ l, view l ≤ view' l) :
    Captured ring start s view' c n where
  cursor := h.cursor
  published := h.published
  seen := h.seen.trans (hle .head)
  accepted := h.accepted
  drained := h.drained
  covers := h.covers.mono fun i => hle (.slot i)

theorem Captured.drain {c : Consumer} {n count : Nat} (h : Captured ring start s view c n)
    (hdrains : s'.drains = s.drains ++ [count]) (haccepted : s'.accepted = s.accepted)
    (hroom : s.drains.sum + count ≤ s.framesUpTo n) (hle : ∀ l, l ≠ .tail → view l = view' l) :
    Captured ring start s' view' { c with cursor := wrappingAdd c.cursor count } n := by
  have hsum : s'.drains.sum = s.drains.sum + count := by rw [hdrains, List.sum_append, List.sum_singleton]
  have hframes : s'.framesUpTo n = s.framesUpTo n := by rw [System.framesUpTo, haccepted, System.framesUpTo]
  refine ⟨?_, hframes ▸ h.published, hle .head (by simp) ▸ h.seen, haccepted ▸ h.accepted, ?_, ?_⟩
  · rw [hsum, h.cursor, wrappingAdd_counter]
  · rw [hsum, hframes]
    exact hroom
  · rw [hframes]
    exact h.covers.mono fun i => (hle (.slot i) (by simp)).le

namespace Inv

theorem drains_le (h : Inv ring start s) : s.drains.sum ≤ s.total := by
  cases h.turn with
  | free w last clear outside owner copied => exact owner.head.trans (s.framesUpTo_le _)
  | held c w last set outside owner place => exact owner.head.trans (s.framesUpTo_le _)

theorem length_written (h : Inv ring start s) :
    s.total ≤ s.written.length ∧ s.written.length ≤ s.drainedSeen + ring.logicalFrames := by
  have hlen : s.written.length = (s.written.map Prod.snd).length := (List.length_map _).symm
  have hpublishing := h.publishing
  have hfits := h.fits
  have htotal : (s.accepted.flatMap words).length = s.total := length_flatMap_words _
  cases hp : s.publishing with
  | idle =>
    rw [hp] at hpublishing
    rw [hlen, show s.written.map Prod.snd = _ from hpublishing, htotal]
    exact ⟨le_rfl, hfits⟩
  | headLoaded first second capacity bytes head =>
    rw [hp] at hpublishing
    rw [hlen, show s.written.map Prod.snd = _ from hpublishing.1, htotal]
    exact ⟨le_rfl, hfits⟩
  | copying first second head count frame =>
    rw [hp] at hpublishing
    obtain ⟨hwritten, _, _, _, hframe, hroom⟩ := hpublishing
    rw [hlen, hwritten, List.length_append, htotal, List.length_take]
    omega

/-! ### Steps of the producer -/

theorem viewed (h : Inv ring start s) (hle : ∀ l, s.view l ≤ view' l) :
    Inv ring start { s with view := view' } where
  head := h.head
  tail := h.tail
  released := h.released
  slots := h.slots
  aligned := h.aligned
  headSeen := h.headSeen.trans (Nat.add_le_add_right (hle .head) 1)
  covers := h.covers.mono fun i => hle (.slot i)
  fits := h.fits.trans (Nat.add_le_add_right (sum_take_mono _ (hle .tail)) _)
  publishing := h.publishing.mono rfl rfl (sum_take_mono _ (hle .tail))
  copied := h.copied
  turn := h.turn.of_producer rfl rfl rfl rfl rfl (List.append_nil _).symm

theorem moved (h : Inv ring start s) (publishing : Publishing) (hok : publishing.Ok ring start s)
    (refused : List (List UInt8)) :
    Inv ring start { s with publishing := publishing, refused := refused } where
  head := h.head
  tail := h.tail
  released := h.released
  slots := h.slots
  aligned := h.aligned
  headSeen := h.headSeen
  covers := h.covers
  fits := h.fits
  publishing := by cases publishing <;> exact hok
  copied := h.copied
  turn := h.turn.of_producer rfl rfl rfl rfl rfl (List.append_nil _).symm

theorem refuse (h : Inv ring start s) (hidle : s.written.map Prod.snd = s.accepted.flatMap words)
    (first second : List UInt8) :
    Inv ring start (s.refuse first second) := h.moved .idle hidle _

theorem publish (h : Inv ring start s) {first second : List UInt8} {capacity write : Nat}
    (hstep : s.publish first second capacity write = some s') : Inv ring start s' := by
  have hpublishing := h.publishing
  unfold System.publish at hstep
  cases hp : s.publishing with
  | headLoaded | copying =>
    rw [hp] at hstep
    cases hstep
  | idle =>
    rw [hp] at hstep hpublishing
    cases hadd : checkedAdd first.length second.length with
    | none =>
      rw [hadd] at hstep
      cases hstep
      exact h.refuse hpublishing first second
    | some bytes =>
      rw [hadd] at hstep
      dsimp only at hstep
      have hbytes : bytes = first.length + second.length := by
        unfold checkedAdd at hadd
        split at hadd
        · exact (Option.some.inj hadd).symm
        · cases hadd
      by_cases hwhole : bytes % FRAME_BYTES ≠ 0
      · rw [if_pos hwhole] at hstep
        cases hstep
        exact h.refuse hpublishing first second
      · rw [if_neg hwhole] at hstep
        obtain ⟨⟨head, view⟩, hload, rfl⟩ := Option.map_eq_some_iff.mp hstep
        obtain ⟨w, hle, hget, rfl, rfl⟩ := Memory.loadRelaxed_eq_some hload
        have hlast : w.value = counter start s.total := h.head.last (h.headSeen.trans (Nat.add_le_add_right hle 1)) hget
        exact (h.viewed (Memory.le_update hle)).moved (.headLoaded first second capacity bytes w.value)
          ⟨hpublishing, hbytes, not_not.mp hwhole, hlast⟩ s.refused

/-- The producer sees a tail: the room it computes is room in the ring. -/
theorem loadTail (h : Inv ring start s) (hring : Sized ring) {write : Nat} (hstep : s.loadTail ring write = some s') :
    Inv ring start s' := by
  have hpublishing := h.publishing
  unfold System.loadTail at hstep
  cases hp : s.publishing with
  | idle | copying =>
    rw [hp] at hstep
    cases hstep
  | headLoaded first second capacity bytes head =>
    rw [hp] at hstep hpublishing
    obtain ⟨hwritten, hbytes, hwhole, hhead⟩ := hpublishing
    obtain ⟨⟨tail, view⟩, hload, hs'⟩ := Option.map_eq_some_iff.mp hstep
    obtain ⟨w, hle, hget, rfl, rfl⟩ := Memory.loadAcquire_eq_some hload
    have hgrows : ∀ l, s.view l ≤ (Function.update s.view .tail write ⊔ w.released) l := fun l =>
      (Memory.le_update hle l).trans le_sup_left
    have hviewed := h.viewed hgrows
    dsimp only at hs'
    by_cases hroom : bytes / FRAME_BYTES >
        min ring.logicalFrames (capacity / FRAME_BYTES) - wrappingSub head w.value
    · rw [if_pos hroom] at hs'
      subst hs'
      exact hviewed.refuse hwritten first second
    · rw [if_neg hroom] at hs'
      subst hs'
      refine hviewed.moved (.copying first second head (bytes / FRAME_BYTES) 0) ?_ s.refused
      have hseen : s.drainedSeen ≤ (s.drains.take write).sum := sum_take_mono _ hle
      have hdrained : (s.drains.take write).sum ≤ s.total := (sum_take_le _ _).trans h.drains_le
      have hsee :
        (s.drains.take write).sum ≤
        (s.drains.take ((Function.update s.view Loc.tail write ⊔ w.released) .tail)).sum := by
        refine sum_take_mono _ ?_
        rw [Pi.sup_apply, Function.update_self]
        exact le_sup_left
      have hfits := h.fits
      have hsmall := hring.small
      have hused : wrappingSub head w.value = s.total - (s.drains.take write).sum := by
        rw [hhead, h.tail.value write w hget]
        exact wrappingSub_counter hdrained (by omega)
      rw [hused] at hroom
      refine ⟨by rw [List.take_zero, List.append_nil]; exact hwritten, ?_, ?_, hhead, Nat.zero_le _, ?_⟩
      · rw [List.length_append, ← hbytes]
        exact hwhole
      · rw [frames, List.length_append, hbytes]
      · refine le_trans ?_ (Nat.add_le_add_right hsee _)
        change s.total + bytes / FRAME_BYTES ≤ _
        omega

theorem length_copying {batch : List UInt8} {frame : Nat}
    (hwritten : s.written.map Prod.snd = s.accepted.flatMap words ++ (words batch).take frame)
    (hframe : frame ≤ frames batch) : s.written.length = s.total + frame := by
  have hmap := congrArg List.length hwritten
  rw [List.length_map, List.length_append, List.length_take, length_words, length_flatMap_words] at hmap
  rw [hmap, System.total]
  omega

theorem storeSlot (h : Inv ring start s) (hring : Sized ring) (hstep : s.storeSlot ring = some s') :
    Inv ring start s' := by
  have hpublishing := h.publishing
  unfold System.storeSlot at hstep
  cases hp : s.publishing with
  | idle | headLoaded =>
    rw [hp] at hstep
    cases hstep
  | copying first second head count frame =>
    rw [hp] at hstep hpublishing
    obtain ⟨hwritten, hwhole, hcount, hhead, hframe, hroom⟩ := hpublishing
    dsimp only at hstep
    by_cases hlt : frame < count
    · rw [if_pos hlt] at hstep
      cases hstep
      have hlen := length_copying hwritten (hcount ▸ hframe)
      have hslot : ring.slot head frame = (start + s.written.length) % (ring.mask + 1) := by
        rw [hhead, slot_counter hring, hlen]
      rw [hslot]
      have hmemory : ∀ l, (∀ i, l ≠ .slot i) →
        (s.memory.append (.slot ((start + s.written.length) % (ring.mask + 1)))
          ⟨wordOf first second frame, fun _ => 0⟩) l = s.memory l := fun l hl => Memory.append_of_ne (hl _)
      have hview : ∀ l, (∀ i, l ≠ .slot i) →
          s.memory.written s.view (.slot ((start + s.written.length) % (ring.mask + 1))) l = s.view l := fun l hl =>
        Memory.written_of_ne (hl _)
      have hhead' := hmemory .head (by simp)
      have htail' := hmemory .tail (by simp)
      have htailView := hview .tail (by simp)
      have hfits :
        (s.drains.take (s.memory.written s.view (.slot ((start + s.written.length) % (ring.mask + 1))) .tail)).sum =
          s.drainedSeen := by rw [htailView, System.drainedSeen]
      exact {
        head := by
          dsimp only [Memory.storeRelaxed]
          rw [hhead']
          exact h.head
        tail := by
          dsimp only [Memory.storeRelaxed]
          rw [htail']
          exact h.tail
        released := by
          intro n w hw
          dsimp only [Memory.storeRelaxed] at hw
          rw [hhead'] at hw
          exact h.released n w hw
        slots := h.slots.store ⟨wordOf first second frame, fun _ => 0⟩
        aligned := h.aligned
        headSeen := by
          dsimp only [Memory.storeRelaxed]
          rw [hhead', hview .head (by simp)]
          exact h.headSeen
        covers := by
          rw [List.length_append, List.length_singleton]
          exact h.covers.store h.slots
        fits := by
          rw [System.drainedSeen]
          dsimp only [Memory.storeRelaxed]
          rw [hfits]
          exact h.fits
        publishing := by
          refine ⟨?_, hwhole, hcount, hhead, hlt, ?_⟩
          · have hword : (words (first ++ second))[frame]? = some (wordOf first second frame) := by
              rw [words, List.getElem?_map, List.getElem?_range (by omega), Option.map_some,
                ← wordOf_eq first second]
            rw [List.map_append, hwritten, List.append_assoc, List.take_add_one, hword]
            rfl
          · rw [System.drainedSeen]
            dsimp only [Memory.storeRelaxed]
            rw [hfits]
            exact hroom
        copied := by
          dsimp only
          rw [List.map_append]
          exact h.copied.trans (List.prefix_append _ _)
        turn := h.turn.of_producer rfl (hmemory .consuming (by simp)) htail' rfl rfl (List.append_nil _).symm }
    · rw [if_neg hlt] at hstep
      cases hstep

theorem commit (h : Inv ring start s) (hstep : s.commit = some s') : Inv ring start s' := by
  have hpublishing := h.publishing
  unfold System.commit at hstep
  cases hp : s.publishing with
  | idle | headLoaded =>
    rw [hp] at hstep
    cases hstep
  | copying first second head count frame =>
    rw [hp] at hstep hpublishing
    obtain ⟨hwritten, hwhole, hcount, hhead, hframe, hroom⟩ := hpublishing
    dsimp only at hstep
    by_cases hlt : frame < count
    · rw [if_pos hlt] at hstep
      cases hstep
    · rw [if_neg hlt] at hstep
      cases hstep
      have hall : s.written.map Prod.snd = (s.accepted ++ [first ++ second]).flatMap words := by
        rw [hwritten, List.flatMap_append, List.flatMap_singleton, List.take_of_length_le (by rw [length_words]; omega)]
      have hlen : s.written.length = ((s.accepted ++ [first ++ second]).map frames).sum := by
        rw [← length_flatMap_words, ← hall, List.length_map]
      have hsum : ((s.accepted ++ [first ++ second]).map frames).sum = s.total + count := by
        rw [List.map_append, List.sum_append, hcount]
        rfl
      have hview : ∀ l, l ≠ .head → s.memory.written s.view .head l = s.view l :=
        fun l hl => Memory.written_of_ne hl
      have hmemory : ∀ l, l ≠ .head →
        s.memory.append .head ⟨wrappingAdd head count, s.memory.written s.view .head⟩ l =
          s.memory l := fun l hl => Memory.append_of_ne hl
      have htail := hview .tail (by simp)
      have hcovers : Covers ring start s.written.length (s.memory.written s.view .head) :=
        h.covers.mono fun i => (hview (.slot i) (by simp)).ge
      exact {
        head := by
          dsimp only [Memory.storeRelease]
          rw [Memory.append_self, List.map_append, List.map_singleton]
          exact h.head.append (by rw [hhead, wrappingAdd_counter, hcount]; rfl)
        tail := by
          dsimp only [Memory.storeRelease]
          rw [hmemory .tail (by simp)]
          exact h.tail
        released := by
          intro n w hw
          dsimp only [Memory.storeRelease] at hw
          rw [Memory.append_self] at hw
          have hheads := h.head.length
          rw [List.length_map] at hheads
          rcases Nat.lt_or_ge n (s.memory .head).length with hn | hn
          · rw [List.getElem?_append_left hn] at hw
            have hsame := @List.take_append_of_le_length _ (s.accepted.map frames) [frames (first ++ second)] n
              (by rw [List.length_map]; omega)
            rw [System.framesUpTo]
            dsimp only
            rw [List.map_append, List.map_singleton, hsame]
            exact h.released n w hw
          · -- the head that is stored: every frame of the ring lies below it
            rw [List.getElem?_append_right hn, List.getElem?_singleton] at hw
            split at hw
            · cases hw
              refine fun a ha => hcovers a (lt_of_lt_of_le ha ?_)
              rw [hlen]
              exact sum_take_le _ _
            · cases hw
        slots := h.slots.congr fun i => hmemory (.slot i) (by simp)
        aligned := by
          intro b hb
          rcases List.mem_append.mp hb with hb | hb
          · exact h.aligned b hb
          · rw [List.mem_singleton.mp hb]
            exact hwhole
        headSeen := by
          dsimp only [Memory.storeRelease]
          rw [Memory.append_self, Memory.written_self, List.length_append]
          rfl
        covers := hcovers
        fits := by
          rw [System.total, System.drainedSeen]
          dsimp only [Memory.storeRelease]
          rw [hsum, htail]
          exact hroom
        publishing := hall
        copied := h.copied
        turn := h.turn.of_producer rfl (hmemory .consuming (by simp)) (hmemory .tail (by simp)) rfl rfl rfl }

/-! ### Steps of a callback -/

theorem called (h : Inv ring start s) {callbacks : Nat → Callback} {copied : List Nat}
    (hcopied : copied <+: s.written.map Prod.snd)
    (hturn : Turn ring start { s with callbacks, copied }) : Inv ring start { s with callbacks, copied } where
  head := h.head
  tail := h.tail
  released := h.released
  slots := h.slots
  aligned := h.aligned
  headSeen := h.headSeen
  covers := h.covers
  fits := h.fits
  publishing := by
    have hpublishing := h.publishing
    dsimp only
    cases hp : s.publishing <;> rw [hp] at hpublishing <;> exact hpublishing
  copied := hcopied
  turn := hturn

/-- A step of callbacks that stores to the flag. -/
theorem flagged (h : Inv ring start s) {callbacks : Nat → Callback} {w : Write Loc Bool}
    (hturn : Turn ring start { s with callbacks, memory := s.memory.append .consuming w }) :
    Inv ring start { s with callbacks, memory := s.memory.append .consuming w } := by
  have hmemory : ∀ l, l ≠ .consuming → s.memory.append .consuming w l = s.memory l :=
    fun l hl => Memory.append_of_ne hl
  have hhead := hmemory .head (by simp)
  exact {
    head := by
      dsimp only
      rw [hhead]
      exact h.head
    tail := by
      dsimp only
      rw [hmemory .tail (by simp)]
      exact h.tail
    released := by
      intro n x hx
      dsimp only at hx
      rw [hhead] at hx
      exact h.released n x hx
    slots := h.slots.congr fun i => hmemory (.slot i) (by simp)
    aligned := h.aligned
    headSeen := by
      dsimp only
      rw [hhead]
      exact h.headSeen
    covers := h.covers
    fits := h.fits
    publishing := by
      have hpublishing := h.publishing
      dsimp only
      cases hp : s.publishing <;> rw [hp] at hpublishing <;> exact hpublishing
    copied := h.copied
    turn := hturn }

theorem exchange (h : Inv ring start s) {c : Nat} (hstep : s.exchange c = some s') : Inv ring start s' := by
  unfold System.exchange at hstep
  split at hstep
  · rename_i hplace
    obtain ⟨⟨memory, view⟩, hexchange, rfl⟩ := Option.map_eq_some_iff.mp hstep
    obtain ⟨w, hlast, hclear, rfl, rfl⟩ := Memory.exchangeAcquire_eq_some hexchange
    have hturn := h.turn
    cases hturn with
    | held d x last set outside owner place =>
      rw [last] at hlast
      cases hlast
      rw [set] at hclear
      cases hclear
    | free x last clear outside owner copied =>
      obtain rfl : x = w := Option.some.inj (last.symm.trans hlast)
      have hmemory : s.memory.append .consuming ⟨true, x.released⟩ .tail = s.memory .tail :=
        Memory.append_of_ne (by simp)
      refine h.flagged (.held c ⟨true, x.released⟩ ?_ rfl (fun d hd => ?_) ?_ ?_)
      · dsimp only
        rw [Memory.append_self, List.getLast?_append_of_ne_nil _ (by simp)]
        rfl
      · dsimp only
        rw [Function.update_of_ne hd]
        exact outside d
      · dsimp only
        rw [Function.update_self]
        have howner : Owner s (s.memory.written (s.callbacks c).view .consuming ⊔ x.released) :=
          owner.mono le_sup_right le_sup_right
        exact ⟨by dsimp only; rw [hmemory]; exact howner.tail, howner.head⟩
      · dsimp only
        rw [Function.update_self]
        exact copied
  · cases hstep

theorem exchangeFails (h : Inv ring start s) {c write : Nat} (hstep : s.exchangeFails c write = some s') :
    Inv ring start s' := by
  unfold System.exchangeFails at hstep
  split at hstep
  · rename_i view hplace hload
    cases hstep
    refine h.called h.copied ?_
    have houtside : ∀ d, (s.callbacks d).place = .outside →
        (Function.update s.callbacks c ⟨view, .outside⟩ d).place = .outside := fun d hd => by
      by_cases hdc : d = c
      · subst hdc
        rw [Function.update_self]
      · rw [Function.update_of_ne hdc]
        exact hd
    have hturn := h.turn
    cases hturn with
    | free w last clear outside owner copied =>
      exact .free w last clear (fun d => houtside d (outside d)) ⟨owner.tail, owner.head⟩ copied
    | held d w last set outside owner place =>
      have hne : d ≠ c := fun hd => by
        rw [hd, hplace] at place
        exact place
      refine .held d w last set (fun e he => houtside e (outside e he)) ?_ ?_
      · dsimp only
        rw [Function.update_of_ne hne]
        exact ⟨owner.tail, owner.head⟩
      · dsimp only
        rw [Function.update_of_ne hne]
        exact place.congr rfl rfl (List.append_nil _).symm
  · cases hstep

theorem loadCursor (h : Inv ring start s) {c write : Nat} (hstep : s.loadCursor c write = some s') :
    Inv ring start s' := by
  unfold System.loadCursor at hstep
  split at hstep
  · rename_i hplace
    obtain ⟨⟨cursor, view⟩, hload, rfl⟩ := Option.map_eq_some_iff.mp hstep
    obtain ⟨w, hle, hget, rfl, rfl⟩ := Memory.loadRelaxed_eq_some hload
    obtain ⟨_, _, howner, hok⟩ := h.turn.of_inside (by rw [hplace]; simp)
    rw [hplace] at hok
    have hgrows := Memory.le_update hle
    exact h.called h.copied (h.turn.moved (by rw [hplace]; simp)
      ⟨Function.update (s.callbacks c).view .tail write, .cursorLoaded w.value⟩
      (howner.mono (hgrows .tail) (hgrows .head)) s.copied ⟨hok,
        h.tail.last (howner.tail.trans (Nat.add_le_add_right hle 1)) hget⟩)
  · cases hstep

theorem loadPublished (h : Inv ring start s) {c write : Nat} (hstep : s.loadPublished c write = some s') :
    Inv ring start s' := by
  unfold System.loadPublished at hstep
  split at hstep
  · rename_i cursor hplace
    obtain ⟨⟨published, view⟩, hload, rfl⟩ := Option.map_eq_some_iff.mp hstep
    obtain ⟨w, hle, hget, rfl, rfl⟩ := Memory.loadAcquire_eq_some hload
    obtain ⟨_, _, howner, hok⟩ := h.turn.of_inside (by rw [hplace]; simp)
    rw [hplace] at hok
    obtain ⟨hcopied, hcursor⟩ := hok
    have hgrows : ∀ l, (s.callbacks c).view l ≤
      (Function.update (s.callbacks c).view .head write ⊔ w.released) l :=
      fun l =>
      (Memory.le_update hle l).trans le_sup_left
    have hheads := h.head.length
    have hlt := (List.getElem?_eq_some_iff.mp hget).1
    rw [List.length_map] at hheads
    have hwrite : write ≤ s.accepted.length := by omega
    have hseen : write ≤ (Function.update (s.callbacks c).view .head write ⊔ w.released) .head := by
      rw [Pi.sup_apply, Function.update_self]
      exact le_sup_left
    have hcaptured : Captured ring start s (Function.update (s.callbacks c).view .head write ⊔ w.released)
        ⟨cursor, w.value⟩ write :=
      ⟨hcursor, h.head.value write w hget, hseen, hwrite, howner.head.trans (s.framesUpTo_mono hle),
        fun a ha => (h.released write w hget a ha).trans le_sup_right⟩
    have hok : (Draining.consumer ⟨cursor, w.value⟩).Ok ring start s
        (Function.update (s.callbacks c).view .head write ⊔ w.released) := ⟨hcopied, write, hcaptured⟩
    exact h.called h.copied (h.turn.moved (by rw [hplace]; simp) ⟨_, .consumer ⟨cursor, w.value⟩⟩
      (howner.mono (hgrows .tail) (hgrows .head)) s.copied (hok.congr rfl rfl (List.append_nil _).symm))
  · cases hstep

theorem len_eq (h : Inv ring start s) (hring : Sized ring) {c : Consumer} {n : Nat}
    (hc : Captured ring start s view c n) :
    c.len = (s.framesUpTo n - s.drains.sum) * FRAME_BYTES := by
  have hseen := s.drainedSeen_le
  have htotal := s.framesUpTo_le n
  have hfits := h.fits
  have hsmall := hring.small
  rw [Consumer.len, hc.cursor, hc.published, wrappingSub_counter hc.drained (by omega)]

theorem drainInto (h : Inv ring start s) (hring : Sized ring) {c destination : Nat}
    (hstep : s.drainInto c destination = some s') : Inv ring start s' := by
  unfold System.drainInto at hstep
  split at hstep
  · rename_i view consumer hcallback
    cases hstep
    have hin : (s.callbacks c).place ≠ .outside := by rw [hcallback]; simp
    obtain ⟨_, _, howner, hok⟩ := h.turn.of_inside hin
    rw [hcallback] at howner hok
    obtain ⟨hcopied, n, hn⟩ := hok
    have hcount : min (consumer.len / FRAME_BYTES) (destination / FRAME_BYTES) ≤ s.framesUpTo n - s.drains.sum := by
      rw [h.len_eq hring hn, Nat.mul_div_cancel _ (by decide)]
      exact min_le_left _ _
    have hdrained := hn.drained
    have hok :
      (Draining.copying consumer (min (consumer.len / FRAME_BYTES)
      (destination / FRAME_BYTES)) 0).Ok ring start s view :=
      ⟨hcopied, Nat.zero_le _, n, hn, by omega⟩
    exact h.called h.copied (h.turn.moved hin
      ⟨view, .copying consumer (min (consumer.len / FRAME_BYTES) (destination / FRAME_BYTES)) 0⟩ howner s.copied
      (hok.congr rfl rfl (List.append_nil _).symm))
  · cases hstep

/-- A frame is copied out: it is the next of those that were stored. -/
theorem loadSlot (h : Inv ring start s) (hring : Sized ring) {c write : Nat}
    (hstep : s.loadSlot ring c write = some s') :
    Inv ring start s' := by
  unfold System.loadSlot at hstep
  split at hstep
  · rename_i view consumer count frame hcallback
    split at hstep
    · rename_i hlt
      obtain ⟨⟨word, view'⟩, hload, rfl⟩ := Option.map_eq_some_iff.mp hstep
      obtain ⟨w, hle, hget, rfl, rfl⟩ := Memory.loadRelaxed_eq_some hload
      have hin : (s.callbacks c).place ≠ .outside := by rw [hcallback]; simp
      obtain ⟨_, _, howner, hok⟩ := h.turn.of_inside hin
      rw [hcallback] at howner hok
      obtain ⟨hcopied, hframe, n, hn, hroom⟩ := hok
      obtain ⟨hstored, hkept⟩ := h.length_written
      have htotal := s.framesUpTo_le n
      have hseen := s.drainedSeen_le
      have hfits := hring.fits
      have hslot : ring.slot consumer.cursor frame = (start + (s.drains.sum + frame)) % (ring.mask + 1) := by
        rw [hn.cursor, slot_counter hring]
      have hword : (s.written.map Prod.snd)[s.copied.length]? = some w.value := by
        rw [hslot] at hle hget
        rw [hcopied]
        exact h.slots.load hn.covers (by omega) (by omega) (by omega) hle hget
      have hgrows := Memory.le_update hle
      have hok : (Draining.copying consumer count (frame + 1)).Ok ring start { s with copied := s.copied ++ [w.value] }
          (Function.update view (.slot (ring.slot consumer.cursor frame)) write) := by
        refine ⟨?_, hlt, n, ?_, hroom⟩
        · dsimp only
          rw [List.length_append, hcopied]
          rfl
        · have hmono := hn.mono hgrows
          exact ⟨hmono.cursor, hmono.published, hmono.seen, hmono.accepted, hmono.drained, hmono.covers⟩
      exact h.called (prefix_concat h.copied hword) (h.turn.moved hin
        ⟨Function.update view (.slot (ring.slot consumer.cursor frame)) write, .copying consumer count (frame + 1)⟩
        (howner.mono (hgrows .tail) (hgrows .head)) _ hok)
    · cases hstep
  · cases hstep

/-- A drain returns: its frames' slots are free. -/
theorem storeTail (h : Inv ring start s) {c : Nat} (hstep : s.storeTail c = some s') : Inv ring start s' := by
  unfold System.storeTail at hstep
  split at hstep
  · rename_i view consumer count frame hcallback
    split at hstep
    · cases hstep
    · rename_i hdone
      cases hstep
      have hin : (s.callbacks c).place ≠ .outside := by rw [hcallback]; simp
      obtain ⟨⟨x, hlast, hset⟩, houtside, howner, hok⟩ := h.turn.of_inside hin
      rw [hcallback] at howner hok
      obtain ⟨hcopied, hframe, n, hn, hroom⟩ := hok
      have hmemory : ∀ l, l ≠ .tail →
          s.memory.append .tail ⟨wrappingAdd consumer.cursor count, s.memory.written view .tail⟩ l = s.memory l :=
            fun l hl =>
        Memory.append_of_ne hl
      have hview : ∀ l, l ≠ .tail → s.memory.written view .tail l = view l := fun l hl => Memory.written_of_ne hl
      have hsum : (s.drains ++ [count]).sum = s.drains.sum + count := by rw [List.sum_append, List.sum_singleton]
      have hseen : s.drainedSeen ≤ ((s.drains ++ [count]).take (s.view .tail)).sum := sum_take_append_le _ _ _
      have hcursor : wrappingAdd consumer.cursor count = counter start (s.drains.sum + count) := by
        rw [hn.cursor, wrappingAdd_counter]
      have hhead := hmemory .head (by simp)
      exact {
        head := by
          dsimp only [System.setCallback, Memory.storeRelease]
          rw [hhead]
          exact h.head
        tail := by
          dsimp only [System.setCallback, Memory.storeRelease]
          rw [Memory.append_self]
          exact h.tail.append hcursor
        released := by
          intro m w hw
          dsimp only [System.setCallback, Memory.storeRelease] at hw
          rw [hhead] at hw
          exact h.released m w hw
        slots := h.slots.congr fun i => hmemory (.slot i) (by simp)
        aligned := h.aligned
        headSeen := by
          dsimp only [System.setCallback, Memory.storeRelease]
          rw [hhead]
          exact h.headSeen
        covers := h.covers
        fits := h.fits.trans (Nat.add_le_add_right hseen _)
        publishing := h.publishing.mono rfl rfl hseen
        copied := h.copied
        turn := by
          refine .held c x ?_ hset (fun d hd => ?_) ?_ ?_
          · dsimp only [System.setCallback, Memory.storeRelease]
            rw [hmemory .consuming (by simp)]
            exact hlast
          · dsimp only [System.setCallback]
            rw [Function.update_of_ne hd]
            exact houtside d hd
          · dsimp only [System.setCallback]
            rw [Function.update_self]
            refine ⟨?_, ?_⟩
            · dsimp only [Memory.storeRelease]
              rw [Memory.append_self, Memory.written_self, List.length_append]
              rfl
            · dsimp only [Memory.storeRelease]
              rw [hsum, hview .head (by simp)]
              exact hroom.trans (s.framesUpTo_mono hn.seen)
          · dsimp only [System.setCallback]
            rw [Function.update_self]
            refine ⟨?_, n, hn.drain rfl rfl hroom fun l hl => (hview l hl).symm⟩
            dsimp only
            rw [hsum]
            omega }
  · cases hstep

theorem drop (h : Inv ring start s) {c : Nat} (hstep : s.drop c = some s') : Inv ring start s' := by
  unfold System.drop at hstep
  split at hstep
  · rename_i view consumer hcallback
    cases hstep
    have hin : (s.callbacks c).place ≠ .outside := by rw [hcallback]; simp
    obtain ⟨_, houtside, howner, hok⟩ := h.turn.of_inside hin
    rw [hcallback] at howner hok
    have hview : ∀ l, l ≠ .consuming → s.memory.written view .consuming l = view l :=
      fun l hl => Memory.written_of_ne hl
    refine h.flagged (.free ⟨false, s.memory.written view .consuming⟩ ?_ rfl (fun d => ?_) ?_ hok.1)
    · dsimp only
      rw [Memory.append_self, List.getLast?_append_of_ne_nil _ (by simp)]
      rfl
    · dsimp only
      by_cases hd : d = c
      · subst hd
        rw [Function.update_self]
      · rw [Function.update_of_ne hd]
        exact houtside d hd
    · refine ⟨?_, ?_⟩
      · dsimp only
        rw [Memory.append_of_ne (by simp), hview .tail (by simp)]
        exact howner.tail
      · dsimp only
        rw [hview .head (by simp)]
        exact howner.head
  · cases hstep

theorem init (ring : AtomicPcmRing) (hstart : start < USIZE) : Inv ring start (PcmRing.init start) where
  head := Counts.init hstart
  tail := Counts.init hstart
  released := fun n w _ a ha => by
    have hzero : (PcmRing.init start).framesUpTo n = 0 := by rw [System.framesUpTo]; simp [PcmRing.init]
    omega
  slots := ⟨fun a _ hlt => by
    have hlt : a < 0 + (ring.mask + 1) := hlt
    rw [Nat.div_eq_of_lt (by omega)]
    rfl, fun a x hx => by cases hx⟩
  aligned := fun b hb => by cases hb
  headSeen := le_rfl
  covers := fun a ha => absurd ha (Nat.not_lt_zero a)
  fits := Nat.zero_le _
  publishing := rfl
  copied := List.nil_prefix
  turn := .free ⟨false, fun _ => 0⟩ rfl rfl (fun _ => rfl) ⟨le_rfl, Nat.zero_le _⟩ rfl

theorem step (h : Inv ring start s) (hring : Sized ring) {a : Action} (hstep : PcmRing.step ring s a = some s') :
    Inv ring start s' := by
  cases a with
  | publish => exact h.publish hstep
  | loadTail => exact h.loadTail hring hstep
  | storeSlot => exact h.storeSlot hring hstep
  | commit => exact h.commit hstep
  | exchange => exact h.exchange hstep
  | exchangeFails => exact h.exchangeFails hstep
  | loadCursor => exact h.loadCursor hstep
  | loadPublished => exact h.loadPublished hstep
  | drainInto => exact h.drainInto hring hstep
  | loadSlot => exact h.loadSlot hring hstep
  | storeTail => exact h.storeTail hstep
  | drop => exact h.drop hstep

end Inv

end Inv

end BridgeVm.Hda.PcmRing
