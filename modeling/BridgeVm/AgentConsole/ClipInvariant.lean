import BridgeVm.AgentConsole.ClipSync
import BridgeVm.Lib.EventLog
import BridgeVm.Lib.Transition

/-!
# What clipboard sync keeps

What the guest's clipboard shows, now and in the answers on the way, is the baseline or a copy that the guest took after
it and after every Mac copy, as long as no push is under way (`Inv`).
-/

namespace BridgeVm.AgentConsole.ClipSync

open Lib

/-! ## What is claimed -/

/-- What the guest copied since the last Mac copy and since line `base` was executed. -/
def freshCopies (base : Nat) : List Event → List Text
  | [] => []
  | .macCopy _ :: _ => []
  | .executed serial :: log => if serial ≤ base then [] else freshCopies base log
  | .guestCopy text :: log => text :: freshCopies base log
  | _ :: log => freshCopies base log

/-- What an event needs of what happened before it. -/
def Sound : Event → List Event → Prop
  | .published text learned, earlier => ∃ copy ∈ freshCopies learned earlier, normalizeClip copy = text
  | _, _ => True

/-- The last Mac copy and the guest copies since, unless it was refused or a push has failed since. -/
def lastCopies : List Event → Option (Text × List Text)
  | [] => none
  | .macCopy text :: _ => some (text, [])
  | .refused :: _ | .failed :: _ => none
  | .guestCopy text :: log => (lastCopies log).map fun (mac, copies) => (mac, text :: copies)
  | _ :: log => lastCopies log

/-- The guest holds the last Mac copy, or a copy of its own after it. -/
def Settled (s : State) : Prop :=
  s.pushPending = false → ∀ mac copies, lastCopies s.log = some (mac, copies) →
    normalizeClip s.guest = normalizeClip mac ∨ s.guest ∈ copies

/-- The guest's texts in the answers on the way, with the numbers of their lines. -/
def clips (outputs : List (Output Line Reply)) : List (Nat × Text) :=
  outputs.filterMap fun
    | .answer serial _ (.clip text) => some (serial, text)
    | _ => none

/-- The CLIPSET in flight is on the way, or the answer to it. -/
def State.Crossing (s : State) : Prop := s.inFlight.any Req.isPush = true ∧ ∃ item ∈ s.link.items,
    item.1 = s.link.sent

/-- An answer shows what the guest holds, up to line ends. -/
def Shows (text guest : Text) : Prop :=
  text = guest ∨
    (normalizeClip text = normalizeClip guest ∧ text.length ≤ guestClipMaxBytes ∧
      guest.length ≤ guestClipMaxBytes)

/-- A Mac copy that is not pushed comes while the answers on the way show what the guest holds. -/
def Unraced (clipMaxBytes : Nat) (s : State) (text : Text) : Prop :=
  if s.holds text = true then
    normalizeClip s.guest = normalizeClip text ∧
      ∀ x ∈ clips s.link.outputs, x.2 = [] ∨
      (x.2.length ≤ guestClipMaxBytes ∧ normalizeClip x.2 = normalizeClip text)
  else if text.length > clipMaxBytes then
    match s.inFlight with
    | some (.clipPush pushed) =>
      (s.link.outputs.any fun
        | .answer serial _ .okClipSet => serial = s.link.sent
        | _ => false) = true → normalizeClip s.guest = normalizeClip pushed
    | _ => ∀ x ∈ clips s.link.outputs, Shows x.2 s.guest
  else True

/-- A Mac copy that is not pushed is not raced by a guest copy, and no answer to an earlier line is taken for the one to
a CLIPSET. -/
def Uncrossed (clipMaxBytes : Nat) (s : State) : Act → Prop
  | .macCopy text => Unraced clipMaxBytes s text
  | .pump true => s.overdueBeats + 1 < 3 ∨ ¬s.Crossing
  | .deliver =>
    match s.link.outputs with
    | .ready :: _ => ¬s.Crossing
    | .answer _ _ .out :: _ => s.inFlight.any Req.isPush = false
    | _ => True
  | _ => True

instance (s : State) : Decidable s.Crossing := by
  unfold State.Crossing
  infer_instance

instance (text guest : Text) : Decidable (Shows text guest) := by
  unfold Shows
  infer_instance

instance (clipMaxBytes : Nat) (s : State) (text : Text) : Decidable (Unraced clipMaxBytes s text) := by
  unfold Unraced
  split
  · infer_instance
  · split
    · split <;> infer_instance
    · infer_instance

instance (clipMaxBytes : Nat) (s : State) (a : Act) : Decidable (Uncrossed clipMaxBytes s a) := by
  unfold Uncrossed
  split
  · infer_instance
  · infer_instance
  · split <;> infer_instance
  · infer_instance

/-! ## Line ends -/

section LineEnds

attribute [local simp] normalizeClip toGuestCrlf

theorem normalizeClip_cons {b : UInt8} {s : Text} (h : b = 13 → s.head? ≠ some 10) :
    normalizeClip (b :: s) = b :: normalizeClip s := by
  rw [normalizeClip]
  intro s' hb hs
  exact h hb (by rw [hs]; rfl)

theorem head_toGuestCrlf (text : Text) : (toGuestCrlf text).head? ≠ some 10 := by
  fun_cases toGuestCrlf text with
  | case1 => simp
  | case2 => simp
  | case3 b s h h' =>
    intro heq
    rw [List.head?_cons, Option.some.injEq] at heq
    exact h' heq
  | case4 => simp

theorem normalizeClip_toGuestCrlf (text : Text) : normalizeClip (toGuestCrlf text) = normalizeClip text := by
  fun_induction toGuestCrlf text with
  | case1 s ih => rw [normalizeClip, normalizeClip, ih]
  | case2 s ih => rw [normalizeClip, normalizeClip_cons (by simp), ih]
  | case3 b s h h' ih =>
    have hs : b = 13 → s.head? ≠ some 10 := by
      intro hb hhead
      obtain ⟨s', rfl⟩ : ∃ s', s = 10 :: s' := List.head?_eq_some_iff.mp hhead
      exact h s' hb rfl
    rw [normalizeClip_cons hs, normalizeClip_cons fun _ => head_toGuestCrlf s, ih]
  | case4 => rfl

theorem normalizeClip_eq_nil {text : Text} (h : normalizeClip text = []) : text = [] := by
  cases text with
  | nil => rfl
  | cons b s =>
    unfold normalizeClip at h
    split at h <;> simp_all

end LineEnds

/-! ## Copies -/

section Copies

attribute [local simp] freshCopies lastCopies

variable {base base' serial : Nat} {text mac : Text} {copies : List Text} {log : List Event}

theorem freshCopies_mono (hle : base ≤ base') (h : text ∈ freshCopies base' log) :
    text ∈ freshCopies base log := by
  induction log with
  | nil => cases h
  | cons e log ih =>
    cases e with
    | macCopy mac => cases h
    | executed serial =>
      simp only [freshCopies] at h ⊢
      split at h
      · cases h
      · rw [if_neg (by omega)]
        exact ih h
    | guestCopy copy =>
      rcases List.mem_cons.mp h with rfl | h
      · exact List.mem_cons_self ..
      · exact List.mem_cons_of_mem _ (ih h)
    | refused => exact ih h
    | failed => exact ih h
    | published => exact ih h

theorem freshCopies_executed (hlt : base < serial) (h : text ∈ freshCopies base log) :
    text ∈ freshCopies base (.executed serial :: log) := by
  rw [freshCopies, if_neg (by omega)]
  exact h

/-- A fresh copy came after the last Mac copy. -/
theorem mem_lastCopies (h : text ∈ freshCopies base log) (hlast : lastCopies log = some (mac, copies)) :
    text ∈ copies := by
  induction log generalizing copies with
  | nil => cases h
  | cons e log ih =>
    cases e with
    | macCopy mac => cases h
    | refused => cases hlast
    | failed => cases hlast
    | published => exact ih h hlast
    | executed serial =>
      simp only [freshCopies] at h
      split at h
      · cases h
      · exact ih h hlast
    | guestCopy copy =>
      rw [lastCopies, Option.map_eq_some_iff] at hlast
      obtain ⟨⟨mac', copies'⟩, hlast, heq⟩ := hlast
      cases heq
      rcases List.mem_cons.mp h with rfl | h
      · exact List.mem_cons_self ..
      · exact List.mem_cons_of_mem _ (ih h hlast)

end Copies

/-! ## The invariant -/

/-- A text that a CLIP answer may bring to the Mac. -/
def Admissible (text : Text) : Prop := text ≠ [] ∧ text.length ≤ guestClipMaxBytes

/-- `text` is shown after `x`: the same text, or a fresh copy. An empty `x` changes nothing, unless it ends a
rebaseline. -/
def Follows (s : State) (x : Nat × Text) (text : Text) : Prop :=
  (x.2 = [] ∧ s.baseline.rebaseline = false) ∨ ¬Admissible text ∨
    (Admissible x.2 ∧ normalizeClip text = normalizeClip x.2) ∨ text ∈ freshCopies x.1 s.log

/-- `text` is the baseline, or a copy fresh after it. -/
def Known (s : State) (text : Text) : Prop :=
  ¬Admissible text ∨ s.baseline.text = some (normalizeClip text) ∨ text ∈ freshCopies s.baseline.learned s.log

/-- What the guest shows while no push is under way. -/
structure Quiet (s : State) : Prop where
  chain : (clips s.link.outputs).Pairwise fun x y => Follows s x y.2
  current : ∀ x ∈ clips s.link.outputs, Follows s x s.guest
  known : s.baseline.rebaseline = false → (∀ x ∈ clips s.link.outputs, Known s x.2) ∧ Known s s.guest

/-- The push in flight was executed: the guest holds it, or a fresh copy, or another push follows. -/
def Pushed (s : State) : Prop :=
  ∀ text line, s.inFlight = some (.clipPush text) → .answer s.link.sent line .okClipSet ∈ s.link.outputs →
    s.queue.any Req.isPush = true ∨ normalizeClip s.guest = normalizeClip text ∨
      s.guest ∈ freshCopies s.link.sent s.log

/-- The last Mac copy is pushed last, or no push is under way and it has settled. -/
def LastPush (s : State) : Prop :=
  ∀ mac copies, lastCopies s.log = some (mac, copies) →
    (∀ req ∈ s.queue, req.isPush = true → req = .clipPush mac) ∧
      (s.queue.any Req.isPush = false → s.inFlight.any Req.isPush = true → s.inFlight = some (.clipPush mac)) ∧
        (s.pushPending = false → normalizeClip s.guest = normalizeClip mac ∨ s.guest ∈ copies)

def Line.isSet : Line → Bool
  | .clipSet _ => true
  | _ => false

structure Inv (s : State) : Prop where
  traced : Traced Sound s.log
  /-- Only a CLIPSET is answered as one. -/
  fits : ∀ n line reply, .answer n line reply ∈ s.link.outputs → reply = .okClipSet ∨ reply = .errClipSet →
    line.isSet = true
  /-- A CLIPSET on the way is the one in flight. -/
  wire : ∀ item ∈ s.link.items, item.2.isSet = true →
    ∃ text, s.inFlight = some (.clipPush text) ∧ item = (s.link.sent, .clipSet (toGuestCrlf text))
  learned_lt : ∀ item ∈ s.link.items, s.baseline.learned < item.1
  learned_le : s.baseline.learned ≤ s.link.sent
  pushed : Pushed s
  quiet : s.pushPending = false → Quiet s
  last : LastPush s

section Invariant

variable {s s' : State} {text : Text} {link : Link Line Reply}

theorem clips_sublist {xs ys : List (Output Line Reply)} (h : xs.Sublist ys) : (clips xs).Sublist (clips ys) :=
  h.filterMap _

theorem mem_clips {outputs : List (Output Line Reply)} {x : Nat × Text} (h : x ∈ clips outputs) :
    ∃ line, .answer x.1 line (.clip x.2) ∈ outputs := by
  unfold clips at h
  rw [List.mem_filterMap] at h
  obtain ⟨output, hmem, heq⟩ := h
  split at heq
  · cases heq
    exact ⟨_, hmem⟩
  · cases heq

theorem inv_start (text : Text) : Inv (start text) where
  traced := ⟨trivial, trivial⟩
  fits := by simp [start, Link.idle]
  wire := by simp [start]
  learned_lt := by simp [start]
  learned_le := Nat.zero_le _
  pushed := by simp [Pushed, start]
  quiet := fun _ => by
    refine ⟨by simp [start, Link.idle, clips], by simp [start, Link.idle, clips], fun _ => ⟨?_, ?_⟩⟩
    · simp [start, Link.idle, clips]
    · exact .inr (.inr (List.mem_cons_self ..))
  last := by
    intro mac copies h
    cases h

theorem Inv.shrink (h : Inv s) (hsent : link.sent = s.link.sent) (hunread : link.unread.Sublist s.link.unread)
    (houtputs : ∀ n line reply, .answer n line reply ∈ link.outputs → .answer n line reply ∈ s.link.outputs)
    (hclips : (clips link.outputs).Sublist (clips s.link.outputs)) : Inv { s with link := link } := by
  have hitems : ∀ item ∈ link.items, item ∈ s.link.items := by
    intro item hitem
    rcases Link.mem_items.mp hitem with ⟨reply, hreply⟩ | hitem
    · exact Link.mem_items.mpr (.inl ⟨reply, houtputs _ _ _ hreply⟩)
    · exact Link.mem_items.mpr (.inr (hunread.subset hitem))
  refine ⟨h.traced, ?_, ?_, ?_, Nat.le_trans h.learned_le (Nat.le_of_eq hsent.symm), ?_, ?_, h.last⟩
  · exact fun n line reply hmem => h.fits n line reply (houtputs n line reply hmem)
  · rw [hsent]
    exact fun item hitem => h.wire item (hitems item hitem)
  · exact fun item hitem => h.learned_lt item (hitems item hitem)
  · intro text line hflight hmem
    rw [hsent] at hmem ⊢
    exact h.pushed text line hflight (houtputs _ _ _ hmem)
  · intro hpending
    have hq := h.quiet hpending
    refine ⟨hq.chain.sublist hclips, fun x hx => hq.current x (hclips.subset hx), fun hbase => ?_⟩
    exact ⟨fun x hx => (hq.known hbase).1 x (hclips.subset hx), (hq.known hbase).2⟩

/-! ## Requests -/

/-- A line is sent with no CLIPSET on the way. -/
theorem Inv.send (h : Inv s) {req : Req} {queue : List Req} {beats : Nat}
    (hwire : ∀ item ∈ s.link.items, item.2.isSet = false)
    (hpending : ((some req).any Req.isPush || queue.any Req.isPush) = s.pushPending)
    (hlast : ∀ mac copies, lastCopies s.log = some (mac, copies) →
      (∀ req' ∈ queue, req'.isPush = true → req' = .clipPush mac) ∧
        (queue.any Req.isPush = false → req.isPush = true → req = .clipPush mac)) :
    Inv
      { s with
        inFlight := some req, queue := queue, overdueBeats := beats, link := s.link.send (writeReqLine req) } := by
  refine ⟨h.traced, h.fits, ?_, ?_, Nat.le_succ_of_le h.learned_le, ?_, ?_, ?_⟩
  · intro item hitem hset
    rcases List.mem_append.mp (Link.items_send ▸ hitem) with hitem | hitem
    · rw [hwire item hitem] at hset
      cases hset
    · cases List.mem_singleton.mp hitem
      cases req with
      | clipCaps => cases hset
      | clipPoll => cases hset
      | clipPush text => exact ⟨text, rfl, rfl⟩
  · intro item hitem
    rcases List.mem_append.mp (Link.items_send ▸ hitem) with hitem | hitem
    · exact h.learned_lt item hitem
    · cases List.mem_singleton.mp hitem
      exact Nat.lt_succ_of_le h.learned_le
  · intro text line hflight hmem
    exact absurd (Link.answer_le (show .answer (s.link.sent + 1) line .okClipSet ∈ s.link.outputs from hmem))
      (Nat.not_succ_le_self _)
  · intro hnone
    have hq := h.quiet (hpending.symm.trans hnone)
    exact ⟨hq.chain, hq.current, hq.known⟩
  · intro mac copies hcopies
    obtain ⟨hqueue, hflight⟩ := hlast mac copies hcopies
    refine ⟨hqueue, fun hnone hpush => by rw [hflight hnone hpush], fun hnone => ?_⟩
    exact (h.last mac copies hcopies).2.2 (hpending.symm.trans hnone)

theorem Inv.setBeats (h : Inv s) (beats : Nat) : Inv { s with overdueBeats := beats } :=
  ⟨h.traced, h.fits, h.wire, h.learned_lt, h.learned_le, h.pushed,
    fun hnone => ⟨(h.quiet hnone).chain, (h.quiet hnone).current, (h.quiet hnone).known⟩, h.last⟩

theorem Inv.unset (h : Inv s) (hflight : s.inFlight.any Req.isPush = false) :
    ∀ item ∈ s.link.items, item.2.isSet = false := by
  intro item hitem
  by_contra hset
  obtain ⟨text, hpush, _⟩ := h.wire item hitem (Bool.eq_true_of_not_eq_false hset)
  rw [hpush] at hflight
  cases hflight

theorem Inv.enqueuePoll (h : Inv s) : Inv s.enqueuePoll := by
  unfold State.enqueuePoll
  split
  · exact h
  have hpoll : Req.clipPoll.isPush = false := rfl
  have hany : (s.queue ++ [Req.clipPoll]).any Req.isPush = s.queue.any Req.isPush := by simp [hpoll]
  refine ⟨h.traced, h.fits, h.wire, h.learned_lt, h.learned_le, ?_, ?_, ?_⟩
  · intro text line hflight hmem
    rw [hany]
    exact h.pushed text line hflight hmem
  · intro hnone
    have hq := h.quiet (by simpa [State.pushPending, hpoll] using hnone)
    exact ⟨hq.chain, hq.current, hq.known⟩
  · intro mac copies hcopies
    obtain ⟨hqueue, hflight, hsettled⟩ := h.last mac copies hcopies
    refine ⟨?_, ?_, ?_⟩
    · intro req hreq hpush
      rcases List.mem_append.mp hreq with hreq | hreq
      · exact hqueue req hreq hpush
      · cases List.mem_singleton.mp hreq
        cases hpush
    · rw [hany]
      exact hflight
    · intro hnone
      exact hsettled (by simpa [State.pushPending, hpoll] using hnone)

theorem Inv.sendNext (h : Inv s) : Inv s.sendNext := by
  unfold State.sendNext
  split
  · exact h
  next hidle =>
    have hnone : s.inFlight = none := by simpa using hidle
    split
    · exact h.setBeats 0
    next req rest hqueue =>
      refine h.send (h.unset (by rw [hnone]; rfl)) ?_ ?_
      · simp [State.pushPending, hnone, hqueue]
      · intro mac copies hcopies
        have hlast := (h.last mac copies hcopies).1
        rw [hqueue] at hlast
        exact ⟨fun req' hreq' => hlast req' (List.mem_cons_of_mem _ hreq'),
          fun _ => hlast req (List.mem_cons_self ..)⟩

theorem Inv.resend (h : Inv s) {req : Req} (hflight : s.inFlight = some req) (hclear : ¬s.Crossing) :
    Inv { s with inFlight := some req, overdueBeats := 0, link := s.link.send (writeReqLine req) } := by
  refine h.send ?_ (by rw [State.pushPending, hflight]) ?_
  · intro item hitem
    by_contra hset
    obtain ⟨text, hpush, rfl⟩ := h.wire item hitem (Bool.eq_true_of_not_eq_false hset)
    exact hclear ⟨by rw [hpush]; rfl, _, hitem, rfl⟩
  · intro mac copies hcopies
    obtain ⟨hqueue, hlast, _⟩ := h.last mac copies hcopies
    refine ⟨hqueue, fun hnone hpush => ?_⟩
    have hany : s.inFlight.any Req.isPush = true := by
      rw [hflight]
      exact hpush
    exact Option.some.inj (hflight.symm.trans (hlast hnone hany))

theorem Inv.pump (h : Inv s) {overdue : Bool} (hok : overdue = true → s.overdueBeats + 1 < 3 ∨ ¬s.Crossing) :
    Inv (s.pump overdue) := by
  unfold State.pump
  split
  next hoverdue =>
    unfold State.noteOverdue
    split
    · exact h.sendNext
    next req hflight =>
      split
      next hthird =>
        have hclear : ¬s.Crossing := (hok hoverdue).resolve_left (by omega)
        exact h.resend hflight hclear
      · exact (h.setBeats (s.overdueBeats + 1)).sendNext
  · exact h.sendNext

/-! ## Copies -/

theorem Inv.guestCopy (h : Inv s) (text : Text) : Inv { s with guest := text, log := .guestCopy text :: s.log } := by
  have hfresh : ∀ {x : Nat × Text} {t : Text}, Follows s x t →
      Follows { s with guest := text, log := .guestCopy text :: s.log } x t := by
    rintro x t (hf | hf | hf | hf)
    · exact .inl hf
    · exact .inr (.inl hf)
    · exact .inr (.inr (.inl hf))
    · exact .inr (.inr (.inr (List.mem_cons_of_mem _ hf)))
  refine ⟨⟨trivial, h.traced⟩, h.fits, h.wire, h.learned_lt, h.learned_le, ?_, ?_, ?_⟩
  · intro t line _ _
    exact .inr (.inr (List.mem_cons_self ..))
  · intro hnone
    have hq := h.quiet hnone
    refine ⟨hq.chain.imp hfresh, ?_, ?_⟩
    · intro x _
      exact .inr (.inr (.inr (List.mem_cons_self ..)))
    · intro hbase
      refine ⟨?_, .inr (.inr (List.mem_cons_self ..))⟩
      intro x hx
      rcases (hq.known hbase).1 x hx with hk | hk | hk
      · exact .inl hk
      · exact .inr (.inl hk)
      · exact .inr (.inr (List.mem_cons_of_mem _ hk))
  · intro mac copies hcopies
    rw [lastCopies, Option.map_eq_some_iff] at hcopies
    obtain ⟨⟨mac', copies'⟩, hcopies, heq⟩ := hcopies
    cases heq
    obtain ⟨hqueue, hflight, _⟩ := h.last mac copies' hcopies
    exact ⟨hqueue, hflight, fun _ => .inr (List.mem_cons_self ..)⟩

theorem Shows.follows {x : Nat × Text} (hx : Shows x.2 s.guest) (ht : Shows text s.guest) : Follows s x text := by
  by_cases hadm : Admissible text
  · refine .inr (.inr (.inl ?_))
    have hguest : Admissible s.guest ∧ normalizeClip text = normalizeClip s.guest := by
      rcases ht with rfl | ⟨hnorm, _, hlen⟩
      · exact ⟨hadm, rfl⟩
      · refine ⟨⟨?_, hlen⟩, hnorm⟩
        intro hnil
        rw [hnil] at hnorm
        exact hadm.1 (normalizeClip_eq_nil hnorm)
    obtain ⟨hadmg, hnorm⟩ := hguest
    rcases hx with hx | ⟨hnormx, hlen, _⟩
    · rw [hx]
      exact ⟨hadmg, hnorm⟩
    · refine ⟨⟨?_, hlen⟩, hnorm.trans hnormx.symm⟩
      intro hnil
      rw [hnil] at hnormx
      exact hadmg.1 (normalizeClip_eq_nil hnormx.symm)
  · exact .inr (.inl hadm)

theorem any_dropQueuedPushes (queue : List Req) : (dropQueuedPushes queue).any Req.isPush = false := by
  simp [dropQueuedPushes]

/-- The guest holds what the Mac has copied. -/
theorem Inv.unchanged (h : Inv s) (hholds : s.holds text = true) (hguest : normalizeClip s.guest = normalizeClip text)
    (hclips : ∀ x ∈ clips s.link.outputs,
      x.2 = [] ∨ (x.2.length ≤ guestClipMaxBytes ∧ normalizeClip x.2 = normalizeClip text)) :
    Inv { s with log := .macCopy text :: s.log } := by
  simp only [State.holds, Bool.and_eq_true, Bool.not_eq_true', decide_eq_true_eq] at hholds
  obtain ⟨⟨hbase, hnone⟩, hbaseline⟩ := hholds
  have hpending : s.inFlight.any Req.isPush = false ∧ s.queue.any Req.isPush = false :=
    Bool.or_eq_false_iff.mp hnone
  have hfollows : ∀ x ∈ clips s.link.outputs, ∀ t : Text, normalizeClip t = normalizeClip text ∨ t = [] →
      Follows { s with log := .macCopy text :: s.log } x t := by
    intro x hx t ht
    rcases hclips x hx with hnil | ⟨hlen, hnorm⟩
    · exact .inl ⟨hnil, hbase⟩
    rcases ht with ht | rfl
    · by_cases hnil : x.2 = []
      · exact .inl ⟨hnil, hbase⟩
      · exact .inr (.inr (.inl ⟨⟨hnil, hlen⟩, ht.trans hnorm.symm⟩))
    · exact .inr (.inl fun hadm => hadm.1 rfl)
  have hshown : ∀ x ∈ clips s.link.outputs, normalizeClip x.2 = normalizeClip text ∨ x.2 = [] := fun x hx =>
    (hclips x hx).symm.imp_left And.right
  refine ⟨⟨trivial, h.traced⟩, h.fits, h.wire, h.learned_lt, h.learned_le, ?_, ?_, ?_⟩
  · intro t line hflight _
    rw [show s.inFlight = some (.clipPush t) from hflight] at hpending
    cases hpending.1
  · intro _
    refine ⟨?_, fun x hx => hfollows x hx _ (.inl hguest), fun _ => ⟨?_, .inr (.inl ?_)⟩⟩
    · exact List.pairwise_of_forall_mem_list fun x hx y hy => hfollows x hx _ (hshown y hy)
    · intro x hx
      rcases hshown x hx with hnorm | hnil
      · exact .inr (.inl (hbaseline.trans (congrArg some hnorm.symm)))
      · exact .inl fun hadm => hadm.1 hnil
    · exact hbaseline.trans (congrArg some hguest.symm)
  · intro mac copies hcopies
    cases hcopies
    refine ⟨fun req hreq hpush => ?_, fun _ hflight => ?_, fun _ => .inl hguest⟩
    · exact absurd hpush (by simpa using List.any_eq_false.mp hpending.2 req hreq)
    · exact absurd (hpending.1.symm.trans hflight) Bool.false_ne_true

theorem Inv.refuse (h : Inv s)
    (hpush : ∀ pushed line, s.inFlight = some (.clipPush pushed) →
      .answer s.link.sent line .okClipSet ∈ s.link.outputs → normalizeClip s.guest = normalizeClip pushed)
    (hshows : s.inFlight.any Req.isPush = false → ∀ x ∈ clips s.link.outputs, Shows x.2 s.guest) :
    Inv
      { s with
        queue := dropQueuedPushes s.queue
        baseline := { s.baseline with rebaseline := true }
        log := .refused :: .macCopy text :: s.log } := by
  refine ⟨⟨trivial, trivial, h.traced⟩, h.fits, h.wire, h.learned_lt, h.learned_le, ?_, ?_, ?_⟩
  · intro pushed line hflight hmem
    exact .inr (.inl (hpush pushed line hflight hmem))
  · intro hnone
    have hshow := hshows (Bool.or_eq_false_iff.mp hnone).1
    refine ⟨?_, ?_, fun hbase => by cases hbase⟩
    · exact List.pairwise_of_forall_mem_list fun x hx y hy => Shows.follows (hshow x hx) (hshow y hy)
    · intro x hx
      exact Shows.follows (hshow x hx) (.inl rfl)
  · intro mac copies hcopies
    cases hcopies

theorem Inv.queuePush (h : Inv s) :
    Inv { s with queue := dropQueuedPushes s.queue ++ [.clipPush text], log := .macCopy text :: s.log } := by
  have hany : (dropQueuedPushes s.queue ++ [Req.clipPush text]).any Req.isPush = true := by
    rw [List.any_append, Bool.or_eq_true]
    exact .inr rfl
  refine ⟨⟨trivial, h.traced⟩, h.fits, h.wire, h.learned_lt, h.learned_le, ?_, ?_, ?_⟩
  · intro t line _ _
    exact .inl hany
  · intro hnone
    exact absurd (hany.symm.trans (Bool.or_eq_false_iff.mp hnone).2) (by simp)
  · intro mac copies hcopies
    cases hcopies
    refine ⟨?_, fun hnone => absurd (hany.symm.trans hnone) (by simp), fun hnone => ?_⟩
    · intro req hreq hpush
      rcases List.mem_append.mp hreq with hreq | hreq
      · have hdropped := List.any_eq_false.mp (any_dropQueuedPushes s.queue) req hreq
        exact absurd hpush hdropped
      · exact List.mem_singleton.mp hreq
    · exact absurd (hany.symm.trans (Bool.or_eq_false_iff.mp hnone).2) (by simp)

theorem Inv.hostClipChange (h : Inv s) {clipMaxBytes : Nat} (hok : Unraced clipMaxBytes s text) :
    Inv (s.hostClipChange clipMaxBytes text) := by
  unfold State.hostClipChange
  unfold Unraced at hok
  split
  next hholds =>
    rw [if_pos hholds] at hok
    exact h.unchanged hholds hok.1 hok.2
  next hholds =>
    rw [if_neg hholds] at hok
    split
    next hlong =>
      rw [if_pos hlong] at hok
      apply h.refuse
      · intro pushed line hflight hmem
        rw [hflight] at hok
        exact hok (List.any_eq_true.mpr ⟨_, hmem, by simp⟩)
      · intro hnone
        split at hok
        next pushed hflight =>
          rw [hflight] at hnone
          cases hnone
        · exact hok
    · exact h.queuePush

end Invariant

end BridgeVm.AgentConsole.ClipSync
