import BridgeVm.AgentConsole.ClipInvariant

/-!
# Clipboard sync neither echoes nor reverts

The agent and its answers keep the invariant. Three things break it: a CLIPSET that is sent again while it is on the
way, a Mac copy over the limit that comes after the guest's last answer was written and after a newer guest copy, and a
Mac copy of the baseline's text that the guest no longer holds.
-/

namespace BridgeVm.AgentConsole.ClipSync

open Lib

section Invariant

variable {s s' : State} {text : Text} {link : Link Line Reply}

/-! ## The agent -/

theorem clips_append (xs ys : List (Output Line Reply)) : clips (xs ++ ys) = clips xs ++ clips ys :=
  List.filterMap_append

theorem not_answered {item : Nat × Line} {rest : List (Nat × Line)} (hunread : s.link.unread = item :: rest)
    {line : Line}
    {reply : Reply} : .answer s.link.sent line reply ∉ s.link.outputs := by
  intro hmem
  rw [Link.unread_of_answered hmem] at hunread
  cases hunread

/-- An answer with no text of the guest's, from an agent that did not set one. -/
theorem Inv.answerOther (h : Inv s) {serial : Nat} {line : Line} {rest : List (Nat × Line)} {reply : Reply}
    (hunread : s.link.unread = (serial, line) :: rest) (hclip : clips [.answer serial line reply] = [])
    (hfits : reply = .errClipSet → line.isSet = true) (hok : reply ≠ .okClipSet) :
    Inv { s with link := s.link.answer reply } := by
  obtain ⟨_, houtputs, hsent⟩ := Link.answer_cons reply hunread
  have hclips : clips (s.link.answer reply).outputs = clips s.link.outputs := by
    rw [houtputs, clips_append, hclip, List.append_nil]
  refine ⟨h.traced, ?_, ?_, ?_, Nat.le_trans h.learned_le (Nat.le_of_eq hsent.symm), ?_, ?_, h.last⟩
  · intro n line' reply' hmem hreply
    rcases List.mem_append.mp (houtputs ▸ hmem) with hmem | hmem
    · exact h.fits n line' reply' hmem hreply
    · cases List.mem_singleton.mp hmem
      exact hfits (hreply.resolve_left hok)
  · rw [hsent, Link.items_answer]
    exact h.wire
  · rw [Link.items_answer]
    exact h.learned_lt
  · intro text line' hflight hmem
    rw [hsent] at hmem ⊢
    rcases List.mem_append.mp (houtputs ▸ hmem) with hmem | hmem
    · exact h.pushed text line' hflight hmem
    · cases List.mem_singleton.mp hmem
      exact absurd rfl hok
  · intro hnone
    have hq := h.quiet hnone
    refine ⟨?_, ?_, ?_⟩
    · rw [hclips]
      exact hq.chain
    · rw [hclips]
      exact hq.current
    · rw [hclips]
      exact hq.known

/-- The agent shows what the guest holds. -/
theorem Inv.answerGet (h : Inv s) {serial : Nat} {rest : List (Nat × Line)}
    (hunread : s.link.unread = (serial, .clipGet) :: rest) :
    Inv { s with link := s.link.answer (.clip s.guest), log := .executed serial :: s.log } := by
  obtain ⟨_, houtputs, hsent⟩ := Link.answer_cons (.clip s.guest) hunread
  have hclips : clips (s.link.answer (.clip s.guest)).outputs = clips s.link.outputs ++ [(serial, s.guest)] := by
    rw [houtputs, clips_append]
    rfl
  have hbefore : ∀ x ∈ clips s.link.outputs, x.1 < serial := by
    intro x hx
    obtain ⟨line, hmem⟩ := mem_clips hx
    exact (List.pairwise_append.mp s.link.increasing).2.2 (x.1, line) (List.mem_filterMap.mpr ⟨_, hmem, rfl⟩)
      (serial, .clipGet) (by rw [hunread]; exact List.mem_cons_self ..)
  have hlearned : s.baseline.learned < serial :=
    h.learned_lt (serial, .clipGet) (Link.mem_items.mpr (.inr (by rw [hunread]; exact List.mem_cons_self ..)))
  have hkept : ∀ x ∈ clips s.link.outputs, ∀ t, Follows s x t →
      Follows { s with link := s.link.answer (.clip s.guest), log := .executed serial :: s.log } x t := by
    rintro x hx t (hf | hf | hf | hf)
    · exact .inl hf
    · exact .inr (.inl hf)
    · exact .inr (.inr (.inl hf))
    · exact .inr (.inr (.inr (freshCopies_executed (hbefore x hx) hf)))
  have hknown : ∀ t, Known s t →
      Known { s with link := s.link.answer (.clip s.guest), log := .executed serial :: s.log } t := by
    rintro t (hk | hk | hk)
    · exact .inl hk
    · exact .inr (.inl hk)
    · exact .inr (.inr (freshCopies_executed hlearned hk))
  refine ⟨⟨trivial, h.traced⟩, ?_, ?_, ?_, Nat.le_trans h.learned_le (Nat.le_of_eq hsent.symm), ?_, ?_, ?_⟩
  · intro n line reply hmem hreply
    rcases List.mem_append.mp (houtputs ▸ hmem) with hmem | hmem
    · exact h.fits n line reply hmem hreply
    · cases List.mem_singleton.mp hmem
      rcases hreply with hreply | hreply <;> cases hreply
  · rw [hsent, Link.items_answer]
    exact h.wire
  · rw [Link.items_answer]
    exact h.learned_lt
  · intro text line hflight hmem
    rw [hsent] at hmem
    rcases List.mem_append.mp (houtputs ▸ hmem) with hmem | hmem
    · exact absurd hmem (not_answered hunread)
    · cases List.mem_singleton.mp hmem
  · intro hnone
    have hq := h.quiet hnone
    refine ⟨?_, ?_, fun hbase => ⟨?_, hknown _ (hq.known hbase).2⟩⟩
    · rw [hclips, List.pairwise_append]
      refine ⟨?_, List.pairwise_singleton _ _, ?_⟩
      · exact hq.chain.imp_of_mem fun hx _ hf => hkept _ hx _ hf
      · intro x hx y hy
        rw [List.mem_singleton.mp hy]
        exact hkept x hx _ (hq.current x hx)
    · intro x hx
      rcases List.mem_append.mp (hclips ▸ hx) with hx | hx
      · exact hkept x hx _ (hq.current x hx)
      · rw [List.mem_singleton.mp hx]
        by_cases hadm : Admissible s.guest
        · exact .inr (.inr (.inl ⟨hadm, rfl⟩))
        · exact .inr (.inl hadm)
    · intro x hx
      rcases List.mem_append.mp (hclips ▸ hx) with hx | hx
      · exact hknown _ ((hq.known hbase).1 x hx)
      · rw [List.mem_singleton.mp hx]
        exact hknown _ (hq.known hbase).2
  · intro mac copies hcopies
    exact h.last mac copies hcopies

/-- The agent has set what the push in flight asks. -/
theorem Inv.answerSet (h : Inv s) {serial : Nat} {text : Text} {rest : List (Nat × Line)}
    (hunread : s.link.unread = (serial, .clipSet text) :: rest) :
    Inv { s with link := s.link.answer .okClipSet, guest := text, log := .executed serial :: s.log } := by
  obtain ⟨_, houtputs, hsent⟩ := Link.answer_cons .okClipSet hunread
  obtain ⟨pushed, hflight, hitem⟩ :=
    h.wire (serial, .clipSet text) (Link.mem_items.mpr (.inr (by rw [hunread]; exact List.mem_cons_self ..))) rfl
  have htext : text = toGuestCrlf pushed := by
    cases hitem
    rfl
  have hpending : s.pushPending = true := by
    rw [State.pushPending, hflight]
    rfl
  refine ⟨⟨trivial, h.traced⟩, ?_, ?_, ?_, Nat.le_trans h.learned_le (Nat.le_of_eq hsent.symm), ?_, ?_, ?_⟩
  · intro n line reply hmem hreply
    rcases List.mem_append.mp (houtputs ▸ hmem) with hmem | hmem
    · exact h.fits n line reply hmem hreply
    · cases List.mem_singleton.mp hmem
      rfl
  · rw [hsent, Link.items_answer]
    exact h.wire
  · rw [Link.items_answer]
    exact h.learned_lt
  · intro pushed' line hflight' _
    cases hflight.symm.trans hflight'
    refine .inr (.inl ?_)
    rw [htext]
    exact normalizeClip_toGuestCrlf pushed
  · intro hnone
    exact absurd (hpending.symm.trans hnone) (by simp)
  · intro mac copies hcopies
    obtain ⟨hqueue, hlast, _⟩ := h.last mac copies hcopies
    exact ⟨hqueue, hlast, fun hnone => absurd (hpending.symm.trans hnone) (by simp)⟩

theorem Inv.agent (h : Inv s) {fails : Bool} (hstep : s.agent fails = some s') : Inv s' := by
  unfold State.agent at hstep
  split at hstep
  · cases hstep
  next serial line rest hunread =>
    split at hstep
    · cases hstep
      cases fails with
      | true => exact h.answerOther hunread rfl (fun hreply => by cases hreply) (fun hreply => by cases hreply)
      | false => exact h.answerOther hunread rfl (fun hreply => by cases hreply) (fun hreply => by cases hreply)
    · cases hstep
      exact h.answerGet hunread
    · split at hstep
      · cases hstep
        exact h.answerOther hunread rfl (fun _ => rfl) (fun hreply => by cases hreply)
      · cases hstep
        exact h.answerSet hunread

/-! ## Answers -/

theorem Inv.receive (h : Inv s) : Inv { s with link := s.link.receive } :=
  h.shrink rfl (List.Sublist.refl _) (fun _ _ _ hmem => List.mem_of_mem_tail hmem) (clips_sublist (List.tail_sublist _))

theorem Inv.credit (h : Inv s) (hflight : s.inFlight.any Req.isPush = false) : Inv { s with inFlight := none } := by
  have hpending : (Option.any Req.isPush none || s.queue.any Req.isPush) = s.pushPending := by
    rw [State.pushPending, hflight]
    rfl
  refine ⟨h.traced, h.fits, ?_, h.learned_lt, h.learned_le, ?_, ?_, ?_⟩
  · intro item hitem hset
    rw [h.unset hflight item hitem] at hset
    cases hset
  · intro text line hnone _
    cases hnone
  · intro hnone
    have hq := h.quiet (hpending.symm.trans hnone)
    exact ⟨hq.chain, hq.current, hq.known⟩
  · intro mac copies hcopies
    obtain ⟨hqueue, _, hsettled⟩ := h.last mac copies hcopies
    refine ⟨hqueue, ?_, fun hnone => hsettled (hpending.symm.trans hnone)⟩
    intro _ hpush
    cases hpush

theorem Inv.receive_set (h : Inv s) {serial : Nat} {line : Line} {reply : Reply} {later : List (Output Line Reply)}
    (houtputs : s.link.outputs = .answer serial line reply :: later) (hreply : reply = .okClipSet ∨
      reply = .errClipSet) :
    serial = s.link.sent ∧ s.link.receive.items = [] := by
  have hmem : .answer serial line reply ∈ s.link.outputs := by
    rw [houtputs]
    exact List.mem_cons_self ..
  have hset : line.isSet = true := h.fits serial line reply hmem hreply
  obtain ⟨pushed, _, hitem⟩ := h.wire (serial, line) (Link.mem_items.mpr (.inl ⟨reply, hmem⟩)) hset
  cases hitem
  exact ⟨rfl, Link.receive_last houtputs⟩

theorem clips_receive (hitems : s.link.receive.items = []) : clips s.link.receive.outputs = [] := by
  rw [List.eq_nil_iff_forall_not_mem]
  intro x hx
  obtain ⟨line, hmem⟩ := mem_clips hx
  have hitem : (x.1, line) ∈ s.link.receive.items := Link.mem_items.mpr (.inl ⟨_, hmem⟩)
  rw [hitems] at hitem
  cases hitem

/-- The agent confirms the push. -/
theorem Inv.confirmed (h : Inv s) {serial : Nat} {line : Line} {later : List (Output Line Reply)}
    (houtputs : s.link.outputs = .answer serial line .okClipSet :: later)
      (hflight : s.inFlight = some (.clipPush text)) :
    Inv
      { s with
        link := s.link.receive
        inFlight := none
        baseline := { text := some (normalizeClip text), rebaseline := false, learned := serial } } := by
  obtain ⟨rfl, hitems⟩ := h.receive_set houtputs (.inl rfl)
  have hclips := clips_receive hitems
  have hguest : s.queue.any Req.isPush = false → normalizeClip s.guest = normalizeClip text ∨
      s.guest ∈ freshCopies s.link.sent s.log := by
    intro hnone
    have hmem : .answer s.link.sent line .okClipSet ∈ s.link.outputs := by
      rw [houtputs]
      exact List.mem_cons_self ..
    exact (h.pushed text line hflight hmem).resolve_left (by rw [hnone]; exact Bool.false_ne_true)
  refine ⟨h.traced, h.receive.fits, ?_, ?_, Nat.le_refl _, ?_, ?_, ?_⟩
  · rw [hitems]
    intro item hitem
    cases hitem
  · rw [hitems]
    intro item hitem
    cases hitem
  · intro text line hnone _
    cases hnone
  · intro hnone
    refine ⟨?_, ?_, fun _ => ⟨?_, ?_⟩⟩
    · rw [hclips]
      exact .nil
    · rw [hclips]
      intro x hx
      cases hx
    · rw [hclips]
      intro x hx
      cases hx
    · rcases hguest hnone with hnorm | hfresh
      · exact .inr (.inl (congrArg some hnorm.symm))
      · exact .inr (.inr hfresh)
  · intro mac copies hcopies
    obtain ⟨hqueue, hlast, _⟩ := h.last mac copies hcopies
    refine ⟨hqueue, ?_, fun hnone => ?_⟩
    · intro _ hpush
      cases hpush
    have hmac : text = mac := by
      have hpush := hlast hnone (by rw [hflight]; rfl)
      rw [hflight] at hpush
      cases hpush
      rfl
    rcases hguest hnone with hnorm | hfresh
    · exact .inl (hmac ▸ hnorm)
    · exact .inr (mem_lastCopies hfresh hcopies)

/-- The push has failed. -/
theorem Inv.failed (h : Inv s) {serial : Nat} {line : Line} {later : List (Output Line Reply)}
    (houtputs : s.link.outputs = .answer serial line .errClipSet :: later) :
    Inv
      { s with
        link := s.link.receive
        inFlight := none
        baseline := { s.baseline with rebaseline := true }
        log := .failed :: s.log } := by
  obtain ⟨_, hitems⟩ := h.receive_set houtputs (.inr rfl)
  have hclips := clips_receive hitems
  refine ⟨⟨trivial, h.traced⟩, h.receive.fits, ?_, ?_, h.learned_le, ?_, ?_, ?_⟩
  · rw [hitems]
    intro item hitem
    cases hitem
  · rw [hitems]
    intro item hitem
    cases hitem
  · intro text line hnone _
    cases hnone
  · intro _
    refine ⟨?_, ?_, fun hbase => by cases hbase⟩
    · rw [hclips]
      exact .nil
    · rw [hclips]
      intro x hx
      cases hx
  · intro mac copies hcopies
    cases hcopies

/-- The answer to a poll, with what it lets the baseline be. -/
theorem Inv.learn (h : Inv s) {serial : Nat} {line : Line} {later : List (Output Line Reply)} {baseline : ClipBaseline}
    (houtputs : s.link.outputs = .answer serial line (.clip text) :: later)
    (hflight : s.inFlight.any Req.isPush = false)
    (hbase : s.baseline.rebaseline = false → baseline.rebaseline = false)
    (hlearned : baseline.learned = s.baseline.learned ∨ baseline.learned = serial)
    (hknown : baseline.rebaseline = false → ∀ t, Follows s (serial, text) t →
      (s.baseline.rebaseline = false → Known s t) → Known { s with baseline } t) :
    Inv { s with link := s.link.receive, inFlight := none, baseline } := by
  have hmem : .answer serial line (.clip text) ∈ s.link.outputs := by
    rw [houtputs]
    exact List.mem_cons_self ..
  have hr := h.receive.credit hflight
  have hclips : clips s.link.outputs = (serial, text) :: clips s.link.receive.outputs := by
    rw [show s.link.receive.outputs = s.link.outputs.tail from rfl, houtputs]
    rfl
  refine ⟨h.traced, hr.fits, hr.wire, ?_, ?_, ?_, ?_, hr.last⟩
  · intro item hitem
    rcases hlearned with heq | heq
    · rw [heq]
      exact hr.learned_lt item hitem
    · rw [heq]
      exact Link.receive_later houtputs item hitem
  · rcases hlearned with heq | heq
    · rw [heq]
      exact h.learned_le
    · have hle : serial ≤ s.link.sent := Link.answer_le hmem
      rw [heq]
      exact hle
  · intro text line hnone _
    cases hnone
  · intro hnone
    have hpending : s.pushPending = false := by
      rw [State.pushPending, hflight]
      exact hnone
    have hq := h.quiet hpending
    have hchain := hq.chain
    have hcurrent := hq.current
    have hwere := hq.known
    rw [hclips] at hchain hcurrent hwere
    rw [List.pairwise_cons] at hchain
    have hkept : ∀ {x : Nat × Text} {t : Text}, Follows s x t → Follows { s with baseline } x t := by
      rintro x t (hf | hf)
      · exact .inl ⟨hf.1, hbase hf.2⟩
      · exact .inr hf
    refine ⟨hchain.2.imp hkept, ?_, fun hnow => ⟨?_, ?_⟩⟩
    · intro x hx
      exact hkept (hcurrent x (List.mem_cons_of_mem _ hx))
    · intro x hx
      exact hknown hnow _ (hchain.1 x hx) fun hthen => (hwere hthen).1 x (List.mem_cons_of_mem _ hx)
    · exact hknown hnow _ (hcurrent _ (List.mem_cons_self ..)) fun hthen => (hwere hthen).2

theorem Inv.publish (h : Inv s) {learned : Nat} (hsound : Sound (.published text learned) s.log) :
    Inv { s with log := .published text learned :: s.log } :=
  ⟨⟨hsound, h.traced⟩, h.fits, h.wire, h.learned_lt, h.learned_le, h.pushed,
    fun hnone => ⟨(h.quiet hnone).chain, (h.quiet hnone).current, (h.quiet hnone).known⟩, h.last⟩

theorem known_adopted {serial : Nat} {t : Text} (hnonempty : text ≠ []) (h : Follows s (serial, text) t) :
    Known { s with baseline := { text := some (normalizeClip text), rebaseline := false, learned := serial } } t := by
  rcases h with ⟨hnil, _⟩ | hadm | ⟨_, hnorm⟩ | hfresh
  · exact absurd hnil hnonempty
  · exact .inl hadm
  · exact .inr (.inl (congrArg some hnorm.symm))
  · exact .inr (.inr hfresh)

theorem Inv.pollReply (h : Inv s) {serial : Nat} {line : Line} {later : List (Output Line Reply)}
    (houtputs : s.link.outputs = .answer serial line (.clip text) :: later)
    (hflight : s.inFlight.any Req.isPush = false) :
    Inv ({ s with link := s.link.receive }.pollReply serial text) := by
  have hmem : .answer serial line (.clip text) ∈ s.link.outputs := by
    rw [houtputs]
    exact List.mem_cons_self ..
  have hserial : s.baseline.learned ≤ serial :=
    Nat.le_of_lt (h.learned_lt (serial, line) (Link.mem_items.mpr (.inl ⟨_, hmem⟩)))
  unfold State.pollReply
  dsimp only
  split
  · exact h.receive.credit hflight
  next hnone =>
    have hpending : s.pushPending = false := by
      rw [State.pushPending, hflight]
      simpa [State.pushPending] using hnone
    unfold admitGuestClip
    by_cases hlong : text.length > guestClipMaxBytes
    · -- Over the limit: the baseline is no longer known.
      rw [if_pos hlong]
      refine h.learn houtputs hflight id (.inl rfl) ?_
      intro hbase t hfollows _
      rcases hfollows with ⟨hnil, _⟩ | hadm | ⟨hadm, _⟩ | hfresh
      · rw [show text = [] from hnil] at hlong
        exact absurd hlong (Nat.not_lt_zero _)
      · exact .inl hadm
      · exact absurd hadm.2 (Nat.not_le_of_gt hlong)
      · exact .inr (.inr (freshCopies_mono hserial hfresh))
    rw [if_neg hlong]
    cases hbase : s.baseline.rebaseline with
    | false =>
      have hsame : Inv { s with link := s.link.receive, inFlight := none, baseline := s.baseline } :=
        h.learn houtputs hflight id (.inl rfl) fun hbase _ _ hknown => hknown hbase
      by_cases hnil : text = []
      · simp only [Bool.not_false, if_true, Option.bind_some, guestClipDecision, if_pos hnil]
        exact hsame
      by_cases hsynced : s.baseline.text = some (normalizeClip text)
      · simp only [Bool.not_false, if_true, Option.bind_some, guestClipDecision, if_neg hnil, if_pos hsynced]
        exact hsame
      simp only [Bool.not_false, if_true, Option.bind_some, guestClipDecision, if_neg hnil, if_neg hsynced]
      have hadm : Admissible text := ⟨hnil, Nat.le_of_not_gt hlong⟩
      have hmemClip : (serial, text) ∈ clips s.link.outputs := by
        rw [houtputs]
        exact List.mem_cons_self ..
      have hknown : Known s text := ((h.quiet hpending).known hbase).1 _ hmemClip
      have hfresh : text ∈ freshCopies s.baseline.learned s.log :=
        (hknown.resolve_left (not_not.mpr hadm)).resolve_left hsynced
      have hadopted : Inv
          { s with
            link := s.link.receive
            inFlight := none
            baseline := { s.baseline with text := some (normalizeClip text), learned := serial } } := by
        refine h.learn houtputs hflight id (.inr rfl) ?_
        intro _ t hfollows _
        exact known_adopted hnil hfollows
      exact hadopted.publish ⟨text, hfresh, rfl⟩
    | true =>
      by_cases hnil : text = []
      · simp only [Bool.not_true, Bool.false_eq_true, if_false, ne_eq, hnil, not_true_eq_false, Option.bind_none]
        refine h.learn houtputs hflight (fun _ => rfl) (.inl rfl) ?_
        intro _ t hfollows _
        rcases hfollows with ⟨_, hquiet⟩ | hadm | ⟨hadm, _⟩ | hfresh
        · rw [hbase] at hquiet
          cases hquiet
        · exact .inl hadm
        · exact absurd hnil hadm.1
        · exact .inr (.inr (freshCopies_mono hserial hfresh))
      · simp only [Bool.not_true, Bool.false_eq_true, if_false, ne_eq, hnil, not_false_eq_true, if_true,
          Option.bind_none]
        refine h.learn houtputs hflight (fun _ => rfl) (.inr rfl) ?_
        intro _ t hfollows _
        exact known_adopted hnil hfollows

/-- The agent is ready again, with no CLIPSET of the one in flight on the way. -/
theorem Inv.resync (h : Inv s) (hclear : ¬s.Crossing) : Inv s.resync := by
  have hqueued : ∀ {queue : List Req},
      (Req.clipCaps :: queue.filter fun req => req ≠ .clipCaps).any Req.isPush = queue.any Req.isPush := by
    intro queue
    have hcaps : Req.clipCaps.isPush = false := rfl
    rw [Bool.eq_iff_iff]
    simp only [List.any_cons, hcaps, Bool.false_or, List.any_filter, List.any_eq_true, Bool.and_eq_true, ne_eq,
      decide_eq_true_eq]
    constructor
    · rintro ⟨req, hmem, _, hpush⟩
      exact ⟨req, hmem, hpush⟩
    · rintro ⟨req, hmem, hpush⟩
      refine ⟨req, hmem, ?_, hpush⟩
      rintro rfl
      cases hpush
  have hmem : ∀ {queue : List Req}, ∀ req ∈ Req.clipCaps :: queue.filter (fun req => req ≠ .clipCaps),
      req.isPush = true → req ∈ queue := by
    intro queue req hreq hpush
    rcases List.mem_cons.mp hreq with rfl | hreq
    · cases hpush
    · exact (List.mem_filter.mp hreq).1
  unfold State.resync
  dsimp only
  split
  next text hflight =>
    have hany : (if s.queue.any Req.isPush = true then s.queue else .clipPush text :: s.queue).any Req.isPush =
      true := by
      split
      · assumption
      · rfl
    refine ⟨h.traced, h.fits, ?_, h.learned_lt, h.learned_le, ?_, ?_, ?_⟩
    · intro item hitem hset
      obtain ⟨pushed, hpush, rfl⟩ := h.wire item hitem hset
      exact absurd ⟨by rw [hpush]; rfl, _, hitem, rfl⟩ hclear
    · intro t line hnone _
      cases hnone
    · intro hnone
      have hnone' := (Bool.or_eq_false_iff.mp hnone).2
      rw [hqueued, hany] at hnone'
      cases hnone'
    · intro mac copies hcopies
      obtain ⟨hqueue, hlast, _⟩ := h.last mac copies hcopies
      refine ⟨?_, ?_, fun hnone => ?_⟩
      · intro req hreq hpush
        have hreq := hmem req hreq hpush
        split at hreq
        · exact hqueue req hreq hpush
        next hnone =>
          rcases List.mem_cons.mp hreq with rfl | hreq
          · have hlast := hlast (by simpa using hnone) (by rw [hflight]; rfl)
            rw [hflight] at hlast
            exact Option.some.inj hlast
          · exact hqueue req hreq hpush
      · intro _ hpush
        cases hpush
      · have hnone' := (Bool.or_eq_false_iff.mp hnone).2
        rw [hqueued, hany] at hnone'
        cases hnone'
  next hflight =>
    have hflight : s.inFlight.any Req.isPush = false := by
      cases hreq : s.inFlight with
      | none => rfl
      | some req =>
        cases req with
        | clipPush text => exact absurd hreq (hflight text)
        | clipCaps => rfl
        | clipPoll => rfl
    have hc := h.credit hflight
    refine ⟨h.traced, h.fits, hc.wire, h.learned_lt, h.learned_le, ?_, ?_, ?_⟩
    · intro text line hnone _
      cases hnone
    · intro hnone
      have hq := hc.quiet (by simpa only [State.pushPending, hqueued] using hnone)
      exact ⟨hq.chain, hq.current, hq.known⟩
    · intro mac copies hcopies
      obtain ⟨hqueue, _, hsettled⟩ := hc.last mac copies hcopies
      refine ⟨fun req hreq hpush => hqueue req (hmem req hreq hpush) hpush, ?_, fun hnone => ?_⟩
      · intro _ hpush
        cases hpush
      · exact hsettled (by simpa only [State.pushPending, hqueued] using hnone)

theorem Inv.deliver (h : Inv s) {clipMaxBytes : Nat} (hok : Uncrossed clipMaxBytes s .deliver)
    (hstep : s.deliver = some s') :
    Inv s' := by
  unfold State.deliver at hstep
  unfold Uncrossed at hok
  split at hstep
  · cases hstep
  next later houtputs =>
    cases hstep
    rw [houtputs] at hok
    refine h.receive.resync ?_
    rintro ⟨hpush, item, hitem, hsent⟩
    exact hok ⟨hpush, item, Link.items_receive.subset hitem, hsent⟩
  next serial line reply later houtputs =>
    cases hstep
    rw [houtputs] at hok
    unfold State.reply
    split
    next hflight => exact h.receive.credit (by rw [show s.inFlight = _ from hflight]; rfl)
    next hflight => exact h.receive.credit (by rw [show s.inFlight = _ from hflight]; rfl)
    next hflight => exact h.receive.credit (by rw [show s.inFlight = _ from hflight]; rfl)
    next hflight => exact h.pollReply houtputs (by rw [show s.inFlight = _ from hflight]; rfl)
    next hflight => exact h.receive.credit (by rw [show s.inFlight = _ from hflight]; rfl)
    next hflight => exact h.confirmed houtputs hflight
    next hflight => exact h.failed houtputs
    next hflight =>
      have hnone : s.inFlight.any Req.isPush = false := hok
      rw [show s.inFlight = _ from hflight] at hnone
      cases hnone
    · exact h.receive

theorem clips_eraseIdx (outputs : List (Output Line Reply)) (i : Nat) :
    (clips (outputs.eraseIdx i)).Sublist (clips outputs) :=
  clips_sublist (List.eraseIdx_sublist _ _)

theorem Inv.step (h : Inv s) {clipMaxBytes : Nat} {a : Act} (hok : Uncrossed clipMaxBytes s a)
    (hstep : step clipMaxBytes s a = some s') : Inv s' := by
  cases a with
  | macCopy text =>
    cases hstep
    exact h.hostClipChange hok
  | guestCopy text =>
    cases hstep
    exact h.guestCopy text
  | enqueuePoll =>
    cases hstep
    exact h.enqueuePoll
  | pump overdue =>
    cases hstep
    cases overdue with
    | true => exact h.pump fun _ => hok
    | false => exact h.pump fun hoverdue => by cases hoverdue
  | agent fails => exact h.agent hstep
  | deliver => exact h.deliver hok hstep
  | restart =>
    cases hstep
    have houtputs : s.link.restart.outputs = s.link.outputs ++ [.ready] := rfl
    refine h.shrink rfl (List.Sublist.refl _) ?_ ?_
    · intro n line reply hmem
      rw [houtputs] at hmem
      simpa using hmem
    · rw [houtputs, clips_append]
      simp [clips]
  | loseLine i =>
    cases hstep
    exact h.shrink rfl (List.eraseIdx_sublist _ _) (fun _ _ _ hmem => hmem) (List.Sublist.refl _)
  | loseOutput i =>
    cases hstep
    exact h.shrink rfl (List.Sublist.refl _) (fun _ _ _ hmem => List.mem_of_mem_eraseIdx hmem) (clips_eraseIdx _ _)

end Invariant

/-! ## Runs -/

/-- **Neither echo nor revert**: in every run in which no Mac copy that is not pushed is raced by a guest copy, and no
CLIPSET is crossed by a later one or by a late `OUT 255`, what is published to the Mac is a copy the guest took after
the baseline and after every Mac copy; and once no push is left, the guest holds the last Mac copy or a later copy of
its own. -/
theorem clip_settled {clipMaxBytes : Nat} {text : Text} {s : State}
    (h : Reaches (step clipMaxBytes) (Uncrossed clipMaxBytes) (start text) s) : Traced Sound s.log ∧ Settled s := by
  have hinv : Inv s := h.invariant (inv_start text) fun _ _ _ hinv hok hstep => hinv.step hok hstep
  exact ⟨hinv.traced, fun hnone mac copies hcopies => (hinv.last mac copies hcopies).2.2 hnone⟩

/-- A copy of the guest's reaches the Mac, and one of the Mac's the guest, with its line end. -/
theorem clip_settled_both :
    ∃ s, runs (guarded (step 4) (Uncrossed 4)) (start [])
        [.pump false, .agent false, .deliver, .guestCopy [1, 13, 10], .enqueuePoll, .pump false, .agent false, .deliver,
          .macCopy [2, 10], .pump false, .agent false, .deliver] = some s ∧
      .published [1, 10] 0 ∈ s.log ∧ s.guest = [2, 13, 10] ∧ Traced Sound s.log ∧ Settled s :=
  ⟨_, rfl, by decide, rfl, clip_settled (Reaches.start.of_runs
    (show runs (guarded (step 4) (Uncrossed 4)) (start [])
        [.pump false, .agent false, .deliver, .guestCopy [1, 13, 10], .enqueuePoll, .pump false, .agent false, .deliver,
          .macCopy [2, 10], .pump false, .agent false, .deliver] = some _ from rfl))⟩

instance (e : Event) (log : List Event) : Decidable (Sound e log) := by
  unfold Sound
  split <;> infer_instance

/-- The answer with the guest's older text comes after the refused Mac copy and becomes the baseline, so the guest's
copy from before the Mac copy is published. -/
theorem refused_copy_reverted :
    ∃ s, Reaches (step 2) (fun _ _ => True) (start [1]) s ∧
      s.log = [.published [2] 2, .executed 3, .refused, .macCopy [7, 7, 7], .guestCopy [2], .executed 2,
        .guestCopy [1]] ∧
      ¬Traced Sound s.log :=
  ⟨_, Reaches.start.of_runs (show runs (guarded (step 2) fun _ _ => True) (start [1])
      [.pump false, .agent false, .deliver, .enqueuePoll, .pump false, .agent false, .guestCopy [2], .macCopy [7, 7, 7],
        .deliver, .enqueuePoll, .pump false, .agent false, .deliver] = some _ from rfl), rfl, by decide +kernel⟩

end BridgeVm.AgentConsole.ClipSync
