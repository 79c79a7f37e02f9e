import BridgeVm.VirtioGpu.ResourceIds

/-!
# The mailbox of the asynchronous presents

The mailbox and the worker's handle say the same thing, as long as a present is only finished early with no frame
retained behind it (`Presenting`).
-/

namespace BridgeVm.VirtioGpu

open Lib

namespace Device

/-- The mailbox and the worker agree, and the frames on their way were offered for the scanout that is bound, unless
their epoch or their resource gives them away. -/
structure Presenting (s : Device) : Prop where
  inFlight : s.asyncPresent.inFlight = s.asyncPresentPending.map fun pending => pending.2.1
  retained : s.asyncPresent.retained.isSome → s.asyncPresentPending.isSome
  epochs : ∀ r, s.asyncPresent.inFlight = some r → r.epoch ≤ s.asyncPresent.epoch
  offered : ∀ r, s.asyncPresent.inFlight = some r → r.epoch = s.asyncPresent.epoch →
    s.scanoutResource = some r.resourceId → r.offeredAt = s.changes
  offeredRetained : ∀ r, s.asyncPresent.retained = some r → s.scanoutResource = some r.resourceId →
    r.offeredAt = s.changes
  single : s.blobScanout.isSome → s.scanoutResource = none

/-- The mailbox holds a frame that the renderer has not been handed yet. -/
structure Handing (s : Device) (request : PresentRequest) : Prop where
  inFlight : s.asyncPresent.inFlight = some request
  retained : s.asyncPresent.retained = none
  pending : s.asyncPresentPending = none
  epoch : request.epoch = s.asyncPresent.epoch
  offered : s.scanoutResource = some request.resourceId → request.offeredAt = s.changes
  single : s.blobScanout.isSome → s.scanoutResource = none

/-- Only the presents differ. -/
structure SameScanout (s s' : Device) : Prop where
  binding : s'.binding = s.binding
  changes : s'.changes = s.changes
  epoch : s'.asyncPresent.epoch = s.asyncPresent.epoch
  threeD : s'.threeD = s.threeD

theorem SameScanout.unchanged {s : Device} : SameScanout s s := ⟨rfl, rfl, rfl, rfl⟩

theorem SameScanout.trans {s s' s'' : Device} (h : SameScanout s s') (h' : SameScanout s' s'') : SameScanout s s'' :=
  ⟨h'.binding.trans h.binding, h'.changes.trans h.changes, h'.epoch.trans h.epoch, h'.threeD.trans h.threeD⟩

section Presents

variable {s s' : Device} {host : Host} {display : Display} {request : PresentRequest} {rect : Rect}

theorem complete_epoch (m : AsyncPresentMailbox) (current : Option Nat) : (m.complete current).1.epoch = m.epoch := by
  unfold AsyncPresentMailbox.complete
  simp only
  split <;> rfl

theorem complete_of_not_retained {m : AsyncPresentMailbox} (h : m.retained = none) (current : Option Nat) :
    (m.complete current).1.inFlight = none ∧ (m.complete current).1.retained = none ∧
    (m.complete current).2.2 = none := by
  unfold AsyncPresentMailbox.complete
  simp [h]

theorem complete_of_retained {m : AsyncPresentMailbox} (h : m.retained = some request) (current : Option Nat) :
    (m.complete current).1 = ⟨some { request with epoch := m.epoch }, none, m.epoch⟩ ∧
      (m.complete current).2.2 = some { request with epoch := m.epoch } := by
  unfold AsyncPresentMailbox.complete
  simp [h]

theorem complete_outcome (m : AsyncPresentMailbox) (current : Option Nat) :
    (m.complete current).2.1 = m.inFlight.bind fun completed => m.resolveCompletion completed current := by
  unfold AsyncPresentMailbox.complete
  simp only
  split <;> rfl

theorem resolveCompletion_none {m : AsyncPresentMailbox} {current : Option Nat}
    (h : m.resolveCompletion request current = none) : request.epoch = m.epoch ∧
    current = some request.resourceId := by
  unfold AsyncPresentMailbox.resolveCompletion at h
  split at h
  · cases h
  · rename_i hepoch
    split at h
    · cases h
    · rename_i bound
      split at h
      · cases h
      · rename_i hbound
        simp only [ne_eq, not_not] at hepoch hbound
        exact ⟨hepoch, by rw [hbound]⟩

theorem Presenting.of_idle (hin : s.asyncPresent.inFlight = none) (hret : s.asyncPresent.retained = none)
    (hpending : s.asyncPresentPending = none) (hsingle : s.blobScanout.isSome → s.scanoutResource = none) :
    s.Presenting := by
  refine ⟨?_, ?_, ?_, ?_, ?_, hsingle⟩
  · rw [hin, hpending]
    rfl
  · simp [hret]
  · simp [hin]
  · simp [hin]
  · simp [hret]

theorem Presenting.congr (h : s.Presenting) (hmailbox : s'.asyncPresent = s.asyncPresent)
    (hpending : s'.asyncPresentPending = s.asyncPresentPending) (hbinding : s'.binding = s.binding)
    (hchanges : s'.changes = s.changes) : s'.Presenting := by
  simp only [binding, Prod.mk.injEq] at hbinding
  refine ⟨?_, ?_, ?_, ?_, ?_, ?_⟩
  · rw [hmailbox, hpending]
    exact h.inFlight
  · rw [hmailbox, hpending]
    exact h.retained
  · rw [hmailbox]
    exact h.epochs
  · rw [hmailbox, hbinding.1, hchanges]
    exact h.offered
  · rw [hmailbox, hbinding.1, hchanges]
    exact h.offeredRetained
  · rw [hbinding.1, hbinding.2.1]
    exact h.single

/-! ## Handing a frame over -/

theorem sameScanout_dispatch : SameScanout s (s.dispatchAsyncPresent display request rect).1 := by
  unfold dispatchAsyncPresent
  split
  · exact ⟨rfl, rfl, rfl, rfl⟩
  · exact ⟨rfl, rfl, complete_epoch _ _, rfl⟩

theorem dispatch_started (display : Display) (s : Device) (request : PresentRequest) (rect : Rect) :
    ∃ taken, .started request taken ∈ (s.dispatchAsyncPresent display request rect).2.1 := by
  unfold dispatchAsyncPresent
  split
  · exact ⟨true, by simp⟩
  · exact ⟨false, by simp⟩

theorem dispatch_not_applied (r : PresentRequest) :
    .applied r ∉ (s.dispatchAsyncPresent display request rect).2.1 := by
  unfold dispatchAsyncPresent
  split
  · simp
  · simp

theorem Handing.dispatch (h : s.Handing request) : (s.dispatchAsyncPresent display request rect).1.Presenting := by
  unfold dispatchAsyncPresent
  split
  · refine ⟨h.inFlight, fun _ => rfl, fun r hr => ?_, fun r hr _ hbound => ?_, fun r hr => ?_, h.single⟩
    · rw [h.inFlight] at hr
      cases hr
      exact Nat.le_of_eq h.epoch
    · rw [h.inFlight] at hr
      cases hr
      exact h.offered hbound
    · rw [h.retained] at hr
      cases hr
  · obtain ⟨hnone, hnone', -⟩ := complete_of_not_retained h.retained s.scanoutResource
    exact .of_idle hnone hnone' h.pending h.single

/-! ## Collecting a finished present -/

/-- What a collection does: nothing yet, or it retires the present and hands on the retained frame. -/
theorem collectAsyncPresent_cases (display : Display) (s : Device) :
    (s.collectAsyncPresent display = (s, []) ∧ ∀ handle r rect, s.asyncPresentPending = some (handle, r, rect) →
      ¬(s.threeD.backend ∧ display.presentPoll handle false)) ∨
    ∃ handle r rect, s.asyncPresentPending = some (handle, r, rect) ∧
      ∃ events, events = [((s.asyncPresent.complete s.scanoutResource).2.1).elim (PresentEvent.applied r)
        (.cancelled r)] ∧
      ((s.asyncPresent.retained = none ∧ s.collectAsyncPresent display =
        ({ s with asyncPresentPending := none, asyncPresent := (s.asyncPresent.complete s.scanoutResource).1 },
          events)) ∨
      ∃ next, s.asyncPresent.retained = some next ∧ ∃ s₁ : Device,
        s₁ = { s with
          asyncPresentPending := none
          asyncPresent := ⟨some { next with epoch := s.asyncPresent.epoch }, none, s.asyncPresent.epoch⟩ } ∧
        s.collectAsyncPresent display =
          ((s₁.dispatchAsyncPresent display { next with epoch := s.asyncPresent.epoch } rect).1,
            events ++ (s₁.dispatchAsyncPresent display { next with epoch := s.asyncPresent.epoch } rect).2.1)) := by
  unfold collectAsyncPresent
  cases hp : s.asyncPresentPending with
  | none => exact .inl ⟨rfl, fun _ _ _ h => by cases h⟩
  | some pending =>
    obtain ⟨handle, r, rect⟩ := pending
    simp only
    split
    · rename_i hbusy
      refine .inl ⟨rfl, fun _ _ _ h => ?_⟩
      cases h
      rintro ⟨hbackend, hpoll⟩
      rw [hbackend, hpoll] at hbusy
      cases hbusy
    · refine .inr ⟨handle, r, rect, rfl, _, rfl, ?_⟩
      cases hret : s.asyncPresent.retained with
      | none =>
        obtain ⟨-, -, hnext⟩ := complete_of_not_retained hret s.scanoutResource
        refine .inl ⟨rfl, ?_⟩
        rw [hnext]
      | some next =>
        obtain ⟨hmailbox, hnext⟩ := complete_of_retained hret s.scanoutResource
        refine .inr ⟨next, rfl, _, rfl, ?_⟩
        rw [hnext, hmailbox]

theorem sameScanout_collect (display : Display) (s : Device) : SameScanout s (s.collectAsyncPresent display).1 := by
  obtain ⟨heq, -⟩ | ⟨handle, r, rect, -, events, -, ⟨-, heq⟩ | ⟨next, -, s₁, hs₁, heq⟩⟩ :=
    collectAsyncPresent_cases display s
  · rw [heq]
    exact .unchanged
  · rw [heq]
    exact ⟨rfl, rfl, complete_epoch _ _, rfl⟩
  · rw [heq]
    have hsame : SameScanout s s₁ := by
      rw [hs₁]
      exact ⟨rfl, rfl, rfl, rfl⟩
    exact hsame.trans sameScanout_dispatch

theorem Presenting.handing (h : s.Presenting) {next : PresentRequest} (hret : s.asyncPresent.retained = some next)
    {s₁ : Device} (hs₁ : s₁ = { s with
      asyncPresentPending := none
      asyncPresent := ⟨some { next with epoch := s.asyncPresent.epoch }, none, s.asyncPresent.epoch⟩ }) :
    s₁.Handing { next with epoch := s.asyncPresent.epoch } := by
  rw [hs₁]
  exact ⟨rfl, rfl, rfl, rfl, h.offeredRetained next hret, h.single⟩

theorem Presenting.collect (h : s.Presenting) : (s.collectAsyncPresent display).1.Presenting := by
  obtain ⟨heq, -⟩ | ⟨handle, r, rect, -, events, -, ⟨hret, heq⟩ | ⟨next, hret, s₁, hs₁, heq⟩⟩ :=
    collectAsyncPresent_cases display s
  · rw [heq]
    exact h
  · rw [heq]
    obtain ⟨hnone, hnone', -⟩ := complete_of_not_retained hret s.scanoutResource
    exact .of_idle hnone hnone' rfl h.single
  · rw [heq]
    exact (h.handing hret hs₁).dispatch

/-- A present that is applied was offered for the scanout that is bound. -/
theorem Presenting.applied_collect (h : s.Presenting) {r : PresentRequest}
    (hr : .applied r ∈ (s.collectAsyncPresent display).2) : r.offeredAt = s.changes := by
  obtain ⟨heq, -⟩ | ⟨handle, r', rect, hp, events, hevents, hcases⟩ := collectAsyncPresent_cases display s
  · rw [heq] at hr
    cases hr
  · have hmem : .applied r ∈ events := by
      rcases hcases with ⟨-, heq⟩ | ⟨next, -, s₁, -, heq⟩
      · rw [heq] at hr
        exact hr
      · rw [heq] at hr
        exact (List.mem_append.1 hr).resolve_right (dispatch_not_applied r)
    have hflight : s.asyncPresent.inFlight = some r' := by
      rw [h.inFlight, hp]
      rfl
    rw [hevents, complete_outcome, hflight, List.mem_singleton] at hmem
    simp only [Option.bind_some] at hmem
    cases hres : s.asyncPresent.resolveCompletion r' s.scanoutResource with
    | some reason =>
      rw [hres] at hmem
      cases hmem
    | none =>
      rw [hres] at hmem
      cases hmem
      obtain ⟨hepoch, hbound⟩ := resolveCompletion_none hres
      exact h.offered r hflight hepoch hbound

theorem Presenting.collect_started (h : s.Presenting) (display : Display) {next : PresentRequest}
    (hret : s.asyncPresent.retained = some next) :
    ∃ handle r rect, s.asyncPresentPending = some (handle, r, rect) ∧
      (s.threeD.backend → display.presentPoll handle false → ∃ taken,
        .started { next with epoch := s.asyncPresent.epoch } taken ∈ (s.collectAsyncPresent display).2) := by
  obtain ⟨⟨handle, r, rect⟩, hp⟩ := Option.isSome_iff_exists.1 (h.retained (by rw [hret]; rfl))
  refine ⟨handle, r, rect, hp, fun hbackend hpoll => ?_⟩
  obtain ⟨-, hbusy⟩ | ⟨handle', r', rect', -, events, -, ⟨hnone, -⟩ | ⟨next', hret', s₁, -, heq⟩⟩ :=
    collectAsyncPresent_cases display s
  · exact absurd ⟨hbackend, hpoll⟩ (hbusy _ _ _ hp)
  · rw [hret] at hnone
    cases hnone
  · rw [hret] at hret'
    cases hret'
    obtain ⟨taken, hstarted⟩ := dispatch_started display s₁ { next with epoch := s.asyncPresent.epoch } rect'
    rw [heq]
    exact ⟨taken, List.mem_append_right _ hstarted⟩

/-! ## Offering a frame -/

/-- The frame that a drain offers. -/
def frame (s : Device) (resourceId : Nat) (info : Create3dArgs) : PresentRequest :=
  ⟨resourceId, min info.width s.width, min info.height s.height, s.asyncPresent.epoch, s.changes⟩

/-- A frame that is offered is handed over at once, or it is the one retained. -/
theorem serviceAsyncPresent_cases (display : Display) (s : Device) (resourceId : Nat) (rect : Rect) :
    (s.serviceAsyncPresent display resourceId rect = (s, [], false) ∧ s.scanoutAsyncPresent = false) ∨
    ∃ s₁, s₁ = s.collectAsyncPresent display ∧
      ((s.serviceAsyncPresent display resourceId rect = (s₁.1, s₁.2, false) ∧
          s₁.1.threeD.resource3dInfo.get resourceId = none) ∨
      ∃ info, s₁.1.threeD.resource3dInfo.get resourceId = some info ∧
        ((s₁.1.asyncPresent.inFlight = none ∧ ∃ s₂, s₂ = { s₁.1 with
              asyncPresent := { s₁.1.asyncPresent with inFlight := some (s₁.1.frame resourceId info) } } ∧
            s.serviceAsyncPresent display resourceId rect =
              ((s₂.dispatchAsyncPresent display (s₁.1.frame resourceId info) rect).1,
                s₁.2 ++ (s₂.dispatchAsyncPresent display (s₁.1.frame resourceId info) rect).2.1,
                (s₂.dispatchAsyncPresent display (s₁.1.frame resourceId info) rect).2.2)) ∨
        (s₁.1.asyncPresent.inFlight.isSome ∧ s.serviceAsyncPresent display resourceId rect =
          ({ s₁.1 with
              asyncPresent := { s₁.1.asyncPresent with retained := some (s₁.1.frame resourceId info) } }, s₁.2,
                true)))) := by
  unfold serviceAsyncPresent
  cases hasync : s.scanoutAsyncPresent with
  | false => exact .inl ⟨rfl, rfl⟩
  | true =>
    refine .inr ⟨_, rfl, ?_⟩
    simp only [Bool.not_true, Bool.false_eq_true, if_false]
    cases hinfo : (s.collectAsyncPresent display).1.threeD.resource3dInfo.get resourceId with
    | none => exact .inl ⟨rfl, rfl⟩
    | some info =>
      refine .inr ⟨info, rfl, ?_⟩
      simp only
      unfold AsyncPresentMailbox.offer
      cases hflight : (s.collectAsyncPresent display).1.asyncPresent.inFlight with
      | none => exact .inl ⟨rfl, _, rfl, rfl⟩
      | some r =>
        refine .inr ⟨rfl, ?_⟩
        simp only
        cases (s.collectAsyncPresent display).1.asyncPresent.retained with
        | none => rfl
        | some r' => rfl

theorem sameScanout_service (display : Display) (s : Device) (resourceId : Nat) (rect : Rect) :
    SameScanout s (s.serviceAsyncPresent display resourceId rect).1 := by
  have hcollect := sameScanout_collect display s
  obtain ⟨heq, -⟩ | ⟨s₁, hs₁, ⟨heq, -⟩ | ⟨info, -, ⟨-, s₂, hs₂, heq⟩ | ⟨-, heq⟩⟩⟩ :=
    serviceAsyncPresent_cases display s resourceId rect
  · rw [heq]
    exact .unchanged
  · rw [heq, hs₁]
    exact hcollect
  · have hsame : SameScanout s s₂ := by
      rw [hs₂, hs₁]
      exact ⟨hcollect.binding, hcollect.changes, hcollect.epoch, hcollect.threeD⟩
    rw [heq]
    exact hsame.trans sameScanout_dispatch
  · rw [heq, hs₁]
    exact ⟨hcollect.binding, hcollect.changes, hcollect.epoch, hcollect.threeD⟩

theorem Presenting.service (h : s.Presenting) {resourceId : Nat} :
    (s.serviceAsyncPresent display resourceId rect).1.Presenting := by
  have hcollect : (s.collectAsyncPresent display).1.Presenting := h.collect
  obtain ⟨heq, -⟩ | ⟨s₁, hs₁,
    ⟨heq, -⟩ | ⟨info, -, ⟨hnone, s₂, hs₂, heq⟩ | ⟨hbusy, heq⟩⟩⟩ :=
    serviceAsyncPresent_cases display s resourceId rect
  · rw [heq]
    exact h
  · rw [heq, hs₁]
    exact hcollect
  · rw [← hs₁] at hcollect
    have hpending : s₁.1.asyncPresentPending = none := by
      have hmap := hcollect.inFlight
      rw [hnone] at hmap
      exact Option.map_eq_none_iff.1 hmap.symm
    have hretained : s₁.1.asyncPresent.retained = none := by
      refine Option.not_isSome_iff_eq_none.1 fun hsome => ?_
      have := hcollect.retained hsome
      rw [hpending] at this
      cases this
    have hhanding : s₂.Handing (s₁.1.frame resourceId info) := by
      rw [hs₂]
      exact ⟨rfl, hretained, hpending, rfl, fun _ => rfl, hcollect.single⟩
    rw [heq]
    exact hhanding.dispatch
  · rw [← hs₁] at hcollect
    rw [heq]
    refine ⟨hcollect.inFlight, fun _ => ?_, hcollect.epochs, hcollect.offered, fun r hr _ => ?_, hcollect.single⟩
    · have hmap := hcollect.inFlight
      rw [hmap, Option.isSome_map] at hbusy
      exact hbusy
    · cases hr
      rfl

theorem Presenting.applied_service (h : s.Presenting) {resourceId : Nat} {r : PresentRequest}
    (hr : .applied r ∈ (s.serviceAsyncPresent display resourceId rect).2.1) : r.offeredAt = s.changes := by
  obtain ⟨heq, -⟩ | ⟨s₁, hs₁, ⟨heq, -⟩ | ⟨info, -, ⟨-, s₂, -, heq⟩ | ⟨-, heq⟩⟩⟩ :=
    serviceAsyncPresent_cases display s resourceId rect
  · rw [heq] at hr
    cases hr
  · rw [heq, hs₁] at hr
    exact h.applied_collect hr
  · rw [heq, hs₁] at hr
    exact h.applied_collect ((List.mem_append.1 hr).resolve_right (dispatch_not_applied r))
  · rw [heq, hs₁] at hr
    exact h.applied_collect hr

theorem frame_collect (display : Display) (s : Device) (resourceId : Nat) (info : Create3dArgs) :
    (s.collectAsyncPresent display).1.frame resourceId info = s.frame resourceId info := by
  have hsame := sameScanout_collect display s
  have hbinding := hsame.binding
  unfold binding at hbinding
  simp only [Prod.mk.injEq] at hbinding
  unfold frame
  rw [hsame.epoch, hsame.changes, hbinding.2.2.1, hbinding.2.2.2]

/-- A frame that the mailbox takes is handed over at once, or it is the one retained. -/
theorem service_offers {resourceId : Nat} (htaken : (s.serviceAsyncPresent display resourceId rect).2.2 = true) :
    ∃ info, s.threeD.resource3dInfo.get resourceId = some info ∧
      ((∃ taken, .started (s.frame resourceId info) taken ∈ (s.serviceAsyncPresent display resourceId rect).2.1) ∨
        (s.serviceAsyncPresent display resourceId rect).1.asyncPresent.retained = some (s.frame resourceId info)) := by
  have hsame := sameScanout_collect display s
  obtain ⟨heq, -⟩ | ⟨s₁, hs₁, ⟨heq, -⟩ | ⟨info, hinfo, ⟨-, s₂, -, heq⟩ | ⟨-, heq⟩⟩⟩ :=
    serviceAsyncPresent_cases display s resourceId rect
  · rw [heq] at htaken
    cases htaken
  · rw [heq] at htaken
    cases htaken
  · rw [hs₁, hsame.threeD] at hinfo
    refine ⟨info, hinfo, .inl ?_⟩
    obtain ⟨taken, hstarted⟩ := dispatch_started display s₂ (s₁.1.frame resourceId info) rect
    rw [heq]
    rw [hs₁, frame_collect] at hstarted ⊢
    exact ⟨taken, List.mem_append_right _ hstarted⟩
  · rw [hs₁, hsame.threeD] at hinfo
    refine ⟨info, hinfo, .inr ?_⟩
    rw [heq, hs₁]
    exact congrArg some (frame_collect display s resourceId info)

theorem collect_retained (display : Display) {r : PresentRequest} (hret : s.asyncPresent.retained = some r) :
    s.collectAsyncPresent display = (s, []) ∨
      ∃ taken, .started { r with epoch := s.asyncPresent.epoch } taken ∈ (s.collectAsyncPresent display).2 := by
  obtain ⟨heq, -⟩ | ⟨handle, r', rect', -, events, -, ⟨hnone, -⟩ | ⟨next, hret', s₁, -, heq⟩⟩ :=
    collectAsyncPresent_cases display s
  · exact .inl heq
  · rw [hret] at hnone
    cases hnone
  · rw [hret] at hret'
    cases hret'
    obtain ⟨taken, hstarted⟩ := dispatch_started display s₁ { r with epoch := s.asyncPresent.epoch } rect'
    rw [heq]
    exact .inr ⟨taken, List.mem_append_right _ hstarted⟩

/-- What a service does to the retained frame: it keeps it, hands it over, or retains a newer one of the same
scanout. -/
theorem Presenting.service_retained (h : s.Presenting) (display : Display) (resourceId : Nat) (rect : Rect)
    {r : PresentRequest} (hret : s.asyncPresent.retained = some r) :
    (s.serviceAsyncPresent display resourceId rect).1.asyncPresent.retained = some r ∨
      (∃ taken, .started { r with epoch := s.asyncPresent.epoch } taken ∈
        (s.serviceAsyncPresent display resourceId rect).2.1) ∨
      ∃ info, (s.serviceAsyncPresent display resourceId rect).1.asyncPresent.retained =
        some (s.frame resourceId info) := by
  rcases serviceAsyncPresent_cases display s resourceId rect with ⟨heq, -⟩ | ⟨s₁, hs₁, hcases⟩
  · rw [heq]
    exact .inl hret
  rcases collect_retained display hret with hkept | ⟨taken, hstarted⟩
  · -- the worker is still busy, so a new frame takes the place of the retained one
    rw [hkept] at hs₁
    subst hs₁
    rcases hcases with ⟨heq, -⟩ | ⟨info, -, ⟨hnone, -⟩ | ⟨-, heq⟩⟩
    · rw [heq]
      exact .inl hret
    · have hpending := h.retained (by rw [hret]; rfl)
      have hmap := h.inFlight
      rw [hnone] at hmap
      rw [Option.map_eq_none_iff.1 hmap.symm] at hpending
      cases hpending
    · rw [heq]
      exact .inr (.inr ⟨info, rfl⟩)
  · refine .inr (.inl ⟨taken, ?_⟩)
    rw [← hs₁] at hstarted
    rcases hcases with ⟨heq, -⟩ | ⟨info, -, ⟨-, s₂, -, heq⟩ | ⟨-, heq⟩⟩
    · rw [heq]
      exact hstarted
    · rw [heq]
      exact List.mem_append_left _ hstarted
    · rw [heq]
      exact hstarted

end Presents

end Device

end BridgeVm.VirtioGpu
