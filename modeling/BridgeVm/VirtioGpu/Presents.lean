import BridgeVm.VirtioGpu.PresentMailbox

/-!
# Asynchronous presents

While the mailbox and the worker's handle agree, every frame reaches the renderer, and what is applied was offered for
the scanout that is bound.
-/

namespace BridgeVm.VirtioGpu

open Lib

namespace Device

section Presents

variable {s s' : Device} {host : Host} {display : Display} {request : PresentRequest} {rect : Rect}

/-! ## Drains -/

/-- A drain collects, and then it may serve the frame that is pending. -/
theorem serviceDeferred3dScanout_cases (display : Display) (s : Device) :
    ∃ s₁, s₁ = s.collectAsyncPresent display ∧
      ((∃ pending fresh, s.serviceDeferred3dScanout display =
          ({ s₁.1 with pending3dScanout := pending, pending3dScanoutFresh := fresh }, s₁.2)) ∨
      ∃ resourceId rect pending, s₁.1.scanoutResource = some resourceId ∧ s.serviceDeferred3dScanout display =
        ({ (s₁.1.serviceAsyncPresent display resourceId rect).1 with pending3dScanout := pending },
          s₁.2 ++ (s₁.1.serviceAsyncPresent display resourceId rect).2.1)) := by
  refine ⟨_, rfl, ?_⟩
  unfold serviceDeferred3dScanout
  simp only
  split
  · exact .inl ⟨_, _, rfl⟩
  split
  · exact .inl ⟨_, false, rfl⟩
  split
  · exact .inl ⟨none, _, rfl⟩
  · rename_i resourceId rect _ _ hserved
    have hbound := not_not.1 (not_or.1 hserved).1
    split
    · exact .inr ⟨resourceId, rect, none, hbound, rfl⟩
    · exact .inr ⟨resourceId, rect, _, hbound, rfl⟩

theorem Presenting.drain (h : s.Presenting) : (s.serviceDeferred3dScanout display).1.Presenting := by
  obtain ⟨s₁, hs₁, ⟨pending, fresh, heq⟩ | ⟨resourceId, rect, pending, -, heq⟩⟩ :=
    serviceDeferred3dScanout_cases display s
  · rw [heq, hs₁]
    exact h.collect.congr rfl rfl rfl rfl
  · rw [heq, hs₁]
    exact h.collect.service.congr rfl rfl rfl rfl

theorem sameScanout_drain (display : Display) (s : Device) : SameScanout s (s.serviceDeferred3dScanout display).1 := by
  have hcollect := sameScanout_collect display s
  obtain ⟨s₁, hs₁, ⟨pending, fresh, heq⟩ | ⟨resourceId, rect, pending, -, heq⟩⟩ :=
    serviceDeferred3dScanout_cases display s
  · rw [heq, hs₁]
    exact ⟨hcollect.binding, hcollect.changes, hcollect.epoch, hcollect.threeD⟩
  · obtain ⟨hbinding, hchanges, hepoch, hthreeD⟩ := hcollect.trans (sameScanout_service display _ resourceId rect)
    rw [heq, hs₁]
    exact ⟨hbinding, hchanges, hepoch, hthreeD⟩

theorem Presenting.applied_drain (h : s.Presenting) {r : PresentRequest}
    (hr : .applied r ∈ (s.serviceDeferred3dScanout display).2) : r.offeredAt = s.changes := by
  obtain ⟨s₁, hs₁, ⟨pending, fresh, heq⟩ | ⟨resourceId, rect, pending, -, heq⟩⟩ :=
    serviceDeferred3dScanout_cases display s
  · rw [heq, hs₁] at hr
    exact h.applied_collect hr
  · rw [heq, hs₁] at hr
    rcases List.mem_append.1 hr with hr | hr
    · exact h.applied_collect hr
    · exact (h.collect.applied_service hr).trans (sameScanout_collect display s).changes

theorem mem_drain_of_collect {e : PresentEvent} (he : e ∈ (s.collectAsyncPresent display).2) :
    e ∈ (s.serviceDeferred3dScanout display).2 := by
  obtain ⟨s₁, hs₁, ⟨pending, fresh, heq⟩ | ⟨resourceId, rect, pending, -, heq⟩⟩ :=
    serviceDeferred3dScanout_cases display s
  · rw [heq, hs₁]
    exact he
  · rw [heq, hs₁]
    exact List.mem_append_left _ he

/-- What a drain does to the retained frame: one that takes its place is of the resource that is bound. -/
theorem Presenting.drain_retained (h : s.Presenting) (display : Display) {r : PresentRequest}
    (hret : s.asyncPresent.retained = some r) :
    (s.serviceDeferred3dScanout display).1.asyncPresent.retained = some r ∨
      (∃ taken, .started { r with epoch := s.asyncPresent.epoch } taken ∈
        (s.serviceDeferred3dScanout display).2) ∨
      ∃ resourceId info, s.scanoutResource = some resourceId ∧
        (s.serviceDeferred3dScanout display).1.asyncPresent.retained = some (s.frame resourceId info) := by
  rcases collect_retained display hret with hkept | ⟨taken, hstarted⟩
  · obtain ⟨s₁, hs₁, ⟨pending, fresh, heq⟩ | ⟨resourceId, rect, pending, hbound, heq⟩⟩ :=
      serviceDeferred3dScanout_cases display s
    · rw [hkept] at hs₁
      rw [heq, hs₁]
      exact .inl hret
    · rw [hkept] at hs₁
      rw [heq, hs₁]
      rw [hs₁] at hbound
      rcases h.service_retained display resourceId rect hret with hsame | ⟨taken, hstarted⟩ | ⟨info, hnew⟩
      · exact .inl hsame
      · exact .inr (.inl ⟨taken, hstarted⟩)
      · exact .inr (.inr ⟨resourceId, info, hbound, hnew⟩)
  · exact .inr (.inl ⟨taken, mem_drain_of_collect hstarted⟩)

/-! ## The other operations -/

/-- How a request may bind the scanout anew: not at all, with the epoch moved, or with no 3D resource left bound. A
3D resource that was bound does not stay bound at its size when the epoch moves, but for the requests that are
`idle`. -/
inductive Rebound (moves idle : Prop) (s s' : Device) : Prop
  | same (hbinding : s'.binding = s.binding) (hmailbox : s'.asyncPresent = s.asyncPresent)
      (hpending : s'.asyncPresentPending = s.asyncPresentPending)
  | bumped (hmoves : moves) (hmailbox : s'.asyncPresent = s.asyncPresent.bumpEpoch)
      (hpending : s'.asyncPresentPending = s.asyncPresentPending)
      (hsingle : s'.blobScanout.isSome → s'.scanoutResource = none)
      (hbinding : s.scanoutResource.isSome → ¬idle → s'.binding ≠ s.binding)
  | gone (hnone : s'.scanoutResource = none) (hmailbox : s'.asyncPresent = s.asyncPresent)
      (hpending : s'.asyncPresentPending = s.asyncPresentPending)

/-- SET_SCANOUT of a resource that it refuses, or of the bound one with the size left as it is. -/
def IdleSetScanout (s : Device) (request : List UInt8) : Prop :=
  let rect := (readRect request 24).getD ⟨0, 0, 0, 0⟩
  let scanoutId := (readLeU32 request 40).getD (2 ^ 32 - 1)
  let resourceId := (readLeU32 request 44).getD 0
  scanoutId = 0 ∧ resourceId ≠ 0 ∧ (s.validScanout resourceId rect = false ∨
    s.scanoutResource = some resourceId ∧
    (s.adoptRequestedDisplayResolution rect.width rect.height).width = s.width ∧
      (s.adoptRequestedDisplayResolution rect.width rect.height).height = s.height)

/-- SET_SCANOUT_BLOB of a blob that the host does not map. -/
def UnmappedBlob (display : Display) (s : Device) (request : List UInt8) : Prop :=
  let scanoutId := (readLeU32 request 40).getD (2 ^ 32 - 1)
  let resourceId := (readLeU32 request 44).getD 0
  let width := (readLeU32 request 48).getD 0
  let height := (readLeU32 request 52).getD 0
  let format := (readLeU32 request 56).getD 0
  let stride := (readLeU32 request 64).getD 0
  let offset := (readLeU32 request 80).getD 0
  setScanoutBlobLen ≤ request.length ∧ scanoutId = 0 ∧ resourceId ≠ 0 ∧
    ∃ blob ∈ s.validBlobScanout resourceId width height format stride offset,
      s.scanoutMapping display blob.1 resourceId blob.2 = none

/-- The epoch moves, though a 3D resource that is bound stays bound as it is. -/
def IdleRebind (display : Display) (s : Device) (request : List UInt8) (hdr : CtrlHdr) : Prop :=
  hdr.typ = cmdSetScanout ∧ s.IdleSetScanout request ∨
    hdr.typ = cmdSetScanoutBlob ∧ s.UnmappedBlob display request

variable {moves idle : Prop} {bytes : List UInt8} {hdr : CtrlHdr}

/-- No frame of the scanout as it was is taken for one of the scanout as it is. -/
theorem Presenting.rebound (h : s.Presenting) (hr : Rebound moves idle s s')
    (hepoch : moves → s.asyncPresent.epoch < 2 ^ 64 - 1) :
    ({ s' with changes := if s'.binding = s.binding then s.changes else s.changes + 1 } : Device).Presenting := by
  cases hr with
  | same hbinding hmailbox hpending =>
    rw [if_pos hbinding]
    exact h.congr hmailbox hpending hbinding rfl
  | bumped hmoves hmailbox hpending hsingle _ =>
    have hlt := hepoch hmoves
    have hnew : s'.asyncPresent.epoch = s.asyncPresent.epoch + 1 := by
      rw [hmailbox]
      unfold AsyncPresentMailbox.bumpEpoch VirtioGpu3d.saturatingAdd
      simp only
      omega
    have hflight : s'.asyncPresent.inFlight = s.asyncPresent.inFlight := by
      rw [hmailbox]
      rfl
    have hretained : s'.asyncPresent.retained = none := by
      rw [hmailbox]
      rfl
    refine ⟨?_, ?_, ?_, ?_, ?_, hsingle⟩
    · simp only
      rw [hflight, hpending]
      exact h.inFlight
    · simp [hretained]
    · simp only
      rw [hflight, hnew]
      intro r hr
      exact Nat.le_succ_of_le (h.epochs r hr)
    · -- what is in flight is of an older epoch
      simp only
      rw [hflight, hnew]
      intro r hr heq
      have := h.epochs r hr
      omega
    · simp [hretained]
  | gone hnone hmailbox hpending =>
    refine ⟨?_, ?_, ?_, ?_, ?_, ?_⟩
    · simp only
      rw [hmailbox, hpending]
      exact h.inFlight
    · simp only
      rw [hmailbox, hpending]
      exact h.retained
    · simp only
      rw [hmailbox]
      exact h.epochs
    · simp [hnone]
    · simp [hnone]
    · simp [hnone]

theorem rebound_unref (hsingle : s.blobScanout.isSome → s.scanoutResource = none) :
    Rebound moves idle s (s.resourceUnrefInto host bytes hdr).1 := by
  unfold resourceUnrefInto
  split
  · exact .same rfl rfl rfl
  · rename_i resourceId hid
    simp only
    by_cases hblob : s.blobScanout.map BlobScanout.resourceId = some resourceId
    · -- a blob scanout leaves no resource bound
      have hnone : s.scanoutResource = none := by
        refine hsingle ?_
        cases hs : s.blobScanout with
        | none =>
          rw [hs] at hblob
          cases hblob
        | some scanout => rfl
      rw [if_pos hblob]
      refine .gone ?_ rfl rfl
      simp [unbindBlobScanout, hnone]
    · rw [if_neg hblob]
      by_cases hbound : s.scanoutResource = some resourceId
      · refine .gone ?_ rfl rfl
        simp [hbound]
      · refine .same ?_ rfl rfl
        simp [binding, hbound]

theorem adopt_size (s : Device) (width height : Nat) :
    (s.bumpPresentEpoch.unbindBlobScanout.adoptRequestedDisplayResolution width height).width =
        (s.adoptRequestedDisplayResolution width height).width ∧
      (s.bumpPresentEpoch.unbindBlobScanout.adoptRequestedDisplayResolution width height).height =
        (s.adoptRequestedDisplayResolution width height).height := by
  unfold adoptRequestedDisplayResolution bumpPresentEpoch unbindBlobScanout
  dsimp only
  split <;> exact ⟨rfl, rfl⟩

theorem rebound_setScanout (hsingle : s.blobScanout.isSome → s.scanoutResource = none) (hmoves : moves)
    (hidle : s.IdleSetScanout bytes → idle) : Rebound moves idle s (s.setScanoutInto bytes hdr).1 := by
  unfold setScanoutInto
  simp only
  split
  · exact .same rfl rfl rfl
  rename_i hscanout
  split
  · refine .bumped hmoves rfl rfl (fun _ => rfl) fun hbound _ hbinding => ?_
    have hnone : s.scanoutResource = none := (congrArg Prod.fst hbinding).symm
    simp [hnone] at hbound
  rename_i hid
  split
  · rename_i hvalid
    refine .bumped hmoves rfl rfl hsingle fun _ hnot => absurd (hidle ?_) hnot
    exact ⟨not_not.1 hscanout, hid, .inl (Bool.not_eq_true' _ ▸ hvalid)⟩
  · refine .bumped hmoves ?_ ?_ ?_ fun hbound hnot hbinding => hnot (hidle ⟨not_not.1 hscanout, hid, .inr ?_⟩)
    · unfold adoptRequestedDisplayResolution
      split <;> rfl
    · unfold adoptRequestedDisplayResolution
      split <;> rfl
    · unfold adoptRequestedDisplayResolution
      split <;> exact fun h => by cases h
    · -- what is bound was bound before, and the size is the one before
      simp only [binding, Prod.mk.injEq, adopt_size] at hbinding
      exact ⟨hbinding.1.symm, hbinding.2.2⟩

theorem rebound_setScanoutBlob (hmoves : moves) (hidle : s.UnmappedBlob display bytes → idle) :
    Rebound moves idle s (s.setScanoutBlobInto display bytes hdr).1 := by
  unfold setScanoutBlobInto
  simp only
  split
  · exact .same rfl rfl rfl
  rename_i hlen
  split
  · exact .same rfl rfl rfl
  rename_i hscanout
  split
  · exact .gone rfl rfl rfl
  rename_i hid
  split
  · exact .same rfl rfl rfl
  rename_i blobMem footprint hvalid
  split
  · rename_i hmapping
    refine .bumped hmoves rfl rfl (fun h => by cases h) fun _ hnot => absurd (hidle ?_) hnot
    exact ⟨Nat.le_of_not_lt hlen, not_not.1 hscanout, hid, _, hvalid, hmapping⟩
  · refine .bumped hmoves ?_ ?_ (fun _ => rfl) fun hbound _ hbinding => ?_
    · unfold adoptRequestedDisplayResolution
      split <;> rfl
    · unfold adoptRequestedDisplayResolution
      split <;> rfl
    · have hnone : s.scanoutResource = none := (congrArg Prod.fst hbinding).symm
      simp [hnone] at hbound

theorem rebound_control (host : Host) (display : Display) (bytes : List UInt8)
    (hsingle : s.blobScanout.isSome → s.scanoutResource = none) :
    Rebound (∃ hdr ∈ CtrlHdr.parse bytes, hdr.typ = cmdSetScanout ∨ hdr.typ = cmdSetScanoutBlob)
      (∃ hdr ∈ CtrlHdr.parse bytes, s.IdleRebind display bytes hdr) s
      (s.handleControlRequest host display bytes).1 := by
  have hran := handleControlRequest_cases host display s bytes
  generalize s.handleControlRequest host display bytes = result at hran ⊢
  cases hran with
  | answered response => exact .same rfl rfl rfl
  | create2d hdr _ _ =>
    obtain ⟨typ, heq⟩ | ⟨resourceId, resource, -, -, -, heq⟩ := resourceCreate2dInto_cases s bytes hdr
    · rw [heq]
      exact .same rfl rfl rfl
    · rw [heq]
      exact .same rfl rfl rfl
  | unref hdr => exact rebound_unref hsingle
  | attach hdr =>
    unfold attachBackingInto
    split
    · exact .same rfl rfl rfl
    simp only
    split
    · exact .same rfl rfl rfl
    split
    · exact .same rfl rfl rfl
    split
    · exact .same rfl rfl rfl
    · exact .same rfl rfl rfl
  | detach hdr =>
    unfold detachBackingInto
    split
    · exact .same rfl rfl rfl
    simp only
    split
    · exact .same rfl rfl rfl
    split
    · exact .same rfl rfl rfl
    · exact .same rfl rfl rfl
  | setScanout hdr hparse htyp =>
    exact rebound_setScanout hsingle ⟨hdr, hparse, .inl htyp⟩ fun hidle => ⟨hdr, hparse, .inl ⟨htyp, hidle⟩⟩
  | setScanoutBlob hdr hparse htyp =>
    exact rebound_setScanoutBlob ⟨hdr, hparse, .inr htyp⟩ fun hidle => ⟨hdr, hparse, .inr ⟨htyp, hidle⟩⟩
  | transfer2d hdr => exact .same rfl rfl rfl
  | flush hdr =>
    unfold resourceFlushInto
    simp only
    split
    · exact .same rfl rfl rfl
    · exact .same rfl rfl rfl
  | threeD hdr o _ _ =>
    unfold unbindDestroyedContext
    simp only
    split
    · rename_i hbound
      refine .gone (hsingle ?_) rfl rfl
      cases hs : s.blobScanout with
      | none =>
        rw [hs] at hbound
        simp at hbound
      | some scanout => rfl
    · exact .same rfl rfl rfl

/-! ## Runs -/

/-- A present is finished early with no frame behind it, the epoch has room when it is to move, and it does not move
behind a frame of a scanout that stays as it is. -/
def PresentsSettled (s : Device) (display : Display) : Op → Prop
  | .control request => ∀ hdr ∈ CtrlHdr.parse request,
      (hdr.typ = cmdSetScanout ∨ hdr.typ = cmdSetScanoutBlob → s.asyncPresent.epoch < 2 ^ 64 - 1) ∧
      ∀ r ∈ s.asyncPresent.retained, s.scanoutResource = some r.resourceId → ¬s.IdleRebind display request hdr
  | .asyncPresent enabled => s.scanoutAsyncPresent ≠ enabled → s.asyncPresent.retained = none
  | .reset => s.asyncPresent.retained = none
  | _ => True

instance (s : Device) (display : Display) (op : Op) : Decidable (s.PresentsSettled display op) := by
  cases op <;> unfold PresentsSettled IdleRebind IdleSetScanout UnmappedBlob <;> infer_instance

theorem Presenting.finish (h : s.Presenting) (hret : s.asyncPresent.retained = none) :
    s.finishAsyncPresent.Presenting ∧
    s.finishAsyncPresent.asyncPresent.inFlight = none ∧ s.finishAsyncPresent.asyncPresent.retained = none ∧
    s.finishAsyncPresent.asyncPresentPending = none := by
  unfold finishAsyncPresent
  cases hp : s.asyncPresentPending with
  | none =>
    have hnone : s.asyncPresent.inFlight = none := by
      rw [h.inFlight, hp]
      rfl
    exact ⟨h, hnone, hret, hp⟩
  | some pending =>
    obtain ⟨hnone, hnone', -⟩ := complete_of_not_retained hret s.scanoutResource
    exact ⟨.of_idle hnone hnone' rfl h.single, hnone, hnone', rfl⟩

theorem Presenting.counted (h : s'.Presenting) (hbinding : s'.binding = s.binding) (hchanges : s'.changes = s.changes) :
    ({ s' with changes := if s'.binding = s.binding then s.changes else s.changes + 1 } : Device).Presenting := by
  rw [if_pos hbinding, ← hchanges]
  exact h

theorem presenting_step {op : Op} (h : s.Presenting) (hok : s.PresentsSettled display op) :
    (s.step host display op).1.Presenting := by
  unfold step
  simp only
  cases op with
  | control request =>
    refine h.rebound (rebound_control host display request h.single) ?_
    rintro ⟨hdr, hparse, htyp⟩
    exact (hok hdr hparse).1 htyp
  | drain =>
    have hsame := sameScanout_drain display s
    exact h.drain.counted hsame.binding hsame.changes
  | asyncPresent enabled =>
    simp only [perform]
    unfold set3dScanoutAsyncPresent
    split
    · exact h.counted rfl rfl
    · rename_i hne
      obtain ⟨-, hin, hret, hpending⟩ := h.finish (hok hne)
      have hbinding : s.finishAsyncPresent.binding = s.binding ∧ s.finishAsyncPresent.changes = s.changes ∧
          s.finishAsyncPresent.blobScanout = s.blobScanout ∧
          s.finishAsyncPresent.scanoutResource = s.scanoutResource := by
        unfold finishAsyncPresent
        split
        · exact ⟨rfl, rfl, rfl, rfl⟩
        · exact ⟨rfl, rfl, rfl, rfl⟩
      refine .of_idle hin hret hpending ?_
      simp only
      rw [hbinding.2.2.1, hbinding.2.2.2]
      exact h.single
  | deferred deferred =>
    simp only [perform]
    unfold set3dScanoutDeferred
    split
    · exact (h.congr rfl rfl rfl rfl : Presenting { s with scanout3dDeferred := true }).counted rfl rfl
    · exact (h.congr rfl rfl rfl rfl : Presenting { s with
        scanout3dDeferred := false
        pending3dScanout := none
        pending3dScanoutFresh := false }).counted rfl rfl
  | resize width height =>
    simp only [perform]
    unfold requestDisplayResolution
    split
    · exact h.counted rfl rfl
    · exact (h.congr rfl rfl rfl rfl : Presenting { s with
        requestedWidth := width
        requestedHeight := height }).counted rfl rfl
  | reset =>
    obtain ⟨-, hin, hret, hpending⟩ := h.finish hok
    exact .of_idle hin hret hpending fun _ => rfl

theorem Ran.presenting (hr : Ran PresentsSettled s) : s.Presenting := by
  induction hr with
  | created width height backend shmPort window => exact .of_idle rfl rfl rfl fun _ => rfl
  | step host display hr hok ih => exact presenting_step ih hok

/-- What a step does to the retained frame of the resource that is bound: it keeps it, hands it over, retains a newer
one of the same scanout, or changes the binding or the size. -/
theorem Presenting.step_retained {op : Op} (h : s.Presenting) (hok : s.PresentsSettled display op) {r : PresentRequest}
    (hret : s.asyncPresent.retained = some r) (hbound : s.scanoutResource = some r.resourceId) :
    (s.step host display op).1.asyncPresent.retained = some r ∨
      (∃ taken, .started { r with epoch := s.asyncPresent.epoch } taken ∈ (s.step host display op).2) ∨
      (∃ info, (s.step host display op).1.asyncPresent.retained = some (s.frame r.resourceId info)) ∨
      (s.step host display op).1.binding ≠ s.binding := by
  unfold step
  simp only
  cases op with
  | control request =>
    cases rebound_control host display request h.single with
    | same _ hmailbox => exact .inl (by simp only [perform]; rw [hmailbox]; exact hret)
    | gone _ hmailbox => exact .inl (by simp only [perform]; rw [hmailbox]; exact hret)
    | bumped _ _ _ _ hbinding =>
      refine .inr (.inr (.inr (hbinding (by rw [hbound]; rfl) ?_)))
      rintro ⟨hdr, hparse, hidle⟩
      exact (hok hdr hparse).2 r hret hbound hidle
  | drain =>
    rcases h.drain_retained display hret with hsame | hstarted | ⟨resourceId, info, hbound', hnew⟩
    · exact .inl hsame
    · exact .inr (.inl hstarted)
    · rw [hbound] at hbound'
      cases hbound'
      exact .inr (.inr (.inl ⟨info, hnew⟩))
  | asyncPresent enabled =>
    left
    simp only [perform]
    unfold set3dScanoutAsyncPresent
    split
    · exact hret
    · rename_i hne
      have := hok hne
      rw [hret] at this
      cases this
  | deferred deferred =>
    left
    simp only [perform]
    unfold set3dScanoutDeferred
    split <;> exact hret
  | resize width height =>
    left
    simp only [perform]
    unfold requestDisplayResolution
    split <;> exact hret
  | reset =>
    have hnone : s.asyncPresent.retained = none := hok
    rw [hret] at hnone
    cases hnone

/-- While presents are settled, the mailbox and the worker's handle agree; a frame that is offered is handed over or
retained, a retained frame is handed over at the first drain after the worker is done, and one of the bound resource
stays until then unless a newer one takes its place or the binding or the size changes; and what is applied was offered
for the scanout that is bound. -/
theorem presents_reach_renderer (hr : Ran PresentsSettled s) :
    (s.asyncPresent.inFlight.isSome ↔ s.asyncPresentPending.isSome) ∧
      (∀ display resourceId rect, (s.serviceAsyncPresent display resourceId rect).2.2 = true →
        ∃ info, s.threeD.resource3dInfo.get resourceId = some info ∧
          ((∃ taken, .started (s.frame resourceId info) taken ∈
            (s.serviceAsyncPresent display resourceId rect).2.1) ∨
            (s.serviceAsyncPresent display resourceId rect).1.asyncPresent.retained =
              some (s.frame resourceId info))) ∧
      (∀ next, s.asyncPresent.retained = some next → ∃ handle r rect,
        s.asyncPresentPending = some (handle, r, rect) ∧
        ∀ display : Display, s.threeD.backend → display.presentPoll handle false → ∃ taken,
          .started { next with epoch := s.asyncPresent.epoch } taken ∈ (s.serviceDeferred3dScanout display).2) ∧
      (∀ host display op, s.PresentsSettled display op → ∀ r, s.asyncPresent.retained = some r →
        s.scanoutResource = some r.resourceId →
        (s.step host display op).1.asyncPresent.retained = some r ∨
        (∃ taken, .started { r with epoch := s.asyncPresent.epoch } taken ∈ (s.step host display op).2) ∨
        (∃ info, (s.step host display op).1.asyncPresent.retained = some (s.frame r.resourceId info)) ∨
        (s.step host display op).1.binding ≠ s.binding) ∧
      ∀ host display op r, .applied r ∈ (s.step host display op).2 → r.offeredAt = s.changes := by
  have h := hr.presenting
  refine ⟨?_, fun display resourceId rect htaken => service_offers htaken, fun next hret => ?_,
    fun host display op hok r hret hbound => h.step_retained hok hret hbound, fun host display op r happlied => ?_⟩
  · rw [h.inFlight, Option.isSome_map]
  · obtain ⟨⟨handle, r, rect⟩, hp⟩ := Option.isSome_iff_exists.1 (h.retained (by rw [hret]; rfl))
    refine ⟨handle, r, rect, hp, fun display hbackend hpoll => ?_⟩
    obtain ⟨handle', r', rect', hp', hstarted⟩ := h.collect_started display hret
    rw [hp] at hp'
    cases hp'
    obtain ⟨taken, hmem⟩ := hstarted hbackend hpoll
    exact ⟨taken, mem_drain_of_collect hmem⟩
  · unfold step at happlied
    cases op with
    | drain => exact h.applied_drain happlied
    | control request => cases happlied
    | asyncPresent enabled => cases happlied
    | deferred deferred => cases happlied
    | resize width height => cases happlied
    | reset => cases happlied

end Presents

/-! ## Frames behind a busy worker -/

/-- Create 3D resource 7, four pixels square. -/
def create3dRequest : List UInt8 :=
  (VirtioGpu3d.plainHdr cmdResourceCreate3d).toBytes ++ [7, 2, 1, 2, 4, 4, 1, 1, 0, 0, 0, 0].flatMap (toLeBytes 4)

/-- Bind resource 7 to the scanout. -/
def setScanoutRequest : List UInt8 :=
  (VirtioGpu3d.plainHdr cmdSetScanout).toBytes ++ [0, 0, 4, 4, 0, 7].flatMap (toLeBytes 4)

def flushRequest : List UInt8 :=
  (VirtioGpu3d.plainHdr cmdResourceFlush).toBytes ++ [0, 0, 4, 4, 7, 0].flatMap (toLeBytes 4)

/-- Two frames are flushed and drained while the worker is busy with the first. -/
def twoFrames : List Op :=
  [.control create3dRequest, .control setScanoutRequest, .deferred true, .asyncPresent true, .control flushRequest,
    .drain, .drain, .control flushRequest, .drain, .drain]

def afterOps (ops : List Op) : Device :=
  ops.foldl (fun s op => (s.step VirtioGpu3d.grantingHost busyDisplay op).1) (new 64 64 (.new true true 0))

theorem ran_afterOps {ok : Device → Display → Op → Prop} (ops : List Op)
    (hok : ∀ i (hi : i < ops.length), ok (afterOps (ops.take i)) busyDisplay ops[i]) : Ran ok (afterOps ops) := by
  induction ops using List.reverseRecOn with
  | nil => exact .created 64 64 true true 0
  | append_singleton ops op ih =>
    have hlast := hok ops.length (by simp)
    have hfront := ih fun i hi => by
      have hprefix := hok i (by simp; omega)
      rwa [List.take_append_of_le_length (Nat.le_of_lt hi), List.getElem_append_left hi] at hprefix
    rw [List.take_left, List.getElem_concat_length rfl] at hlast
    unfold afterOps
    rw [List.foldl_append]
    exact .step _ _ hfront hlast

theorem presents_reach_renderer_two_frames : ∃ taken, .started ⟨7, 4, 4, 1, 1⟩ taken ∈
    ((afterOps twoFrames).serviceDeferred3dScanout { busyDisplay with presentPoll := fun _ _ => true }).2 := by
  have hr : Ran PresentsSettled (afterOps twoFrames) := ran_afterOps twoFrames (by decide +kernel)
  have hret : (afterOps twoFrames).asyncPresent.retained = some ⟨7, 4, 4, 1, 1⟩ := by decide +kernel
  obtain ⟨handle, r, rect, -, hstarted⟩ := (presents_reach_renderer hr).2.2.1 _ hret
  exact hstarted _ (by decide +kernel) rfl

/-- Then the mode is switched. -/
def modeSwitch : List Op := twoFrames ++ [.asyncPresent false]

/-- The frame that takes the finished one's place is in flight with no worker at it. -/
theorem mode_switch_wedges :
    ¬∀ s, Ran (fun _ _ _ => True) s → (s.asyncPresent.inFlight.isSome ↔ s.asyncPresentPending.isSome) := by
  intro hall
  have hwedged : (afterOps modeSwitch).asyncPresent.inFlight.isSome ∧
      ¬(afterOps modeSwitch).asyncPresentPending.isSome := by decide +kernel
  exact hwedged.2 ((hall _ (ran_afterOps modeSwitch fun _ _ => trivial)).1 hwedged.1)

end Device

end BridgeVm.VirtioGpu
