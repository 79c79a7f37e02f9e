import BridgeVm.VirtioGpu.BlobWindow

/-!
# Runs of the 3D device

Every command and every device reset keeps the window exact as long as the port unmaps what it is asked to; and
what that says about the moments at which the renderer is told to give host memory back.
-/

namespace BridgeVm.VirtioGpu

open Lib

/-! ## Calls that give memory back -/

namespace Call

/-- The renderer may give the memory of this blob back. -/
def Releases : Call → Nat → Prop
  | .unmapBlob resourceId, owner => resourceId = owner
  | .destroyResource resourceId, owner => resourceId = owner
  | .reset, _ => True
  | _, _ => False

/-- A call that has nothing to do with mapped blobs. -/
def Calm : Call → Prop
  | .ctxCreate .. | .ctxDestroy .. | .ctxAttachResource .. | .ctxDetachResource .. => True
  | .create3d .. | .transfer3d .. | .createBlob .. => True
  | .mapBlob _ none => True
  | _ => False

end Call

namespace HostSide

/-- Nothing is given back while an interval of its memory is live. -/
def Safe (h : HostSide) : List Call → Prop
  | [] => True
  | c :: calls => (∀ i ∈ h.live, ¬c.Releases i.owner) ∧ (h.after c).Safe calls

theorem safe_append {h : HostSide} {calls calls' : List Call} :
    h.Safe (calls ++ calls') ↔ h.Safe calls ∧ (h.afterAll calls).Safe calls' := by
  induction calls generalizing h with
  | nil => simp [Safe]
  | cons c calls ih => simp [Safe, ih, and_assoc]

theorem Safe.at {h : HostSide} {before later : List Call} {c : Call} (hs : h.Safe (before ++ c :: later)) :
    ∀ i ∈ (h.afterAll before).live, ¬c.Releases i.owner := (safe_append.1 hs).2.1

theorem after_of_calm {h : HostSide} {c : Call} (hc : c.Calm) : h.after c = h := by
  unfold Call.Calm at hc
  split at hc <;> first | rfl | cases hc

theorem afterAll_of_calm {h : HostSide} {calls : List Call} (hc : ∀ c ∈ calls, c.Calm) : h.afterAll calls = h := by
  induction calls with
  | nil => rfl
  | cons c calls ih =>
    rw [afterAll_cons, after_of_calm (hc c List.mem_cons_self)]
    exact ih fun c' hc' => hc c' (List.mem_cons_of_mem _ hc')

theorem safe_of_calm {h : HostSide} {calls : List Call} (hc : ∀ c ∈ calls, c.Calm) : h.Safe calls := by
  induction calls with
  | nil => trivial
  | cons c calls ih =>
    have hcalm := hc c List.mem_cons_self
    refine ⟨fun i _ => ?_, ?_⟩
    · unfold Call.Calm at hcalm
      split at hcalm <;> first | exact id | cases hcalm
    · rw [after_of_calm hcalm]
      exact ih fun c' hc' => hc c' (List.mem_cons_of_mem _ hc')

end HostSide

namespace VirtioGpu3d

/-! ## Commands -/

/-- The device and the host stay in step, and nothing that is live is given back. -/
structure Kept (h : HostSide) (s : VirtioGpu3d) (calls : List Call) : Prop where
  exact : s.Exact (h.afterAll calls)
  safe : h.Safe calls

/-- A command that leaves the blobs alone. -/
structure Calm (s : VirtioGpu3d) (o : Outcome) : Prop where
  shmWindowSize : o.gpu.shmWindowSize = s.shmWindowSize
  backend : o.gpu.backend = s.backend
  shmPort : o.gpu.shmPort = s.shmPort
  blobResources : o.gpu.blobResources = s.blobResources
  mappedIntervals : o.gpu.mappedIntervals = s.mappedIntervals
  calls : ∀ c ∈ o.calls, c.Calm

section Commands

variable {s s' : VirtioGpu3d} {h : HostSide} {host : Host} {request : List UInt8} {hdr : CtrlHdr} {resourceId : Nat}

theorem Wired.congr (hs : s.Wired) (hwindow : s'.shmWindowSize = s.shmWindowSize) (hbackend : s'.backend = s.backend)
    (hport : s'.shmPort = s.shmPort) (hblobs : s'.blobResources = s.blobResources) : s'.Wired where
  sizes := hblobs ▸ hs.sizes
  window := hwindow ▸ hs.window
  wired resourceId hm := by
    unfold mappedAt at hm
    rw [hblobs] at hm
    rw [hbackend, hport]
    exact hs.wired resourceId hm

theorem Exact.congr_records (hx : s.Exact h) (hwindow : s'.shmWindowSize = s.shmWindowSize)
    (hbackend : s'.backend = s.backend) (hport : s'.shmPort = s.shmPort) (hblobs : s'.blobResources = s.blobResources)
    (hintervals : s'.mappedIntervals = s.mappedIntervals) : s'.Exact h := by
  refine hx.congr hwindow (fun _ => by rw [hintervals]) (fun _ => ?_) (hx.wired.congr hwindow hbackend hport hblobs)
  unfold mappedAt
  rw [hblobs]

theorem Calm.kept {o : Outcome} (hx : s.Exact h) (hc : s.Calm o) : Kept h o.gpu o.calls where
  exact := by
    rw [HostSide.afterAll_of_calm hc.calls]
    exact hx.congr_records hc.shmWindowSize hc.backend hc.shmPort hc.blobResources hc.mappedIntervals
  safe := HostSide.safe_of_calm hc.calls

theorem calm_answer {typ : Nat} {calls : List Call} (hc : ∀ c ∈ calls, c.Calm) : s.Calm (s.answer hdr typ calls) :=
  ⟨rfl, rfl, rfl, rfl, rfl, hc⟩

theorem calm_ctxCreateInto : s.Calm (s.ctxCreateInto host request hdr) := by
  unfold ctxCreateInto
  split
  · exact calm_answer (by simp)
  · split
    · exact calm_answer (by simp)
    · simp only
      split
      · exact calm_answer (by simp [Call.Calm])
      · exact ⟨rfl, rfl, rfl, rfl, rfl, by simp [answer, Call.Calm]⟩

theorem calm_ctxDestroyInto : s.Calm (s.ctxDestroyInto hdr) := by
  unfold ctxDestroyInto
  split
  · exact calm_answer (by simp)
  · refine ⟨rfl, rfl, rfl, rfl, rfl, ?_⟩
    simp only [answer]
    split <;> simp [Call.Calm]

theorem calm_ctxResourceInto {change : Nat → Finset Nat → Finset Nat} {call : Nat → Nat → Call}
    (hcall : ∀ ctxId resourceId, (call ctxId resourceId).Calm) : s.Calm
      (s.ctxResourceInto change call request hdr) := by
  unfold ctxResourceInto
  simp only
  split
  · exact calm_answer (by simp)
  · split
    · exact calm_answer (by simp)
    · refine ⟨rfl, rfl, rfl, rfl, rfl, ?_⟩
      simp only [answer]
      split <;> simp [hcall]

theorem calm_resourceCreate3dInto : s.Calm (s.resourceCreate3dInto host request hdr) := by
  unfold resourceCreate3dInto
  simp only
  split
  · exact calm_answer (by simp)
  · split
    · exact calm_answer (by simp)
    · split
      · exact calm_answer (by split <;> simp [Call.Calm])
      · refine ⟨rfl, rfl, rfl, rfl, rfl, ?_⟩
        simp only [answer]
        split <;> simp [Call.Calm]

theorem calm_transfer3dInto {toHost : Bool} : s.Calm (s.transfer3dInto host toHost request hdr) := by
  unfold transfer3dInto
  simp only
  split
  · exact calm_answer (by simp)
  · split
    · exact calm_answer (by simp)
    · split
      · exact calm_answer (by simp)
      · split
        · exact calm_answer (by simp)
        · exact calm_answer (by simp [Call.Calm])

/-- A blob that is created is not mapped. -/
theorem kept_resourceCreateBlobInto (hx : s.Exact h) :
    Kept h (s.resourceCreateBlobInto host request hdr).gpu (s.resourceCreateBlobInto host request hdr).calls := by
  have hanswer : ∀ typ calls, (∀ c ∈ calls, Call.Calm c) →
    Kept h (s.answer hdr typ calls).gpu (s.answer hdr typ calls).calls :=
    fun typ calls hc => (calm_answer hc).kept hx
  unfold resourceCreateBlobInto
  simp only
  split
  · exact hanswer _ _ (by simp)
  split
  · exact hanswer _ _ (by simp)
  split
  · exact hanswer _ _ (by simp)
  rename_i hnew
  split
  · exact hanswer _ _ (by simp)
  split
  · exact hanswer _ _ (by simp)
  split
  · exact hanswer _ _ (by simp)
  split
  · exact hanswer _ _ (by simp)
  split
  · exact hanswer _ _ (by simp)
  split
  · exact hanswer _ _ (by simp [Call.Calm])
  · simp only [not_or, Bool.not_eq_true, Option.isSome_eq_false_iff, Option.isNone_iff_eq_none] at hnew
    refine ⟨?_, HostSide.safe_of_calm (by simp [answer, Call.Calm])⟩
    simp only [answer]
    rw [HostSide.afterAll_of_calm (by simp [Call.Calm])]
    have hfields : ∀ other resource, resource.mapped = none →
        ({ s with blobResources := s.blobResources.insert ((readLeU32 request 24).getD 0) resource } :
          VirtioGpu3d).mappedAt other = s.mappedAt other := by
      intro other resource hresource
      unfold mappedAt
      rw [AssocMap.get_insert]
      split
      · rename_i heq
        rw [heq, hnew.2.2]
        exact hresource
      · rfl
    refine hx.congr rfl (fun _ => rfl) (fun other => hfields other _ rfl) ⟨fun other resource hget => ?_,
      hx.wired.window, fun other hm => ?_⟩
    · rw [AssocMap.get_insert] at hget
      split at hget
      · cases hget
        exact Nat.pos_of_ne_zero hnew.2.1
      · exact hx.wired.sizes other resource hget
    · rw [hfields other _ rfl] at hm
      exact hx.wired.wired other hm

theorem afterAll_refused {mapped : MappedBlob} {calls : List Call} (hx : s.Exact h)
    (hnone : s.mappedAt resourceId = none) (hcalls : calls = [] ∨ ∃ hostPtr size shmOffset,
      calls = [.portMap hostPtr size shmOffset resourceId false]) :
    h.afterAll (.mapBlob resourceId (some mapped) :: calls ++ [.unmapBlob resourceId]) = h ∧
      h.Safe (.mapBlob resourceId (some mapped) :: calls ++ [.unmapBlob resourceId]) := by
  have hmapped : resourceId ∉ h.mapped := by
    rw [hx.mapped, hnone]
    simp
  have howner : ∀ i ∈ h.live, resourceId ≠ i.owner := by
    intro i hi heq
    have := (hx.window.fields i).1 hi
    rw [← heq, hnone] at this
    cases this
  rcases hcalls with rfl | ⟨hostPtr, size, shmOffset, rfl⟩
  · refine ⟨?_, fun _ _ => id, howner, trivial⟩
    simp [HostSide.after, Finset.erase_insert hmapped]
  · refine ⟨?_, fun _ _ => id, fun _ _ => id, howner, trivial⟩
    simp [HostSide.after, Finset.erase_insert hmapped]

/-- A mapping is refused without a trace, or it is recorded as the port has it. -/
theorem resourceMapBlobInto_cases (hx : s.Exact h) {o : Outcome} (ho : s.resourceMapBlobInto host request hdr = o) :
    (o.gpu = s ∧ h.afterAll o.calls = h ∧ h.Safe o.calls) ∨
    ∃ resourceId shmOffset resource size mapped, s.mapCheck resourceId shmOffset = some (resource, size) ∧
      s.shmPort = true ∧ o.gpu = s.recordMapping resourceId shmOffset size ∧
      o.calls = [.mapBlob resourceId (some mapped), .portMap mapped.hostPtr size shmOffset resourceId true] ∧
      responseType o.response = respOkMapInfo := by
  subst ho
  unfold resourceMapBlobInto
  simp only
  split
  · exact .inl ⟨rfl, rfl, trivial⟩
  cases hc : s.mapCheck ((readLeU32 request 24).getD 0) ((readLeU64 request 32).getD (2 ^ 64 - 1)) with
  | none => exact .inl ⟨rfl, rfl, trivial⟩
  | some found =>
    obtain ⟨resource, size⟩ := found
    obtain ⟨hget, hnone, -⟩ := mapCheck_some hc
    have hunmapped : s.mappedAt ((readLeU32 request 24).getD 0) = none := by
      unfold mappedAt
      rw [hget]
      exact hnone
    cases host.mapBlob ((readLeU32 request 24).getD 0) with
    | none => exact .inl ⟨rfl, rfl, fun _ _ => id, trivial⟩
    | some mapped =>
      simp only
      split
      · exact .inl ⟨rfl, afterAll_refused hx hunmapped (.inl rfl)⟩
      rename_i hfit
      split
      · exact .inl ⟨rfl, afterAll_refused hx hunmapped (.inr ⟨_, _, _, rfl⟩)⟩
      · simp only [not_or, Bool.not_eq_true, Bool.not_eq_false'] at hfit
        refine .inr ⟨_, _, _, _, _, hc, hfit.2.2.2, rfl, rfl, ?_⟩
        rw [List.append_assoc]
        exact responseType_responseHdr3d respOkMapInfo hdr _

theorem kept_resourceMapBlobInto (hx : s.Exact h) :
    Kept h (s.resourceMapBlobInto host request hdr).gpu (s.resourceMapBlobInto host request hdr).calls := by
  obtain ⟨hgpu, hafter, hsafe⟩ | ⟨resourceId, shmOffset, resource, size, mapped, hc, hport, hgpu, hcalls, -⟩ :=
    resourceMapBlobInto_cases hx (o := s.resourceMapBlobInto host request hdr) rfl
  · refine ⟨?_, hsafe⟩
    rw [hgpu, hafter]
    exact hx
  · rw [hgpu, hcalls]
    exact ⟨hx.map hport hc, fun _ _ => id, fun _ _ => id, trivial⟩

theorem kept_unmapBlobResource (hx : s.Exact h) (hu : s.Unmaps host) (resourceId : Nat) :
    Kept h (s.unmapBlobResource host resourceId).1 (s.unmapBlobResource host resourceId).2 where
  exact := hx.unmap hu resourceId
  safe := by
    have hgone := (hx.unmap hu resourceId).window.fields
    cases hm : s.mappedAt resourceId with
    | none =>
      rw [unmapBlobResource_of_unmapped hm]
      trivial
    | some place =>
      rw [(unmapBlobResource_of_mapped hm hx.wired hu).1] at hgone ⊢
      refine ⟨fun _ _ => id, fun i hi heq => ?_, trivial⟩
      have := (hgone i).1 hi
      rw [mappedAt_unmap, if_pos (Eq.symm heq)] at this
      cases this

theorem kept_resourceUnmapBlobInto (hx : s.Exact h) (hu : s.Unmaps host) :
    Kept h (s.resourceUnmapBlobInto host request hdr).gpu (s.resourceUnmapBlobInto host request hdr).calls := by
  unfold resourceUnmapBlobInto
  simp only
  split
  · exact (calm_answer (by simp)).kept hx
  split
  · exact (calm_answer (by simp)).kept hx
  · exact kept_unmapBlobResource hx hu _

/-! ## Unref and reset -/

theorem Kept.destroy {calls : List Call} (hk : Kept h s calls) (hnone : s.mappedAt resourceId = none) :
    Kept h s (calls ++ [.destroyResource resourceId]) where
  exact := by
    have hmapped : resourceId ∉ (h.afterAll calls).mapped := by
      rw [hk.exact.mapped, hnone]
      simp
    rw [HostSide.afterAll_append]
    simp only [HostSide.afterAll_cons, HostSide.afterAll_nil, HostSide.after, Finset.erase_eq_of_notMem hmapped]
    exact hk.exact
  safe := by
    refine HostSide.safe_append.2 ⟨hk.safe, fun i hi heq => ?_, trivial⟩
    have := (hk.exact.window.fields i).1 hi
    rw [← show resourceId = i.owner from heq, hnone] at this
    cases this

/-- Forgetting a blob that is not mapped. -/
theorem Exact.forget (hx : s.Exact h) (hnone : s.mappedAt resourceId = none) :
    ({ s with
        blobResources := s.blobResources.remove resourceId
        mappedIntervals := s.mappedIntervals.retain fun interval => interval.2.2 != resourceId } :
      VirtioGpu3d).Exact h := by
  have hmappedAt : ∀ other,
      ({ s with
          blobResources := s.blobResources.remove resourceId
          mappedIntervals := s.mappedIntervals.retain fun interval => interval.2.2 != resourceId } :
        VirtioGpu3d).mappedAt other = s.mappedAt other := by
    intro other
    unfold mappedAt
    rw [AssocMap.get_remove]
    split
    · rename_i heq
      rw [heq]
      exact hnone.symm
    · rfl
  refine ⟨⟨hx.window.aligned, hx.window.inside, hx.window.disjoint, fun i => ?_, fun i => ?_⟩, fun other => ?_,
    ⟨fun other resource hget => ?_, hx.wired.window, fun other hm => ?_⟩⟩
  · -- no interval that is live belongs to the blob
    rw [AssocMap.get_retain, Option.filter_eq_some_iff, ← hx.window.intervals]
    refine ⟨fun hi => ⟨hi, ?_⟩, fun hi => hi.1⟩
    have hfield := (hx.window.fields i).1 hi
    simp only [bne_iff_ne]
    intro heq
    rw [heq, hnone] at hfield
    cases hfield
  · rw [hmappedAt]
    exact hx.window.fields i
  · rw [hmappedAt]
    exact hx.mapped other
  · rw [AssocMap.get_remove] at hget
    split at hget
    · cases hget
    · exact hx.wired.sizes other resource hget
  · rw [hmappedAt] at hm
    exact hx.wired.wired other hm

theorem kept_unrefResource (hx : s.Exact h) (hu : s.Unmaps host) :
    Kept h (s.unrefResource host resourceId).1 (s.unrefResource host resourceId).2 := by
  unfold unrefResource
  simp only
  split
  · -- the blob's interval goes before its resource does
    generalize hs₁ : ({ s with
        ctxResources := s.ctxResources.mapValues fun _ resources => resources.erase resourceId
        resource2dIds := s.resource2dIds.erase resourceId
        resource3dIds := s.resource3dIds.erase resourceId
        local3dBacking := s.local3dBacking.remove resourceId
        resource3dInfo := s.resource3dInfo.remove resourceId } : VirtioGpu3d) = s₁
    have hx₁ : s₁.Exact h := by
      subst hs₁
      exact hx.congr_records rfl rfl rfl rfl rfl
    have hu₁ : s₁.Unmaps host := by
      subst hs₁
      exact hu
    obtain ⟨hexact, hsafe⟩ := kept_unmapBlobResource hx₁ hu₁ resourceId
    have hnone : (s₁.unmapBlobResource host resourceId).1.mappedAt resourceId = none := by
      rw [mappedAt_unmap, if_pos rfl]
    have hk : Kept h _ _ := ⟨hexact.forget hnone, hsafe⟩
    split
    · refine hk.destroy ?_
      unfold mappedAt
      rw [AssocMap.get_remove, if_pos rfl]
      rfl
    · rw [List.append_nil]
      exact hk
  · rename_i hblob
    have hk : Kept h ({ s with
        ctxResources := s.ctxResources.mapValues fun _ resources => resources.erase resourceId
        resource2dIds := s.resource2dIds.erase resourceId
        resource3dIds := s.resource3dIds.erase resourceId
        local3dBacking := s.local3dBacking.remove resourceId
        resource3dInfo := s.resource3dInfo.remove resourceId } : VirtioGpu3d) [] :=
      ⟨hx.congr_records rfl rfl rfl rfl rfl, trivial⟩
    split
    · refine hk.destroy ?_
      unfold mappedAt
      rw [Option.not_isSome_iff_eq_none.1 hblob]
      rfl
    · exact hk

theorem unmapAllBlobs_of_unmapped (host : Host) (hnone : ∀ resourceId, s.mappedAt resourceId = none)
    (ids : List Nat) :
    s.unmapAllBlobs host ids = (s, []) := by
  induction ids with
  | nil => rfl
  | cons resourceId ids ih =>
    unfold unmapAllBlobs
    rw [unmapBlobResource_of_unmapped (hnone resourceId)]
    simp only
    rw [ih]
    rfl

/-- What is left after the blobs in turn have been unmapped. -/
theorem unmapAllBlobs_spec (hw : s.Window h.live) (hs : s.Wired) (hu : s.Unmaps host) (ids : List Nat) :
    (s.unmapAllBlobs host ids).1.Window (h.afterAll (s.unmapAllBlobs host ids).2).live ∧
      (s.unmapAllBlobs host ids).1.Wired ∧ (h.afterAll (s.unmapAllBlobs host ids).2).mapped ⊆ h.mapped ∧
      ∀ resourceId, (s.unmapAllBlobs host ids).1.mappedAt resourceId =
        if resourceId ∈ ids then none else s.mappedAt resourceId := by
  induction ids generalizing s h with
  | nil => exact ⟨hw, hs, Finset.Subset.refl _, fun _ => rfl⟩
  | cons resourceId ids ih =>
    obtain ⟨hwindow, hwired, hmapped, hleft⟩ :=
      ih (hw.unmap hs hu resourceId) (hs.unmap resourceId) (hu.unmap resourceId)
    unfold unmapAllBlobs
    simp only
    rw [HostSide.afterAll_append]
    refine ⟨hwindow, hwired, fun other hother => ?_, fun other => ?_⟩
    · have hbefore := hmapped hother
      rw [mapped_unmap hs hu] at hbefore
      split at hbefore
      · exact Finset.mem_of_mem_erase hbefore
      · exact hbefore
    · rw [hleft, mappedAt_unmap]
      by_cases hmem : other ∈ ids
      · simp [hmem]
      · by_cases heq : other = resourceId
        · simp [heq]
        · simp [hmem, heq]

/-- A reset forgets every mapping once its interval is gone from the window. -/
theorem exact_reset (hx : s.Exact h) (hu : s.Unmaps host) :
    (s.reset host).1.Exact (h.afterAll (s.reset host).2) := by
  unfold reset
  simp only
  generalize hs₁ : ({ s with
      liveContexts := ∅
      ctxResources := .empty
      resource2dIds := ∅
      resource3dIds := ∅
      resource3dInfo := .empty
      local3dBacking := .empty } : VirtioGpu3d) = s₁
  have hx₁ : s₁.Exact h := by
    subst hs₁
    exact hx.congr_records rfl rfl rfl rfl rfl
  have hu₁ : s₁.Unmaps host := by
    subst hs₁
    exact hu
  have hbackend : s₁.backend = s.backend := by
    subst hs₁
    rfl
  -- what the renderer had mapped is gone with its own reset
  have hreset : ∃ h', h.afterAll (if s.backend then [Call.reset] else []) = h' ∧ h'.live = h.live ∧
    h'.mapped = ∅ := by
    refine ⟨_, rfl, ?_⟩
    split
    · exact ⟨rfl, rfl⟩
    · rename_i hnone
      refine ⟨rfl, Finset.eq_empty_iff_forall_notMem.2 fun resourceId hm => hnone ?_⟩
      rw [← hbackend]
      exact (hx₁.wired.wired resourceId ((hx₁.mapped resourceId).1 hm)).1
  obtain ⟨h', hh', hlive, hmapped⟩ := hreset
  rw [HostSide.afterAll_append, hh']
  have hw₁ : s₁.Window h'.live := hlive ▸ hx₁.window
  obtain ⟨hwindow, hwired, hsub, hleft⟩ := unmapAllBlobs_spec hw₁ hx₁.wired hu₁ s₁.blobIds
  have hnone : ∀ resourceId, (s₁.unmapAllBlobs host s₁.blobIds).1.mappedAt resourceId = none := by
    intro resourceId
    rw [hleft]
    split
    · rfl
    · rename_i hmem
      unfold mappedAt
      cases hget : s₁.blobResources.get resourceId with
      | none => rfl
      | some resource =>
        refine absurd ?_ hmem
        exact List.mem_mergeSort.2 (List.mem_map.2 ⟨_, AssocMap.mem_iff_get.2 hget, rfl⟩)
  refine ⟨⟨?_, ?_, ?_, ?_, ?_⟩, ?_, ?_⟩
  · rw [hwindow.nil_of_unmapped hnone]
    simp
  · rw [hwindow.nil_of_unmapped hnone]
    simp
  · rw [hwindow.nil_of_unmapped hnone]
    exact List.Pairwise.nil
  · rw [hwindow.nil_of_unmapped hnone]
    simp
  · rw [hwindow.nil_of_unmapped hnone]
    simp [mappedAt]
  · intro resourceId
    rw [hmapped, Finset.subset_empty] at hsub
    rw [hsub]
    simp [mappedAt]
  · exact ⟨fun _ _ hget => (by cases hget), hwired.window, fun _ hm => (by cases hm)⟩

theorem reset_first (host : Host) (hbackend : s.backend = true) : ∃ later, (s.reset host).2 = .reset :: later := by
  unfold reset
  simp [hbackend]

theorem kept_reset (hx : s.Exact h) (hu : s.Unmaps host) (hnone : ∀ resourceId, s.mappedAt resourceId = none) :
    Kept h (s.reset host).1 (s.reset host).2 where
  exact := exact_reset hx hu
  safe := by
    unfold reset
    simp only
    have hcalls := unmapAllBlobs_of_unmapped host (s := { s with
      liveContexts := ∅
      ctxResources := .empty
      resource2dIds := ∅
      resource3dIds := ∅
      resource3dInfo := .empty
      local3dBacking := .empty }) hnone
    rw [hcalls, List.append_nil]
    split
    · refine ⟨?_, trivial⟩
      rw [hx.window.nil_of_unmapped hnone]
      simp
    · trivial

theorem kept_handle (hx : s.Exact h) (hu : s.Unmaps host) {o : Outcome} (ho : s.handle host request hdr = some o) :
    Kept h o.gpu o.calls := by
  cases handle_cases ho with
  | respond => exact ⟨hx, trivial⟩
  | createBlob => exact kept_resourceCreateBlobInto hx
  | ctxCreate => exact calm_ctxCreateInto.kept hx
  | ctxDestroy => exact calm_ctxDestroyInto.kept hx
  | ctxAttach =>
    have hc : s.Calm (s.ctxAttachResourceInto request hdr) := calm_ctxResourceInto fun _ _ => trivial
    exact hc.kept hx
  | ctxDetach =>
    have hc : s.Calm (s.ctxDetachResourceInto request hdr) := calm_ctxResourceInto fun _ _ => trivial
    exact hc.kept hx
  | create3d => exact calm_resourceCreate3dInto.kept hx
  | transfer toHost => exact calm_transfer3dInto.kept hx
  | mapBlob => exact kept_resourceMapBlobInto hx
  | unmapBlob => exact kept_resourceUnmapBlobInto hx hu

end Commands

/-! ## Runs -/

/-- What may happen to the 3D device: a command, the two ways in which the 2D device speaks to it, or a reset. -/
inductive Op where
  | command (request : List UInt8) (hdr : CtrlHdr)
  | register2d (resourceId : Nat)
  | unref (resourceId : Nat)
  | reset
deriving DecidableEq

/-- One step: the device afterwards, and the calls that were made. -/
def step (host : Host) (s : VirtioGpu3d) : Op → VirtioGpu3d × List Call
  | .command request hdr => ((s.handle host request hdr).map fun o => (o.gpu, o.calls)).getD (s, [])
  | .register2d resourceId => (s.register2dResource resourceId, [])
  | .unref resourceId => s.unrefResource host resourceId
  | .reset => s.reset host

/-- A run from a device as it is wired up; the log holds every call made so far, and `ok` is asked of each step. -/
inductive Ran (ok : Host → VirtioGpu3d → Op → Prop) (backend shmPort : Bool) (window : Nat) :
    List Call → VirtioGpu3d → Prop
  | wired : Ran ok backend shmPort window [] (new backend shmPort window)
  | step {log : List Call} {s : VirtioGpu3d} {host : Host} {op : Op} (hr : Ran ok backend shmPort window log s)
      (hok : ok host s op) : Ran ok backend shmPort window (log ++ (s.step host op).2) (s.step host op).1

section Runs

variable {ok : Host → VirtioGpu3d → Op → Prop} {backend shmPort : Bool} {window : Nat} {log : List Call}
  {s : VirtioGpu3d} {h : HostSide} {host : Host} {op : Op}

theorem exact_new (hwindow : window < 2 ^ 64) : (new backend shmPort window).Exact HostSide.start where
  window := by
    refine ⟨?_, ?_, List.Pairwise.nil, ?_, ?_⟩
    · simp [HostSide.start]
    · simp [HostSide.start]
    · simp [HostSide.start, new]
    · simp [HostSide.start, new, mappedAt]
  mapped := by simp [HostSide.start, new, mappedAt]
  wired := ⟨fun _ _ hget => (by cases hget), hwindow, fun _ hm => (by cases hm)⟩

theorem kept_step (hx : s.Exact h) (hu : s.Unmaps host)
    (hop : op = .reset → ∀ resourceId, s.mappedAt resourceId = none) :
    Kept h (s.step host op).1 (s.step host op).2 := by
  cases op with
  | command request hdr =>
    simp only [step]
    cases ho : s.handle host request hdr with
    | none => exact ⟨hx, trivial⟩
    | some o => exact kept_handle hx hu ho
  | register2d resourceId =>
    refine ⟨?_, trivial⟩
    show (s.register2dResource resourceId).Exact h
    unfold register2dResource
    split
    · exact hx.congr_records rfl rfl rfl rfl rfl
    · exact hx
  | unref resourceId => exact kept_unrefResource hx hu
  | reset => exact kept_reset hx hu (hop rfl)

theorem exact_step (hx : s.Exact h) (hu : s.Unmaps host) :
    (s.step host op).1.Exact (h.afterAll (s.step host op).2) := by
  by_cases hop : op = .reset
  · subst hop
    exact exact_reset hx hu
  · exact (kept_step hx hu fun heq => absurd heq hop).exact

theorem Ran.exact (hwindow : window < 2 ^ 64) (hr : Ran ok backend shmPort window log s)
    (hok : ∀ host s op, ok host s op → s.Unmaps host) : s.Exact (HostSide.start.afterAll log) := by
  induction hr with
  | wired => exact exact_new hwindow
  | step hr hstep ih =>
    rw [HostSide.afterAll_append]
    exact exact_step ih (hok _ _ _ hstep)

theorem Ran.safe (hwindow : window < 2 ^ 64) (hr : Ran ok backend shmPort window log s)
    (hok : ∀ host s op, ok host s op → s.Unmaps host ∧
      (op = .reset → ∀ resourceId, s.mappedAt resourceId = none)) :
    HostSide.start.Safe log := by
  induction hr with
  | wired => trivial
  | step hr hstep ih =>
    obtain ⟨hu, hop⟩ := hok _ _ _ hstep
    have hx := hr.exact hwindow fun host s op h => (hok host s op h).1
    exact HostSide.safe_append.2 ⟨ih, (kept_step hx hu hop).safe⟩

theorem refused_map {request : List UInt8} {hdr : CtrlHdr} (hx : s.Exact h)
    (href : responseType (s.resourceMapBlobInto host request hdr).response ≠ respOkMapInfo) :
    (s.resourceMapBlobInto host request hdr).gpu = s ∧
    h.afterAll (s.resourceMapBlobInto host request hdr).calls = h := by
  obtain ⟨hgpu, hafter, -⟩ | ⟨_, _, _, _, _, -, -, -, -, hok⟩ := resourceMapBlobInto_cases hx (o := _) rfl
  · exact ⟨hgpu, hafter⟩
  · exact absurd hok href

/-- The three records of the window agree in every state that a run reaches, and a refused mapping leaves nothing
behind. -/
theorem blob_window_exact (hwindow : window < 2 ^ 64)
    (hr : Ran (fun host s _ => s.Unmaps host) backend shmPort window log s) :
    s.Window (HostSide.start.afterAll log).live ∧
      (∀ resourceId, resourceId ∈ (HostSide.start.afterAll log).mapped ↔ (s.mappedAt resourceId).isSome) ∧
      (∀ i ∈ (HostSide.start.afterAll log).live,
        i.offset + i.size < 2 ^ 64 ∧ saturatingAdd i.offset i.size = i.offset + i.size) ∧
      (∀ resourceId shmOffset resource size, s.mapCheck resourceId shmOffset = some (resource, size) →
        resource.size ≤ size ∧ size < 2 ^ 64 ∧ shmOffset + size < 2 ^ 64) ∧
      ∀ host request hdr, responseType (s.resourceMapBlobInto host request hdr).response ≠ respOkMapInfo →
        (s.resourceMapBlobInto host request hdr).gpu = s ∧
          (HostSide.start.afterAll log).afterAll (s.resourceMapBlobInto host request hdr).calls =
            HostSide.start.afterAll log := by
  have hx : s.Exact (HostSide.start.afterAll log) := hr.exact hwindow fun _ _ _ hu => hu
  refine ⟨hx.window, hx.mapped, fun i hi => ?_, fun resourceId shmOffset resource size hc => ?_,
    fun host request hdr href => refused_map hx href⟩
  · have hinside := hx.window.inside i hi
    have hbound := hx.wired.window
    unfold saturatingAdd
    omega
  · obtain ⟨-, -, hsize, -, hlt, -⟩ := mapCheck_some hc
    obtain ⟨-, hle, hbound⟩ := checkedNextMultipleOf_some (by decide) hsize
    exact ⟨hle, hbound, hlt⟩

/-- When unmapping succeeds and the device is only reset with no blob mapped, the renderer never gives back memory
that the guest's window still shows. -/
theorem released_when_unmapped (hwindow : window < 2 ^ 64)
    (hr : Ran (fun host s op => s.Unmaps host ∧
      (op = .reset → ∀ resourceId, s.mappedAt resourceId = none)) backend
      shmPort window log s) {before later : List Call} {c : Call} (hlog : log = before ++ c :: later) :
    ∀ i ∈ (HostSide.start.afterAll before).live, ¬c.Releases i.owner := by
  have hs := hr.safe hwindow fun _ _ _ hok => hok
  rw [hlog] at hs
  exact hs.at

end Runs

/-! ## A blob mapped over a reset -/

/-- A renderer and a port that grant everything, with the blobs at one page. -/
def grantingHost : Host where
  ctxCreate _ _ _ := true
  create3d _ := true
  transfer3d _ _ := true
  createBlob _ := true
  mapBlob _ := some ⟨hvfPageSize, hvfPageSize, 1⟩
  portMap _ _ _ := true
  portUnmap _ _ := true
  hostPtr addr _ := some addr
  respond _ := []

/-- The header of a command with nothing else set. -/
def plainHdr (typ : Nat) : CtrlHdr := ⟨typ, 0, 0, 0, 0⟩

/-- Create a blob of one guest page in the renderer's memory. -/
def createBlobRequest (resourceId : Nat) : List UInt8 :=
  (plainHdr cmdResourceCreateBlob).toBytes ++ toLeBytes 4 resourceId ++ toLeBytes 4 blobMemHost3d ++ toLeBytes 4 1 ++
    toLeBytes 4 0 ++ toLeBytes 8 0 ++ toLeBytes 8 4096

/-- Map a blob into the window. -/
def mapBlobRequest (resourceId offset : Nat) : List UInt8 :=
  (plainHdr cmdResourceMapBlob).toBytes ++ toLeBytes 4 resourceId ++ toLeBytes 4 0 ++ toLeBytes 8 offset

def blobCreated : VirtioGpu3d × List Call :=
  (new true true (1 <<< 30)).step grantingHost (.command (createBlobRequest 5) (plainHdr cmdResourceCreateBlob))

/-- Blob 5 at the start of the window. -/
def blobMapped : VirtioGpu3d × List Call :=
  blobCreated.1.step grantingHost (.command (mapBlobRequest 5 0) (plainHdr cmdResourceMapBlob))

theorem ran_blobMapped {ok : Host → VirtioGpu3d → Op → Prop}
    (hok : ∀ s op, op ≠ .reset → ok grantingHost s op) :
    Ran ok true true (1 <<< 30) (([] ++ blobCreated.2) ++ blobMapped.2) blobMapped.1 := by
  have h₁ : Ran ok true true (1 <<< 30) ([] ++ blobCreated.2) blobCreated.1 := .step .wired (hok _ _ (by simp))
  exact .step h₁ (hok _ _ (by simp))

theorem unmaps_grantingHost (s : VirtioGpu3d) : s.Unmaps grantingHost := fun _ _ _ _ => rfl

theorem live_blobMapped :
    (HostSide.start.afterAll (([] ++ blobCreated.2) ++ blobMapped.2)).live = [⟨0, hvfPageSize, 5⟩] := by
  decide +kernel

theorem blob_window_exact_mapped : blobMapped.1.Window [⟨0, hvfPageSize, 5⟩] := by
  have h := (blob_window_exact (by decide) (ran_blobMapped fun s _ _ => unmaps_grantingHost s)).1
  rwa [live_blobMapped] at h

/-- Unmap blob 5. -/
def unmapBlobRequest : List UInt8 := (plainHdr cmdResourceUnmapBlob).toBytes ++ toLeBytes 4 5 ++ toLeBytes 4 0

def secondCreated : VirtioGpu3d × List Call :=
  blobMapped.1.step grantingHost (.command (createBlobRequest 6) (plainHdr cmdResourceCreateBlob))

/-- Blob 6 behind blob 5. -/
def secondMapped : VirtioGpu3d × List Call :=
  secondCreated.1.step grantingHost (.command (mapBlobRequest 6 hvfPageSize) (plainHdr cmdResourceMapBlob))

def blobUnmapped : VirtioGpu3d × List Call :=
  secondMapped.1.step grantingHost (.command unmapBlobRequest (plainHdr cmdResourceUnmapBlob))

/-- The calls up to the unmapping of blob 5. -/
def callsBefore : List Call := (([] ++ blobCreated.2) ++ blobMapped.2) ++ secondCreated.2 ++ secondMapped.2

/-- Blob 5 is given back after the port let go of it, while blob 6 is live. -/
theorem released_when_unmapped_second : ∃ before, callsBefore ++ blobUnmapped.2 = before ++ [.unmapBlob 5] ∧
    (HostSide.start.afterAll before).live = [⟨hvfPageSize, hvfPageSize, 6⟩] ∧
    ∀ i ∈ (HostSide.start.afterAll before).live, ¬(Call.unmapBlob 5).Releases i.owner := by
  have hlog : callsBefore ++ blobUnmapped.2 = (callsBefore ++ [.portUnmap 0 hvfPageSize true]) ++ [.unmapBlob 5] := by
    decide +kernel
  have hr : Ran (fun host s op => s.Unmaps host ∧
    (op = .reset → ∀ resourceId, s.mappedAt resourceId = none)) true true
      (1 <<< 30) (callsBefore ++ blobUnmapped.2) blobUnmapped.1 :=
    (((ran_blobMapped fun s _ hop => ⟨unmaps_grantingHost s, fun heq => absurd heq hop⟩).step
      ⟨unmaps_grantingHost _, nofun⟩).step ⟨unmaps_grantingHost _, nofun⟩).step ⟨unmaps_grantingHost _,
        nofun⟩
  exact ⟨_, hlog, by decide +kernel, released_when_unmapped (by decide) hr hlog⟩

/-- The reset of the device gives the memory of a mapped blob back before the window lets go of it. -/
theorem released_before_unmapped :
    ¬∀ log s, Ran (fun host s _ => s.Unmaps host) true true (1 <<< 30) log s → ∀ before c later,
      log = before ++ c :: later → ∀ i ∈ (HostSide.start.afterAll before).live, ¬c.Releases i.owner := by
  intro hall
  have hr : Ran (fun host s _ => s.Unmaps host) true true (1 <<< 30) _ _ :=
    ran_blobMapped fun s _ _ => unmaps_grantingHost s
  have hreset : Ran _ true true (1 <<< 30) (_ ++ (blobMapped.1.step grantingHost .reset).2) _ :=
    hr.step (unmaps_grantingHost _)
  obtain ⟨later, hlater⟩ := reset_first grantingHost (show blobMapped.1.backend = true by decide +kernel)
  refine hall _ _ hreset (([] ++ blobCreated.2) ++ blobMapped.2) .reset later ?_ ⟨0, hvfPageSize, 5⟩ ?_ trivial
  · rw [List.append_right_inj]
    exact hlater
  · rw [live_blobMapped]
    exact List.mem_singleton.2 rfl

end VirtioGpu3d

end BridgeVm.VirtioGpu
