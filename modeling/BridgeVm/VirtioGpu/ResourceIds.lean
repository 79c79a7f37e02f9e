import BridgeVm.VirtioGpu.BlobRuns
import BridgeVm.VirtioGpu.Device

/-!
# Resource ids

Which ids each registry holds after a command; the 2D registry and its copy in the 3D device, the memory of the 2D
resources, and when an id names one resource.
-/

namespace BridgeVm.VirtioGpu

open Lib

/-! ## The registries of the 3D device -/

namespace VirtioGpu3d

/-- The same ids are live. -/
structure SameIds (g g' : VirtioGpu3d) : Prop where
  ids2d : g'.resource2dIds = g.resource2dIds
  ids3d : g'.resource3dIds = g.resource3dIds
  blobs : ∀ resourceId, (g'.blobResources.get resourceId).isSome = (g.blobResources.get resourceId).isSome

/-- What a command does to the registries: nothing, or it adds one id to one of them. -/
inductive Registers (g : VirtioGpu3d) (hdr : CtrlHdr) (resourceId : Nat) (g' : VirtioGpu3d) : Prop
  | same (h : g.SameIds g')
  | create3d (htyp : hdr.typ = cmdResourceCreate3d) (hfresh : ¬g.resourceExists resourceId) (hid : resourceId ≠ 0)
      (h2d : g'.resource2dIds = g.resource2dIds) (h3d : g'.resource3dIds = insert resourceId g.resource3dIds)
      (hblobs : g'.blobResources = g.blobResources)
  | createBlob (htyp : hdr.typ = cmdResourceCreateBlob) (hfresh : g.blobResources.get resourceId = none)
      (h2d : g'.resource2dIds = g.resource2dIds) (h3d : g'.resource3dIds = g.resource3dIds)
      (hblobs : ∀ other, (g'.blobResources.get other).isSome =
        (decide (other = resourceId) || (g.blobResources.get other).isSome))

section Registers

variable {g : VirtioGpu3d} {host : Host} {request : List UInt8} {hdr : CtrlHdr}

theorem SameIds.unchanged : g.SameIds g := ⟨rfl, rfl, fun _ => rfl⟩

theorem sameIds_modify {change : BlobResource → BlobResource} {resourceId : Nat}
    {intervals : AssocMap Nat (Nat × Nat)} :
    g.SameIds { g with blobResources := g.blobResources.modify resourceId change, mappedIntervals := intervals } := by
  refine ⟨rfl, rfl, fun other => ?_⟩
  rw [AssocMap.get_modify]
  split
  · exact Option.isSome_map
  · rfl

theorem sameIds_ctxCreateInto : g.SameIds (g.ctxCreateInto host request hdr).gpu := by
  unfold ctxCreateInto
  split
  · exact .unchanged
  split
  · exact .unchanged
  simp only
  split
  · exact .unchanged
  · exact ⟨rfl, rfl, fun _ => rfl⟩

theorem sameIds_ctxDestroyInto : g.SameIds (g.ctxDestroyInto hdr).gpu := by
  unfold ctxDestroyInto
  split
  · exact .unchanged
  · exact ⟨rfl, rfl, fun _ => rfl⟩

theorem sameIds_ctxResourceInto {change : Nat → Finset Nat → Finset Nat} {call : Nat → Nat → Call} :
    g.SameIds (g.ctxResourceInto change call request hdr).gpu := by
  unfold ctxResourceInto
  simp only
  split
  · exact .unchanged
  split
  · exact .unchanged
  · exact ⟨rfl, rfl, fun _ => rfl⟩

theorem sameIds_transfer3dInto {toHost : Bool} : g.SameIds (g.transfer3dInto host toHost request hdr).gpu := by
  unfold transfer3dInto
  simp only
  split
  · exact .unchanged
  split
  · exact .unchanged
  split
  · exact .unchanged
  split
  · exact .unchanged
  · exact .unchanged

theorem registers_resourceCreate3dInto (htyp : hdr.typ = cmdResourceCreate3d) :
    g.Registers hdr ((readLeU32 request 24).getD 0) (g.resourceCreate3dInto host request hdr).gpu := by
  unfold resourceCreate3dInto
  simp only
  split
  · exact .same .unchanged
  split
  · exact .same .unchanged
  rename_i hfresh
  split
  · exact .same .unchanged
  · simp only [not_or] at hfresh
    exact .create3d htyp hfresh.2 hfresh.1 rfl rfl rfl

theorem registers_resourceCreateBlobInto (htyp : hdr.typ = cmdResourceCreateBlob) :
    g.Registers hdr ((readLeU32 request 24).getD 0) (g.resourceCreateBlobInto host request hdr).gpu := by
  unfold resourceCreateBlobInto
  simp only
  split
  · exact .same .unchanged
  split
  · exact .same .unchanged
  split
  · exact .same .unchanged
  rename_i hnew
  split
  · exact .same .unchanged
  split
  · exact .same .unchanged
  split
  · exact .same .unchanged
  split
  · exact .same .unchanged
  split
  · exact .same .unchanged
  split
  · exact .same .unchanged
  · simp only [not_or, Bool.not_eq_true, Option.isSome_eq_false_iff, Option.isNone_iff_eq_none] at hnew
    refine .createBlob htyp hnew.2.2 rfl rfl fun other => ?_
    simp only [answer, AssocMap.get_insert]
    split
    · rename_i heq
      simp [heq]
    · rename_i hne
      simp [hne]

theorem sameIds_resourceMapBlobInto : g.SameIds (g.resourceMapBlobInto host request hdr).gpu := by
  unfold resourceMapBlobInto
  simp only
  split
  · exact .unchanged
  split
  · exact .unchanged
  split
  · exact .unchanged
  split
  · exact .unchanged
  split
  · exact .unchanged
  · exact sameIds_modify

theorem sameIds_unmapBlobResource (host : Host) (g : VirtioGpu3d) (resourceId : Nat) :
    g.SameIds (g.unmapBlobResource host resourceId).1 := by
  unfold unmapBlobResource
  split
  · exact .unchanged
  · exact sameIds_modify

theorem sameIds_resourceUnmapBlobInto : g.SameIds (g.resourceUnmapBlobInto host request hdr).gpu := by
  unfold resourceUnmapBlobInto
  simp only
  split
  · exact .unchanged
  split
  · exact .unchanged
  · exact sameIds_unmapBlobResource _ _ _

theorem registers_handle {o : Outcome} (ho : g.handle host request hdr = some o) :
    g.Registers hdr ((readLeU32 request 24).getD 0) o.gpu := by
  cases handle_cases ho with
  | respond => exact .same .unchanged
  | createBlob htyp => exact registers_resourceCreateBlobInto htyp
  | ctxCreate => exact .same sameIds_ctxCreateInto
  | ctxDestroy => exact .same sameIds_ctxDestroyInto
  | ctxAttach => exact .same sameIds_ctxResourceInto
  | ctxDetach => exact .same sameIds_ctxResourceInto
  | create3d htyp => exact registers_resourceCreate3dInto htyp
  | transfer toHost => exact .same sameIds_transfer3dInto
  | mapBlob => exact .same sameIds_resourceMapBlobInto
  | unmapBlob => exact .same sameIds_resourceUnmapBlobInto

/-- An unref takes the id out of every registry. -/
theorem unref_ids (host : Host) (g : VirtioGpu3d) (resourceId : Nat) :
    (g.unrefResource host resourceId).1.resource2dIds = g.resource2dIds.erase resourceId ∧
      (g.unrefResource host resourceId).1.resource3dIds = g.resource3dIds.erase resourceId ∧
      ∀ other, ((g.unrefResource host resourceId).1.blobResources.get other).isSome =
        (!decide (other = resourceId) && (g.blobResources.get other).isSome) := by
  unfold unrefResource
  simp only
  split
  · obtain ⟨h2d, h3d, hblobs⟩ := sameIds_unmapBlobResource host { g with
      ctxResources := g.ctxResources.mapValues fun _ resources => resources.erase resourceId
      resource2dIds := g.resource2dIds.erase resourceId
      resource3dIds := g.resource3dIds.erase resourceId
      local3dBacking := g.local3dBacking.remove resourceId
      resource3dInfo := g.resource3dInfo.remove resourceId } resourceId
    refine ⟨h2d, h3d, fun other => ?_⟩
    simp only [AssocMap.get_remove]
    split
    · rename_i heq
      simp [heq]
    · rename_i hne
      rw [hblobs]
      simp [hne]
  · rename_i hnone
    refine ⟨rfl, rfl, fun other => ?_⟩
    by_cases heq : other = resourceId
    · rw [heq]
      simp [hnone]
    · simp [heq]

theorem reset_ids (host : Host) (g : VirtioGpu3d) :
    (g.reset host).1.resource2dIds = ∅ ∧ (g.reset host).1.resource3dIds = ∅ ∧
      ∀ other, ((g.reset host).1.blobResources.get other).isSome = false := by
  have hids : ∀ (ids : List Nat) (g : VirtioGpu3d), g.SameIds (g.unmapAllBlobs host ids).1 := by
    intro ids
    induction ids with
    | nil => exact fun _ => .unchanged
    | cons resourceId ids ih =>
      intro g
      obtain ⟨h2d, h3d, hblobs⟩ := ih (g.unmapBlobResource host resourceId).1
      obtain ⟨h2d', h3d', hblobs'⟩ := sameIds_unmapBlobResource host g resourceId
      unfold unmapAllBlobs
      exact ⟨h2d.trans h2d', h3d.trans h3d', fun other => (hblobs other).trans (hblobs' other)⟩
  unfold reset
  simp only
  exact ⟨(hids _ _).ids2d, (hids _ _).ids3d, fun other => rfl⟩

end Registers

end VirtioGpu3d

/-! ## The device -/

namespace Device

/-- The bytes that the 2D resources hold. -/
def hostmem (s : Device) : Nat := s.resources.total GpuResource.hostPixels

/-- What holds of the resources in every run: the 3D device knows the 2D ids, and the pixels fit the budget. -/
structure Registered (s : Device) : Prop where
  ids : ∀ resourceId, (s.resources.get resourceId).isSome ↔ resourceId ∈ s.threeD.resource2dIds
  hostmem : s.hostmem < max2dHostmem

/-- No id is live in two registries. -/
structure Once (s : Device) : Prop where
  apart : Disjoint s.threeD.resource2dIds s.threeD.resource3dIds
  blobs : ∀ resourceId, (s.threeD.blobResources.get resourceId).isSome →
    resourceId ∉ s.threeD.resource2dIds ∧ resourceId ∉ s.threeD.resource3dIds

/-- An id is live. -/
def Live (s : Device) (resourceId : Nat) : Prop :=
  (s.resources.get resourceId).isSome ∨ resourceId ∈ s.threeD.resource3dIds ∨
    (s.threeD.blobResources.get resourceId).isSome

/-- A 2D resource is not created over a 3D resource or a blob, nor a blob over a 2D or 3D resource. -/
def CreatesApart (s : Device) : Op → Prop
  | .control request => ∀ hdr, CtrlHdr.parse request = some hdr →
      (hdr.typ = cmdResourceCreate2d → ∀ resourceId, readLeU32 request 24 = some resourceId →
        resourceId ∉ s.threeD.resource3dIds ∧ s.threeD.blobResources.get resourceId = none) ∧
      (hdr.typ = cmdResourceCreateBlob →
        (readLeU32 request 24).getD 0 ∉ s.threeD.resource2dIds ∧
        (readLeU32 request 24).getD 0 ∉ s.threeD.resource3dIds)
  | _ => True

section Steps

variable {s s' : Device} {host : Host} {display : Display} {request : List UInt8} {hdr : CtrlHdr} {resourceId : Nat}

/-- A step that leaves the ids alone. -/
structure SameResources (s s' : Device) : Prop where
  resources : ∀ resourceId, (s'.resources.get resourceId).isSome = (s.resources.get resourceId).isSome
  hostmem : s'.hostmem ≤ s.hostmem
  threeD : s.threeD.SameIds s'.threeD

theorem SameResources.of_eq (hresources : s'.resources = s.resources) (hthreeD : s'.threeD = s.threeD) :
    SameResources s s' := by
  refine ⟨fun _ => by rw [hresources], ?_, ?_⟩
  · unfold Device.hostmem
    rw [hresources]
  · rw [hthreeD]
    exact .unchanged

theorem SameResources.registered (h : SameResources s s') (hs : s.Registered) : s'.Registered where
  ids resourceId := by
    rw [h.resources, h.threeD.ids2d]
    exact hs.ids resourceId
  hostmem := Nat.lt_of_le_of_lt h.hostmem hs.hostmem

theorem SameResources.once (h : SameResources s s') (hs : s.Once) : s'.Once where
  apart := by
    rw [h.threeD.ids2d, h.threeD.ids3d]
    exact hs.apart
  blobs resourceId hblob := by
    rw [h.threeD.ids2d, h.threeD.ids3d]
    rw [h.threeD.blobs] at hblob
    exact hs.blobs resourceId hblob

/-! ### CREATE_2D -/

theorem createLen_some {width height len : Nat} (h : s.createLen resourceId width height = some len) :
    len = width * height * 4 ∧ s.hostmemAfterCreate resourceId len < max2dHostmem := by
  unfold createLen at h
  simp only at h
  split at h
  · rename_i hfits
    cases h
    exact ⟨rfl, hfits.2⟩
  · cases h

/-- CREATE_2D changes nothing, or it sets one id. -/
theorem resourceCreate2dInto_cases (s : Device) (request : List UInt8) (hdr : CtrlHdr) :
    (∃ typ, s.resourceCreate2dInto request hdr = (s, responseHdr2d typ (some hdr))) ∨
    ∃ resourceId resource, readLeU32 request 24 = some resourceId ∧ resourceId ≠ 0 ∧
      s.hostmemAfterCreate resourceId resource.hostPixels < max2dHostmem ∧
      s.resourceCreate2dInto request hdr = ({ s with
        resources := s.resources.insert resourceId resource
        threeD := s.threeD.register2dResource resourceId }, responseHdr2d respOkNodata (some hdr)) := by
  unfold resourceCreate2dInto
  split
  · exact .inl ⟨_, rfl⟩
  · rename_i resourceId hid
    simp only
    split
    · exact .inl ⟨_, rfl⟩
    · rename_i hvalid
      simp only [not_or] at hvalid
      split
      · exact .inl ⟨_, rfl⟩
      · rename_i len hlen
        obtain ⟨-, hfits⟩ := createLen_some hlen
        exact .inr ⟨resourceId, _, hid, hvalid.1, hfits, rfl⟩

theorem hostmem_insert {resource : GpuResource}
    (hfits : s.hostmemAfterCreate resourceId resource.hostPixels < max2dHostmem) :
    (s.resources.insert resourceId resource).total GpuResource.hostPixels < max2dHostmem := by
  have htotal : (s.resources.insert resourceId resource).total GpuResource.hostPixels =
      (s.resources.remove resourceId).total GpuResource.hostPixels + resource.hostPixels := by
    unfold AssocMap.total AssocMap.insert
    simp
  unfold hostmemAfterCreate VirtioGpu3d.saturatingAdd at hfits
  have hmax : max2dHostmem < 2 ^ 64 - 1 := by decide
  rw [htotal]
  omega

theorem registered_create2d {resource : GpuResource} (hs : s.Registered) (hid : resourceId ≠ 0)
    (hfits : s.hostmemAfterCreate resourceId resource.hostPixels < max2dHostmem) :
    Registered { s with
      resources := s.resources.insert resourceId resource
      threeD := s.threeD.register2dResource resourceId } where
  ids other := by
    unfold VirtioGpu3d.register2dResource
    simp only [AssocMap.get_insert, if_pos hid, Finset.mem_insert]
    split
    · rename_i heq
      simp [heq]
    · rename_i hne
      rw [hs.ids]
      simp [hne]
  hostmem := hostmem_insert hfits

theorem once_create2d {resources : AssocMap Nat GpuResource} (hs : s.Once) (hid : resourceId ≠ 0)
    (h3d : resourceId ∉ s.threeD.resource3dIds) (hblob : s.threeD.blobResources.get resourceId = none) :
    Once { s with
      resources := resources
      threeD := s.threeD.register2dResource resourceId } := by
  unfold VirtioGpu3d.register2dResource
  rw [if_pos hid]
  refine ⟨Finset.disjoint_insert_left.2 ⟨h3d, hs.apart⟩, fun other hother => ?_⟩
  obtain ⟨h2d', h3d'⟩ := hs.blobs other hother
  refine ⟨fun hmem => ?_, h3d'⟩
  rcases Finset.mem_insert.1 hmem with heq | hmem
  · rw [heq, hblob] at hother
    cases hother
  · exact h2d' hmem

/-! ### The other commands -/

theorem registered_unref (hs : s.Registered) : (s.resourceUnrefInto host request hdr).1.Registered := by
  unfold resourceUnrefInto
  split
  · exact hs
  · rename_i resourceId hid
    generalize hs₁ : (if s.blobScanout.map BlobScanout.resourceId = some resourceId then s.unbindBlobScanout else s) =
      s₁
    have hs' : s₁.Registered := by
      subst hs₁
      split
      · exact ⟨hs.ids, hs.hostmem⟩
      · exact hs
    obtain ⟨h2d, -, -⟩ := VirtioGpu3d.unref_ids host s₁.threeD resourceId
    refine ⟨fun other => ?_, Nat.lt_of_le_of_lt (AssocMap.total_retain _ _) hs'.hostmem⟩
    simp only [AssocMap.get_remove]
    rw [h2d, Finset.mem_erase, ← hs'.ids]
    split
    · rename_i heq
      simp [heq]
    · rename_i hne
      simp [hne]

theorem once_unref (hs : s.Once) : (s.resourceUnrefInto host request hdr).1.Once := by
  unfold resourceUnrefInto
  split
  · exact hs
  · rename_i resourceId hid
    generalize hs₁ : (if s.blobScanout.map BlobScanout.resourceId = some resourceId then s.unbindBlobScanout else s) =
      s₁
    have hs' : s₁.Once := by
      subst hs₁
      split
      · exact ⟨hs.apart, hs.blobs⟩
      · exact hs
    obtain ⟨h2d, h3d, hblobs⟩ := VirtioGpu3d.unref_ids host s₁.threeD resourceId
    refine ⟨?_, fun other hother => ?_⟩
    · simp only
      rw [h2d, h3d]
      exact (hs'.apart.mono_left (Finset.erase_subset _ _)).mono_right (Finset.erase_subset _ _)
    · simp only at hother ⊢
      rw [hblobs, Bool.and_eq_true] at hother
      rw [h2d, h3d]
      obtain ⟨h2d', h3d'⟩ := hs'.blobs other hother.2
      exact ⟨fun hmem => h2d' (Finset.mem_of_mem_erase hmem), fun hmem => h3d' (Finset.mem_of_mem_erase hmem)⟩

theorem sameResources_modify {backing : List BlobMemEntry} : SameResources s { s with
    resources := s.resources.modify resourceId fun resource => { resource with backing := backing } } := by
  refine ⟨fun other => ?_, AssocMap.total_mapValues _ fun kv _ => ?_, .unchanged⟩
  · simp only [AssocMap.get_modify]
    split
    · exact Option.isSome_map
    · rfl
  · split
    · exact Nat.le_refl _
    · exact Nat.le_refl _

theorem sameIds_attach3dBacking {g : VirtioGpu3d} {backing : List BlobMemEntry} :
    g.SameIds (attach3dBacking host display g resourceId backing).1 := by
  unfold attach3dBacking
  split
  · exact .unchanged
  split
  · exact .unchanged
  split
  · split
    · exact .unchanged
    · simp only
      split
      · exact ⟨rfl, rfl, fun _ => rfl⟩
      · exact .unchanged
  · exact .unchanged

theorem sameResources_attach : SameResources s (s.attachBackingInto host display request hdr).1 := by
  unfold attachBackingInto
  split
  · exact .of_eq rfl rfl
  simp only
  split
  · exact .of_eq rfl rfl
  split
  · exact sameResources_modify
  split
  · exact ⟨fun _ => rfl, Nat.le_refl _, sameIds_attach3dBacking⟩
  · exact .of_eq rfl rfl

theorem sameResources_detach : SameResources s (s.detachBackingInto display request hdr).1 := by
  unfold detachBackingInto
  split
  · exact .of_eq rfl rfl
  simp only
  split
  · exact sameResources_modify
  split
  · refine ⟨fun _ => rfl, Nat.le_refl _, ?_⟩
    simp only
    unfold detach3dBacking
    split
    · exact ⟨rfl, rfl, fun _ => rfl⟩
    · exact .unchanged
  · exact .of_eq rfl rfl

theorem sameResources_setScanout : SameResources s (s.setScanoutInto request hdr).1 := by
  unfold setScanoutInto
  simp only
  split
  · exact .of_eq rfl rfl
  split
  · exact .of_eq rfl rfl
  split
  · exact .of_eq rfl rfl
  · unfold adoptRequestedDisplayResolution
    split
    · exact .of_eq rfl rfl
    · exact .of_eq rfl rfl

theorem sameResources_setScanoutBlob : SameResources s (s.setScanoutBlobInto display request hdr).1 := by
  unfold setScanoutBlobInto
  simp only
  split
  · exact .of_eq rfl rfl
  split
  · exact .of_eq rfl rfl
  split
  · exact .of_eq rfl rfl
  split
  · exact .of_eq rfl rfl
  split
  · exact .of_eq rfl rfl
  · unfold adoptRequestedDisplayResolution
    split
    · exact .of_eq rfl rfl
    · exact .of_eq rfl rfl

theorem sameResources_flush : SameResources s (s.resourceFlushInto request hdr).1 := by
  unfold resourceFlushInto
  simp only
  split
  · exact .of_eq rfl rfl
  · exact .of_eq rfl rfl

/-! ### Presents leave the resources alone -/

theorem finish_resources : s.finishAsyncPresent.resources = s.resources ∧ s.finishAsyncPresent.threeD = s.threeD := by
  unfold finishAsyncPresent
  split
  · exact ⟨rfl, rfl⟩
  · exact ⟨rfl, rfl⟩

theorem dispatch_resources (display : Display) (s : Device) (frame : PresentRequest) (rect : Rect) :
    (s.dispatchAsyncPresent display frame rect).1.resources = s.resources ∧
      (s.dispatchAsyncPresent display frame rect).1.threeD = s.threeD := by
  unfold dispatchAsyncPresent
  split
  · exact ⟨rfl, rfl⟩
  · exact ⟨rfl, rfl⟩

theorem collect_resources (display : Display) (s : Device) :
    (s.collectAsyncPresent display).1.resources = s.resources ∧
    (s.collectAsyncPresent display).1.threeD = s.threeD := by
  unfold collectAsyncPresent
  split
  · exact ⟨rfl, rfl⟩
  split
  · exact ⟨rfl, rfl⟩
  simp only
  split
  · exact ⟨rfl, rfl⟩
  · exact dispatch_resources _ _ _ _

theorem service_resources (display : Display) (s : Device) (resourceId : Nat) (rect : Rect) :
    (s.serviceAsyncPresent display resourceId rect).1.resources = s.resources ∧
      (s.serviceAsyncPresent display resourceId rect).1.threeD = s.threeD := by
  obtain ⟨hresources, hthreeD⟩ := collect_resources display s
  unfold serviceAsyncPresent
  split
  · exact ⟨rfl, rfl⟩
  simp only
  split
  · exact ⟨hresources, hthreeD⟩
  split
  · obtain ⟨hresources', hthreeD'⟩ := dispatch_resources display _ _ _
    exact ⟨hresources'.trans hresources, hthreeD'.trans hthreeD⟩
  · exact ⟨hresources, hthreeD⟩

theorem sameResources_drain : SameResources s (s.serviceDeferred3dScanout display).1 := by
  obtain ⟨hresources, hthreeD⟩ := collect_resources display s
  unfold serviceDeferred3dScanout
  simp only
  split
  · exact .of_eq hresources hthreeD
  split
  · exact .of_eq hresources hthreeD
  split
  · exact .of_eq hresources hthreeD
  · rename_i resourceId rect _ _ _
    obtain ⟨hresources', hthreeD'⟩ :=
      service_resources display (s.collectAsyncPresent display).1 resourceId rect
    split
    · exact .of_eq (hresources'.trans hresources) (hthreeD'.trans hthreeD)
    · exact .of_eq (hresources'.trans hresources) (hthreeD'.trans hthreeD)

/-! ### One step -/

theorem unbindDestroyedContext_ids (s : Device) (hdr : CtrlHdr) :
    (s.unbindDestroyedContext hdr).threeD = s.threeD ∧ (s.unbindDestroyedContext hdr).resources = s.resources := by
  unfold unbindDestroyedContext
  dsimp only
  split
  · exact ⟨rfl, rfl⟩
  · exact ⟨rfl, rfl⟩

/-- What one request does to the registries. -/
theorem registered_control (hs : s.Registered) : (s.handleControlRequest host display request).1.Registered := by
  have hran := handleControlRequest_cases host display s request
  generalize s.handleControlRequest host display request = result at hran ⊢
  cases hran with
  | answered response => exact hs
  | create2d hdr _ _ =>
    obtain ⟨typ, heq⟩ | ⟨resourceId, resource, -, hid, hfits, heq⟩ := resourceCreate2dInto_cases s request hdr
    · rw [heq]
      exact hs
    · rw [heq]
      exact registered_create2d hs hid hfits
  | unref hdr => exact registered_unref hs
  | attach hdr => exact sameResources_attach.registered hs
  | detach hdr => exact sameResources_detach.registered hs
  | setScanout hdr _ _ => exact sameResources_setScanout.registered hs
  | setScanoutBlob hdr _ _ => exact sameResources_setScanoutBlob.registered hs
  | transfer2d hdr => exact hs
  | flush hdr => exact sameResources_flush.registered hs
  | threeD hdr o _ ho =>
    obtain ⟨hthreeD, hresources⟩ := unbindDestroyedContext_ids s hdr
    rw [hthreeD] at ho
    have h2d : o.gpu.resource2dIds = s.threeD.resource2dIds := by
      cases VirtioGpu3d.registers_handle ho with
      | same h => exact h.ids2d
      | create3d _ _ _ h2d => exact h2d
      | createBlob _ _ h2d => exact h2d
    refine ⟨fun resourceId => ?_, ?_⟩
    · dsimp only
      rw [h2d, hresources]
      exact hs.ids resourceId
    · have hmem := hs.hostmem
      unfold hostmem at hmem ⊢
      dsimp only
      rw [hresources]
      exact hmem

theorem once_control (hs : s.Once) (hapart : s.CreatesApart (.control request)) :
    (s.handleControlRequest host display request).1.Once := by
  have hran := handleControlRequest_cases host display s request
  generalize s.handleControlRequest host display request = result at hran ⊢
  cases hran with
  | answered response => exact hs
  | create2d hdr hparse htyp =>
    obtain ⟨typ, heq⟩ | ⟨resourceId, resource, hread, hid, -, heq⟩ := resourceCreate2dInto_cases s request hdr
    · rw [heq]
      exact hs
    · obtain ⟨h3d, hblob⟩ := (hapart hdr hparse).1 htyp resourceId hread
      rw [heq]
      exact once_create2d hs hid h3d hblob
  | unref hdr => exact once_unref hs
  | attach hdr => exact sameResources_attach.once hs
  | detach hdr => exact sameResources_detach.once hs
  | setScanout hdr _ _ => exact sameResources_setScanout.once hs
  | setScanoutBlob hdr _ _ => exact sameResources_setScanoutBlob.once hs
  | transfer2d hdr => exact hs
  | flush hdr => exact sameResources_flush.once hs
  | threeD hdr o hparse ho =>
    rw [(unbindDestroyedContext_ids s hdr).1] at ho
    cases VirtioGpu3d.registers_handle ho with
    | same h =>
      refine ⟨?_, fun other hother => ?_⟩
      · simp only
        rw [h.ids2d, h.ids3d]
        exact hs.apart
      · simp only at hother ⊢
        rw [h.blobs] at hother
        rw [h.ids2d, h.ids3d]
        exact hs.blobs other hother
    | create3d _ hfresh hid h2d h3d hblobs =>
      simp only [VirtioGpu3d.resourceExists, decide_eq_true_eq, not_and, not_or] at hfresh
      obtain ⟨hno2d, hno3d, hnoblob⟩ := hfresh hid
      refine ⟨?_, fun other hother => ?_⟩
      · simp only
        rw [h2d, h3d]
        exact Finset.disjoint_insert_right.2 ⟨hno2d, hs.apart⟩
      · simp only at hother ⊢
        rw [hblobs] at hother
        rw [h2d, h3d]
        obtain ⟨h2d', h3d'⟩ := hs.blobs other hother
        refine ⟨h2d', fun hmem => ?_⟩
        rcases Finset.mem_insert.1 hmem with heq | hmem
        · rw [heq] at hother
          exact hnoblob hother
        · exact h3d' hmem
    | createBlob htyp _ h2d h3d hblobs =>
      obtain ⟨hno2d, hno3d⟩ := (hapart hdr hparse).2 htyp
      refine ⟨?_, fun other hother => ?_⟩
      · simp only
        rw [h2d, h3d]
        exact hs.apart
      · simp only at hother ⊢
        rw [hblobs, Bool.or_eq_true, decide_eq_true_eq] at hother
        rw [h2d, h3d]
        rcases hother with heq | hother
        · rw [heq]
          exact ⟨hno2d, hno3d⟩
        · exact hs.blobs other hother

theorem reset_registered (s : Device) (host : Host) :
    (s.resetRuntimeState host).Registered ∧ (s.resetRuntimeState host).Once := by
  unfold resetRuntimeState
  simp only
  obtain ⟨h2d, h3d, hblobs⟩ := VirtioGpu3d.reset_ids host s.finishAsyncPresent.threeD
  refine ⟨⟨fun resourceId => ?_, (show 0 < max2dHostmem by decide)⟩, ⟨?_, fun other hother => ?_⟩⟩
  · simp [unbindBlobScanout, h2d]
  · simp [unbindBlobScanout, h2d]
  · simp [unbindBlobScanout, hblobs] at hother

theorem sameResources_perform {op : Op} (hcontrol : ∀ request, op ≠ .control request) (hreset : op ≠ .reset) :
    SameResources s (s.perform host display op).1 := by
  cases op with
  | control request => exact absurd rfl (hcontrol request)
  | drain => exact sameResources_drain
  | asyncPresent enabled =>
    simp only [perform]
    unfold set3dScanoutAsyncPresent
    split
    · exact .of_eq rfl rfl
    · exact .of_eq finish_resources.1 finish_resources.2
  | deferred deferred =>
    simp only [perform]
    unfold set3dScanoutDeferred
    split
    · exact .of_eq rfl rfl
    · exact .of_eq rfl rfl
  | resize width height =>
    simp only [perform]
    unfold requestDisplayResolution
    split
    · exact .of_eq rfl rfl
    · exact .of_eq rfl rfl
  | reset => exact absurd rfl hreset

theorem registered_step {op : Op} (hs : s.Registered) : (s.step host display op).1.Registered := by
  have hperform : (s.perform host display op).1.Registered := by
    cases op with
    | control request => exact registered_control hs
    | reset => exact (reset_registered s host).1
    | drain => exact (sameResources_perform (by simp) (by simp)).registered hs
    | asyncPresent enabled => exact (sameResources_perform (by simp) (by simp)).registered hs
    | deferred deferred => exact (sameResources_perform (by simp) (by simp)).registered hs
    | resize width height => exact (sameResources_perform (by simp) (by simp)).registered hs
  exact ⟨hperform.ids, hperform.hostmem⟩

theorem once_step {op : Op} (hs : s.Once) (hapart : s.CreatesApart op) :
    (s.step host display op).1.Once := by
  have hperform : (s.perform host display op).1.Once := by
    cases op with
    | control request => exact once_control hs hapart
    | reset => exact (reset_registered s host).2
    | drain => exact (sameResources_perform (by simp) (by simp)).once hs
    | asyncPresent enabled => exact (sameResources_perform (by simp) (by simp)).once hs
    | deferred deferred => exact (sameResources_perform (by simp) (by simp)).once hs
    | resize width height => exact (sameResources_perform (by simp) (by simp)).once hs
  exact ⟨hperform.apart, hperform.blobs⟩

end Steps

/-! ### Runs -/

section Runs

variable {ok : Device → Display → Op → Prop} {s : Device} {host : Host} {display : Display} {request : List UInt8}
  {hdr : CtrlHdr}

theorem Ran.registered (hr : Ran ok s) : s.Registered := by
  induction hr with
  | created width height backend shmPort window =>
    exact ⟨by simp [new, VirtioGpu3d.new], (show 0 < max2dHostmem by decide)⟩
  | step host display hr hok ih => exact registered_step ih

theorem Ran.once (hr : Ran (fun s _ => s.CreatesApart) s) : s.Once := by
  induction hr with
  | created width height backend shmPort window =>
    exact ⟨by simp [new, VirtioGpu3d.new], by simp [new, VirtioGpu3d.new]⟩
  | step host display hr hok ih => exact once_step ih hok

/-- A 3D resource is not created over anything that is live. -/
theorem create3d_refused (hs : s.Registered) (hparse : CtrlHdr.parse request = some hdr)
    (htyp : hdr.typ = cmdResourceCreate3d) (hlive : s.Live ((readLeU32 request 24).getD 0)) :
    s.handleControlRequest host display request = (s, responseHdr3d respErrInvalidParameter hdr) := by
  have hrefused : s.threeD.resourceCreate3dInto host request hdr = s.threeD.answer hdr respErrInvalidParameter [] := by
    unfold VirtioGpu3d.resourceCreate3dInto
    simp only
    split
    · rfl
    · rw [if_pos]
      by_cases hid : (readLeU32 request 24).getD 0 = 0
      · exact .inl hid
      · refine .inr ?_
        unfold VirtioGpu3d.resourceExists
        rw [decide_eq_true_eq]
        refine ⟨hid, ?_⟩
        rcases hlive with h2d | h3d | hblob
        · exact .inl ((hs.ids _).1 h2d)
        · exact .inr (.inl h3d)
        · exact .inr (.inr hblob)
  have hhandle : s.handleControlRequest host display request =
      ({ s with threeD := (s.threeD.resourceCreate3dInto host request hdr).gpu },
        (s.threeD.resourceCreate3dInto host request hdr).response) := by
    unfold handleControlRequest unbindDestroyedContext VirtioGpu3d.handle
    rw [hparse]
    simp only [htyp]
    rfl
  rw [hhandle, hrefused]
  rfl

/-- A blob is not created over a blob that is live. -/
theorem createBlob_refused (hparse : CtrlHdr.parse request = some hdr) (htyp : hdr.typ = cmdResourceCreateBlob)
    (hlive : (s.threeD.blobResources.get ((readLeU32 request 24).getD 0)).isSome) :
    s.handleControlRequest host display request = (s, responseHdr3d respErrInvalidParameter hdr) := by
  have hrefused : s.threeD.resourceCreateBlobInto host request hdr =
    s.threeD.answer hdr respErrInvalidParameter [] := by
    unfold VirtioGpu3d.resourceCreateBlobInto
    simp only
    split
    · rfl
    split
    · rfl
    · rw [if_pos (.inr (.inr hlive))]
  have hhandle : s.handleControlRequest host display request =
      ({ s with threeD := (s.threeD.resourceCreateBlobInto host request hdr).gpu },
        (s.threeD.resourceCreateBlobInto host request hdr).response) := by
    unfold handleControlRequest unbindDestroyedContext VirtioGpu3d.handle
    rw [hparse]
    simp only [htyp]
    rfl
  rw [hhandle, hrefused]
  rfl

theorem create2d_replaces (hparse : CtrlHdr.parse request = some hdr) (htyp : hdr.typ = cmdResourceCreate2d) :
    (s.handleControlRequest host display request).1 = s ∨ ∃ resourceId resource,
    readLeU32 request 24 = some resourceId ∧
      (s.handleControlRequest host display request).1.resources.get resourceId = some resource ∧
      ∀ other, other ≠ resourceId → (s.handleControlRequest host display request).1.resources.get other =
        s.resources.get other := by
  have hcreate : s.handleControlRequest host display request = s.resourceCreate2dInto request hdr := by
    unfold handleControlRequest
    rw [hparse]
    simp only [htyp]
    rfl
  rw [hcreate]
  obtain ⟨typ, heq⟩ | ⟨resourceId, resource, hread, -, -, heq⟩ := resourceCreate2dInto_cases s request hdr
  · rw [heq]
    exact .inl rfl
  · rw [heq]
    refine .inr ⟨resourceId, resource, hread, ?_, fun other hne => ?_⟩
    · simp
    · simp [hne]

/-- The registries in every run: the two records of the 2D ids agree, the 2D pixels stay within the budget, 3D
resources and blobs are not created over their like, 2D resources are replaced; and an id is live once as long as the
kinds are created apart. -/
theorem resource_registries (hr : Ran (fun _ _ _ => True) s) :
    (∀ resourceId, (s.resources.get resourceId).isSome ↔ resourceId ∈ s.threeD.resource2dIds) ∧
      s.hostmem < max2dHostmem ∧
      (∀ host display request hdr, CtrlHdr.parse request = some hdr → hdr.typ = cmdResourceCreate3d →
        s.Live ((readLeU32 request 24).getD 0) →
        s.handleControlRequest host display request = (s, responseHdr3d respErrInvalidParameter hdr)) ∧
      (∀ host display request hdr, CtrlHdr.parse request = some hdr → hdr.typ = cmdResourceCreateBlob →
        (s.threeD.blobResources.get ((readLeU32 request 24).getD 0)).isSome →
        s.handleControlRequest host display request = (s, responseHdr3d respErrInvalidParameter hdr)) ∧
      (∀ host display request hdr, CtrlHdr.parse request = some hdr → hdr.typ = cmdResourceCreate2d →
        (s.handleControlRequest host display request).1 = s ∨ ∃ resourceId resource,
          readLeU32 request 24 = some resourceId ∧
          (s.handleControlRequest host display request).1.resources.get resourceId = some resource ∧
          ∀ other, other ≠ resourceId →
            (s.handleControlRequest host display request).1.resources.get other = s.resources.get other) ∧
      (Ran (fun s _ => s.CreatesApart) s → s.Once) :=
  ⟨hr.registered.ids, hr.registered.hostmem, fun _ _ _ _ hparse htyp hlive =>
    create3d_refused hr.registered hparse htyp hlive,
    fun _ _ _ _ hparse htyp hlive => createBlob_refused hparse htyp hlive,
    fun _ _ _ _ hparse htyp => create2d_replaces hparse htyp, fun hapart => hapart.once⟩

end Runs

/-! ### A 2D resource created twice -/

/-- A renderer that takes every frame and never finishes one. -/
def busyDisplay : Display where
  scanoutMap _ := none
  presentStart _ := some 1
  presentPoll _ _ := false
  readbackDue := true
  attachBacking _ _ := true
  detachBacking _ := true

/-- Create 2D resource 5, one pixel high. -/
def create2dRequest (width : Nat) : List UInt8 :=
  (VirtioGpu3d.plainHdr cmdResourceCreate2d).toBytes ++ toLeBytes 4 5 ++ toLeBytes 4 1 ++ toLeBytes 4 width ++
    toLeBytes 4 1

def created2d : Device :=
  ((new 64 64 (.new true true (1 <<< 30))).step VirtioGpu3d.grantingHost busyDisplay (.control (create2dRequest 1))).1

theorem ran_created2d : Ran (fun _ _ _ => True) created2d := .step _ _ (.created 64 64 true true (1 <<< 30)) trivial

theorem resource_registries_created2d : (created2d.resources.get 5).isSome ↔ 5 ∈ created2d.threeD.resource2dIds :=
  (resource_registries ran_created2d).1 5

/-- A CREATE_2D that names a live id is not refused. -/
theorem live_id_created_again :
    ¬∀ s, Ran (fun _ _ _ => True) s → ∀ host display request hdr resourceId, CtrlHdr.parse request = some hdr →
      hdr.typ = cmdResourceCreate2d → readLeU32 request 24 = some resourceId → s.Live resourceId →
      (s.handleControlRequest host display request).1 = s := by
  intro hall
  have hsame := hall created2d ran_created2d VirtioGpu3d.grantingHost busyDisplay (create2dRequest 2)
    (VirtioGpu3d.plainHdr cmdResourceCreate2d) 5 (by decide +kernel) (by decide) (by decide +kernel)
    (.inl (by decide +kernel))
  have hget : ((created2d.handleControlRequest VirtioGpu3d.grantingHost busyDisplay
    (create2dRequest 2)).1.resources.get 5).map
      GpuResource.width = some 2 := by decide +kernel
  rw [hsame] at hget
  exact absurd hget (by decide +kernel)

end Device

end BridgeVm.VirtioGpu
