import BridgeVm.VirtioGpu.Device3d

/-!
# The blob window

The intervals that are live in the map port, told from the calls alone, against the three records that the device keeps
of them: the mapped fields of the blobs, the interval table, and the renderer's mappings.
-/

namespace BridgeVm.VirtioGpu

open Lib

/-! ## What the calls leave on the host -/

/-- A mapped part of the window, and the blob whose memory it shows. -/
structure Interval where
  offset : Nat
  size : Nat
  owner : Nat
deriving DecidableEq, Repr

def Interval.Disjoint (i j : Interval) : Prop := i.offset + i.size ≤ j.offset ∨ j.offset + j.size ≤ i.offset

/-- The intervals live in the map port, and the blobs that the renderer has mapped. -/
structure HostSide where
  live : List Interval
  mapped : Finset Nat

namespace HostSide

def start : HostSide := ⟨[], ∅⟩

/-- What a call changes. A mapping that fails maps nothing, and an unmapping that fails unmaps nothing. -/
def after (h : HostSide) : Call → HostSide
  | .mapBlob resourceId (some _) => { h with mapped := insert resourceId h.mapped }
  | .unmapBlob resourceId => { h with mapped := h.mapped.erase resourceId }
  | .destroyResource resourceId => { h with mapped := h.mapped.erase resourceId }
  | .reset => { h with mapped := ∅ }
  | .portMap _ size shmOffset resourceId true => { h with live := ⟨shmOffset, size, resourceId⟩ :: h.live }
  | .portUnmap shmOffset size true =>
    { h with live := h.live.filter fun i => ¬(i.offset = shmOffset ∧ i.size = size) }
  | _ => h

/-- What a sequence of calls changes. -/
def afterAll (h : HostSide) (calls : List Call) : HostSide := calls.foldl after h

@[simp] theorem afterAll_nil (h : HostSide) : h.afterAll [] = h := rfl

@[simp] theorem afterAll_cons (h : HostSide) (c : Call) (calls : List Call) :
    h.afterAll (c :: calls) = (h.after c).afterAll calls := rfl

theorem afterAll_append (h : HostSide) (calls calls' : List Call) :
    h.afterAll (calls ++ calls') = (h.afterAll calls).afterAll calls' := List.foldl_append

end HostSide

/-! ## The invariant -/

namespace VirtioGpu3d

/-- Where a blob is mapped, if it is. -/
def mappedAt (s : VirtioGpu3d) (resourceId : Nat) : Option (Nat × Nat) :=
  (s.blobResources.get resourceId).bind BlobResource.mapped

/-- The window as the port has it and as the device's records have it. -/
structure Window (s : VirtioGpu3d) (live : List Interval) : Prop where
  aligned : ∀ i ∈ live, i.offset % hvfPageSize = 0 ∧ i.size % hvfPageSize = 0 ∧ 0 < i.size
  inside : ∀ i ∈ live, i.offset + i.size ≤ s.shmWindowSize
  disjoint : live.Pairwise Interval.Disjoint
  intervals : ∀ i, i ∈ live ↔ s.mappedIntervals.get i.offset = some (i.size, i.owner)
  fields : ∀ i, i ∈ live ↔ s.mappedAt i.owner = some (i.offset, i.size)

/-- What keeps the window exact: blobs are not empty, the window fits 64 bits, and only a device with a renderer and a
port maps anything. -/
structure Wired (s : VirtioGpu3d) : Prop where
  sizes : ∀ resourceId resource, s.blobResources.get resourceId = some resource → 0 < resource.size
  window : s.shmWindowSize < 2 ^ 64
  wired : ∀ resourceId, (s.mappedAt resourceId).isSome → s.backend ∧ s.shmPort

/-- Unmapping what is mapped succeeds. -/
def Unmaps (s : VirtioGpu3d) (host : Host) : Prop :=
  ∀ resourceId shmOffset size, s.mappedAt resourceId = some (shmOffset, size) → host.portUnmap shmOffset size = true

/-- The records agree with the host. -/
structure Exact (s : VirtioGpu3d) (h : HostSide) : Prop where
  window : s.Window h.live
  mapped : ∀ resourceId, resourceId ∈ h.mapped ↔ (s.mappedAt resourceId).isSome
  wired : s.Wired

section Window

variable {s s' : VirtioGpu3d} {live : List Interval} {h : HostSide} {host : Host} {resourceId : Nat}

theorem Window.congr (hw : s.Window live) (hsize : s'.shmWindowSize = s.shmWindowSize)
    (hintervals : ∀ offset, s'.mappedIntervals.get offset = s.mappedIntervals.get offset)
    (hfields : ∀ resourceId, s'.mappedAt resourceId = s.mappedAt resourceId) : s'.Window live where
  aligned := hw.aligned
  inside := hsize ▸ hw.inside
  disjoint := hw.disjoint
  intervals i := by rw [hintervals]; exact hw.intervals i
  fields i := by rw [hfields]; exact hw.fields i

theorem Exact.congr (hx : s.Exact h) (hsize : s'.shmWindowSize = s.shmWindowSize)
    (hintervals : ∀ offset, s'.mappedIntervals.get offset = s.mappedIntervals.get offset)
    (hfields : ∀ resourceId, s'.mappedAt resourceId = s.mappedAt resourceId) (hwired : s'.Wired) : s'.Exact h where
  window := hx.window.congr hsize hintervals hfields
  mapped resourceId := by rw [hfields]; exact hx.mapped resourceId
  wired := hwired

theorem Window.eq_of_offset (hw : s.Window live) {i j : Interval} (hi : i ∈ live) (hj : j ∈ live)
    (hoff : i.offset = j.offset) : i = j := by
  have h₁ := (hw.intervals i).1 hi
  have h₂ := (hw.intervals j).1 hj
  rw [hoff, h₂] at h₁
  obtain ⟨io, is, iw⟩ := i
  obtain ⟨jo, js, jw⟩ := j
  cases hoff
  cases h₁
  rfl

theorem Window.eq_of_owner (hw : s.Window live) {i j : Interval} (hi : i ∈ live) (hj : j ∈ live)
    (howner : i.owner = j.owner) : i = j := by
  have h₁ := (hw.fields i).1 hi
  have h₂ := (hw.fields j).1 hj
  rw [howner, h₂] at h₁
  obtain ⟨io, is, iw⟩ := i
  obtain ⟨jo, js, jw⟩ := j
  cases howner
  cases h₁
  rfl

theorem Window.nil_of_unmapped (hw : s.Window live) (hnone : ∀ resourceId, s.mappedAt resourceId = none) :
    live = [] := by
  refine List.eq_nil_iff_forall_not_mem.2 fun i hi => ?_
  have := (hw.fields i).1 hi
  rw [hnone] at this
  cases this

/-! ### Unmapping -/

theorem mappedAt_unmap (s : VirtioGpu3d) (host : Host) (resourceId other : Nat) :
    (s.unmapBlobResource host resourceId).1.mappedAt other = if other = resourceId then none else s.mappedAt other := by
  unfold unmapBlobResource
  cases hm : (s.blobResources.get resourceId).bind BlobResource.mapped with
  | none =>
    simp only
    split
    · rename_i heq
      rw [heq]
      exact hm
    · rfl
  | some place =>
    simp only [mappedAt, AssocMap.get_modify]
    split
    · cases s.blobResources.get other <;> rfl
    · rfl

theorem unmapBlobResource_of_unmapped (hm : s.mappedAt resourceId = none) :
    s.unmapBlobResource host resourceId = (s, []) := by
  unfold mappedAt at hm
  unfold unmapBlobResource
  rw [hm]

theorem unmapBlobResource_of_mapped {shmOffset size : Nat} (hm : s.mappedAt resourceId = some (shmOffset, size))
    (hs : s.Wired) (hu : s.Unmaps host) :
    (s.unmapBlobResource host resourceId).2 = [.portUnmap shmOffset size true, .unmapBlob resourceId] ∧
      (s.unmapBlobResource host resourceId).1.mappedIntervals = s.mappedIntervals.remove shmOffset := by
  obtain ⟨hbackend, hport⟩ := hs.wired resourceId (by rw [hm]; rfl)
  have hok := hu _ _ _ hm
  unfold mappedAt at hm
  unfold unmapBlobResource
  rw [hm]
  simp [hbackend, hport, hok]

@[simp] theorem unmap_window (s : VirtioGpu3d) (host : Host) (resourceId : Nat) :
    (s.unmapBlobResource host resourceId).1.shmWindowSize = s.shmWindowSize := by
  unfold unmapBlobResource
  split <;> rfl

@[simp] theorem unmap_backend (s : VirtioGpu3d) (host : Host) (resourceId : Nat) :
    (s.unmapBlobResource host resourceId).1.backend = s.backend := by
  unfold unmapBlobResource
  split <;> rfl

@[simp] theorem unmap_shmPort (s : VirtioGpu3d) (host : Host) (resourceId : Nat) :
    (s.unmapBlobResource host resourceId).1.shmPort = s.shmPort := by
  unfold unmapBlobResource
  split <;> rfl

theorem get_unmap {other : Nat} {resource : BlobResource}
    (h : (s.unmapBlobResource host resourceId).1.blobResources.get other = some resource) :
    ∃ resource', s.blobResources.get other = some resource' ∧ resource'.size = resource.size := by
  unfold unmapBlobResource at h
  split at h
  · exact ⟨resource, h, rfl⟩
  · simp only [AssocMap.get_modify] at h
    split at h
    · rename_i heq
      obtain ⟨resource', hget, rfl⟩ := Option.map_eq_some_iff.1 h
      exact ⟨resource', heq ▸ hget, rfl⟩
    · exact ⟨resource, h, rfl⟩

theorem Wired.unmap (hs : s.Wired) (resourceId : Nat) : (s.unmapBlobResource host resourceId).1.Wired where
  sizes other resource h := by
    obtain ⟨resource', hget, hsize⟩ := get_unmap h
    rw [← hsize]
    exact hs.sizes other resource' hget
  window := by
    rw [unmap_window]
    exact hs.window
  wired other h := by
    rw [mappedAt_unmap] at h
    rw [unmap_backend, unmap_shmPort]
    split at h
    · cases h
    · exact hs.wired other h

theorem Unmaps.unmap (hu : s.Unmaps host) (resourceId : Nat) : (s.unmapBlobResource host resourceId).1.Unmaps host := by
  intro other shmOffset size h
  rw [mappedAt_unmap] at h
  split at h
  · cases h
  · exact hu other shmOffset size h

/-- What unmapping takes out of the window. -/
theorem Window.unmap (hw : s.Window h.live) (hs : s.Wired) (hu : s.Unmaps host) (resourceId : Nat) :
    (s.unmapBlobResource host resourceId).1.Window (h.afterAll (s.unmapBlobResource host resourceId).2).live := by
  cases hm : s.mappedAt resourceId with
  | none =>
    rw [unmapBlobResource_of_unmapped hm]
    exact hw
  | some place =>
    obtain ⟨shmOffset, size⟩ := place
    obtain ⟨hcalls, hintervals⟩ := unmapBlobResource_of_mapped hm hs hu
    have hmine : (⟨shmOffset, size, resourceId⟩ : Interval) ∈ h.live := (hw.fields _).2 hm
    have hmem : ∀ i, i ∈ (h.afterAll (s.unmapBlobResource host resourceId).2).live ↔
        i ∈ h.live ∧ ¬(i.offset = shmOffset ∧ i.size = size) := by
      intro i
      rw [hcalls]
      simp only [HostSide.afterAll_cons, HostSide.afterAll_nil, HostSide.after, List.mem_filter, decide_eq_true_eq]
    have hsub : (h.afterAll (s.unmapBlobResource host resourceId).2).live.Sublist h.live := by
      rw [hcalls]
      exact List.filter_sublist
    refine ⟨fun i hi => hw.aligned i (hsub.subset hi), fun i hi => ?_, hw.disjoint.sublist hsub, fun i => ?_,
      fun i => ?_⟩
    · rw [unmap_window]
      exact hw.inside i (hsub.subset hi)
    · rw [hmem, hintervals, AssocMap.get_remove]
      split
      · rename_i heq
        refine iff_of_false (fun hi => hi.2 ?_) (by simp)
        have := hw.eq_of_offset hi.1 hmine heq
        rw [this]
        exact ⟨rfl, rfl⟩
      · rename_i hne
        rw [← hw.intervals]
        exact ⟨fun hi => hi.1, fun hi => ⟨hi, fun heq => hne heq.1⟩⟩
    · rw [hmem, mappedAt_unmap]
      split
      · rename_i heq
        refine iff_of_false (fun hi => hi.2 ?_) (by simp)
        have := hw.eq_of_owner hi.1 hmine heq
        rw [this]
        exact ⟨rfl, rfl⟩
      · rename_i hne
        rw [← hw.fields]
        refine ⟨fun hi => hi.1, fun hi => ⟨hi, fun heq => hne ?_⟩⟩
        have := hw.eq_of_offset hi hmine heq.1
        rw [this]

theorem mapped_unmap (hs : s.Wired) (hu : s.Unmaps host) :
    (h.afterAll (s.unmapBlobResource host resourceId).2).mapped =
      if (s.mappedAt resourceId).isSome then h.mapped.erase resourceId else h.mapped := by
  cases hm : s.mappedAt resourceId with
  | none =>
    rw [unmapBlobResource_of_unmapped hm]
    rfl
  | some place =>
    rw [(unmapBlobResource_of_mapped hm hs hu).1]
    rfl

theorem Exact.unmap (hx : s.Exact h) (hu : s.Unmaps host) (resourceId : Nat) :
    (s.unmapBlobResource host resourceId).1.Exact (h.afterAll (s.unmapBlobResource host resourceId).2) where
  window := hx.window.unmap hx.wired hu resourceId
  mapped other := by
    rw [mapped_unmap hx.wired hu, mappedAt_unmap]
    by_cases hm : (s.mappedAt resourceId).isSome
    · by_cases heq : other = resourceId
      · simp [hm, heq]
      · simp [hm, heq, hx.mapped]
    · by_cases heq : other = resourceId
      · simp [hm, heq, hx.mapped]
      · simp [hm, heq, hx.mapped]
  wired := hx.wired.unmap resourceId

/-! ### Mapping -/

theorem checkedNextMultipleOf_some {value multiple next : Nat} (hpos : 0 < multiple)
    (h : checkedNextMultipleOf value multiple = some next) : next % multiple = 0 ∧ value ≤ next ∧
    next < 2 ^ 64 := by
  unfold checkedNextMultipleOf at h
  simp only at h
  split at h
  · rename_i hlt
    cases h
    refine ⟨Nat.mul_mod_left _ _, ?_, hlt⟩
    have := Nat.div_add_mod (value + multiple - 1) multiple
    have := Nat.mod_lt (value + multiple - 1) hpos
    rw [Nat.mul_comm]
    omega
  · cases h

theorem apart_of_not_overlaps {start size : Nat} (h : s.intervalOverlaps start size = false) {other size' owner : Nat}
    (hget : s.mappedIntervals.get other = some (size', owner)) :
    saturatingAdd other size' ≤ start ∨ start + size ≤ other := by
  unfold intervalOverlaps at h
  split at h
  · cases h
  · have := List.any_eq_false.1 h _ (AssocMap.mem_iff_get.2 hget)
    simp only [decide_eq_true_eq] at this
    omega

/-- What RESOURCE_MAP_BLOB has checked. -/
theorem mapCheck_some {shmOffset size : Nat} {resource : BlobResource}
    (h : s.mapCheck resourceId shmOffset = some (resource, size)) :
    s.blobResources.get resourceId = some resource ∧ resource.mapped = none ∧
      checkedNextMultipleOf resource.size hvfPageSize = some size ∧ shmOffset % hvfPageSize = 0 ∧
      shmOffset + size < 2 ^ 64 ∧ shmOffset + size ≤ s.shmWindowSize ∧
      s.intervalOverlaps shmOffset size = false ∧
      s.backend = true := by
  unfold mapCheck at h
  obtain ⟨resource', hget, h⟩ := Option.bind_eq_some_iff.1 h
  split at h
  · cases h
  · rename_i hmapped
    obtain ⟨size', hsize, h⟩ := Option.bind_eq_some_iff.1 h
    split at h
    · cases h
    · rename_i hplace
      split at h
      · cases h
      · rename_i hbackend
        cases h
        simp only [not_or, not_not, Nat.not_le, Bool.not_eq_true] at hplace hmapped
        refine ⟨hget, ?_, hsize, hplace.1, hplace.2.1, Nat.le_of_not_lt hplace.2.2.1,
          hplace.2.2.2, by simpa using hbackend⟩
        exact Option.not_isSome_iff_eq_none.1 (by simpa using hmapped.1)

/-- The records of a new mapping. -/
def recordMapping (s : VirtioGpu3d) (resourceId shmOffset size : Nat) : VirtioGpu3d :=
  { s with
    blobResources := s.blobResources.modify resourceId fun resource =>
      { resource with mapped := some (shmOffset, size) }
    mappedIntervals := s.mappedIntervals.insert shmOffset (size, resourceId) }

theorem mappedAt_recordMapping {shmOffset size other : Nat} {resource : BlobResource}
    (hget : s.blobResources.get resourceId = some resource) :
    (s.recordMapping resourceId shmOffset size).mappedAt other =
      if other = resourceId then some (shmOffset, size) else s.mappedAt other := by
  unfold mappedAt recordMapping
  rw [AssocMap.get_modify]
  split
  · rename_i heq
    rw [heq, hget]
    rfl
  · rfl

theorem Wired.recordMapping {shmOffset size : Nat} {resource : BlobResource} (hs : s.Wired) (hport : s.shmPort = true)
    (hc : s.mapCheck resourceId shmOffset = some (resource, size)) :
    (s.recordMapping resourceId shmOffset size).Wired where
  sizes other resource' h := by
    unfold VirtioGpu3d.recordMapping at h
    rw [AssocMap.get_modify] at h
    split at h
    · obtain ⟨resource'', hget, rfl⟩ := Option.map_eq_some_iff.1 h
      exact hs.sizes other resource'' hget
    · exact hs.sizes other resource' h
  window := hs.window
  wired other h := by
    obtain ⟨hget, -, -, -, -, -, -, hbackend⟩ := mapCheck_some hc
    exact ⟨hbackend, hport⟩

/-- A mapping that passed the checks has a place of its own. -/
theorem Window.map {shmOffset size : Nat} {resource : BlobResource} (hw : s.Window live) (hs : s.Wired)
    (hc : s.mapCheck resourceId shmOffset = some (resource, size)) :
    (s.recordMapping resourceId shmOffset size).Window (⟨shmOffset, size, resourceId⟩ :: live) := by
  obtain ⟨hget, hmapped, hsize, haligned, hlt, hinside, hoverlap, -⟩ := mapCheck_some hc
  obtain ⟨hmod, hle, -⟩ := checkedNextMultipleOf_some (by decide) hsize
  have hpos : 0 < size := Nat.lt_of_lt_of_le (hs.sizes resourceId resource hget) hle
  have hapart : ∀ i ∈ live, (⟨shmOffset, size, resourceId⟩ : Interval).Disjoint i := by
    intro i hi
    have hend := hw.inside i hi
    have hbound := hs.window
    have := apart_of_not_overlaps hoverlap ((hw.intervals i).1 hi)
    unfold saturatingAdd at this
    show shmOffset + size ≤ i.offset ∨ i.offset + i.size ≤ shmOffset
    omega
  have hfresh : s.mappedAt resourceId = none := by
    unfold mappedAt
    rw [hget]
    exact hmapped
  refine ⟨?_, ?_, List.pairwise_cons.2 ⟨hapart, hw.disjoint⟩, fun i => ?_, fun i => ?_⟩
  · rintro i (_ | ⟨_, hi⟩)
    · exact ⟨haligned, hmod, hpos⟩
    · exact hw.aligned i hi
  · rintro i (_ | ⟨_, hi⟩)
    · exact hinside
    · exact hw.inside i hi
  · simp only [VirtioGpu3d.recordMapping, AssocMap.get_insert, List.mem_cons]
    split
    · rename_i heq
      -- an older interval at the same place would have overlapped
      have hold : i ∉ live := by
        intro hi
        have hdisjoint := hapart i hi
        have hpos' := (hw.aligned i hi).2.2
        unfold Interval.Disjoint at hdisjoint
        simp only at hdisjoint
        omega
      obtain ⟨io, is, iw⟩ := i
      simp only at heq
      subst heq
      simp [hold, eq_comm]
    · rename_i hne
      rw [← hw.intervals]
      refine ⟨fun h => h.resolve_left fun heq => hne ?_, Or.inr⟩
      rw [heq]
  · rw [List.mem_cons, mappedAt_recordMapping hget]
    split
    · rename_i heq
      have hold : i ∉ live := by
        intro hi
        have := (hw.fields i).1 hi
        rw [heq, hfresh] at this
        cases this
      obtain ⟨io, is, iw⟩ := i
      simp only at heq
      subst heq
      simp [hold, eq_comm]
    · rename_i hne
      rw [← hw.fields]
      refine ⟨fun h => h.resolve_left fun heq => hne ?_, Or.inr⟩
      rw [heq]

theorem Exact.map {shmOffset size hostPtr : Nat} {resource : BlobResource} {mapped : MappedBlob} (hx : s.Exact h)
    (hport : s.shmPort = true) (hc : s.mapCheck resourceId shmOffset = some (resource, size)) :
    (s.recordMapping resourceId shmOffset size).Exact
      (h.afterAll [.mapBlob resourceId (some mapped), .portMap hostPtr size shmOffset resourceId true]) where
  window := hx.window.map hx.wired hc
  mapped other := by
    obtain ⟨hget, -⟩ := mapCheck_some hc
    rw [mappedAt_recordMapping hget]
    show other ∈ insert resourceId h.mapped ↔ _
    rw [Finset.mem_insert, hx.mapped]
    split
    · rename_i heq
      simp [heq]
    · rename_i hne
      simp [hne]
  wired := hx.wired.recordMapping hport hc

end Window

end VirtioGpu3d

end BridgeVm.VirtioGpu
