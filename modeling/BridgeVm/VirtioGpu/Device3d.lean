import BridgeVm.Lib.AssocMap
import BridgeVm.VirtioGpu.Protocol
import Mathlib.Data.Finset.Basic

/-!
# The 3D device: registries and blob window (`virtio_gpu_3d/`)

Resources, contexts and blobs are created at the renderer's leave and kept in registries of their own; a host blob is
mapped into the guest's shared memory window through the map port. A command returns the calls it makes, in order: the
renderer's and the port's answers are part of the calls.
-/

namespace BridgeVm.VirtioGpu

open Lib

def blobMemGuest : Nat := 1
def blobMemHost3d : Nat := 2
def blobMemHost3dGuest : Nat := 3

def mapCacheMask : Nat := 0x0f

def ctxCreateLen : Nat := 24 + 4 + 4 + 64
def ctxResourceLen : Nat := 24 + 4 + 4
def resourceCreate3dLen : Nat := 24 + 12 * 4
def transfer3dLen : Nat := 24 + 6 * 4 + 8 + 4 * 4
def resourceCreateBlobLen : Nat := 24 + 4 + 4 + 4 + 4 + 8 + 8
def resourceMapBlobLen : Nat := 24 + 4 + 4 + 8
def resourceUnmapBlobLen : Nat := 24 + 4 + 4
def memEntryLen : Nat := 16

/-- `HVF_PAGE_SIZE`. -/
def hvfPageSize : Nat := 16 * 1024

structure BlobMemEntry where
  addr : Nat
  len : Nat
deriving DecidableEq, Repr

/-- The entries of a backing as runs of guest memory. -/
def backingRuns (backing : List BlobMemEntry) : List (Nat × Nat) := backing.map fun e => (e.addr, e.len)

@[simp] theorem backingRuns_nil : backingRuns [] = [] := rfl

@[simp] theorem backingRuns_cons (e : BlobMemEntry) (backing : List BlobMemEntry) :
    backingRuns (e :: backing) = (e.addr, e.len) :: backingRuns backing := rfl

structure BlobHostIovec where
  hostPtr : Nat
  len : Nat
deriving DecidableEq, Repr

/-- `BlobResource`; `mapped` is its place and length in the window. -/
structure BlobResource where
  blobMem : Nat
  size : Nat
  mapped : Option (Nat × Nat)
  backing : List BlobMemEntry
deriving DecidableEq, Repr

structure Create3dArgs where
  resourceId : Nat
  target : Nat
  format : Nat
  bind : Nat
  width : Nat
  height : Nat
  depth : Nat
  arraySize : Nat
  lastLevel : Nat
  nrSamples : Nat
  flags : Nat
deriving DecidableEq, Repr

structure Transfer3dArgs where
  ctxId : Nat
  resourceId : Nat
  x : Nat
  y : Nat
  z : Nat
  width : Nat
  height : Nat
  depth : Nat
  offset : Nat
  level : Nat
  stride : Nat
  layerStride : Nat
deriving DecidableEq, Repr

structure CreateBlobArgs where
  ctxId : Nat
  resourceId : Nat
  blobMem : Nat
  blobFlags : Nat
  blobId : Nat
  size : Nat
  iovecs : List BlobHostIovec
deriving DecidableEq, Repr

/-- `MappedBlob`: what the renderer answers to a mapping; a null pointer is zero. -/
structure MappedBlob where
  hostPtr : Nat
  size : Nat
  mapInfo : Nat
deriving DecidableEq, Repr

/-- One call of the renderer or of the map port, with the answer where the device uses it. A mapping of the window
names the resource whose memory it maps. -/
inductive Call where
  | ctxCreate (ctxId : Nat) (created : Bool)
  | ctxDestroy (ctxId : Nat)
  | ctxAttachResource (ctxId resourceId : Nat)
  | ctxDetachResource (ctxId resourceId : Nat)
  | create3d (args : Create3dArgs) (created : Bool)
  | transfer3d (args : Transfer3dArgs) (toHost : Bool)
  | createBlob (args : CreateBlobArgs) (created : Bool)
  | mapBlob (resourceId : Nat) (mapped : Option MappedBlob)
  | unmapBlob (resourceId : Nat)
  | destroyResource (resourceId : Nat)
  | reset
  | portMap (hostPtr size shmOffset resourceId : Nat) (ok : Bool)
  | portUnmap (shmOffset size : Nat) (ok : Bool)
deriving DecidableEq, Repr

/-- What the renderer, the map port and the guest's memory answer during one command. -/
structure Host where
  ctxCreate : Nat → Nat → List UInt8 → Bool
  create3d : Create3dArgs → Bool
  transfer3d : Transfer3dArgs → Bool → Bool
  createBlob : CreateBlobArgs → Bool
  mapBlob : Nat → Option MappedBlob
  portMap : Nat → Nat → Nat → Bool
  portUnmap : Nat → Nat → Bool
  hostPtr : Nat → Nat → Option Nat
  /-- The response to a capability set query or a submit, which leave the registries alone. -/
  respond : List UInt8 → List UInt8

/-- `VirtioGpu3d`, as far as its resources go. -/
structure VirtioGpu3d where
  backend : Bool
  shmPort : Bool
  shmWindowSize : Nat
  liveContexts : Finset Nat
  ctxResources : AssocMap Nat (Finset Nat)
  resource2dIds : Finset Nat
  resource3dIds : Finset Nat
  resource3dInfo : AssocMap Nat Create3dArgs
  local3dBacking : AssocMap Nat (List BlobMemEntry)
  blobResources : AssocMap Nat BlobResource
  mappedIntervals : AssocMap Nat (Nat × Nat)
deriving DecidableEq

/-- What a command leaves, the calls it made, and its response. -/
structure Outcome where
  gpu : VirtioGpu3d
  calls : List Call
  response : List UInt8

namespace VirtioGpu3d

/-- A device as it is wired up. -/
def new (backend shmPort : Bool) (shmWindowSize : Nat) : VirtioGpu3d where
  backend := backend
  shmPort := shmPort
  shmWindowSize := shmWindowSize
  liveContexts := ∅
  ctxResources := .empty
  resource2dIds := ∅
  resource3dIds := ∅
  resource3dInfo := .empty
  local3dBacking := .empty
  blobResources := .empty
  mappedIntervals := .empty

/-- Answer without a change. -/
def answer (s : VirtioGpu3d) (hdr : CtrlHdr) (typ : Nat) (calls : List Call) : Outcome :=
  ⟨s, calls, responseHdr3d typ hdr⟩

def resourceExists (s : VirtioGpu3d) (resourceId : Nat) : Bool :=
  resourceId ≠ 0 ∧ (resourceId ∈ s.resource2dIds ∨ resourceId ∈ s.resource3dIds ∨
    (s.blobResources.get resourceId).isSome)

/-! ## Contexts -/

def ctxCreateInto (host : Host) (s : VirtioGpu3d) (request : List UInt8) (hdr : CtrlHdr) : Outcome :=
  if !s.backend then s.answer hdr respErrInvalidParameter []
  else if request.length < ctxCreateLen ∨ hdr.ctxId = 0 ∨ hdr.ctxId ∈ s.liveContexts then
    s.answer hdr respErrInvalidParameter []
  else
    let nlen := min ((readLeU32 request 24).getD 0) 64
    let contextInit := (readLeU32 request 28).getD 0
    if !host.ctxCreate hdr.ctxId contextInit (slice request 32 nlen) then
      s.answer hdr respErrUnspec [.ctxCreate hdr.ctxId false]
    else
      let resources := (s.ctxResources.get hdr.ctxId).getD ∅
      { s with
        liveContexts := insert hdr.ctxId s.liveContexts
        ctxResources := s.ctxResources.insert hdr.ctxId resources }.answer hdr respOkNodata [.ctxCreate hdr.ctxId true]

def ctxDestroyInto (s : VirtioGpu3d) (hdr : CtrlHdr) : Outcome :=
  if hdr.ctxId ∉ s.liveContexts then s.answer hdr respErrInvalidParameter []
  else
    { s with
      liveContexts := s.liveContexts.erase hdr.ctxId
      ctxResources := s.ctxResources.remove hdr.ctxId }.answer hdr respOkNodata
      (if s.backend then [.ctxDestroy hdr.ctxId] else [])

/-- `ctx_attach_resource_into` and `ctx_detach_resource_into`, which differ in what they do to the set of the context
and in the call. -/
def ctxResourceInto (change : Nat → Finset Nat → Finset Nat) (call : Nat → Nat → Call) (s : VirtioGpu3d)
    (request : List UInt8) (hdr : CtrlHdr) : Outcome :=
  let resourceId := (readLeU32 request 24).getD 0
  if request.length < ctxResourceLen then s.answer hdr respErrInvalidParameter []
  else if !s.resourceExists resourceId then s.answer hdr respErrInvalidParameter []
  else
    { s with ctxResources := s.ctxResources.modify hdr.ctxId (change resourceId) }.answer hdr respOkNodata
      (if (s.local3dBacking.get resourceId).isNone ∧ s.backend then [call hdr.ctxId resourceId] else [])

def ctxAttachResourceInto : VirtioGpu3d → List UInt8 → CtrlHdr → Outcome :=
  ctxResourceInto (fun resourceId resources => insert resourceId resources) .ctxAttachResource

def ctxDetachResourceInto : VirtioGpu3d → List UInt8 → CtrlHdr → Outcome :=
  ctxResourceInto (fun resourceId resources => resources.erase resourceId) .ctxDetachResource

/-! ## 2D and 3D resources -/

def register2dResource (s : VirtioGpu3d) (resourceId : Nat) : VirtioGpu3d :=
  if resourceId ≠ 0 then { s with resource2dIds := insert resourceId s.resource2dIds } else s

def maxLocalScanoutDimension : Nat := 16384

/-- `is_local_scanout_resource`. -/
def isLocalScanoutResource (args : Create3dArgs) : Bool :=
  let displayBinds := 1 <<< 7 ||| 1 <<< 18
  args.target = 2 ∧ 1 ≤ args.format ∧ args.format ≤ 4 ∧ args.bind &&& displayBinds = displayBinds ∧
    0 < args.width ∧
    0 < args.height ∧ args.width ≤ maxLocalScanoutDimension ∧ args.height ≤ maxLocalScanoutDimension ∧
    args.depth = 1 ∧ args.arraySize = 1 ∧ args.lastLevel = 0 ∧ args.nrSamples = 0

/-- The arguments of RESOURCE_CREATE_3D. -/
def create3dArgs (request : List UInt8) : Create3dArgs :=
  let field := fun offset => (readLeU32 request offset).getD 0
  ⟨field 24, field 28, field 32, field 36, field 40, field 44, field 48, field 52, field 56, field 60, field 64⟩

def resourceCreate3dInto (host : Host) (s : VirtioGpu3d) (request : List UInt8) (hdr : CtrlHdr) : Outcome :=
  let args := create3dArgs request
  if request.length < resourceCreate3dLen then s.answer hdr respErrInvalidParameter []
  else if args.resourceId = 0 ∨ s.resourceExists args.resourceId then s.answer hdr respErrInvalidParameter []
  else
    let localScanout := s.backend && isLocalScanoutResource args
    let calls := if !localScanout && s.backend then [.create3d args (host.create3d args)] else []
    if !(localScanout || (s.backend && host.create3d args)) then s.answer hdr respErrUnspec calls
    else
      { s with
        resource3dIds := insert args.resourceId s.resource3dIds
        resource3dInfo := s.resource3dInfo.insert args.resourceId args
        local3dBacking :=
          if localScanout then s.local3dBacking.insert args.resourceId [] else s.local3dBacking }.answer hdr
        respOkNodata calls

/-- The arguments of a 3D transfer. -/
def transfer3dArgs (request : List UInt8) (hdr : CtrlHdr) : Transfer3dArgs :=
  let field := fun offset => (readLeU32 request offset).getD 0
  ⟨hdr.ctxId, field 56, field 24, field 28, field 32, field 36, field 40, field 44, (readLeU64 request 48).getD 0,
    field 60, field 64, field 68⟩

def transfer3dInto (host : Host) (toHost : Bool) (s : VirtioGpu3d) (request : List UInt8) (hdr : CtrlHdr) : Outcome :=
  let args := transfer3dArgs request hdr
  if request.length < transfer3dLen then s.answer hdr respErrInvalidParameter []
  else if args.resourceId ∉ s.resource3dIds ∨ args.width = 0 ∨ args.height = 0 ∨ args.depth = 0 then
    s.answer hdr respErrInvalidParameter []
  else if (s.local3dBacking.get args.resourceId).isSome then s.answer hdr respOkNodata []
  else if !s.backend then s.answer hdr respErrUnspec []
  else s.answer hdr (if host.transfer3d args toHost then respOkNodata else respErrUnspec) [.transfer3d args toHost]

/-! ## Blobs -/

/-- The entries of the backing list from `offset` on. -/
def readBacking (request : List UInt8) : Nat → Nat → Option (List BlobMemEntry)
  | 0, _ => some []
  | n + 1, offset => do
    let addr ← readLeU64 request offset
    let len ← readLeU32 request (offset + 8)
    let rest ← readBacking request n (offset + memEntryLen)
    some (⟨addr, len⟩ :: rest)

/-- `resolve_blob_iovecs_into`: none when an entry has no host memory. -/
def resolveBlobIovecs (host : Host) : List BlobMemEntry → Option (List BlobHostIovec)
  | [] => some []
  | entry :: backing => do
    let hostPtr ← host.hostPtr entry.addr entry.len
    if hostPtr = 0 then none
    else
      let rest ← resolveBlobIovecs host backing
      some (⟨hostPtr, entry.len⟩ :: rest)

/-- `resource_create_blob_into`, with guest memory at hand. -/
def resourceCreateBlobInto (host : Host) (s : VirtioGpu3d) (request : List UInt8) (hdr : CtrlHdr) : Outcome :=
  let resourceId := (readLeU32 request 24).getD 0
  let blobMem := (readLeU32 request 28).getD 0
  let blobFlags := (readLeU32 request 32).getD 0
  let nrEntries := (readLeU32 request 36).getD 0
  let blobId := (readLeU64 request 40).getD 0
  let size := (readLeU64 request 48).getD 0
  if request.length < resourceCreateBlobLen then s.answer hdr respErrInvalidParameter []
  else if !s.backend then s.answer hdr respErrInvalidParameter []
  else if resourceId = 0 ∨ size = 0 ∨ (s.blobResources.get resourceId).isSome then
    s.answer hdr respErrInvalidParameter []
  else if blobMem = blobMemHost3dGuest then s.answer hdr respErrInvalidParameter []
  else if blobMem ≠ blobMemHost3d ∧ blobMem ≠ blobMemGuest then s.answer hdr respErrInvalidParameter []
  else if request.length - resourceCreateBlobLen < nrEntries * memEntryLen then s.answer hdr respErrInvalidParameter []
  else
    match readBacking request nrEntries resourceCreateBlobLen with
    | none => s.answer hdr respErrInvalidParameter []
    | some backing =>
      match if blobMem = blobMemGuest then resolveBlobIovecs host backing else some [] with
      | none => s.answer hdr respErrInvalidParameter []
      | some iovecs =>
        let args : CreateBlobArgs := ⟨hdr.ctxId, resourceId, blobMem, blobFlags, blobId, size, iovecs⟩
        if !host.createBlob args then s.answer hdr respErrUnspec [.createBlob args false]
        else
          { s with blobResources := s.blobResources.insert resourceId ⟨blobMem, size, none, backing⟩ }.answer hdr
            respOkNodata [.createBlob args true]

/-- `checked_next_multiple_of`. -/
def checkedNextMultipleOf (value multiple : Nat) : Option Nat :=
  let next := (value + multiple - 1) / multiple * multiple
  if next < 2 ^ 64 then some next else none

/-- `saturating_add` on 64 bits. -/
def saturatingAdd (a b : Nat) : Nat := min (a + b) (2 ^ 64 - 1)

/-- `interval_overlaps`. -/
def intervalOverlaps (s : VirtioGpu3d) (start size : Nat) : Bool :=
  if 2 ^ 64 ≤ start + size then true
  else s.mappedIntervals.entries.any fun (otherStart, otherSize, _) =>
    start < saturatingAdd otherStart otherSize ∧ otherStart < start + size

/-- What RESOURCE_MAP_BLOB checks before it calls the renderer: the blob and its rounded size. -/
def mapCheck (s : VirtioGpu3d) (resourceId shmOffset : Nat) : Option (BlobResource × Nat) := do
  let resource ← s.blobResources.get resourceId
  if resource.mapped.isSome ∨ resource.blobMem ≠ blobMemHost3d then none
  else
    let roundedSize ← checkedNextMultipleOf resource.size hvfPageSize
    if shmOffset % hvfPageSize ≠ 0 ∨ 2 ^ 64 ≤ shmOffset + roundedSize ∨
      s.shmWindowSize < shmOffset + roundedSize ∨
        s.intervalOverlaps shmOffset roundedSize then none
    else if !s.backend then none
    else some (resource, roundedSize)

/-- `resource_map_blob_into`. -/
def resourceMapBlobInto (host : Host) (s : VirtioGpu3d) (request : List UInt8) (hdr : CtrlHdr) : Outcome :=
  let resourceId := (readLeU32 request 24).getD 0
  let shmOffset := (readLeU64 request 32).getD (2 ^ 64 - 1)
  if request.length < resourceMapBlobLen then s.answer hdr respErrInvalidParameter []
  else
    match s.mapCheck resourceId shmOffset with
    | none => s.answer hdr respErrInvalidParameter []
    | some (resource, mapSize) =>
      match host.mapBlob resourceId with
      | none => s.answer hdr respErrOutOfMemory [.mapBlob resourceId none]
      | some mapped =>
        if mapped.hostPtr = 0 ∨ mapped.hostPtr % hvfPageSize ≠ 0 ∨ mapped.size < resource.size ∨ !s.shmPort then
          s.answer hdr respErrOutOfMemory [.mapBlob resourceId (some mapped), .unmapBlob resourceId]
        else if !host.portMap mapped.hostPtr mapSize shmOffset then
          s.answer hdr respErrOutOfMemory [.mapBlob resourceId (some mapped),
            .portMap mapped.hostPtr mapSize shmOffset resourceId false, .unmapBlob resourceId]
        else
          { gpu := { s with
              blobResources := s.blobResources.modify resourceId fun resource =>
                { resource with mapped := some (shmOffset, mapSize) }
              mappedIntervals := s.mappedIntervals.insert shmOffset (mapSize, resourceId) }
            calls := [.mapBlob resourceId (some mapped), .portMap mapped.hostPtr mapSize shmOffset resourceId true]
            response := responseHdr3d respOkMapInfo hdr ++ toLeBytes 4 (mapped.mapInfo &&& mapCacheMask) ++
              toLeBytes 4 0 }

/-- `unmap_blob_resource`: the window first, then the renderer; what the port answers is not looked at. -/
def unmapBlobResource (host : Host) (s : VirtioGpu3d) (resourceId : Nat) : VirtioGpu3d × List Call :=
  match (s.blobResources.get resourceId).bind BlobResource.mapped with
  | none => (s, [])
  | some (shmOffset, mappedSize) =>
    ({ s with
        blobResources := s.blobResources.modify resourceId fun resource => { resource with mapped := none }
        mappedIntervals := s.mappedIntervals.remove shmOffset },
      (if s.shmPort then [.portUnmap shmOffset mappedSize (host.portUnmap shmOffset mappedSize)] else []) ++
        if s.backend then [.unmapBlob resourceId] else [])

/-- `resource_unmap_blob_into`. -/
def resourceUnmapBlobInto (host : Host) (s : VirtioGpu3d) (request : List UInt8) (hdr : CtrlHdr) : Outcome :=
  let resourceId := (readLeU32 request 24).getD 0
  if request.length < resourceUnmapBlobLen then s.answer hdr respErrInvalidParameter []
  else if (s.blobResources.get resourceId).isNone then s.answer hdr respErrInvalidParameter []
  else
    let (s', calls) := s.unmapBlobResource host resourceId
    s'.answer hdr respOkNodata calls

/-- `unmap_all_blobs`, over the ids in turn. -/
def unmapAllBlobs (host : Host) (s : VirtioGpu3d) : List Nat → VirtioGpu3d × List Call
  | [] => (s, [])
  | resourceId :: ids =>
    let (s', calls) := s.unmapBlobResource host resourceId
    let (s'', calls') := unmapAllBlobs host s' ids
    (s'', calls ++ calls')

/-- The keys of the blob registry, ascending. -/
def blobIds (s : VirtioGpu3d) : List Nat := (s.blobResources.entries.map Prod.fst).mergeSort

/-! ## Unref and reset -/

/-- `unref_resource`. -/
def unrefResource (host : Host) (s : VirtioGpu3d) (resourceId : Nat) : VirtioGpu3d × List Call :=
  let registered := resourceId ∈ s.resource3dIds ∧ (s.local3dBacking.get resourceId).isNone
  let s₁ : VirtioGpu3d :=
    { s with
      ctxResources := s.ctxResources.mapValues fun _ resources => resources.erase resourceId
      resource2dIds := s.resource2dIds.erase resourceId
      resource3dIds := s.resource3dIds.erase resourceId
      local3dBacking := s.local3dBacking.remove resourceId
      resource3dInfo := s.resource3dInfo.remove resourceId }
  if (s.blobResources.get resourceId).isSome then
    let (s₂, calls) := s₁.unmapBlobResource host resourceId
    ({ s₂ with
        blobResources := s₂.blobResources.remove resourceId
        mappedIntervals := s₂.mappedIntervals.retain fun interval => interval.2.2 != resourceId },
      calls ++ if s.backend then [.destroyResource resourceId] else [])
  else (s₁, if registered ∧ s.backend then [.destroyResource resourceId] else [])

/-- `VirtioGpu3d::reset`: the renderer is reset before the blobs are unmapped. -/
def reset (host : Host) (s : VirtioGpu3d) : VirtioGpu3d × List Call :=
  let s₁ : VirtioGpu3d :=
    { s with
      liveContexts := ∅
      ctxResources := .empty
      resource2dIds := ∅
      resource3dIds := ∅
      resource3dInfo := .empty
      local3dBacking := .empty }
  let (s₂, calls) := s₁.unmapAllBlobs host s₁.blobIds
  ({ s₂ with blobResources := .empty, mappedIntervals := .empty }, (if s.backend then [.reset] else []) ++ calls)

/-- `handle_with_mem_into`: none when the command is not the 3D device's. -/
def handle (host : Host) (s : VirtioGpu3d) (request : List UInt8) (hdr : CtrlHdr) : Option Outcome :=
  if hdr.typ = 0x0108 ∨ hdr.typ = 0x0109 ∨ hdr.typ = cmdSubmit3d then some ⟨s, [], host.respond request⟩
  else if hdr.typ = cmdResourceCreateBlob then some (s.resourceCreateBlobInto host request hdr)
  else if hdr.typ = cmdCtxCreate then some (s.ctxCreateInto host request hdr)
  else if hdr.typ = cmdCtxDestroy then some (s.ctxDestroyInto hdr)
  else if hdr.typ = cmdCtxAttachResource then some (s.ctxAttachResourceInto request hdr)
  else if hdr.typ = cmdCtxDetachResource then some (s.ctxDetachResourceInto request hdr)
  else if hdr.typ = cmdResourceCreate3d then some (s.resourceCreate3dInto host request hdr)
  else if hdr.typ = cmdTransferToHost3d then some (s.transfer3dInto host true request hdr)
  else if hdr.typ = cmdTransferFromHost3d then some (s.transfer3dInto host false request hdr)
  else if hdr.typ = cmdResourceMapBlob then some (s.resourceMapBlobInto host request hdr)
  else if hdr.typ = cmdResourceUnmapBlob then some (s.resourceUnmapBlobInto host request hdr)
  else none

/-- What a command of the 3D device runs. -/
inductive Handled (host : Host) (s : VirtioGpu3d) (request : List UInt8) (hdr : CtrlHdr) : Outcome → Prop where
  | respond : Handled host s request hdr ⟨s, [], host.respond request⟩
  | createBlob : hdr.typ = cmdResourceCreateBlob →
    Handled host s request hdr (s.resourceCreateBlobInto host request hdr)
  | ctxCreate : Handled host s request hdr (s.ctxCreateInto host request hdr)
  | ctxDestroy : Handled host s request hdr (s.ctxDestroyInto hdr)
  | ctxAttach : Handled host s request hdr (s.ctxAttachResourceInto request hdr)
  | ctxDetach : Handled host s request hdr (s.ctxDetachResourceInto request hdr)
  | create3d : hdr.typ = cmdResourceCreate3d → Handled host s request hdr (s.resourceCreate3dInto host request hdr)
  | transfer (toHost : Bool) : Handled host s request hdr (s.transfer3dInto host toHost request hdr)
  | mapBlob : Handled host s request hdr (s.resourceMapBlobInto host request hdr)
  | unmapBlob : Handled host s request hdr (s.resourceUnmapBlobInto host request hdr)

theorem handle_cases {host : Host} {s : VirtioGpu3d} {request : List UInt8} {hdr : CtrlHdr} {o : Outcome}
    (ho : s.handle host request hdr = some o) : Handled host s request hdr o := by
  unfold handle at ho
  by_cases htyp : hdr.typ = 0x0108 ∨ hdr.typ = 0x0109 ∨ hdr.typ = cmdSubmit3d
  · rw [if_pos htyp] at ho
    cases ho
    exact .respond
  rw [if_neg htyp] at ho
  by_cases htyp : hdr.typ = cmdResourceCreateBlob
  · rw [if_pos htyp] at ho
    cases ho
    exact .createBlob htyp
  rw [if_neg htyp] at ho
  by_cases htyp : hdr.typ = cmdCtxCreate
  · rw [if_pos htyp] at ho
    cases ho
    exact .ctxCreate
  rw [if_neg htyp] at ho
  by_cases htyp : hdr.typ = cmdCtxDestroy
  · rw [if_pos htyp] at ho
    cases ho
    exact .ctxDestroy
  rw [if_neg htyp] at ho
  by_cases htyp : hdr.typ = cmdCtxAttachResource
  · rw [if_pos htyp] at ho
    cases ho
    exact .ctxAttach
  rw [if_neg htyp] at ho
  by_cases htyp : hdr.typ = cmdCtxDetachResource
  · rw [if_pos htyp] at ho
    cases ho
    exact .ctxDetach
  rw [if_neg htyp] at ho
  by_cases htyp : hdr.typ = cmdResourceCreate3d
  · rw [if_pos htyp] at ho
    cases ho
    exact .create3d htyp
  rw [if_neg htyp] at ho
  by_cases htyp : hdr.typ = cmdTransferToHost3d
  · rw [if_pos htyp] at ho
    cases ho
    exact .transfer true
  rw [if_neg htyp] at ho
  by_cases htyp : hdr.typ = cmdTransferFromHost3d
  · rw [if_pos htyp] at ho
    cases ho
    exact .transfer false
  rw [if_neg htyp] at ho
  by_cases htyp : hdr.typ = cmdResourceMapBlob
  · rw [if_pos htyp] at ho
    cases ho
    exact .mapBlob
  rw [if_neg htyp] at ho
  by_cases htyp : hdr.typ = cmdResourceUnmapBlob
  · rw [if_pos htyp] at ho
    cases ho
    exact .unmapBlob
  rw [if_neg htyp] at ho
  cases ho

end VirtioGpu3d

end BridgeVm.VirtioGpu
