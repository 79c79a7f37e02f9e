import BridgeVm.VirtioGpu.Device3d

/-!
# The control queue's device (`virtio_gpu/`)

The 2D resources beside the 3D device, the scanout binding, and the present of a 3D scanout, at once or through the
one-deep mailbox. What is drawn is left out: a resource's pixels are counted, and the framebuffer is not kept.
-/

namespace BridgeVm.VirtioGpu

open Lib VirtioGpu3d

def cmdGetDisplayInfo : Nat := 0x0100
def cmdSetScanout : Nat := 0x0103
def cmdResourceFlush : Nat := 0x0104
def cmdTransferToHost2d : Nat := 0x0105
def cmdResourceAttachBacking : Nat := 0x0106
def cmdResourceDetachBacking : Nat := 0x0107
def cmdGetEdid : Nat := 0x010a
def cmdSetScanoutBlob : Nat := 0x010d

def setScanoutBlobLen : Nat := 24 + 16 + 4 + 4 + 4 + 4 + 4 + 4 + 16 + 16

/-- `MAX_2D_HOSTMEM`. -/
def max2dHostmem : Nat := 256 <<< 20

def maxScanoutDimension : Nat := 7680

/-! ## Data -/

/-- `GpuResource`; the pixels are kept by their number of bytes. -/
structure GpuResource where
  format : Nat
  width : Nat
  height : Nat
  hostPixels : Nat
  backing : List BlobMemEntry
deriving DecidableEq, Repr

structure Rect where
  x : Nat
  y : Nat
  width : Nat
  height : Nat
deriving DecidableEq, Repr

def readRect (bytes : List UInt8) (offset : Nat) : Option Rect := do
  let x ← readLeU32 bytes offset
  let y ← readLeU32 bytes (offset + 4)
  let width ← readLeU32 bytes (offset + 8)
  let height ← readLeU32 bytes (offset + 12)
  some ⟨x, y, width, height⟩

/-- `saturating_add` on 32 bits. -/
def saturatingAdd32 (a b : Nat) : Nat := min (a + b) (2 ^ 32 - 1)

def unionRect (a b : Rect) : Rect :=
  if a.width = 0 ∨ a.height = 0 then b
  else if b.width = 0 ∨ b.height = 0 then a
  else
    let x := min a.x b.x
    let y := min a.y b.y
    let right := max (saturatingAdd32 a.x a.width) (saturatingAdd32 b.x b.width)
    let bottom := max (saturatingAdd32 a.y a.height) (saturatingAdd32 b.y b.height)
    ⟨x, y, right - x, bottom - y⟩

structure BlobScanout where
  resourceId : Nat
  width : Nat
  height : Nat
  format : Nat
  stride : Nat
  offset : Nat
  mapping : Option (Nat × Nat)
deriving DecidableEq, Repr

/-- `blob_surface_footprint`, with its checked arithmetic. -/
def blobSurfaceFootprint (width height stride offset : Nat) : Option Nat :=
  let footprint := offset + (height - 1) * stride + width * 4
  if footprint < 2 ^ 64 then some footprint else none

/-! ## The present mailbox -/

/-- `PresentRequest`; `offeredAt` is a ghost, the number of scanout changes seen when the frame was offered. -/
structure PresentRequest where
  resourceId : Nat
  width : Nat
  height : Nat
  epoch : Nat
  offeredAt : Nat
deriving DecidableEq, Repr

inductive PresentCancelReason where
  | staleEpoch
  | resourceChanged
  | resourceGone
deriving DecidableEq, Repr

inductive PresentAdmission where
  | dispatch (request : PresentRequest)
  | retained
  | replacedRetained
deriving DecidableEq, Repr

/-- `AsyncPresentMailbox` without its counters. -/
structure AsyncPresentMailbox where
  inFlight : Option PresentRequest
  retained : Option PresentRequest
  epoch : Nat
deriving DecidableEq, Repr

namespace AsyncPresentMailbox

def new : AsyncPresentMailbox := ⟨none, none, 0⟩

/-- The epoch saturates; a retained frame is dropped, the one in flight is left to the worker. -/
def bumpEpoch (m : AsyncPresentMailbox) : AsyncPresentMailbox :=
  { m with
    epoch := saturatingAdd m.epoch 1
    retained := none }

def offer (m : AsyncPresentMailbox) (changes resourceId width height : Nat) : AsyncPresentMailbox × PresentAdmission :=
  let request : PresentRequest := ⟨resourceId, width, height, m.epoch, changes⟩
  match m.inFlight with
  | none => ({ m with inFlight := some request }, .dispatch request)
  | some _ =>
    ({ m with retained := some request }, if m.retained.isSome then .replacedRetained else .retained)

def resolveCompletion (m : AsyncPresentMailbox) (completed : PresentRequest) (currentResource : Option Nat) :
    Option PresentCancelReason :=
  if completed.epoch ≠ m.epoch then some .staleEpoch
  else
    match currentResource with
    | none => some .resourceGone
    | some current => if current ≠ completed.resourceId then some .resourceChanged else none

/-- Retire the present in flight; a retained frame takes its place, with the live epoch. -/
def complete (m : AsyncPresentMailbox) (currentResource : Option Nat) :
    AsyncPresentMailbox × Option PresentCancelReason × Option PresentRequest :=
  let outcome := m.inFlight.bind fun completed => m.resolveCompletion completed currentResource
  match m.retained with
  | some request =>
    let promoted := { request with epoch := m.epoch }
    ({ m with inFlight := some promoted, retained := none }, outcome, some promoted)
  | none => ({ m with inFlight := none, retained := none }, outcome, none)

end AsyncPresentMailbox

/-! ## The device -/

/-- `VirtioGpu`, as far as resources and the scanout go; `changes` is a ghost, the number of steps so far that changed
the scanout's binding or geometry. -/
structure Device where
  resources : AssocMap Nat GpuResource
  threeD : VirtioGpu3d
  scanoutResource : Option Nat
  blobScanout : Option BlobScanout
  width : Nat
  height : Nat
  requestedWidth : Nat
  requestedHeight : Nat
  asyncPresent : AsyncPresentMailbox
  /-- The worker's handle, its frame, and what is to be drawn of it. -/
  asyncPresentPending : Option (Nat × PresentRequest × Rect)
  scanoutAsyncPresent : Bool
  scanout3dDeferred : Bool
  pending3dScanout : Option (Nat × Rect)
  pending3dScanoutFresh : Bool
  changes : Nat

/-- What the renderer answers about the scanout during one step, and whether a readback is due. -/
structure Display where
  scanoutMap : Nat → Option (Nat × Nat)
  /-- A handle when the renderer takes the present off the device's thread. -/
  presentStart : PresentRequest → Option Nat
  /-- Whether the worker has answered; the flag is set when the device waits for it. -/
  presentPoll : Nat → Bool → Bool
  readbackDue : Bool
  attachBacking : Nat → List BlobHostIovec → Bool
  detachBacking : Nat → Bool

/-- What became of a frame in one step. -/
inductive PresentEvent where
  | started (request : PresentRequest) (taken : Bool)
  | applied (request : PresentRequest)
  | cancelled (request : PresentRequest) (reason : PresentCancelReason)
deriving DecidableEq, Repr

namespace Device

def new (width height : Nat) (threeD : VirtioGpu3d) : Device where
  resources := .empty
  threeD := threeD
  scanoutResource := none
  blobScanout := none
  width := width
  height := height
  requestedWidth := width
  requestedHeight := height
  asyncPresent := .new
  asyncPresentPending := none
  scanoutAsyncPresent := false
  scanout3dDeferred := false
  pending3dScanout := none
  pending3dScanoutFresh := false
  changes := 0

/-! ### 2D resources -/

/-- `hostmem_after_create`. -/
def hostmemAfterCreate (s : Device) (resourceId len : Nat) : Nat :=
  saturatingAdd ((s.resources.remove resourceId).total GpuResource.hostPixels) len

/-- The size of a new resource's pixels, when it may be created. -/
def createLen (s : Device) (resourceId width height : Nat) : Option Nat :=
  let len := width * height * 4
  if len < 2 ^ 64 ∧ s.hostmemAfterCreate resourceId len < max2dHostmem then some len else none

/-- `resource_create_2d_into`. -/
def resourceCreate2dInto (s : Device) (request : List UInt8) (hdr : CtrlHdr) : Device × List UInt8 :=
  match readLeU32 request 24 with
  | none => (s, responseHdr2d respErrUnspec (some hdr))
  | some resourceId =>
    let format := (readLeU32 request 28).getD 0
    let width := (readLeU32 request 32).getD 0
    let height := (readLeU32 request 36).getD 0
    if resourceId = 0 ∨ width = 0 ∨ height = 0 ∨ !formatSupported format then
      (s, responseHdr2d respErrUnspec (some hdr))
    else
      match s.createLen resourceId width height with
      | none => (s, responseHdr2d respErrOutOfMemory (some hdr))
      | some len =>
        ({ s with
            resources := s.resources.insert resourceId ⟨format, width, height, len, []⟩
            threeD := s.threeD.register2dResource resourceId }, responseHdr2d respOkNodata (some hdr))

/-- `unbind_blob_scanout`. -/
def unbindBlobScanout (s : Device) : Device := { s with blobScanout := none }

/-- `resource_unref_into`. -/
def resourceUnrefInto (host : Host) (s : Device) (request : List UInt8) (hdr : CtrlHdr) : Device × List UInt8 :=
  match readLeU32 request 24 with
  | none => (s, responseHdr2d respOkNodata (some hdr))
  | some resourceId =>
    let s₁ := if s.blobScanout.map BlobScanout.resourceId = some resourceId then s.unbindBlobScanout else s
    ({ s₁ with
        resources := s₁.resources.remove resourceId
        threeD := (s₁.threeD.unrefResource host resourceId).1
        scanoutResource := if s₁.scanoutResource = some resourceId then none else s₁.scanoutResource },
      responseHdr2d respOkNodata (some hdr))

/-- `attach_3d_backing`: a local resource takes a backing that covers it, any other goes to the renderer. -/
def attach3dBacking (host : Host) (display : Display) (g : VirtioGpu3d) (resourceId : Nat)
    (backing : List BlobMemEntry) :
    VirtioGpu3d × Bool :=
  if resourceId ∉ g.resource3dIds ∨ backing = [] then (g, false)
  else
    match resolveBlobIovecs host backing with
    | none => (g, false)
    | some iovecs =>
      if (g.local3dBacking.get resourceId).isSome then
        match g.resource3dInfo.get resourceId with
        | none => (g, false)
        | some info =>
          let required := info.width * info.height * 4
          let available := backing.foldl (fun total entry => saturatingAdd total entry.len) 0
          if required < 2 ^ 64 ∧ required ≤ available then
            ({ g with local3dBacking := g.local3dBacking.insert resourceId backing }, true)
          else (g, false)
      else (g, g.backend && display.attachBacking resourceId iovecs)

/-- `detach_3d_backing`. -/
def detach3dBacking (display : Display) (g : VirtioGpu3d) (resourceId : Nat) : VirtioGpu3d × Bool :=
  if (g.local3dBacking.get resourceId).isSome then
    ({ g with local3dBacking := g.local3dBacking.insert resourceId [] }, true)
  else (g, resourceId ∈ g.resource3dIds && g.backend && display.detachBacking resourceId)

/-- `attach_backing_into`. -/
def attachBackingInto (host : Host) (display : Display) (s : Device) (request : List UInt8) (hdr : CtrlHdr) :
    Device × List UInt8 :=
  match readLeU32 request 24 with
  | none => (s, responseHdr2d respErrUnspec (some hdr))
  | some resourceId =>
    let nrEntries := (readLeU32 request 28).getD 0
    if request.length - 32 < nrEntries * memEntryLen then (s, responseHdr2d respErrUnspec (some hdr))
    else
      let backing := (readBacking request nrEntries 32).getD []
      if (s.resources.get resourceId).isSome then
        ({ s with resources := s.resources.modify resourceId fun resource => { resource with backing := backing } },
          responseHdr2d respOkNodata (some hdr))
      else if resourceId ∈ s.threeD.resource3dIds then
        let (threeD, attached) := attach3dBacking host display s.threeD resourceId backing
        ({ s with threeD := threeD }, responseHdr2d (if attached then respOkNodata else respErrUnspec) (some hdr))
      else (s, responseHdr2d respErrUnspec (some hdr))

/-- `detach_backing_into`. -/
def detachBackingInto (display : Display) (s : Device) (request : List UInt8) (hdr : CtrlHdr) :
    Device × List UInt8 :=
  match readLeU32 request 24 with
  | none => (s, responseHdr2d respOkNodata (some hdr))
  | some resourceId =>
    if (s.resources.get resourceId).isSome then
      ({ s with resources := s.resources.modify resourceId fun resource => { resource with backing := [] } },
        responseHdr2d respOkNodata (some hdr))
    else if resourceId ∈ s.threeD.resource3dIds then
      let (threeD, detached) := detach3dBacking display s.threeD resourceId
      ({ s with threeD := threeD }, responseHdr2d (if detached then respOkNodata else respErrUnspec) (some hdr))
    else (s, responseHdr2d respOkNodata (some hdr))

/-- `transfer_to_host_2d_into`, whose pixels are not kept. -/
def transferToHost2dInto (s : Device) (request : List UInt8) (hdr : CtrlHdr) : Device × List UInt8 :=
  let resourceId := (readLeU32 request 48).getD 0
  (s, responseHdr2d (if (s.resources.get resourceId).isSome then respOkNodata else respErrUnspec) (some hdr))

/-! ### The scanout binding -/

/-- `bump_present_epoch`. -/
def bumpPresentEpoch (s : Device) : Device := { s with asyncPresent := s.asyncPresent.bumpEpoch }

/-- `scanout_geometry_in_range`. -/
def scanoutGeometryInRange (s : Device) (width height : Nat) : Bool :=
  0 < width ∧ 0 < height ∧ width ≤ max s.width s.requestedWidth ∧ height ≤ max s.height s.requestedHeight

/-- `adopt_requested_display_resolution`. -/
def adoptRequestedDisplayResolution (s : Device) (width height : Nat) : Device :=
  if width ≠ s.requestedWidth ∨ height ≠ s.requestedHeight ∨ (width = s.width ∧ height = s.height) then s
  else { s with width := width, height := height }

/-- `request_display_resolution`. -/
def requestDisplayResolution (s : Device) (width height : Nat) : Device :=
  if width = 0 ∨ height = 0 ∨ maxScanoutDimension < width ∨ maxScanoutDimension < height ∨
      (width = s.requestedWidth ∧ height = s.requestedHeight) then s
  else { s with requestedWidth := width, requestedHeight := height }

/-- What SET_SCANOUT asks of a resource: any of the 2D ones, or a 3D one that holds the rectangle. -/
def validScanout (s : Device) (resourceId : Nat) (rect : Rect) : Bool :=
  (s.resources.get resourceId).isSome ||
    (s.threeD.resource3dInfo.get resourceId).any fun info =>
      formatSupported info.format && s.scanoutGeometryInRange rect.width rect.height &&
        (rect.x + rect.width < 2 ^ 32 && rect.x + rect.width ≤ info.width) &&
        (rect.y + rect.height < 2 ^ 32 && rect.y + rect.height ≤ info.height)

/-- `set_scanout_into`. -/
def setScanoutInto (s : Device) (request : List UInt8) (hdr : CtrlHdr) : Device × List UInt8 :=
  let rect := (readRect request 24).getD ⟨0, 0, 0, 0⟩
  let scanoutId := (readLeU32 request 40).getD (2 ^ 32 - 1)
  let resourceId := (readLeU32 request 44).getD 0
  if scanoutId ≠ 0 then (s, responseHdr2d respOkNodata (some hdr))
  else
    -- the epoch moves even when the resource turns out not to be valid
    let s₁ := s.bumpPresentEpoch
    if resourceId = 0 then
      ({ s₁ with scanoutResource := none }.unbindBlobScanout, responseHdr2d respOkNodata (some hdr))
    else if !s₁.validScanout resourceId rect then (s₁, responseHdr2d respErrUnspec (some hdr))
    else
      ({ s₁.unbindBlobScanout.adoptRequestedDisplayResolution rect.width rect.height with
          scanoutResource := some resourceId }, responseHdr2d respOkNodata (some hdr))

/-- Where a blob scanout reads from: its host mapping, or none for guest memory. The outer option is empty when a host
blob cannot be mapped. -/
def scanoutMapping (display : Display) (s : Device) (blobMem resourceId footprint : Nat) :
    Option (Option (Nat × Nat)) :=
  if blobMem = blobMemHost3d then
    match if s.threeD.backend then display.scanoutMap resourceId else none with
    | none => none
    | some (ptr, size) => if ptr = 0 ∨ size < footprint then none else some (some (ptr, size))
  else some none

/-- What SET_SCANOUT_BLOB asks of the blob: its memory kind and the bytes that the surface covers. -/
def validBlobScanout (s : Device) (resourceId width height format stride offset : Nat) : Option (Nat × Nat) :=
  if !s.scanoutGeometryInRange width height ∨ !formatSupported format ∨ stride < min (width * 4) (2 ^ 32 - 1) then
    none
  else do
    let info ← s.threeD.blobResources.get resourceId
    if info.blobMem ≠ blobMemGuest ∧ info.blobMem ≠ blobMemHost3d then none
    else
      let footprint ← blobSurfaceFootprint width height stride offset
      if info.size < footprint then none else some (info.blobMem, footprint)

/-- `set_scanout_blob_into`. -/
def setScanoutBlobInto (display : Display) (s : Device) (request : List UInt8) (hdr : CtrlHdr) :
    Device × List UInt8 :=
  let scanoutId := (readLeU32 request 40).getD (2 ^ 32 - 1)
  let resourceId := (readLeU32 request 44).getD 0
  let width := (readLeU32 request 48).getD 0
  let height := (readLeU32 request 52).getD 0
  let format := (readLeU32 request 56).getD 0
  let stride := (readLeU32 request 64).getD 0
  let offset := (readLeU32 request 80).getD 0
  if request.length < setScanoutBlobLen then (s, responseHdr2d respErrUnspec (some hdr))
  else if scanoutId ≠ 0 then (s, responseHdr2d respOkNodata (some hdr))
  else if resourceId = 0 then
    -- the epoch does not move here
    ({ s.unbindBlobScanout with scanoutResource := none }, responseHdr2d respOkNodata (some hdr))
  else
    match s.validBlobScanout resourceId width height format stride offset with
    | none => (s, responseHdr2d respErrUnspec (some hdr))
    | some (blobMem, footprint) =>
      let s₁ := s.bumpPresentEpoch.unbindBlobScanout
      match s₁.scanoutMapping display blobMem resourceId footprint with
      | none => (s₁, responseHdr2d respErrUnspec (some hdr))
      | some mapping =>
        ({ s₁.adoptRequestedDisplayResolution width height with
            scanoutResource := none
            blobScanout := some ⟨resourceId, width, height, format, stride, offset, mapping⟩ },
          responseHdr2d respOkNodata (some hdr))

/-! ### Presenting a 3D scanout -/

/-- `defer_3d_scanout`. -/
def defer3dScanout (s : Device) (resourceId : Nat) (rect : Rect) : Device :=
  let rect' :=
    match s.pending3dScanout with
    | some (pendingId, pendingRect) => if pendingId = resourceId then unionRect pendingRect rect else rect
    | none => rect
  { s with
    pending3dScanout := some (resourceId, rect')
    pending3dScanoutFresh := true }

/-- `resource_flush_into`: only a deferred flush of a 3D scanout leaves anything behind. -/
def resourceFlushInto (s : Device) (request : List UInt8) (hdr : CtrlHdr) : Device × List UInt8 :=
  let rect := (readRect request 24).getD ⟨0, 0, 0, 0⟩
  let resourceId := (readLeU32 request 40).getD 0
  let deferred := s.scanoutResource = some resourceId ∧ (s.resources.get resourceId).isNone ∧
    resourceId ∈ s.threeD.resource3dIds ∧
    ¬((s.threeD.resource3dInfo.get resourceId).isSome ∧ (s.threeD.local3dBacking.get resourceId).isSome) ∧
    s.scanout3dDeferred
  (if deferred then s.defer3dScanout resourceId rect else s, responseHdr2d respOkNodata (some hdr))

/-- `set_3d_scanout_deferred`. -/
def set3dScanoutDeferred (s : Device) (deferred : Bool) : Device :=
  if deferred then { s with scanout3dDeferred := true }
  else { s with scanout3dDeferred := false, pending3dScanout := none, pending3dScanoutFresh := false }

/-- `finish_async_present`: the frame that takes the finished one's place is not handed to the renderer. -/
def finishAsyncPresent (s : Device) : Device :=
  match s.asyncPresentPending with
  | none => s
  | some _ =>
    { s with
      asyncPresentPending := none
      asyncPresent := (s.asyncPresent.complete s.scanoutResource).1 }

/-- `set_3d_scanout_async_present`. -/
def set3dScanoutAsyncPresent (s : Device) (enabled : Bool) : Device :=
  if s.scanoutAsyncPresent = enabled then s else { s.finishAsyncPresent with scanoutAsyncPresent := enabled }

/-- `scanout_present_start`: the renderer is asked when the resource still covers the frame. -/
def scanoutPresentStart (display : Display) (s : Device) (request : PresentRequest) : Option Nat :=
  match s.threeD.resource3dInfo.get request.resourceId with
  | none => none
  | some info =>
    if info.width < request.width ∨ info.height < request.height then none
    else if s.threeD.backend then display.presentStart request else none

/-- `dispatch_async_present`; the last answer is whether the frame is on its way. -/
def dispatchAsyncPresent (display : Display) (s : Device) (request : PresentRequest) (rect : Rect) :
    Device × List PresentEvent × Bool :=
  match s.scanoutPresentStart display request with
  | some handle => ({ s with asyncPresentPending := some (handle, request, rect) }, [.started request true], true)
  | none =>
    ({ s with
        asyncPresent := (s.asyncPresent.complete s.scanoutResource).1
        scanoutAsyncPresent := false }, [.started request false], false)

/-- `collect_async_present`. -/
def collectAsyncPresent (display : Display) (s : Device) : Device × List PresentEvent :=
  match s.asyncPresentPending with
  | none => (s, [])
  | some (handle, request, rect) =>
    if !(s.threeD.backend && display.presentPoll handle false) then (s, [])
    else
      let (mailbox, cancel, next) := s.asyncPresent.complete s.scanoutResource
      let s₁ := { s with asyncPresentPending := none, asyncPresent := mailbox }
      let events := [cancel.elim (.applied request) (.cancelled request)]
      match next with
      | none => (s₁, events)
      | some next =>
        let (s₂, started, _) := s₁.dispatchAsyncPresent display next rect
        (s₂, events ++ started)

/-- `service_async_present`; the last answer is whether the mailbox has taken the frame. -/
def serviceAsyncPresent (display : Display) (s : Device) (resourceId : Nat) (rect : Rect) :
    Device × List PresentEvent × Bool :=
  if !s.scanoutAsyncPresent then (s, [], false)
  else
    let (s₁, collected) := s.collectAsyncPresent display
    match s₁.threeD.resource3dInfo.get resourceId with
    | none => (s₁, collected, false)
    | some info =>
      let width := min info.width s₁.width
      let height := min info.height s₁.height
      match s₁.asyncPresent.offer s₁.changes resourceId width height with
      | (mailbox, .dispatch request) =>
        let (s₂, started, taken) := { s₁ with asyncPresent := mailbox }.dispatchAsyncPresent display request rect
        (s₂, collected ++ started, taken)
      | (mailbox, _) => ({ s₁ with asyncPresent := mailbox }, collected, true)

/-- `service_deferred_3d_scanout`; the readback itself clears the frame unless it has to wait. -/
def serviceDeferred3dScanout (display : Display) (s : Device) : Device × List PresentEvent :=
  let (s₁, collected) := s.collectAsyncPresent display
  match s₁.pending3dScanout with
  | none => (s₁, collected)
  | some (resourceId, rect) =>
    if s₁.pending3dScanoutFresh then ({ s₁ with pending3dScanoutFresh := false }, collected)
    else if s₁.scanoutResource ≠ some resourceId ∨ resourceId ∉ s₁.threeD.resource3dIds then
      ({ s₁ with pending3dScanout := none }, collected)
    else
      let (s₂, served, taken) := s₁.serviceAsyncPresent display resourceId rect
      if taken ∨ display.readbackDue then ({ s₂ with pending3dScanout := none }, collected ++ served)
      else (s₂, collected ++ served)

/-! ### Commands, drains and resets -/

/-- A context that is destroyed takes a blob scanout of its own with it. -/
def unbindDestroyedContext (s : Device) (hdr : CtrlHdr) : Device :=
  let bound := s.blobScanout.any fun scanout =>
    ((s.threeD.ctxResources.get hdr.ctxId).any fun resources => scanout.resourceId ∈ resources)
  if hdr.typ = cmdCtxDestroy ∧ bound then s.unbindBlobScanout else s

/-- `handle_control_request_into`. -/
def handleControlRequest (host : Host) (display : Display) (s : Device) (request : List UInt8) :
    Device × List UInt8 :=
  match CtrlHdr.parse request with
  | none => (s, responseHdr2d respErrUnspec none)
  | some hdr =>
    if hdr.typ = cmdGetDisplayInfo ∨ hdr.typ = cmdGetEdid then (s, host.respond request)
    else if hdr.typ = cmdResourceCreate2d then s.resourceCreate2dInto request hdr
    else if hdr.typ = cmdResourceUnref then s.resourceUnrefInto host request hdr
    else if hdr.typ = cmdResourceAttachBacking then s.attachBackingInto host display request hdr
    else if hdr.typ = cmdResourceDetachBacking then s.detachBackingInto display request hdr
    else if hdr.typ = cmdSetScanout then s.setScanoutInto request hdr
    else if hdr.typ = cmdSetScanoutBlob then s.setScanoutBlobInto display request hdr
    else if hdr.typ = cmdTransferToHost2d then s.transferToHost2dInto request hdr
    else if hdr.typ = cmdResourceFlush then s.resourceFlushInto request hdr
    else
      let s₁ := s.unbindDestroyedContext hdr
      match s₁.threeD.handle host request hdr with
      | some o => ({ s₁ with threeD := o.gpu }, o.response)
      | none => (s, responseHdr2d respErrUnspec (some hdr))

/-- What a request of the control queue runs. -/
inductive Controlled (host : Host) (display : Display) (s : Device) (request : List UInt8) :
    Device × List UInt8 → Prop where
  | answered (response : List UInt8) : Controlled host display s request (s, response)
  | create2d (hdr : CtrlHdr) : CtrlHdr.parse request = some hdr → hdr.typ = cmdResourceCreate2d →
    Controlled host display s request (s.resourceCreate2dInto request hdr)
  | unref (hdr : CtrlHdr) : Controlled host display s request (s.resourceUnrefInto host request hdr)
  | attach (hdr : CtrlHdr) : Controlled host display s request (s.attachBackingInto host display request hdr)
  | detach (hdr : CtrlHdr) : Controlled host display s request (s.detachBackingInto display request hdr)
  | setScanout (hdr : CtrlHdr) : CtrlHdr.parse request = some hdr → hdr.typ = cmdSetScanout →
    Controlled host display s request (s.setScanoutInto request hdr)
  | setScanoutBlob (hdr : CtrlHdr) : CtrlHdr.parse request = some hdr → hdr.typ = cmdSetScanoutBlob →
    Controlled host display s request (s.setScanoutBlobInto display request hdr)
  | transfer2d (hdr : CtrlHdr) : Controlled host display s request (s.transferToHost2dInto request hdr)
  | flush (hdr : CtrlHdr) : Controlled host display s request (s.resourceFlushInto request hdr)
  | threeD (hdr : CtrlHdr) (o : Outcome) : CtrlHdr.parse request = some hdr →
    (s.unbindDestroyedContext hdr).threeD.handle host request hdr = some o →
    Controlled host display s request ({ s.unbindDestroyedContext hdr with threeD := o.gpu }, o.response)

theorem handleControlRequest_cases (host : Host) (display : Display) (s : Device) (request : List UInt8) :
    Controlled host display s request (s.handleControlRequest host display request) := by
  unfold handleControlRequest
  cases hparse : CtrlHdr.parse request with
  | none => exact .answered _
  | some hdr =>
    dsimp only
    by_cases htyp : hdr.typ = cmdGetDisplayInfo ∨ hdr.typ = cmdGetEdid
    · rw [if_pos htyp]
      exact .answered _
    rw [if_neg htyp]
    by_cases htyp : hdr.typ = cmdResourceCreate2d
    · rw [if_pos htyp]
      exact .create2d hdr hparse htyp
    rw [if_neg htyp]
    by_cases htyp : hdr.typ = cmdResourceUnref
    · rw [if_pos htyp]
      exact .unref hdr
    rw [if_neg htyp]
    by_cases htyp : hdr.typ = cmdResourceAttachBacking
    · rw [if_pos htyp]
      exact .attach hdr
    rw [if_neg htyp]
    by_cases htyp : hdr.typ = cmdResourceDetachBacking
    · rw [if_pos htyp]
      exact .detach hdr
    rw [if_neg htyp]
    by_cases htyp : hdr.typ = cmdSetScanout
    · rw [if_pos htyp]
      exact .setScanout hdr hparse htyp
    rw [if_neg htyp]
    by_cases htyp : hdr.typ = cmdSetScanoutBlob
    · rw [if_pos htyp]
      exact .setScanoutBlob hdr hparse htyp
    rw [if_neg htyp]
    by_cases htyp : hdr.typ = cmdTransferToHost2d
    · rw [if_pos htyp]
      exact .transfer2d hdr
    rw [if_neg htyp]
    by_cases htyp : hdr.typ = cmdResourceFlush
    · rw [if_pos htyp]
      exact .flush hdr
    rw [if_neg htyp]
    cases ho : (s.unbindDestroyedContext hdr).threeD.handle host request hdr with
    | none => exact .answered _
    | some o => exact .threeD hdr o hparse ho

/-- `reset_runtime_state`. -/
def resetRuntimeState (host : Host) (s : Device) : Device :=
  let s₁ := s.finishAsyncPresent
  { s₁ with
    width := s₁.requestedWidth
    height := s₁.requestedHeight
    resources := .empty
    scanoutResource := none
    threeD := (s₁.threeD.reset host).1 }.unbindBlobScanout

/-! ### Runs -/

/-- What may happen to the device: a request on the control queue, a drain of the host's loop, a setting, a resize of
the host's window, or a reset. -/
inductive Op where
  | control (request : List UInt8)
  | drain
  | asyncPresent (enabled : Bool)
  | deferred (deferred : Bool)
  | resize (width height : Nat)
  | reset
deriving DecidableEq, Repr

/-- What an operation leaves, and what it did with the frames. -/
def perform (host : Host) (display : Display) (s : Device) : Op → Device × List PresentEvent
  | .control request => ((s.handleControlRequest host display request).1, [])
  | .drain => s.serviceDeferred3dScanout display
  | .asyncPresent enabled => (s.set3dScanoutAsyncPresent enabled, [])
  | .deferred deferred => (s.set3dScanoutDeferred deferred, [])
  | .resize width height => (s.requestDisplayResolution width height, [])
  | .reset => (s.resetRuntimeState host, [])

/-- The scanout's binding and geometry. -/
def binding (s : Device) : Option Nat × Option BlobScanout × Nat × Nat :=
  (s.scanoutResource, s.blobScanout, s.width, s.height)

/-- One step, which counts whether the scanout changed. -/
def step (host : Host) (display : Display) (s : Device) (op : Op) : Device × List PresentEvent :=
  let (s', events) := s.perform host display op
  ({ s' with changes := if s'.binding = s.binding then s.changes else s.changes + 1 }, events)

/-- A run from a new device; `ok` is asked of each step. -/
inductive Ran (ok : Device → Display → Op → Prop) : Device → Prop
  | created (width height : Nat) (backend shmPort : Bool) (window : Nat) :
      Ran ok (new width height (.new backend shmPort window))
  | step {s : Device} (host : Host) (display : Display) {op : Op} (hr : Ran ok s) (hok : ok s display op) :
      Ran ok (s.step host display op).1

end Device

end BridgeVm.VirtioGpu
