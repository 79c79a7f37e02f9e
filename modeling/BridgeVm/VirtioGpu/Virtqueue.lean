import BridgeVm.GuestMemory
import BridgeVm.VirtioGpu.Protocol

/-!
# The virtqueues of virtio-gpu

`virtio_gpu/virtqueue.rs` with `queue_pending.rs`, `parked_chains.rs`, `fence.rs` and `vblank.rs`. A notification takes
chains from the available ring, hands each request to the device and returns the chain through the used ring, at once or
after it was parked: on a fence of the renderer, or until a host vblank. What the device answers is given (`Handling`).
The queues carry a log of the chains of the control queue, newest first, which no function reads.
-/

namespace BridgeVm.VirtioGpu

open Lib

def queueControl : Nat := 0
def queueCursor : Nat := 1
def queueMax : Nat := 64
def maxGpuRequestLen : Nat := 64 * 1024 * 1024

structure VirtioGpuQueue where
  size : Nat
  ready : Bool
  desc : Nat
  driver : Nat
  device : Nat
  lastAvailIdx : Nat
  pendingMsix : Bool
deriving DecidableEq, Repr

namespace VirtioGpuQueue

/-- `effective_size`: a driver that wrote no size runs at the advertised one. -/
def effectiveSize (q : VirtioGpuQueue) : Nat := if q.size = 0 then queueMax else q.size

/-- What the driver set up, without what the device keeps of its work. -/
def registers (q : VirtioGpuQueue) : VirtioGpuQueue := { q with lastAvailIdx := 0, pendingMsix := false }

end VirtioGpuQueue

/-! ## Chains -/

/-- `Descriptor::read` at an index of the table. -/
def readDescriptor (mem : GuestMemory) (queue : VirtioGpuQueue) (index : Nat) : Option Descriptor :=
  (checkedAdd queue.desc (index * descSize)).bind fun gpa => (mem.readBytes gpa descSize).map Descriptor.ofBytes

/-- The chain walk from `index`, over at most `fuel` descriptors. -/
def walkDescriptors (mem : GuestMemory) (queue : VirtioGpuQueue) : Nat → Nat → Option (List Descriptor)
  | 0, _ => none
  | fuel + 1, index =>
    match readDescriptor mem queue index with
    | none => none
    | some desc =>
      if !desc.hasNext then some [desc]
      else if desc.next ≥ queue.effectiveSize then none
      else (walkDescriptors mem queue fuel desc.next).map fun descs => desc :: descs

/-- `descriptor_chain_into`. -/
def descriptorChainInto (mem : GuestMemory) (queue : VirtioGpuQueue) (head : Nat) : Option (List Descriptor) :=
  if head ≥ queue.effectiveSize then none else walkDescriptors mem queue queue.effectiveSize head

/-- `gather_readable_into`: nothing when a readable descriptor follows a writable one, when the request grows too long
or when a buffer is not backed. -/
def gatherReadableInto (mem : GuestMemory) : List Descriptor → (writableSeen : Bool) → List UInt8 → List UInt8
  | [], _, out => out
  | desc :: descs, writableSeen, out =>
    if desc.isWrite then gatherReadableInto mem descs true out
    else if writableSeen then []
    else if out.length + desc.len > maxGpuRequestLen then []
    else
      match mem.readBytes desc.addr desc.len with
      | none => []
      | some bytes => gatherReadableInto mem descs writableSeen (out ++ bytes)

/-- The loop of `scatter_write`: the bytes from `offset` on into the writable descriptors, and how far it came. -/
def scatterFrom (bytes : List UInt8) : List Descriptor → Nat → GuestMemory → GuestMemory × Nat
  | [], offset, mem => (mem, offset)
  | desc :: descs, offset, mem =>
    if !desc.isWrite then scatterFrom bytes descs offset mem
    else
      let writable := min desc.len (bytes.length - offset)
      if writable = 0 then scatterFrom bytes descs offset mem
      else
        let (mem, written) := mem.writeBytes desc.addr (slice bytes offset writable)
        if !written then (mem, offset)
        else if offset + writable = bytes.length then (mem, offset + writable)
        else scatterFrom bytes descs (offset + writable) mem

/-- `scatter_write`. -/
def scatterWrite (mem : GuestMemory) (descs : List Descriptor) (bytes : List UInt8) : GuestMemory × Nat :=
  let (mem, offset) := scatterFrom bytes descs 0 mem
  (mem, min offset (2 ^ 32 - 1))

/-! ## What is parked -/

structure CompletedFence where
  ctxId : Nat
  ringIdx : Nat
  fenceId : Nat
deriving DecidableEq, Repr

/-- Two fences of one timeline. -/
def CompletedFence.sameRing (f g : CompletedFence) : Bool := f.ctxId == g.ctxId && f.ringIdx == g.ringIdx

/-- A completion retires the fences of its timeline up to its id. -/
def CompletedFence.retires (completed fence : CompletedFence) : Bool :=
  completed.sameRing fence && decide (fence.fenceId ≤ completed.fenceId)

/-- `PendingVblankResponse`; `id` is a ghost, the number of control chains taken before. -/
structure PendingResponse where
  queueIndex : Nat
  queue : VirtioGpuQueue
  head : Nat
  descs : List Descriptor
  response : List UInt8
  id : Nat

/-- `PendingFencedResponse`. -/
structure PendingFencedResponse extends PendingResponse where
  fence : CompletedFence

/-- Why a chain is parked. -/
inductive Parking where
  | vblank
  | fence (fence : CompletedFence)
deriving DecidableEq, Repr

inductive ChainCompletion where
  | immediate (usedLen : Nat)
  | parked
deriving DecidableEq, Repr

/-- A chain of the control queue that was taken: its number, the memory its head was read in, and whether it is
parked. -/
structure TakenChain where
  id : Nat
  availIdx : Nat
  head : Nat
  mem : GuestMemory
  parking : Option Parking

/-- How a chain came to be answered. -/
inductive Route where
  | atOnce
  | vblank
  | fence (completed : List CompletedFence)
deriving DecidableEq, Repr

/-- A chain of the control queue that was answered: the queue it was taken from, and the memory before and after its
used element was written. -/
structure AnsweredChain where
  id : Nat
  head : Nat
  queue : VirtioGpuQueue
  usedLen : Nat
  before : GuestMemory
  after : GuestMemory
  route : Route

/-- What happens to the chains of the control queue; `drained` is a list of completions all of which were looked at. -/
inductive ChainEvent where
  | taken (chain : TakenChain)
  | answered (chain : AnsweredChain)
  | drained (completed : List CompletedFence)

/-- What the device does with one control request: its response, the memory then, whether the request's context has a
renderer behind it, and whether the renderer takes a fence. -/
structure Handling where
  response : List UInt8
  mem : GuestMemory
  liveContext : Bool
  createsFence : Bool

/-- What the device does with the requests of one notification, by their place in the queue. -/
structure Handler where
  control : Nat → List UInt8 → GuestMemory → Handling
  cursor : Nat → List UInt8 → List UInt8

/-! ## The queues -/

structure GpuQueues where
  control : VirtioGpuQueue
  cursor : VirtioGpuQueue
  pendingMsixQueueBits : Nat
  interruptStatus : Nat
  pendingVblank : List PendingResponse
  pendingFenced : List PendingFencedResponse
  vblankInterval : Nat
  lastVblank : Option Nat
  taken : Nat
  log : List ChainEvent

/-- The queues and the guest's memory. -/
structure GpuState where
  gpu : GpuQueues
  mem : GuestMemory

/-- `command_requires_backend_fence`. -/
def commandRequiresBackendFence (typ : Nat) : Bool :=
  typ == cmdTransferToHost3d || typ == cmdTransferFromHost3d || typ == cmdSubmit3d

/-- The empty SUBMIT_3D of context zero, and answered well. -/
def isVsyncNop (hdr : CtrlHdr) (request response : List UInt8) : Bool :=
  hdr.typ == cmdSubmit3d && hdr.ctxId == 0 && readLeU32 request 24 == some 0 &&
    readLeU32 response 0 == some respOkNodata

namespace GpuQueues

def queue (g : GpuQueues) (queueIndex : Nat) : VirtioGpuQueue :=
  if queueIndex = queueControl then g.control else g.cursor

def modifyQueue (g : GpuQueues) (queueIndex : Nat) (f : VirtioGpuQueue → VirtioGpuQueue) : GpuQueues :=
  if queueIndex = queueControl then { g with control := f g.control } else { g with cursor := f g.cursor }

/-- `mark_queue_interrupt`. -/
def markQueueInterrupt (g : GpuQueues) (queueIndex : Nat) : GpuQueues :=
  { g.modifyQueue queueIndex fun q => { q with pendingMsix := true } with
    pendingMsixQueueBits := g.pendingMsixQueueBits ||| (1 <<< queueIndex)
    interruptStatus := g.interruptStatus ||| 1 }

/-- `parked_chains_fill_queue`. -/
def parkedChainsFillQueue (g : GpuQueues) (queueSize : Nat) : Bool :=
  decide (queueSize ≤ g.pendingVblank.length + g.pendingFenced.length)

/-- Where a handled control request is parked; a fence the renderer refuses parks nothing. -/
def parking (g : GpuQueues) (hdr : CtrlHdr) (request : List UInt8) (handling : Handling) : Option Parking :=
  if g.vblankInterval ≠ 0 ∧ isVsyncNop hdr request handling.response then some .vblank
  else if hdr.fenced && hdr.ctxId != 0 && handling.liveContext && commandRequiresBackendFence hdr.typ then
    if handling.createsFence then some (.fence ⟨hdr.ctxId, hdr.ringIdx, hdr.fenceId⟩) else none
  else none

/-- A response joins the parked ones. -/
def park (g : GpuQueues) (pending : PendingResponse) : Parking → GpuQueues
  | .vblank => { g with pendingVblank := g.pendingVblank ++ [pending] }
  | .fence fence => { g with pendingFenced := g.pendingFenced ++ [{ pending with fence }] }

/-- A chain of the control queue is taken. -/
def take (g : GpuQueues) (mem : GuestMemory) (head : Nat) (parking : Option Parking) : GpuQueues :=
  { g with
    taken := g.taken + 1
    log := .taken ⟨g.taken, g.control.lastAvailIdx, head, mem, parking⟩ :: g.log }

end GpuQueues

namespace GpuState

/-- `write_used` and `mark_queue_interrupt` for a chain of the control queue. -/
def answer (s : GpuState) (queueIndex : Nat) (queue : VirtioGpuQueue) (head usedLen id : Nat) (route : Route) :
    GpuState :=
  let after := s.mem.writeUsed queue.device queue.effectiveSize head usedLen
  { gpu := { s.gpu.markQueueInterrupt queueIndex with
      log := .answered ⟨id, head, queue, usedLen, s.mem, after, route⟩ :: s.gpu.log }
    mem := after }

/-- `process_chain` on the control queue. -/
def processControlChain (s : GpuState) (handler : Handler) (queue : VirtioGpuQueue) (head : Nat) :
    GpuState × ChainCompletion :=
  match descriptorChainInto s.mem queue head with
  | none => ({ s with gpu := s.gpu.take s.mem head none }, .immediate 0)
  | some descs =>
    let request := gatherReadableInto s.mem descs false []
    let handling := handler.control s.gpu.taken request s.mem
    let parking := (CtrlHdr.parse request).bind fun hdr => s.gpu.parking hdr request handling
    let gpu := s.gpu.take s.mem head parking
    match parking with
    | none =>
      let (mem, usedLen) := scatterWrite handling.mem descs handling.response
      (⟨gpu, mem⟩, .immediate usedLen)
    | some parking =>
      (⟨gpu.park ⟨queueControl, queue, head, descs, handling.response, s.gpu.taken⟩ parking, handling.mem⟩,
        .parked)

/-- `process_chain` on the cursor queue, and the used length. -/
def processCursorChain (s : GpuState) (handler : Handler) (queue : VirtioGpuQueue) (head : Nat) : GpuState × Nat :=
  match descriptorChainInto s.mem queue head with
  | none => (s, 0)
  | some descs =>
    let request := gatherReadableInto s.mem descs false []
    let (mem, usedLen) := scatterWrite s.mem descs (handler.cursor s.gpu.cursor.lastAvailIdx request)
    ({ s with mem }, usedLen)

/-- `last_avail_idx` moves on. -/
def advance (s : GpuState) (queueIndex : Nat) : GpuState :=
  { s with gpu := s.gpu.modifyQueue queueIndex fun q => { q with lastAvailIdx := (q.lastAvailIdx + 1) % 65536 } }

/-- A chain of the control queue, whose head was read. -/
def controlTurn (s : GpuState) (handler : Handler) (queue : VirtioGpuQueue) (head : Nat) : GpuState :=
  match s.processControlChain handler queue head with
  | (s', .parked) => s'.advance queueControl
  | (s', .immediate usedLen) =>
    (s'.advance queueControl).answer queueControl queue head usedLen s.gpu.taken .atOnce

/-- A chain of the cursor queue, whose head was read. -/
def cursorTurn (s : GpuState) (handler : Handler) (queue : VirtioGpuQueue) (head : Nat) : GpuState :=
  let (s', usedLen) := s.processCursorChain handler queue head
  let s' := s'.advance queueCursor
  ⟨s'.gpu.markQueueInterrupt queueCursor, s'.mem.writeUsed queue.device queue.effectiveSize head usedLen⟩

/-- Offset of a ring slot in the available ring. -/
def ringOff (availIdx size : Nat) : Nat := 4 + availIdx % size * 2

/-- The turns of `process_queue`, at most `n`; false when a head could not be read. -/
def turns (handler : Handler) (queueIndex : Nat) (queue : VirtioGpuQueue) : Nat → GpuState → GpuState × Bool
  | 0, s => (s, true)
  | n + 1, s =>
    if queueIndex = queueControl ∧ s.gpu.parkedChainsFillQueue queue.effectiveSize then (s, true)
    else
      match s.mem.readU16At queue.driver (ringOff (s.gpu.queue queueIndex).lastAvailIdx queue.effectiveSize) with
      | none => (s, false)
      | some head =>
        turns handler queueIndex queue n
          (if queueIndex = queueControl then s.controlTurn handler queue head else s.cursorTurn handler queue head)

/-- The first of the fenced responses: answered when a completion retires its fence, at the end of the line
otherwise. -/
def retireFirst (completed : List CompletedFence) (s : GpuState) : GpuState :=
  match s.gpu.pendingFenced with
  | [] => s
  | pending :: rest =>
    let s := { s with gpu := { s.gpu with pendingFenced := rest } }
    if !completed.any (·.retires pending.fence) then
      { s with gpu := { s.gpu with pendingFenced := rest ++ [pending] } }
    else
      let (mem, usedLen) := scatterWrite s.mem pending.descs pending.response
      answer { s with mem } pending.queueIndex pending.queue pending.head usedLen pending.id (.fence completed)

/-- The loop of `drain_completed_fences_inner`: each fenced response once. -/
def retireFenced (completed : List CompletedFence) : Nat → GpuState → GpuState
  | 0, s => s
  | n + 1, s => retireFenced completed n (retireFirst completed s)

/-- `drain_completed_fences_inner`; the completions are those the renderer has. -/
def drainCompletedFencesInner (s : GpuState) (completed : List CompletedFence) : GpuState :=
  let s :=
    if completed.isEmpty || s.gpu.pendingFenced.isEmpty then s
    else retireFenced completed s.gpu.pendingFenced.length s
  { s with gpu := { s.gpu with log := .drained completed :: s.gpu.log } }

/-- `drain_completed_fences`: the renderer is not asked while nothing waits for it. -/
def drainCompletedFences (s : GpuState) (completed : List CompletedFence) : GpuState :=
  if s.gpu.pendingFenced.isEmpty then s else s.drainCompletedFencesInner completed

/-- `pending_entries`: a 16-bit difference, capped at the queue size. -/
def pendingEntries (lastAvailIdx availIdx size : Nat) : Nat := min ((availIdx + 65536 - lastAvailIdx) % 65536) size

/-- `process_queue`. -/
def processQueue (s : GpuState) (handler : Handler) (completed : List CompletedFence) (queueIndex : Nat) : GpuState :=
  let queue := s.gpu.queue queueIndex
  if !queue.ready || queue.desc == 0 || queue.driver == 0 then s
  else
    match s.mem.readU16At queue.driver 2 with
    | none => s
    | some availIdx =>
      match turns handler queueIndex queue (pendingEntries queue.lastAvailIdx availIdx queue.effectiveSize) s with
      | (s, false) => s
      | (s, true) => s.drainCompletedFencesInner completed

/-- `notify_queue`. -/
def notifyQueue (s : GpuState) (handler : Handler) (completed : List CompletedFence) (queueIndex : Nat) : GpuState :=
  if queueIndex = queueControl ∨ queueIndex = queueCursor then s.processQueue handler completed queueIndex else s

/-- Whether the next vblank is due. -/
def vblankDue (s : GpuState) (now : Nat) : Bool :=
  s.gpu.vblankInterval != 0 &&
    match s.gpu.lastVblank with
    | none => true
    | some last => decide (s.gpu.vblankInterval ≤ now - last)

/-- The deadline the next vblank counts from: the schedule's, or now after a gap of more than one interval. -/
def nextVblank (last : Option Nat) (interval now : Nat) : Nat :=
  match last with
  | some last => if now - (last + interval) ≤ interval then last + interval else now
  | none => now

/-- `drain_host_vblank_at`: one parked response at most. -/
def drainHostVblankAt (s : GpuState) (now : Nat) : GpuState :=
  match s.gpu.pendingVblank with
  | [] => s
  | pending :: rest =>
    if !s.vblankDue now then s
    else
      let lastVblank := some (nextVblank s.gpu.lastVblank s.gpu.vblankInterval now)
      let (mem, usedLen) := scatterWrite s.mem pending.descs pending.response
      answer ⟨{ s.gpu with pendingVblank := rest, lastVblank }, mem⟩ pending.queueIndex pending.queue pending.head
        usedLen pending.id .vblank

end GpuState

/-! ## Runs -/

/-- A notification with the completions the renderer has after it, a poll of the renderer, a host vblank, or the guest
writing its memory. -/
inductive GpuOp where
  | notify (queueIndex : Nat) (handler : Handler) (completed : List CompletedFence)
  | drainFences (completed : List CompletedFence)
  | drainVblank (now : Nat)
  | guest (mem : GuestMemory)

namespace GpuState

def step (s : GpuState) : GpuOp → GpuState
  | .notify queueIndex handler completed => s.notifyQueue handler completed queueIndex
  | .drainFences completed => s.drainCompletedFences completed
  | .drainVblank now => s.drainHostVblankAt now
  | .guest mem => { s with mem }

def run (s : GpuState) (ops : List GpuOp) : GpuState := ops.foldl step s

/-- Queues as the driver set them up, with nothing taken. -/
def start (control cursor : VirtioGpuQueue) (vblankInterval : Nat) (mem : GuestMemory) : GpuState where
  gpu :=
    { control
      cursor
      pendingMsixQueueBits := 0
      interruptStatus := 0
      pendingVblank := []
      pendingFenced := []
      vblankInterval
      lastVblank := none
      taken := 0
      log := [] }
  mem := mem

theorem turns_cases (s : GpuState) (completed : List CompletedFence) (read : Option Nat) (entries : Nat → Nat → Nat)
    (size : Nat) (turn : Nat → GpuState → GpuState × Bool) {r : GpuState}
    (hr : (match read with
        | none => s
        | some availIdx =>
          match turn (entries availIdx size) s with
          | (s, false) => s
          | (s, true) => s.drainCompletedFencesInner completed) = r) :
    r = s ∨ ∃ n, r = (turn n s).1 ∨ r = (turn n s).1.drainCompletedFencesInner completed := by
  cases read with
  | none => exact .inl hr.symm
  | some availIdx =>
    refine .inr ⟨entries availIdx size, ?_⟩
    dsimp only at hr
    generalize turn (entries availIdx size) s = out at hr ⊢
    obtain ⟨s', _ | _⟩ := out
    · exact .inl hr.symm
    · exact .inr hr.symm

theorem processQueue_turns (s : GpuState) (handler : Handler) (completed : List CompletedFence) (queueIndex : Nat) :
    s.processQueue handler completed queueIndex = s ∨
      ∃ n, s.processQueue handler completed queueIndex = (turns handler queueIndex (s.gpu.queue queueIndex) n s).1 ∨
        s.processQueue handler completed queueIndex =
          (turns handler queueIndex (s.gpu.queue queueIndex) n s).1.drainCompletedFencesInner completed := by
  unfold processQueue
  dsimp only
  split
  · exact .inl rfl
  · exact turns_cases s completed _ (pendingEntries (s.gpu.queue queueIndex).lastAvailIdx) _
      (turns handler queueIndex (s.gpu.queue queueIndex)) rfl

end GpuState

end BridgeVm.VirtioGpu
