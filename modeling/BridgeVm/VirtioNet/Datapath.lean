import BridgeVm.GuestMemory

/-!
# The virtio-net transmit path (`virtio_net/datapath.rs`, `tx_gather.rs`, `virtqueue.rs`, `queue_pending.rs`)

A TX doorbell drains the available ring: each head is walked into a descriptor chain, gathered into a packet, handed to
the backend without its virtio-net header, and returned through the used ring. 16-bit indices wrap.
-/

namespace BridgeVm.Virtio

open Lib

universe u

def queueTx : Nat := 1

def driverOk : Nat := 4

def virtioNetHdrLen : Nat := 12

def maxTxPacketLen : Nat := virtioNetHdrLen + 65535

/-- What the host side of the link does with a frame. -/
class NetBackend (β : Type u) where
  transmit : β → List UInt8 → β

structure VirtioNetQueue where
  size : Nat
  ready : Bool
  desc : Nat
  driver : Nat
  device : Nat
  lastAvailIdx : Nat
  pendingMsix : Bool
deriving DecidableEq, Repr

/-- Counters saturate at 64 bits. -/
def satAdd (a b : Nat) : Nat := min (a + b) (2 ^ 64 - 1)

structure VirtioNetStats where
  notifyCount : Nat
  txCount : Nat
  txBytes : Nat
deriving DecidableEq, Repr

/-- The device, as far as transmitting reads and writes it. -/
structure VirtioNet (β : Type u) where
  backend : β
  stats : VirtioNetStats
  tx : VirtioNetQueue
  pendingMsixQueueBits : Nat
  status : Nat
  interruptStatus : Nat

/-! ## Chains and packets -/

/-- The chain walk from `index`, over at most `fuel` descriptors. -/
def walkDescriptors (mem : GuestMemory) (queue : VirtioNetQueue) : Nat → Nat → Option (List Descriptor)
  | 0, _ => none
  | fuel + 1, index =>
    match mem.readDescriptor queue.desc index with
    | none => none
    | some desc =>
      if !desc.hasNext then some [desc]
      else if desc.next ≥ queue.size then none
      else (walkDescriptors mem queue fuel desc.next).map fun descs => desc :: descs

/-- `descriptor_chain_into`. -/
def descriptorChainInto (mem : GuestMemory) (queue : VirtioNetQueue) (head : Nat) : Option (List Descriptor) :=
  if head ≥ queue.size then none else walkDescriptors mem queue queue.size head

/-- The descriptors' bytes appended to the packet, in order; the first that does not fit or is not backed fails. -/
def gather (mem : GuestMemory) : List Descriptor → List UInt8 → Option (List UInt8)
  | [], packet => some packet
  | desc :: descs, packet =>
    (appendGuestBytesBounded mem desc.addr desc.len maxTxPacketLen packet).bind fun packet => gather mem descs packet

/-- `tx_frame_from_chain_into`: the packet of a valid chain, header included. -/
def txFrameFromChainInto (mem : GuestMemory) (queue : VirtioNetQueue) (head : Nat) : Option (List UInt8) :=
  match descriptorChainInto mem queue head with
  | none => none
  | some descs =>
    if descs.any Descriptor.isWrite then none
    else
      match gather mem descs [] with
      | none => none
      | some packet => if packet.length ≥ virtioNetHdrLen then some packet else none

/-! ## Draining -/

/-- `mark_queue_interrupt` on the TX queue. -/
def VirtioNet.markQueueInterrupt {β : Type u} (dev : VirtioNet β) : VirtioNet β :=
  { dev with
    tx := { dev.tx with pendingMsix := true },
    pendingMsixQueueBits := dev.pendingMsixQueueBits ||| (1 <<< queueTx),
    interruptStatus := dev.interruptStatus ||| 1 }

/-- Hand one frame to the backend and count it. -/
def VirtioNet.transmit {β : Type u} [NetBackend β] (dev : VirtioNet β) (frame : List UInt8) : VirtioNet β :=
  { dev with
    stats := { dev.stats with
      txCount := satAdd dev.stats.txCount 1,
      txBytes := satAdd dev.stats.txBytes frame.length },
    backend := NetBackend.transmit dev.backend frame }

/-- A consumed chain: its available index, its head, the memory it was read in and left, and the frame sent. -/
structure Consumed where
  availIdx : Nat
  head : Nat
  before : GuestMemory
  after : GuestMemory
  frame : Option (List UInt8)

/-- Device and memory while a doorbell is served. -/
structure TxState (β : Type u) where
  dev : VirtioNet β
  mem : GuestMemory

/-- Offset of a ring slot in the available ring. -/
def ringOff (availIdx size : Nat) : Nat := 4 + availIdx % size * 2

/-- One turn of the drain; `none` when the ring slot is not backed. -/
def TxState.turn {β : Type u} [NetBackend β] (queue : VirtioNetQueue) (s : TxState β) :
    Option (TxState β × Consumed) :=
  let availIdx := s.dev.tx.lastAvailIdx
  (s.mem.readU16At queue.driver (ringOff availIdx queue.size)).map fun head =>
    let frame := (txFrameFromChainInto s.mem queue head).map fun packet => packet.drop virtioNetHdrLen
    let dev := match frame with
      | some frame => s.dev.transmit frame
      | none => s.dev
    let mem := s.mem.writeUsed queue.device queue.size head 0
    let dev := { dev with tx := { dev.tx with lastAvailIdx := (availIdx + 1) % 65536 } }
    (⟨dev.markQueueInterrupt, mem⟩, ⟨availIdx, head, s.mem, mem, frame⟩)

/-- At most `n` turns, and the chains consumed. -/
def TxState.drain {β : Type u} [NetBackend β] (queue : VirtioNetQueue) :
    Nat → TxState β → TxState β × List Consumed
  | 0, s => (s, [])
  | n + 1, s =>
    match s.turn queue with
    | none => (s, [])
    | some (s', c) =>
      let (s'', cs) := TxState.drain queue n s'
      (s'', c :: cs)

/-- `pending_entries`: a 16-bit difference, capped at the queue size. -/
def pendingEntries (lastAvailIdx availIdx size : Nat) : Nat :=
  min ((availIdx + 65536 - lastAvailIdx) % 65536) size

/-- `process_tx_queue`. -/
def TxState.processTxQueue {β : Type u} [NetBackend β] (s : TxState β) : TxState β × List Consumed :=
  if s.dev.status &&& driverOk = 0 then (s, [])
  else
    let queue := s.dev.tx
    if !queue.ready ∨ queue.size = 0 ∨ queue.desc = 0 then (s, [])
    else
      match s.mem.readU16At queue.driver 2 with
      | none => (s, [])
      | some availIdx => s.drain queue (pendingEntries queue.lastAvailIdx availIdx queue.size)

/-- One more doorbell counted. -/
def TxState.countNotify {β : Type u} (s : TxState β) : TxState β :=
  { s with dev := { s.dev with stats := { s.dev.stats with notifyCount := satAdd s.dev.stats.notifyCount 1 } } }

/-- `notify_queue`. -/
def TxState.notifyQueue {β : Type u} [NetBackend β] (s : TxState β) (queueIndex : Nat) :
    TxState β × List Consumed :=
  if queueIndex = queueTx then s.countNotify.processTxQueue else (s.countNotify, [])

end BridgeVm.Virtio
