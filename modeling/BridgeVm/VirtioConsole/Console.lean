import BridgeVm.DescriptorChain

/-!
# The virtio-console device (`virtio_console/*.rs`)

Control messages and agent bytes wait in the device until the guest posts buffers for them, and agent bytes of the guest
until the host drains them. The device carries a log of what went through its queues, newest first, which no function
reads.
-/

namespace BridgeVm.Console

open Lib

local instance neZeroQueues : NeZero 6 := ⟨by decide⟩

def queueControlRx : Fin 6 := 2
def queueControlTx : Fin 6 := 3
def queueAgentRx : Fin 6 := 4
def queueAgentTx : Fin 6 := 5

def driverOk : Nat := 4

def agentPortId : Fin 2 := 1
def agentPortName : List UInt8 := "org.bridgevm.agent.0".toList.map fun c => UInt8.ofNat c.toNat

def eventDeviceReady : Nat := 0
def eventDeviceAdd : Nat := 1
def eventPortReady : Nat := 3
def eventPortOpen : Nat := 6
def eventPortName : Nat := 7

def controlLen : Nat := 8
def maxControlMessageLen : Nat := controlLen + agentPortName.length
def maxAgentMessageLen : Nat := 16 * 1024 * 1024
def maxHostInboundLen : Nat := 4 * 1024 * 1024
def maxPendingControlMessages : Nat := 64

structure ConsoleQueue where
  size : Nat
  ready : Bool
  desc : Nat
  driver : Nat
  device : Nat
  lastAvailIdx : Nat
  pendingMsix : Bool
deriving DecidableEq, Repr

structure PortState where
  ready : Bool
  guestOpen : Bool
  hostOpen : Bool
deriving DecidableEq, Repr

structure VirtioConsole where
  queues : Fin 6 → ConsoleQueue
  pendingMsixQueueBits : Nat
  status : Nat
  interruptStatus : Nat
  ports : Fin 2 → PortState
  pendingControl : List (List UInt8)
  hostToGuest : List UInt8
  hostInbound : List UInt8
  agentConnectedConfirmed : Bool
  agentTxDropped : Nat

/-- A receive buffer that was used: its chain, what was written to it, and the memory before, with the data in the
buffer, and with the used element. -/
structure RxUsed where
  queue : Fin 6
  availIdx : Nat
  head : Nat
  descs : List Descriptor
  data : List UInt8
  before : GuestMemory
  filled : GuestMemory
  after : GuestMemory

/-- A chain of the agent's transmit queue that was used, with its bytes where they were taken. -/
structure TxUsed where
  availIdx : Nat
  head : Nat
  bytes : Option (List UInt8)
  before : GuestMemory
  after : GuestMemory

inductive ConsoleEvent
  | sent (data : List UInt8)
  | rxUsed (used : RxUsed)
  | popped (message : List UInt8)
  | txUsed (used : TxUsed)
  | drained (bytes : List UInt8)

/-- The device, the guest's memory, and the log. -/
structure ConsoleState where
  dev : VirtioConsole
  mem : GuestMemory
  log : List ConsoleEvent

/-! ## Control messages -/

structure Control where
  id : Nat
  event : Nat
  value : Nat
deriving DecidableEq, Repr

namespace Control

def parse (bytes : List UInt8) : Option Control :=
  if bytes.length < controlLen then none
  else some ⟨ofLeBytes (bytes.take 4), ofLeBytes ((bytes.drop 4).take 2), ofLeBytes ((bytes.drop 6).take 2)⟩

def bytes (c : Control) : List UInt8 := toLeBytes 4 c.id ++ toLeBytes 2 c.event ++ toLeBytes 2 c.value

end Control

/-- `agent_port_name_message`. -/
def agentPortNameMessage : List UInt8 := (Control.mk agentPortId.val eventPortName 0).bytes ++ agentPortName

/-- PORT_OPEN of the agent's port. -/
def portOpenMessage : List UInt8 := (Control.mk agentPortId.val eventPortOpen 1).bytes

namespace VirtioConsole

variable (dev : VirtioConsole)

def setQueue (queueIndex : Fin 6) (f : ConsoleQueue → ConsoleQueue) : VirtioConsole :=
  { dev with queues := fun i => if i = queueIndex then f (dev.queues i) else dev.queues i }

def setPort (id : Fin 2) (f : PortState → PortState) : VirtioConsole :=
  { dev with ports := fun i => if i = id then f (dev.ports i) else dev.ports i }

/-- `enqueue_control`: beyond the backlog a message is dropped. -/
def enqueueControl (message : List UInt8) : VirtioConsole :=
  if dev.pendingControl.length < maxPendingControlMessages then
    { dev with pendingControl := dev.pendingControl ++ [message] }
  else dev

/-- `host_open_reassert_pending`. -/
def hostOpenReassertPending : Bool := dev.pendingControl.any fun message => message == portOpenMessage

/-- `maybe_reassert_host_open`. -/
def maybeReassertHostOpen : VirtioConsole :=
  let port := dev.ports agentPortId
  if !port.ready || !port.hostOpen || dev.agentConnectedConfirmed then dev
  else if dev.hostOpenReassertPending then dev
  else (dev.enqueueControl agentPortNameMessage).enqueueControl portOpenMessage

/-- `handle_control_tx`. -/
def handleControlTx (bytes : List UInt8) : VirtioConsole :=
  match Control.parse bytes with
  | none => dev
  | some control =>
    if control.event = eventDeviceReady ∧ control.value = 1 then
      (dev.enqueueControl (Control.mk 0 eventDeviceAdd 0).bytes).enqueueControl (Control.mk 1 eventDeviceAdd 0).bytes
    else if control.event = eventPortReady ∧ control.value = 1 then
      let dev := if h : control.id < 2 then dev.setPort ⟨control.id, h⟩ fun p => { p with ready := true } else dev
      if control.id = agentPortId then
        let dev := dev.enqueueControl agentPortNameMessage
        let dev := dev.setPort 1 fun p => { p with hostOpen := true }
        { dev with agentConnectedConfirmed := false }.enqueueControl portOpenMessage
      else dev
    else if control.event = eventPortOpen then
      if h : control.id < 2 then dev.setPort ⟨control.id, h⟩ fun p => { p with guestOpen := control.value != 0 }
        else dev
    else dev

/-- `mark_queue_interrupt`. -/
def markQueueInterrupt (queueIndex : Fin 6) : VirtioConsole :=
  { dev.setQueue queueIndex fun q => { q with pendingMsix := true } with
    pendingMsixQueueBits := dev.pendingMsixQueueBits ||| (1 <<< queueIndex.val)
    interruptStatus := dev.interruptStatus ||| 1 }

/-- `last_avail_idx` moves on. -/
def advance (queueIndex : Fin 6) : VirtioConsole :=
  dev.setQueue queueIndex fun q => { q with lastAvailIdx := (q.lastAvailIdx + 1) % 65536 }

/-- `host_inbound_has_room`. -/
def hostInboundHasRoom : Bool := decide (dev.hostInbound.length < maxHostInboundLen)

end VirtioConsole

/-! ## Chains -/

/-- Offset of a ring slot in the available ring. -/
def ringOff (availIdx size : Nat) : Nat := 4 + availIdx % size * 2

/-- `descriptor_chain_into`. -/
def descriptorChainInto (mem : GuestMemory) (queue : ConsoleQueue) (head : Nat) : Option (List Descriptor) :=
  descriptorChain mem queue.desc queue.size head

/-- `slice_pair_chunk`. -/
def slicePairChunk (first second : List UInt8) (offset : Nat) : Option (List UInt8) :=
  if offset < first.length then some (first.drop offset)
  else if offset - first.length < second.length then some (second.drop (offset - first.length))
  else none

/-- The inner loop of `scatter_write_partial_slices`, over at most `fuel` chunks of one descriptor; no offset when a
write is refused. -/
def scatterInto (first second : List UInt8) : (fuel addr remaining offset : Nat) → GuestMemory →
    GuestMemory × Option Nat
  | 0, _, _, offset, mem => (mem, some offset)
  | fuel + 1, addr, remaining, offset, mem =>
    if remaining = 0 ∨ first.length + second.length ≤ offset then (mem, some offset)
    else
      match slicePairChunk first second offset with
      | none => (mem, none)
      | some chunk =>
        let writable := min remaining chunk.length
        if writable = 0 then (mem, some offset)
        else
          let (mem, written) := mem.writeBytes addr (chunk.take writable)
          if !written then (mem, none)
          else
            match checkedAdd addr writable with
            | none => (mem, none)
            | some addr => scatterInto first second fuel addr (remaining - writable) (offset + writable) mem

/-- The loop over the descriptors; each chunk takes a byte or more, so the bytes left bound the chunks. -/
def scatterDescs (first second : List UInt8) : List Descriptor → Nat → GuestMemory → GuestMemory × Option Nat
  | [], offset, mem => (mem, if 0 < offset then some offset else none)
  | desc :: descs, offset, mem =>
    match scatterInto first second (first.length + second.length - offset) desc.addr desc.len offset mem with
    | (mem, none) => (mem, none)
    | (mem, some offset) =>
      if offset = first.length + second.length then (mem, if 0 < offset then some offset else none)
      else scatterDescs first second descs offset mem

/-- `scatter_write_partial_slices`. -/
def scatterWritePartialSlices (mem : GuestMemory) (descs : List Descriptor) (first second : List UInt8) :
    GuestMemory × Option Nat :=
  if descs.any fun desc => !desc.isWrite then (mem, none) else scatterDescs first second descs 0 mem

/-- The bytes of the descriptors in order, bounded. -/
def gather (mem : GuestMemory) (maxLen : Nat) : List Descriptor → List UInt8 → Option (List UInt8)
  | [], out => some out
  | desc :: descs, out => (appendGuestBytesBounded mem desc.addr desc.len maxLen out).bind fun out =>
    gather mem maxLen descs out

/-- `read_chain_into`. -/
def readChainInto (mem : GuestMemory) (queue : ConsoleQueue) (head maxLen : Nat) : Option (List UInt8) :=
  match descriptorChainInto mem queue head with
  | none => none
  | some descs => if descs.any Descriptor.isWrite then none else gather mem maxLen descs []

/-- `write_used`. -/
def writeUsed (mem : GuestMemory) (queue : ConsoleQueue) (id len : Nat) : GuestMemory :=
  mem.writeUsed queue.device queue.size id len

/-- `pending_entries`: a 16-bit difference, capped at the queue size. -/
def pendingEntries (lastAvailIdx availIdx size : Nat) : Nat := min ((availIdx + 65536 - lastAvailIdx) % 65536) size

namespace ConsoleState

variable (s : ConsoleState)

/-! ## Delivery to the guest -/

/-- The chain that the guest offers next on a queue, with its head: nothing while the queue is not set up or has no new
entry, or where the entry or the chain cannot be read. -/
def offered (queueIndex : Fin 6) : Option (Nat × List Descriptor) :=
  let queue := s.dev.queues queueIndex
  if !queue.ready || queue.size == 0 || queue.desc == 0 then none
  else
    match s.mem.readU16At queue.driver 2 with
    | none => none
    | some availIdx =>
      if queue.lastAvailIdx = availIdx then none
      else
        match s.mem.readU16At queue.driver (ringOff queue.lastAvailIdx queue.size) with
        | none => none
        | some head => (descriptorChainInto s.mem queue head).map fun descs => (head, descs)

/-- `deliver_partial_slices_to_rx_queue`: how many bytes were delivered. -/
def deliverPartialSlices (queueIndex : Fin 6) (first second : List UInt8) : ConsoleState × Option Nat :=
  let queue := s.dev.queues queueIndex
  if first.length + second.length = 0 then (s, none)
  else
    match s.offered queueIndex with
    | none => (s, none)
    | some (head, descs) =>
      match scatterWritePartialSlices s.mem descs first second with
      | (mem, none) => ({ s with mem }, none)
      | (mem, some written) =>
        let after := writeUsed mem queue head (min written (2 ^ 32 - 1))
        ({ dev := (s.dev.advance queueIndex).markQueueInterrupt queueIndex
           mem := after
           log := .rxUsed ⟨queueIndex, queue.lastAvailIdx, head, descs, (first ++ second).take written, s.mem,
             mem, after⟩ ::
             s.log },
          some written)

/-- `deliver_to_rx_queue`: whether everything was delivered. -/
def deliverToRxQueue (queueIndex : Fin 6) (bytes : List UInt8) : ConsoleState × Bool :=
  match s.deliverPartialSlices queueIndex bytes [] with
  | (s, some written) => (s, written == bytes.length)
  | (s, none) => (s, false)

/-- One turn of `flush_pending_control`: the first message is popped and delivered, or put back. -/
def flushOne : ConsoleState × Bool :=
  match s.dev.pendingControl with
  | [] => (s, false)
  | message :: rest =>
    match ({ s with dev := { s.dev with pendingControl := rest } } : ConsoleState).deliverToRxQueue queueControlRx
        message with
    | (s, true) => ({ s with log := .popped message :: s.log }, true)
    | (s, false) => ({ s with dev := { s.dev with pendingControl := message :: s.dev.pendingControl } }, false)

/-- The loop of `flush_pending_control`, at most `n` turns. -/
def flushTurns : Nat → ConsoleState → ConsoleState × Bool
  | 0, s => (s, false)
  | n + 1, s =>
    match s.flushOne with
    | (s, true) => ((flushTurns n s).1, true)
    | (s, false) => (s, false)

/-- `flush_pending_control`: each turn that goes on pops a message. -/
def flushPendingControl : ConsoleState × Bool := flushTurns s.dev.pendingControl.length s

/-- `deliver_agent_rx`; `split` is where the queue of bytes wraps. -/
def deliverAgentRx (split : Nat) : ConsoleState × Bool :=
  if s.dev.hostToGuest = [] then (s, false)
  else
    match s.deliverPartialSlices queueAgentRx (s.dev.hostToGuest.take split) (s.dev.hostToGuest.drop split) with
    | (s, none) => (s, false)
    | (s, some written) =>
      ({ s with dev := { s.dev with hostToGuest := s.dev.hostToGuest.drop written } }, true)

/-- `agent_send`. -/
def agentSend (data : List UInt8) : ConsoleState :=
  { s with
    dev := { s.dev with hostToGuest := s.dev.hostToGuest ++ data }.maybeReassertHostOpen
    log := .sent data :: s.log }

/-! ## Delivery to the host -/

/-- One turn of `process_control_tx_queue`; `none` when the ring slot is not backed. -/
def controlTxTurn (queue : ConsoleQueue) : Option ConsoleState :=
  let lastAvailIdx := (s.dev.queues queueControlTx).lastAvailIdx
  (s.mem.readU16At queue.driver (ringOff lastAvailIdx queue.size)).map fun head =>
    let dev :=
      match readChainInto s.mem queue head maxControlMessageLen with
      | some bytes => s.dev.handleControlTx bytes
      | none => s.dev
    { s with
      dev := (dev.advance queueControlTx).markQueueInterrupt queueControlTx
      mem := writeUsed s.mem queue head 0 }

/-- One turn of `process_agent_tx_queue`; `none` when there is no room or the ring slot is not backed. -/
def agentTxTurn (queue : ConsoleQueue) : Option ConsoleState :=
  if !s.dev.hostInboundHasRoom then none
  else
    let lastAvailIdx := (s.dev.queues queueAgentTx).lastAvailIdx
    (s.mem.readU16At queue.driver (ringOff lastAvailIdx queue.size)).map fun head =>
      let bytes := readChainInto s.mem queue head maxAgentMessageLen
      let dev :=
        match bytes with
        | some bytes =>
          { s.dev with
            agentConnectedConfirmed := s.dev.agentConnectedConfirmed || !bytes.isEmpty
            hostInbound := s.dev.hostInbound ++ bytes }
        | none => { s.dev with agentTxDropped := s.dev.agentTxDropped + 1 }
      let after := writeUsed s.mem queue head 0
      { dev := (dev.advance queueAgentTx).markQueueInterrupt queueAgentTx
        mem := after
        log := .txUsed ⟨lastAvailIdx, head, bytes, s.mem, after⟩ :: s.log }

/-- At most `n` turns, up to the first that is not made; and whether one was made. -/
def turns (turn : ConsoleState → Option ConsoleState) : Nat → ConsoleState → ConsoleState × Bool
  | 0, s => (s, false)
  | n + 1, s =>
    match turn s with
    | none => (s, false)
    | some s => ((turns turn n s).1, true)

/-- The entries that a transmit queue has for the device. -/
def entries (queueIndex : Fin 6) : Nat :=
  let queue := s.dev.queues queueIndex
  if !queue.ready || queue.size == 0 || queue.desc == 0 then 0
  else
    match s.mem.readU16At queue.driver 2 with
    | none => 0
    | some availIdx => pendingEntries queue.lastAvailIdx availIdx queue.size

/-- `process_control_tx_queue`. -/
def processControlTxQueue : ConsoleState × Bool :=
  turns (fun s' => s'.controlTxTurn (s.dev.queues queueControlTx)) (s.entries queueControlTx) s

/-- `process_agent_tx_queue`. -/
def processAgentTxQueue : ConsoleState × Bool :=
  turns (fun s' => s'.agentTxTurn (s.dev.queues queueAgentTx)) (s.entries queueAgentTx) s

/-- `take_inbound`, `drain_inbound_into`. -/
def drainInbound : ConsoleState :=
  { s with dev := { s.dev with hostInbound := [] }, log := .drained s.dev.hostInbound :: s.log }

/-- `notify_queue`. -/
def notifyQueue (queueIndex split : Nat) : ConsoleState :=
  if s.dev.status &&& driverOk = 0 then s
  else if queueIndex = queueControlRx then s.flushPendingControl.1
  else if queueIndex = queueControlTx then s.processControlTxQueue.1.flushPendingControl.1
  else if queueIndex = queueAgentRx then (s.deliverAgentRx split).1
  else if queueIndex = queueAgentTx then s.processAgentTxQueue.1
  else s

/-- `poll`, and whether it made progress. -/
def poll (split : Nat) : ConsoleState × Bool :=
  if s.dev.status &&& driverOk = 0 then (s, false)
  else
    let (s₁, handled) := s.processControlTxQueue
    let (s₂, flushed) := s₁.flushPendingControl
    let (s₃, delivered) := s₂.deliverAgentRx split
    let (s₄, taken) := s₃.processAgentTxQueue
    (s₄, handled || flushed || delivered || taken)

end ConsoleState

/-! ## Runs -/

/-- What happens to the device; in between the guest writes its memory. -/
inductive ConsoleOp
  | agentSend (data : List UInt8)
  | notify (queueIndex split : Nat)
  | poll (split : Nat)
  | drainInbound
  | guest (mem : GuestMemory)

namespace ConsoleState

def step (s : ConsoleState) : ConsoleOp → ConsoleState
  | .agentSend data => s.agentSend data
  | .notify queueIndex split => s.notifyQueue queueIndex split
  | .poll split => (s.poll split).1
  | .drainInbound => s.drainInbound
  | .guest mem => { s with mem }

def run (s : ConsoleState) (ops : List ConsoleOp) : ConsoleState := ops.foldl step s

end ConsoleState

end BridgeVm.Console
