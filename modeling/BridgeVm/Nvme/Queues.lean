import BridgeVm.Lib.Bits
import BridgeVm.Lib.Ring
import BridgeVm.Lib.Slots
import BridgeVm.Nvme.DataPath

/-!
# Queues of the NVMe controller (`nvme/queue.rs`, `doorbell.rs`, `completion_capacity.rs`, `queue_*.rs`)

Submission and completion queues, the pending-doorbell bitmap, the completion slots held for jobs in flight, and the
admin commands that create and delete queues. `NvmeController` is the controller without its disks and its data-path
setting, which are in `DataPath`.

Ghost fields: `born` tells the instances of a queue id apart, `unread` counts the posted entries the guest has not
acknowledged, `serial` numbers the fetched commands. Nothing the controller computes reads them.
-/

namespace BridgeVm.Nvme

open Lib

def sqEntrySize : Nat := 64

def cqEntrySize : Nat := 16

def maxQueueEntries : Nat := 1024

def maxIoQueuePairs : Nat := 8

def nvmeMsixVectorCount : Nat := 9

structure SubmissionQueue where
  base : Nat
  size : Nat
  head : Nat
  tailDoorbell : Nat
  cqid : Nat
  born : Nat
deriving DecidableEq, Repr

structure CompletionQueue where
  base : Nat
  size : Nat
  tail : Nat
  phase : Bool
  head : Nat
  interruptVector : Nat
  interruptsEnabled : Bool
  born : Nat
  unread : Nat
deriving DecidableEq, Repr

/-- A fetched command: its queues' ids, and which instances of them it was fetched from and will complete to. -/
structure Fetched where
  sqid : Nat
  cqid : Nat
  cmd : SubmissionEntry
  sqBorn : Nat
  cqBorn : Nat
  serial : Nat
deriving DecidableEq, Repr

/-- A command in flight, and the disks to sync for it. -/
structure FlushJob where
  fetched : Fetched
  disk : Bool
  disk2 : Bool
deriving DecidableEq, Repr

/-- `FlushJob::io`. -/
def FlushJob.io (fetched : Fetched) : FlushJob := ⟨fetched, false, false⟩

structure Finished where
  job : FlushJob
  status : Nat
  /-- A WRITE whose data is written: its sync comes next, then its completion. -/
  syncNext : Bool
deriving DecidableEq, Repr

/-- One READ or WRITE of the file behind its command's namespace, checked under the lock. -/
structure IoJob where
  done : FlushJob
  write : Bool
  syncNext : Bool
  offset : Nat
  segments : List (Nat × Nat)
deriving DecidableEq, Repr

/-- `FlushWorker`, with what its channel and its shared state hold. -/
structure FlushWorker where
  /-- The thread's inbox, while there is a thread. -/
  jobs : Option (List FlushJob) := none
  finished : List Finished := []
  inFlight : Nat := 0
  io : List IoJob := []

def ccEnBit : BitVec 32 := 1

def cstsRdyBit : BitVec 32 := 1

def cstsCfsBit : BitVec 32 := 1 <<< 1

def cstsShstMask : BitVec 32 := 3 <<< 2

def cstsShstProcessing : BitVec 32 := 1 <<< 2

def cstsShstComplete : BitVec 32 := 2 <<< 2

structure NvmeController where
  cc : BitVec 32
  csts : BitVec 32
  aqa : BitVec 32
  asq : Nat
  acq : Nat
  intms : BitVec 32
  sqs : List (Option SubmissionQueue)
  cqs : List (Option CompletionQueue)
  pendingSqBits : List (BitVec 64)
  maxIoQueues : Nat
  lastFeatureResult : Nat
  volatileWriteCacheEnabled : Bool
  pendingAsyncEventRequests : Nat
  asyncFlush : Bool
  /-- No worker yet and a fresh worker behave alike. -/
  flushWorker : FlushWorker
  flushReserved : List Nat
  unlockedIo : Bool
  births : Nat
  fetches : Nat

namespace NvmeController

/-- `with_disk_backend`; the ghost counters go on. -/
def fresh (births fetches : Nat) : NvmeController where
  cc := 0
  csts := 0
  aqa := 0
  asq := 0
  acq := 0
  intms := 0
  sqs := [none]
  cqs := [none]
  pendingSqBits := [0]
  maxIoQueues := maxIoQueuePairs
  lastFeatureResult := 0
  volatileWriteCacheEnabled := true
  pendingAsyncEventRequests := 0
  asyncFlush := false
  flushWorker := {}
  flushReserved := []
  unlockedIo := false
  births := births
  fetches := fetches

def enabled (c : NvmeController) : Bool := (c.cc &&& ccEnBit) != 0

/-! ## The pending-doorbell bitmap -/

/-- Bit `qid` of the bitmap. -/
def sqPending (c : NvmeController) (qid : Nat) : Bool := (entry 0 c.pendingSqBits (qid / 64)).getLsbD (qid % 64)

/-- `mark_sq_pending`. -/
def markSqPending (c : NvmeController) (qid : Nat) : NvmeController :=
  { c with pendingSqBits := updateEntry 0 c.pendingSqBits (qid / 64) fun word => word ||| (1#64 <<< (qid % 64)) }

/-- `clear_sq_pending`. -/
def clearSqPending (c : NvmeController) (qid : Nat) : NvmeController :=
  { c with pendingSqBits := c.pendingSqBits.modify (qid / 64) fun word => word &&& ~~~(1#64 <<< (qid % 64)) }

/-- `sq_has_work`. -/
def sqHasWork (c : NvmeController) (qid : Nat) : Bool := (slot c.sqs qid).any fun sq => sq.head ≠ sq.tailDoorbell

/-! ## Completion slots -/

/-- `flush_reserved_slots`. -/
def flushReservedSlots (c : NvmeController) (cqid : Nat) : Nat := entry 0 c.flushReserved cqid

/-- `hold_completion_slot`. -/
def holdCompletionSlot (c : NvmeController) (cqid : Nat) : NvmeController :=
  { c with flushReserved := updateEntry 0 c.flushReserved cqid (· + 1) }

/-- Give back a slot held on `cqid`. -/
def releaseCompletionSlot (c : NvmeController) (cqid : Nat) : NvmeController :=
  { c with flushReserved := c.flushReserved.modify cqid (· - 1) }

/-- `cq_has_space`. -/
def cqHasSpace (c : NvmeController) (cqid : Nat) : Bool :=
  match slot c.cqs cqid with
  | none => false
  | some cq =>
    let used := (cq.tail + cq.size - cq.head) % max cq.size 1
    let held := c.flushReservedSlots cqid
    2 ≤ cq.size ∧ cq.tail < cq.size ∧ cq.head < cq.size ∧ used + 1 + held < cq.size

/-! ## Doorbells -/

def regDoorbellBase : Nat := 0x1000

def regDoorbellEnd : Nat := regDoorbellBase + (maxIoQueuePairs + 1) * 2 * 4

def isModelledDoorbell (offset : Nat) : Bool := regDoorbellBase ≤ offset ∧ offset < regDoorbellEnd ∧
    offset % 4 = 0

/-- `write_doorbell`. -/
def writeDoorbell (c : NvmeController) (offset value : Nat) : NvmeController :=
  let idx := (offset - regDoorbellBase) / 4
  let qid := idx / 2
  let val := value % 2 ^ 16
  if idx % 2 = 1 then
    match slot c.cqs qid with
    | none => c
    | some cq =>
      if cq.size ≤ val then c
      else { c with cqs := putSlot c.cqs qid { cq with head := val, unread := cq.unread - ringDist cq.size cq.head val }
        }
  else
    match slot c.sqs qid with
    | none => c
    | some sq =>
      if sq.size ≤ val then c
      else
        let c := { c with sqs := putSlot c.sqs qid { sq with tailDoorbell := val } }
        if sq.head ≠ val then c.markSqPending qid else c.clearSqPending qid

/-! ## Creating and deleting queues -/

/-- `io_queue_size`: the size, or the status to refuse it with. -/
def ioQueueSize (cmd : SubmissionEntry) : Except Nat Nat :=
  let zeroBased := (cmd.cdw10 >>> 16) &&& 0xffff
  if zeroBased = 0 ∨ maxQueueEntries ≤ zeroBased then .error scInvalidQueueSize
  else if cmd.cdw11 &&& 1 = 0 then .error scInvalidField
  else .ok (zeroBased + 1)

/-- `admin_create_io_cq`. -/
def adminCreateIoCq (c : NvmeController) (cmd : SubmissionEntry) : Nat × NvmeController :=
  let qid := cmd.cdw10 &&& 0xffff
  let interruptVector := (cmd.cdw11 >>> 16) &&& 0xffff
  let interruptsEnabled : Bool := cmd.cdw11 &&& 2 ≠ 0
  if qid = 0 ∨ c.maxIoQueues < qid then (scInvalidField, c)
  else
    match ioQueueSize cmd with
    | .error status => (status, c)
    | .ok size =>
      if interruptsEnabled ∧ nvmeMsixVectorCount ≤ interruptVector then (scInvalidField, c)
      else if (slot c.cqs qid).isSome then (scInvalidQueueIdentifier, c)
      else
        let cq : CompletionQueue :=
          { base := cmd.prp1, size := size, tail := 0, phase := true, head := 0, interruptVector := interruptVector,
            interruptsEnabled := interruptsEnabled, born := c.births, unread := 0 }
        (scSuccess, { c with cqs := putSlot c.cqs qid cq, births := c.births + 1 })

/-- `admin_create_io_sq`. -/
def adminCreateIoSq (c : NvmeController) (cmd : SubmissionEntry) : Nat × NvmeController :=
  let qid := cmd.cdw10 &&& 0xffff
  let cqid := (cmd.cdw11 >>> 16) &&& 0xffff
  if qid = 0 ∨ c.maxIoQueues < qid then (scInvalidField, c)
  else
    match ioQueueSize cmd with
    | .error status => (status, c)
    | .ok size =>
      if (slot c.cqs cqid).isNone then (scInvalidField, c)
      else if cqid = 0 ∨ (slot c.sqs qid).isSome then (scInvalidQueueIdentifier, c)
      else
        let sq : SubmissionQueue :=
          { base := cmd.prp1, size := size, head := 0, tailDoorbell := 0, cqid := cqid, born := c.births }
        (scSuccess, { c with sqs := putSlot c.sqs qid sq, births := c.births + 1 }.clearSqPending qid)

/-- `admin_delete_io_queue`. -/
def adminDeleteIoQueue (c : NvmeController) (cmd : SubmissionEntry) : Nat × NvmeController :=
  let qid := cmd.cdw10 &&& 0xffff
  if qid = 0 then (scInvalidQueueIdentifier, c)
  else if cmd.opcode = adminOpDeleteIoSq then
    if (slot c.sqs qid).isNone then (scInvalidQueueIdentifier, c)
    else (scSuccess, { c with sqs := clearSlot c.sqs qid }.clearSqPending qid)
  else if cmd.opcode = adminOpDeleteIoCq then
    if (slot c.cqs qid).isNone then (scInvalidQueueIdentifier, c)
    else if c.sqs.any fun sq => sq.any fun sq => sq.cqid = qid then (scInvalidQueueDeletion, c)
    else (scSuccess, { c with cqs := clearSlot c.cqs qid })
  else (scInvalidOpcode, c)

/-- `admin_async_event_request`: at most four are kept. -/
def adminAsyncEventRequest (c : NvmeController) : CommandResult × NvmeController :=
  if 4 ≤ c.pendingAsyncEventRequests then (.done scInvalidField, c)
  else (.pending, { c with pendingAsyncEventRequests := c.pendingAsyncEventRequests + 1 })

/-- `write_needs_sync`: a WRITE whose completion promises durability. -/
def writeNeedsSync (c : NvmeController) (cmd : SubmissionEntry) : Bool :=
  cmd.opcode = nvmOpWrite ∧ (!c.volatileWriteCacheEnabled ∨ cmd.cdw12 &&& (1 <<< 30) ≠ 0)

end NvmeController

end BridgeVm.Nvme
