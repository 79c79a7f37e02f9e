import BridgeVm.Lib.Bitmap
import BridgeVm.Lib.EventLog
import BridgeVm.Nvme.AdminPages
import BridgeVm.Nvme.Queues

/-!
# The NVMe engine (`nvme/queue.rs`, `flush_worker.rs`, `unlocked_io.rs`, `configuration.rs`, `snapshot.rs`)

The controller with its disks and guest memory, the batches of transfers that threads hold, and a log of what happened
to every fetched command. The platform lock makes each operation of the controller atomic; other threads take their
turns (`threadTurn`) between operations, before each fetch, and during every wait.
-/

namespace BridgeVm.Nvme

open Lib

/-- `NvmeCompletionEvent`. -/
structure NvmeCompletionEvent where
  cqid : Nat
  vector : Nat
deriving DecidableEq, Repr

/-- What happened to the fetched commands and their queues. -/
inductive Event
  | fetched (c : Fetched)
  /-- The entry was written for `c` at the tail of `cq`, while `sq` was installed. -/
  | posted (c : Fetched) (sq : Option SubmissionQueue) (cq : CompletionQueue) (entry : List UInt8)
  /-- No entry was written: the queue is gone, or its memory refused the write. -/
  | unposted (c : Fetched)
  /-- An Asynchronous Event Request, kept without completion. -/
  | retained (c : Fetched)
  | cqInstalled (base size : Nat)
  | reset
deriving DecidableEq

structure Sys where
  ctrl : NvmeController
  path : DataPath
  /-- The batches of transfers taken and not yet run (`NvmeIo`). -/
  batches : List (List IoJob)
  completions : List NvmeCompletionEvent
  log : List Event

namespace Sys

def record (s : Sys) (e : Event) : Sys := { s with log := e :: s.log }

def withWorker (s : Sys) (worker : FlushWorker) : Sys := { s with ctrl := { s.ctrl with flushWorker := worker } }

def hostCall (s : Sys) : HostCall × Sys := (s.path.hostCall.1, { s with path := s.path.hostCall.2 })

/-- A step of the data path. -/
def onPath (s : Sys) (f : DataPath → Nat × DataPath) : Nat × Sys := ((f s.path).1, { s with path := (f s.path).2 })

/-- A step of the controller's registers and queues. -/
def onCtrl (s : Sys) (f : NvmeController → Nat × NvmeController) : Nat × Sys :=
  ((f s.ctrl).1, { s with ctrl := (f s.ctrl).2 })

/-! ## The other threads -/

/-- `Shared::publish`. -/
def publish (s : Sys) (done : List Finished) : Sys :=
  s.withWorker { s.ctrl.flushWorker with finished := s.ctrl.flushWorker.finished ++ done }

/-- Take up to `n` jobs from the flush thread's inbox. -/
def dropInbox (s : Sys) (n : Nat) : Sys :=
  s.withWorker { s.ctrl.flushWorker with jobs := s.ctrl.flushWorker.jobs.map (List.drop n) }

/-- One turn of the flush thread, which waits for a job: sync the disks of up to `n` jobs of its inbox, and finish
these. -/
def flushBatch (s : Sys) (n : Nat) : Sys :=
  let batch := (s.ctrl.flushWorker.jobs.getD []).take n
  if batch = [] then s
  else
    let (first, s) := s.hostCall
    let (second, s) := s.hostCall
    let done := batch.map fun job =>
      { job := job,
        status := if (!job.disk || first.ok) && (!job.disk2 || second.ok) then scSuccess else scInternalDeviceError,
        syncNext := false }
    (s.dropInbox n).publish done

/-- The transfers of a batch, in order, and their results. -/
def runJobs : DataPath → List IoJob → List Finished × DataPath
  | d, [] => ([], d)
  | d, job :: jobs =>
    let (status, d) := DataPath.transfer job.done.fetched.cmd.nsid job.write d job.offset job.segments
    let (done, d) := runJobs d jobs
    ({ job := job.done, status := status, syncNext := job.syncNext && status = scSuccess } :: done, d)

/-- `NvmeIo::run`. -/
def runIo (s : Sys) (i : Nat) : Sys :=
  match s.batches[i]? with
  | none => s
  | some jobs =>
    let (done, path) := runJobs s.path jobs
    { s with path := path, batches := s.batches.eraseIdx i }.publish done

/-- The results of transfers dropped unrun. -/
def failJobs (jobs : List IoJob) : List Finished :=
  jobs.map fun job => { job := job.done, status := scInternalDeviceError, syncNext := false }

/-- Drop a batch unrun. -/
def dropIo (s : Sys) (i : Nat) : Sys :=
  match s.batches[i]? with
  | none => s
  | some jobs => { s with batches := s.batches.eraseIdx i }.publish (failJobs jobs)

def guestStore (s : Sys) (gpa : Nat) (data : List UInt8) : Sys :=
  { s with path := { s.path with mem := s.path.mem.store gpa data } }

def threadTurn (s : Sys) : ThreadAction → Sys
  | .flushBatch n => s.flushBatch n
  | .runIo i => s.runIo i
  | .dropIo i => s.dropIo i
  | .guestStore gpa data => s.guestStore gpa data

/-- The turns the other threads take meanwhile. -/
def othersTurn (s : Sys) : Sys :=
  let (call, s) := s.hostCall
  call.others.foldl threadTurn s

/-! ## Jobs in flight -/

/-- `take_io`: hand the queued transfers to a thread. -/
def takeIo (s : Sys) : Sys :=
  if s.ctrl.flushWorker.io = [] then s
  else
    { s with batches := s.batches ++ [s.ctrl.flushWorker.io] }.withWorker { s.ctrl.flushWorker with io := [] }

/-- `fail_untaken_io`. -/
def failUntakenIo (s : Sys) : Sys :=
  (s.withWorker { s.ctrl.flushWorker with io := [] }).publish (failJobs s.ctrl.flushWorker.io)

/-- A wait until every job in flight is finished: whatever the other threads do first, then the rest. -/
def settle (s : Sys) : Sys :=
  let s := s.othersTurn
  let s := s.flushBatch (s.ctrl.flushWorker.jobs.getD []).length
  s.batches.foldl (fun s _ => s.runIo 0) s

/-- `wait_for_flushes`. -/
def waitForFlushes (s : Sys) : Sys := s.failUntakenIo.settle

/-- Give back the slots of finished jobs. -/
def releaseSlots (c : NvmeController) (taken : List Finished) : NvmeController :=
  taken.foldl (fun c done => c.releaseCompletionSlot done.job.fetched.cqid) c

/-- Take the finished jobs. -/
def take (s : Sys) : List Finished × Sys :=
  let taken := s.ctrl.flushWorker.finished
  let worker := { s.ctrl.flushWorker with finished := [], inFlight := s.ctrl.flushWorker.inFlight - taken.length }
  (taken, { s with ctrl := releaseSlots { s.ctrl with flushWorker := worker } taken })

/-- `take_finished`. -/
def takeFinished (s : Sys) (wait : Bool) : List Finished × Sys := if wait then s.waitForFlushes.take else s.take

/-- `discard_flushes`. -/
def discardFlushes (s : Sys) : Sys := (s.takeFinished true).2

/-- `flushes_ready`. -/
def flushesReady (s : Sys) : Bool := !s.ctrl.flushWorker.finished.isEmpty

/-- `flushes_in_flight`. -/
def flushesInFlight (s : Sys) : Bool := 0 < s.ctrl.flushWorker.inFlight

/-- Start the flush thread, unless there is one; a failure turns async flushes off. -/
def startWorker (s : Sys) : Bool × Sys :=
  if s.ctrl.flushWorker.jobs.isSome then (true, s)
  else
    let (call, s) := s.hostCall
    if call.ok then (true, s.withWorker { s.ctrl.flushWorker with jobs := some [] })
    else (false, { s with ctrl := { s.ctrl with asyncFlush := false } })

/-- Send a job to the flush thread, and hold its slot. -/
def enqueueFlush (s : Sys) (job : FlushJob) : Sys :=
  let worker := s.ctrl.flushWorker
  let worker := { worker with jobs := worker.jobs.map (· ++ [job]), inFlight := worker.inFlight + 1 }
  { s with ctrl := { s.ctrl with flushWorker := worker }.holdCompletionSlot job.fetched.cqid }

/-- `defer_flush`. -/
def deferFlush (s : Sys) (c : Fetched) : Bool × Sys :=
  if !s.ctrl.asyncFlush ∨ c.sqid = 0 then (false, s)
  else
    let wants : Bool := c.cmd.nsid = nsidAll ∨ c.cmd.nsid = nsid1
    let wants2 : Bool := c.cmd.nsid = nsidAll ∨ c.cmd.nsid = nsid2
    let disk := wants && s.path.disk.writeBackFile.isSome
    let disk2 := wants2 && (s.path.disk2.bind DiskBackend.writeBackFile).isSome
    if !disk && !disk2 then (false, s)
    else
      match s.startWorker with
      | (false, s) => (false, s)
      | (true, s) => (true, s.enqueueFlush { fetched := c, disk := disk, disk2 := disk2 })

/-- Queue a checked transfer, and hold its slot. -/
def enqueueIo (s : Sys) (job : IoJob) : Sys :=
  let worker := s.ctrl.flushWorker
  let worker := { worker with inFlight := worker.inFlight + 1, io := worker.io ++ [job] }
  { s with ctrl := { s.ctrl with flushWorker := worker }.holdCompletionSlot job.done.fetched.cqid }

/-- Offset and segments of a READ or WRITE that can run outside the lock. -/
def ioTransfer (s : Sys) (c : Fetched) : Option (Nat × List (Nat × Nat)) :=
  if (c.cmd.opcode ≠ nvmOpRead ∧ c.cmd.opcode ≠ nvmOpWrite) ∨ !s.ctrl.unlockedIo ∨ c.sqid = 0 ∨
  !s.path.directDmaEnabled
  then none
  else
    ((s.path.backendForNsid c.cmd.nsid).bind DiskBackend.writeBackFile).bind fun disk =>
      (transferRange c.cmd disk.len).bind fun range =>
        (prpSpansInto c.cmd range.2 s.path.mem).bind fun spans =>
          let segments := coalesceSpans spans
          if segments.all fun segment => s.path.hostPtr segment.1 segment.2 then some (range.1, segments) else none

/-- `defer_io`. -/
def deferIo (s : Sys) (c : Fetched) : Bool × Sys :=
  match s.ioTransfer c with
  | none => (false, s)
  | some (offset, segments) =>
    let write : Bool := c.cmd.opcode = nvmOpWrite
    (true, s.enqueueIo
      { done := .io c, write := write, syncNext := write && s.ctrl.writeNeedsSync c.cmd, offset := offset,
        segments := segments })

/-! ## Completions -/

/-- The sixteen bytes of a completion entry. -/
def completionEntry (dw0 sqHead sqid commandId status : Nat) (phase : Bool) : List UInt8 :=
  toLeBytes 4 dw0 ++ toLeBytes 4 0 ++ toLeBytes 2 sqHead ++ toLeBytes 2 sqid ++ toLeBytes 2 commandId ++
    toLeBytes 2 ((status <<< 1) ||| phase.toNat)

/-- The queue after an entry was written at its tail. -/
def CompletionQueue.posted (cq : CompletionQueue) : CompletionQueue :=
  let tail := (cq.tail + 1) % cq.size
  { cq with tail := tail, phase := if tail = 0 then !cq.phase else cq.phase, unread := cq.unread + 1 }

/-- `post_completion`. -/
def postCompletion (s : Sys) (c : Fetched) (status : Nat) : Sys :=
  let dw0 := s.ctrl.lastFeatureResult
  let s := { s with ctrl := { s.ctrl with lastFeatureResult := 0 } }
  match slot s.ctrl.cqs c.cqid with
  | none => s.record (.unposted c)
  | some cq =>
    let sq := slot s.ctrl.sqs c.sqid
    let entry := completionEntry dw0 ((sq.map SubmissionQueue.head).getD 0) c.sqid c.cmd.commandId status cq.phase
    match s.path.mem.writeBytes (cq.base + cq.tail * cqEntrySize) entry with
    | (_, false) => s.record (.unposted c)
    | (mem, true) =>
      { s with
        ctrl := { s.ctrl with cqs := putSlot s.ctrl.cqs c.cqid (CompletionQueue.posted cq) }
        path := { s.path with mem := mem }
        completions := s.completions ++ if cq.interruptsEnabled then [⟨c.cqid, cq.interruptVector⟩] else []
        log := .posted c sq cq entry :: s.log }

/-- What follows a finished job: its sync, or its completion. -/
def finishOne (s : Sys) (done : Finished) : Sys :=
  let c := done.job.fetched
  let complete (status : Nat) (s : Sys) : Sys :=
    if (slot s.ctrl.sqs c.sqid).isSome ∧ (slot s.ctrl.cqs c.cqid).isSome then s.postCompletion c status
    else s.record (.unposted c)
  if done.syncNext then
    match s.deferFlush c with
    | (true, s) => s
    | (false, s) =>
      let (status, s) := s.onPath fun d => d.ioFlush c.cmd
      complete status s
  else complete done.status s

/-- `post_finished`. -/
def postFinished (s : Sys) (wait : Bool) : Sys :=
  let (taken, s) := s.takeFinished wait
  taken.foldl finishOne s

/-- The rounds of `complete_flushes`. -/
def completeFlushesLoop (wait : Bool) : Nat → Sys → Sys
  | 0, s => s
  | rounds + 1, s =>
    let s := s.postFinished wait
    if !wait || !s.flushesInFlight then s else completeFlushesLoop wait rounds s

/-- `complete_flushes`: a sync that follows a transfer is in the second round, and nothing follows it. -/
def completeFlushes (s : Sys) (wait : Bool) : Sys := completeFlushesLoop wait 2 s

/-! ## Executing commands -/

/-- CREATE I/O COMPLETION QUEUE, with the new ring in the log. -/
def adminCreateIoCq (s : Sys) (cmd : SubmissionEntry) : Nat × Sys :=
  match s.onCtrl fun c => c.adminCreateIoCq cmd with
  | (status, s) =>
    if status = scSuccess then
      (status, ((slot s.ctrl.cqs (cmd.cdw10 &&& 0xffff)).toList.foldl
        (fun s cq => s.record (.cqInstalled cq.base cq.size)) s))
    else (status, s)

/-- The queue counts granted, each less one. -/
def grantedQueues (c : NvmeController) : Nat := (c.maxIoQueues - 1) * 2 ^ 16 + (c.maxIoQueues - 1)

def setFeatureResult (s : Sys) (value : Nat) : Sys := { s with ctrl := { s.ctrl with lastFeatureResult := value } }

/-- `admin_set_features`. -/
def adminSetFeatures (s : Sys) (cmd : SubmissionEntry) : Nat × Sys :=
  let fid := cmd.cdw10 &&& 0xff
  if fid = featureNumberOfQueues then (scSuccess, s.setFeatureResult (grantedQueues s.ctrl))
  else if fid = featureVolatileWriteCache then
    let enabled : Bool := cmd.cdw11 &&& 1 ≠ 0
    let s := { s with ctrl := { s.ctrl with volatileWriteCacheEnabled := enabled } }
    if enabled then (scSuccess, s) else s.onPath fun d => d.flushAllNamespaces
  else (scSuccess, s)

/-- `admin_get_features`. -/
def adminGetFeatures (s : Sys) (cmd : SubmissionEntry) : Nat × Sys :=
  let fid := cmd.cdw10 &&& 0xff
  let select := (cmd.cdw10 >>> 8) &&& 7
  if select = 3 then
    match featureCapabilities fid with
    | none => (scInvalidFieldDnr, s)
    | some capabilities => (scSuccess, s.setFeatureResult capabilities)
  else if fid ∈ zeroFeatures then (scSuccess, s.setFeatureResult 0)
  else if fid = featureVolatileWriteCache then
    (scSuccess, s.setFeatureResult
      (if select = 1 ∨ select = 2 then 0 else s.ctrl.volatileWriteCacheEnabled.toNat))
  else if fid = featureNumberOfQueues then (scSuccess, s.setFeatureResult (grantedQueues s.ctrl))
  else if fid = featureInterruptVectorConfiguration then (scSuccess, s.setFeatureResult (cmd.cdw11 &&& 0xffff))
  else if fid = featureAutonomousPowerStateTransition then
    match s.onPath fun d => d.writeApstTable cmd with
    | (status, s) => if status = scSuccess then (scSuccess, s.setFeatureResult 0) else (status, s)
  else (scInvalidFieldDnr, s)

/-- `execute_admin`. -/
def executeAdmin (s : Sys) (cmd : SubmissionEntry) : CommandResult × Sys :=
  let completed (result : Nat × Sys) : CommandResult × Sys := (.done result.1, result.2)
  if cmd.opcode = adminOpIdentify then completed (s.onPath fun d => d.adminIdentify cmd)
  else if cmd.opcode = adminOpGetLogPage then completed (s.onPath fun d => d.adminGetLogPage cmd)
  else if cmd.opcode = adminOpCreateIoCq then completed (s.adminCreateIoCq cmd)
  else if cmd.opcode = adminOpCreateIoSq then completed (s.onCtrl fun c => c.adminCreateIoSq cmd)
  else if cmd.opcode = adminOpSetFeatures then completed (s.adminSetFeatures cmd)
  else if cmd.opcode = adminOpGetFeatures then completed (s.adminGetFeatures cmd)
  else if cmd.opcode = adminOpAsyncEventRequest then
    (s.ctrl.adminAsyncEventRequest.1, { s with ctrl := s.ctrl.adminAsyncEventRequest.2 })
  else if cmd.opcode = adminOpSecuritySend then completed (scInvalidFieldDnr, s)
  else if cmd.opcode = adminOpSecurityRecv then completed (s.onPath fun d => d.adminSecurityReceive cmd)
  else if cmd.opcode = adminOpDeleteIoSq ∨ cmd.opcode = adminOpDeleteIoCq then
    completed (s.onCtrl fun c => c.adminDeleteIoQueue cmd)
  else completed (scInvalidOpcode, s)

/-- `execute_io`. -/
def executeIo (s : Sys) (cmd : SubmissionEntry) : Nat × Sys :=
  if cmd.opcode = nvmOpFlush then s.onPath fun d => d.ioFlush cmd
  else if cmd.opcode = nvmOpRead then s.onPath fun d => d.ioRead cmd
  else if cmd.opcode = nvmOpWrite then s.onPath fun d => d.ioWrite (s.ctrl.writeNeedsSync cmd) cmd
  else if cmd.opcode = nvmOpDatasetManagement then s.onPath fun d => d.ioDatasetManagement cmd
  else (scInvalidOpcode, s)

/-- A synchronized WRITE with async flushes on: its data now, then its sync, on the flush thread if that can take it. -/
def executeSyncedWrite (s : Sys) (c : Fetched) : Option Nat × Sys :=
  match s.onPath fun d => d.ioWriteData c.cmd with
  | (status, s) =>
    if status = scSuccess then
      match s.deferFlush c with
      | (true, s) => (none, s)
      | (false, s) =>
        let (status, s) := s.onPath fun d => d.ioFlush c.cmd
        (some status, s)
    else (some status, s)

/-- Execute a command here: post its completion, or keep it without one. -/
def execute (s : Sys) (c : Fetched) : Sys :=
  if c.sqid ≠ 0 ∧ s.ctrl.asyncFlush ∧ s.ctrl.writeNeedsSync c.cmd then
    match s.executeSyncedWrite c with
    | (none, s) => s
    | (some status, s) => s.postCompletion c status
  else if c.sqid = 0 then
    match s.executeAdmin c.cmd with
    | (result, s) => if result.complete then s.postCompletion c result.status else s.record (.retained c)
  else
    match s.executeIo c.cmd with
    | (status, s) => s.postCompletion c status

/-- What `process_sq` does with a fetched command: a FLUSH, a READ or a WRITE may leave for another thread. -/
def handle (s : Sys) (c : Fetched) : Sys :=
  match if c.cmd.opcode = nvmOpFlush then s.deferFlush c else (false, s) with
  | (true, s) => s
  | (false, s) =>
    match if c.sqid ≠ 0 then s.deferIo c else (false, s) with
    | (true, s) => s
    | (false, s) => s.execute c

/-! ## Draining the queues -/

/-- Take the entry in `buf` from the head of submission queue `qid`. -/
def fetch (s : Sys) (qid : Nat) (sq : SubmissionQueue) (buf : List UInt8) : Fetched × Sys :=
  let c : Fetched :=
    { sqid := qid, cqid := sq.cqid, cmd := .fromBytes buf, sqBorn := sq.born,
      cqBorn := ((slot s.ctrl.cqs sq.cqid).map CompletionQueue.born).getD 0, serial := s.ctrl.fetches }
  (c, { s with
    ctrl := { s.ctrl with
      sqs := putSlot s.ctrl.sqs qid { sq with head := (sq.head + 1) % sq.size }, fetches := s.ctrl.fetches + 1 }
    log := .fetched c :: s.log })

/-- The entry `process_sq` takes next from queue `qid`, if it takes one. -/
def nextEntry (s : Sys) (qid : Nat) : Option (SubmissionQueue × List UInt8) :=
  (slot s.ctrl.sqs qid).bind fun sq =>
    if sq.head = sq.tailDoorbell ∨ !s.ctrl.cqHasSpace sq.cqid then none
    else (s.path.mem.readBytes (sq.base + sq.head * sqEntrySize) sqEntrySize).map fun buf => (sq, buf)

/-- The loop of `process_sq`. -/
def processSqLoop (qid : Nat) : Nat → Sys → Sys
  | 0, s => s
  | rounds + 1, s =>
    match s.nextEntry qid with
    | none => s
    | some (sq, buf) =>
      let (c, s) := s.fetch qid sq buf
      processSqLoop qid rounds (s.handle c).othersTurn

/-- `process_sq`: no queue holds as many entries as its size. -/
def processSq (s : Sys) (qid : Nat) : Sys :=
  processSqLoop qid (((slot s.ctrl.sqs qid).map SubmissionQueue.size).getD 0) s

/-- Drain one queue, and clear its bit once it has no work. -/
def drainQueue (s : Sys) (qid : Nat) : Sys :=
  let s := s.processSq qid
  if s.ctrl.sqHasWork qid then s else { s with ctrl := s.ctrl.clearSqPending qid }

/-- The words of the bitmap from `idx` on, each as it is when its turn comes. -/
def drainWords : Nat → Nat → Sys → Sys
  | 0, _, s => s
  | words + 1, idx, s =>
    if s.ctrl.csts &&& cstsShstMask = 0 then
      drainWords words (idx + 1)
        ((setBits (entry 0 s.ctrl.pendingSqBits idx)).foldl (fun s bit => s.drainQueue (idx * 64 + bit)) s)
    else s

/-- `process_into`. -/
def processInto (s : Sys) : Sys :=
  let adminPending := s.ctrl.sqPending 0
  let s := if s.flushesReady || adminPending && s.flushesInFlight then s.completeFlushes adminPending else s
  drainWords s.ctrl.pendingSqBits.length 0 s

/-! ## Registers -/

/-- Install the admin queues, and get ready. -/
def installAdminQueues (s : Sys) : Sys :=
  let asqs := (s.ctrl.aqa &&& 0xfff).toNat + 1
  let acqs := ((s.ctrl.aqa >>> 16) &&& 0xfff).toNat + 1
  let sq : SubmissionQueue :=
    { base := s.ctrl.asq, size := asqs, head := 0, tailDoorbell := 0, cqid := 0, born := s.ctrl.births }
  let cq : CompletionQueue :=
    { base := s.ctrl.acq, size := acqs, tail := 0, phase := true, head := 0, interruptVector := 0,
      interruptsEnabled := true, born := s.ctrl.births, unread := 0 }
  { s with
    ctrl := { s.ctrl with
      sqs := putSlot s.ctrl.sqs 0 sq, cqs := putSlot s.ctrl.cqs 0 cq, births := s.ctrl.births + 1, pendingSqBits := [0]
      csts := (s.ctrl.csts &&& ~~~(cstsShstMask ||| cstsCfsBit)) ||| cstsRdyBit }
    log := .cqInstalled cq.base cq.size :: s.log }

/-- Drop all queues: a controller reset. -/
def dropQueues (s : Sys) : Sys :=
  { s with
    ctrl := { s.ctrl with
      sqs := [none], cqs := [none], pendingSqBits := [0]
      csts := s.ctrl.csts &&& ~~~(cstsRdyBit ||| cstsShstMask ||| cstsCfsBit), pendingAsyncEventRequests := 0 }
    log := .reset :: s.log }

/-- `process_shutdown_notification`. -/
def processShutdownNotification (s : Sys) (value : BitVec 32) : Sys :=
  let shn := (value >>> 14) &&& 3
  if ¬ (shn = 1 ∨ shn = 2) ∨ s.ctrl.csts &&& cstsShstMask ≠ 0 then s
  else
    let csts := (s.ctrl.csts &&& ~~~cstsShstMask) ||| cstsShstProcessing
    match s.onPath fun d => d.flushAllNamespaces with
    | (status, s) =>
      let csts := if status = scSuccess then (csts &&& ~~~cstsShstMask) ||| cstsShstComplete else csts ||| cstsCfsBit
      { s with ctrl := { s.ctrl with csts := csts } }

/-- `write_cc`. -/
def writeCc (s : Sys) (value : BitVec 32) : Sys :=
  let wasEnabled := s.ctrl.enabled
  let nowEnabled : Bool := (value &&& ccEnBit) != 0
  let s := if wasEnabled && !nowEnabled then s.discardFlushes else s.waitForFlushes
  let s := { s with ctrl := { s.ctrl with cc := value } }
  let s :=
    if nowEnabled && !wasEnabled then s.installAdminQueues
    else if !nowEnabled && wasEnabled then s.dropQueues
    else s
  s.processShutdownNotification value

/-- `merge_u64`. -/
def mergeU64 (current value size : Nat) (high : Bool) : Nat :=
  if 8 ≤ size then value
  else if high then current % 2 ^ 32 + value % 2 ^ 32 * 2 ^ 32
  else current / 2 ^ 32 * 2 ^ 32 + value % 2 ^ 32

/-- `mmio_write`, outside the MSI-X table and PBA. -/
def mmioWrite (s : Sys) (offset size value : Nat) : Sys :=
  let v32 := BitVec.ofNat 32 value
  if offset = 0x0c then { s with ctrl := { s.ctrl with intms := s.ctrl.intms ||| v32 } }
  else if offset = 0x10 then { s with ctrl := { s.ctrl with intms := s.ctrl.intms &&& ~~~v32 } }
  else if offset = 0x14 then s.writeCc v32
  else if offset = 0x24 then { s with ctrl := { s.ctrl with aqa := v32 } }
  else if offset = 0x28 then { s with ctrl := { s.ctrl with asq := mergeU64 s.ctrl.asq value size false } }
  else if offset = 0x2c then { s with ctrl := { s.ctrl with asq := mergeU64 s.ctrl.asq value size true } }
  else if offset = 0x30 then { s with ctrl := { s.ctrl with acq := mergeU64 s.ctrl.acq value size false } }
  else if offset = 0x34 then { s with ctrl := { s.ctrl with acq := mergeU64 s.ctrl.acq value size true } }
  else if NvmeController.isModelledDoorbell offset then { s with ctrl := s.ctrl.writeDoorbell offset value }
  else s

/-! ## Snapshots and resets -/

/-- What `snapshot_state` saves. -/
structure Snapshot where
  cc : BitVec 32
  csts : BitVec 32
  aqa : BitVec 32
  asq : Nat
  acq : Nat
  intms : BitVec 32
  maxIoQueues : Nat
  lastFeatureResult : Nat
  volatileWriteCacheEnabled : Bool
  directDmaEnabled : Bool
  pendingAsyncEventRequests : Nat
  sqs : List (Option SubmissionQueue)
  cqs : List (Option CompletionQueue)
  pendingSqBits : List (BitVec 64)

/-- `snapshot_state`. -/
def snapshotState (s : Sys) : Snapshot where
  cc := s.ctrl.cc
  csts := s.ctrl.csts
  aqa := s.ctrl.aqa
  asq := s.ctrl.asq
  acq := s.ctrl.acq
  intms := s.ctrl.intms
  maxIoQueues := s.ctrl.maxIoQueues
  lastFeatureResult := s.ctrl.lastFeatureResult
  volatileWriteCacheEnabled := s.ctrl.volatileWriteCacheEnabled
  directDmaEnabled := s.path.directDmaEnabled
  pendingAsyncEventRequests := s.ctrl.pendingAsyncEventRequests
  sqs := s.ctrl.sqs
  cqs := s.ctrl.cqs
  pendingSqBits := s.ctrl.pendingSqBits

/-- `restore_state`; `none` when an assertion on the queue counts fails. The restored queues are new instances. -/
def restoreState (s : Sys) (snap : Snapshot) : Option Sys :=
  if maxIoQueuePairs + 1 < snap.sqs.length ∨ maxIoQueuePairs + 1 < snap.cqs.length then none
  else
    let s := s.discardFlushes
    some { s with
      ctrl := { s.ctrl with
        cc := snap.cc
        csts := snap.csts
        aqa := snap.aqa
        asq := snap.asq
        acq := snap.acq
        intms := snap.intms
        maxIoQueues := snap.maxIoQueues
        lastFeatureResult := snap.lastFeatureResult
        volatileWriteCacheEnabled := snap.volatileWriteCacheEnabled
        pendingAsyncEventRequests := snap.pendingAsyncEventRequests
        sqs := snap.sqs.map (Option.map fun sq => { sq with born := s.ctrl.births })
        cqs := snap.cqs.map (Option.map fun cq => { cq with born := s.ctrl.births })
        pendingSqBits := snap.pendingSqBits
        births := s.ctrl.births + 1 }
      path := { s.path with directDmaEnabled := snap.directDmaEnabled }
      log := (snap.cqs.filterMap (Option.map fun cq => .cqInstalled cq.base cq.size)) ++ .reset :: s.log }

/-- A controller in place of this one, on the given disks, with its data-path settings. -/
def replaceController (s : Sys) (disk : DiskBackend) (disk2 : Option DiskBackend) : Sys :=
  { s with
    ctrl := { NvmeController.fresh s.ctrl.births s.ctrl.fetches with
      asyncFlush := s.ctrl.asyncFlush, unlockedIo := s.ctrl.unlockedIo }
    path := { s.path with disk := disk, disk2 := disk2 }
    log := .reset :: s.log }

/-- `load_disk_image`, `load_raw_file`; without a disk, its file could not be opened. -/
def loadDisk (s : Sys) (disk : Option DiskBackend) : Sys :=
  let s := s.discardFlushes
  match disk with
  | none => s.record .reset
  | some disk => s.replaceController disk none

/-- `reset_registers_keep_disks`. -/
def resetRegistersKeepDisks (s : Sys) : Sys :=
  let s := s.discardFlushes
  s.replaceController s.path.disk s.path.disk2

/-- `restart_flush_worker`. -/
def restartFlushWorker (s : Sys) : Sys :=
  let s := s.waitForFlushes
  s.withWorker { s.ctrl.flushWorker with jobs := none }

/-- `attach_second_namespace`, `attach_second_namespace_raw_file`. -/
def attachSecondNamespace (s : Sys) (disk2 : Option DiskBackend) : Sys :=
  let s := s.restartFlushWorker
  match disk2 with
  | none => s
  | some disk2 => { s with path := { s.path with disk2 := some disk2 } }

/-- `flush_disk`, `export_disk_image` and their siblings: a wait, then a host call. -/
def flushDisk (s : Sys) : Sys := s.waitForFlushes.hostCall.2

end Sys

/-! ## Runs -/

/-- The operations of the controller, and the turns of the other threads. -/
inductive Op
  | mmioWrite (offset size value : Nat)
  | process
  | completeFlushes (wait : Bool)
  | takeIo
  | thread (a : ThreadAction)
  | setAsyncFlush (enabled : Bool)
  | setUnlockedIo (enabled : Bool)
  | setDirectDmaEnabled (enabled : Bool)
  | loadDisk (disk : Option DiskBackend)
  | resetRegistersKeepDisks
  | attachSecondNamespace (disk2 : Option DiskBackend)
  | flushDisk

def Sys.step (s : Sys) : Op → Sys
  | .mmioWrite offset size value => s.mmioWrite offset size value
  | .process => s.processInto
  | .completeFlushes wait => s.completeFlushes wait
  | .takeIo => s.takeIo
  | .thread a => s.threadTurn a
  | .setAsyncFlush enabled => { s with ctrl := { s.ctrl with asyncFlush := enabled } }
  | .setUnlockedIo enabled => { s with ctrl := { s.ctrl with unlockedIo := enabled } }
  | .setDirectDmaEnabled enabled => { s with path := { s.path with directDmaEnabled := enabled } }
  | .loadDisk disk => s.loadDisk disk
  | .resetRegistersKeepDisks => s.resetRegistersKeepDisks
  | .attachSecondNamespace disk2 => s.attachSecondNamespace disk2
  | .flushDisk => s.flushDisk

/-- A new controller on a machine: its disk, guest memory with its host pointers, and the host. -/
def Sys.initial (disk : DiskBackend) (mem : GuestMemory) (hostPtr : Nat → Nat → Bool)
    (host : Nat → HostCall) : Sys where
  ctrl := .fresh 0 0
  path :=
    { disk := disk, disk2 := none, directDmaEnabled := true, mem := mem, hostPtr := hostPtr, host := host, calls := 0 }
  batches := []
  completions := []
  log := []

/-- The systems reached by operations that are `ok`, and by restoring the snapshot of a system so reached. -/
inductive Reached (ok : Sys → Op → Prop) : Sys → Prop
  | initial (disk : DiskBackend) (mem : GuestMemory) (hostPtr : Nat → Nat → Bool) (host : Nat → HostCall) :
      Reached ok (.initial disk mem hostPtr host)
  | step {s : Sys} (h : Reached ok s) (op : Op) (hop : ok s op) : Reached ok (s.step op)
  | restore {s t s' : Sys} (h : Reached ok s) (ht : Reached ok t) (hs : s.restoreState t.snapshotState = some s') :
      Reached ok s'

/-- Any operation. -/
def anyOp : Sys → Op → Prop := fun _ _ => True

end BridgeVm.Nvme
