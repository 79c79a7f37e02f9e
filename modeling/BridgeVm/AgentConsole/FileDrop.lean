import BridgeVm.Lib.AssocMap
import BridgeVm.Lib.Link

/-!
# File drops

`file_drop.rs` with the pump of `resident_service.rs` and the resynchronization of `agent_restart.rs`: a staged tree is
streamed to the guest's desktop, one lockstep request after the other. The agent answers each line in its turn, as it
likes. A host path is the list of its names, a guest path the string that goes out. The keepalive and the other requests
of `service_enqueue` are left out.
-/

namespace BridgeVm.AgentConsole.FileDrop

open Lib

abbrev Name := List Char

/-- A path below the staging folder. -/
abbrev HostRel := List Name

/-! ## Staged trees -/

/-- What stands at a path of the staging folder. A folder lists its entries in the order of their names. -/
inductive Staged
  | file (bytes : List UInt8)
  | folder (entries : List (Name × Staged))
  /-- A symlink or a device. -/
  | other

structure DropEntry where
  hostRel : HostRel
  /-- None for a folder. -/
  size : Option Nat
deriving DecidableEq

mutual

/-- `walk_staged`: folders before their contents, without a name that Windows would split at a backslash. -/
def walkStaged (rel : HostRel) : List (Name × Staged) → List DropEntry
  | [] => []
  | (name, staged) :: entries =>
    (if '\\' ∈ name then [] else walkEntry (rel ++ [name]) staged) ++ walkStaged rel entries

def walkEntry (hostRel : HostRel) : Staged → List DropEntry
  | .file bytes => [⟨hostRel, some bytes.length⟩]
  | .folder entries => ⟨hostRel, none⟩ :: walkStaged hostRel entries
  | .other => []

end

/-- The contents of the file at a path. -/
def fileAt : List (Name × Staged) → HostRel → Option (List UInt8)
  | _, [] => none
  | entries, name :: rest =>
    match entries.lookup name, rest with
    | some (.file bytes), [] => some bytes
    | some (.folder entries'), rest => fileAt entries' rest
    | _, _ => none

/-! ## Requests and answers -/

/-- The step without its values. -/
inductive Verb
  | caps
  | dir
  | beg
  | chunk
  | stop
  | abort
deriving DecidableEq

inductive DropReq
  | caps
  | dir (rel : List Char)
  | beg (rel : List Char) (size : Nat)
  | chunk (seq : Nat) (bytes : List UInt8)
  | stop (chunks : Nat)
  | abort
deriving DecidableEq

def DropReq.verb : DropReq → Verb
  | .caps => .caps
  | .dir _ => .dir
  | .beg .. => .beg
  | .chunk .. => .chunk
  | .stop _ => .stop
  | .abort => .abort

/-- An answer line. -/
inductive Reply
  /-- `BVDROP_CAPS`. -/
  | caps
  /-- `OK DROPDIR` or `OK DROPBEG` with a final name, or with what is no base64 of a string. -/
  | named (verb : Verb) (name : Option Name)
  | okChunk (seq : Nat)
  /-- `OK DROPEND` with a count, or with what is no number. -/
  | okEnd (written : Option Nat)
  | okAbort
  /-- `ERR` and the verb. -/
  | err (verb : Verb)
  /-- `OUT 255`: the agent does not know the verb. -/
  | tooOld
deriving DecidableEq

/-- The answers that an agent gives to a line. -/
def Reply.answers (req : DropReq) : Reply → Bool
  | .caps => req.verb = .caps
  | .named verb _ => req.verb = verb && (verb = .dir || verb = .beg)
  | .okChunk _ => req.verb = .chunk
  | .okEnd _ => req.verb = .stop
  | .okAbort => req.verb = .abort
  | .err verb => req.verb = verb
  | .tooOld => true

/-- `guest_name`: one path component. -/
def guestName (name : Option Name) : Option Name :=
  name.filter fun name => name ≠ [] && name ≠ ['.'] && name ≠ ['.', '.'] && !name.any fun c => c = '\\' || c = '/'

inductive DropReply
  | ignored
  | failed
  | caps
  | named (name : Name)
  | chunk (bytes : Nat)
  | stop (written : Nat)
  | aborted
deriving DecidableEq

/-- `classify_drop_reply`. -/
def classify (req : DropReq) (reply : Reply) : DropReply :=
  match req, reply with
  | _, .tooOld => .failed
  | req, .err verb => if req.verb = verb then .failed else .ignored
  | .caps, .caps => .caps
  | .dir _, .named .dir name => ((guestName name).map .named).getD .failed
  | .beg .., .named .beg name => ((guestName name).map .named).getD .failed
  | .chunk seq bytes, .okChunk n => if n = seq then .chunk bytes.length else .ignored
  | .stop _, .okEnd written => (written.map .stop).getD .failed
  | .abort, .okAbort => .aborted
  | _, _ => .ignored

/-! ## The active drop -/

/-- `DROP_CHUNK_BYTES`. -/
def dropChunkBytes : Nat := 1024 * 1024

/-- The open file, with what stood in it when it was opened. -/
structure DropFile where
  content : List UInt8
  size : Nat
  read : Nat
  chunks : Nat
deriving DecidableEq

structure ActiveDrop where
  id : List Char
  root : List (Name × Staged)
  entries : List DropEntry
  next : Nat
  /-- Host folder to the guest folder it became. -/
  folders : AssocMap HostRel (List Char)
  file : Option DropFile
  caps : Bool

/-- A guest path: `leaf` in the guest folder that the parent of `hostRel` became. -/
def inFolder (folders : AssocMap HostRel (List Char)) (hostRel : HostRel) (leaf : Name) : List Char :=
  if hostRel.dropLast = [] then leaf
  else (folders.get hostRel.dropLast).getD (['/'].intercalate hostRel.dropLast) ++ '\\' :: leaf

/-- `guest_rel`. -/
def guestRel (folders : AssocMap HostRel (List Char)) (hostRel : HostRel) : List Char :=
  inFolder folders hostRel (hostRel.getLastD [])

/-- `ActiveDrop::next_req`: the next step, none after the last one, or a read error. `io` tells whether the host can
open or read the file. -/
def ActiveDrop.nextReq (io : Bool) (drop : ActiveDrop) : ActiveDrop × Except Unit (Option DropReq) :=
  if !drop.caps then (drop, .ok (some .caps))
  else
    match drop.file with
    | some file =>
      if file.read < file.size then
        let len := min (file.size - file.read) dropChunkBytes
        let bytes := (file.content.drop file.read).take len
        if !io ∨ bytes.length < len then (drop, .error ())
        else
          ({ drop with file := some { file with read := file.read + len, chunks := file.chunks + 1 } },
            .ok (some (.chunk file.chunks bytes)))
      else (drop, .ok (some (.stop file.chunks)))
    | none =>
      match drop.entries[drop.next]? with
      | none => (drop, .ok none)
      | some entry =>
        let rel := guestRel drop.folders entry.hostRel
        match entry.size with
        | none => (drop, .ok (some (.dir rel)))
        | some size =>
          match if io then fileAt drop.root entry.hostRel else none with
          | none => (drop, .error ())
          | some content =>
            ({ drop with file := some { content, size, read := 0, chunks := 0 } }, .ok (some (.beg rel size)))

/-! ## The whole -/

/-- What happened, with the number of the line and of the job. -/
inductive Event
  | started (job : Nat) (id : List Char) (root : List (Name × Staged))
  | sent (serial job : Nat) (req : DropReq)
  /-- The agent's answer to a line. -/
  | answered (serial : Nat) (req : DropReq) (reply : Reply)
  /-- An answer to a line was credited to the request of a job. -/
  | credited (serial job : Nat)
  | done (job : Nat)
  | failed (job : Nat)

structure State where
  /-- How many jobs were started. -/
  jobs : Nat
  waiting : List (List Char × Option (List (Name × Staged)))
  active : Option ActiveDrop
  /-- Each request with its job. -/
  inFlight : Option (Nat × DropReq)
  queue : List (Nat × DropReq)
  overdueBeats : Nat
  link : Link DropReq Reply
  /-- Newest first. -/
  log : List Event

def start : State where
  jobs := 0
  waiting := []
  active := none
  inFlight := none
  queue := []
  overdueBeats := 0
  link := Link.idle
  log := []

/-- The first job whose staging folder can be read, and those after it. -/
def firstStaged : List (List Char × Option (List (Name × Staged))) →
    Option (List Char × List (Name × Staged)) × List (List Char × Option (List (Name × Staged)))
  | [] => (none, [])
  | (_, none) :: waiting => firstStaged waiting
  | (id, some root) :: waiting => (some (id, root), waiting)

/-- `start_next_drop`. -/
def State.startNext (s : State) : State :=
  match firstStaged s.waiting with
  | (none, waiting) => { s with waiting }
  | (some (id, root), waiting) =>
    { s with
      jobs := s.jobs + 1
      waiting
      active := some
        { id, root, entries := walkStaged [] root, next := 0, folders := AssocMap.empty, file := none, caps := false }
      log := .started (s.jobs + 1) id root :: s.log }

/-- `finish_drop`. -/
def State.finish (s : State) : State := { s with active := none, log := .done s.jobs :: s.log }

/-- `fail_drop`: its queued steps do not go out. After a read error or a stall the guest deletes its open file. -/
def State.fail (hostSide : Bool) (s : State) : State :=
  match s.active with
  | none => s
  | some drop =>
    { s with
      active := none
      queue := if hostSide ∧ drop.file.isSome then [(s.jobs, .abort)] else []
      log := .failed s.jobs :: s.log }

/-- A drop is asked for its next request, and waits for the answer. -/
def State.request (io : Bool) (s : State) : State :=
  match s.active with
  | none => s
  | some drop =>
    match drop.nextReq io with
    | (drop', .ok (some req)) => { s with active := some drop', queue := s.queue ++ [(s.jobs, req)] }
    | (_, .ok none) => s.finish
    | (_, .error ()) => s.fail true

/-- `enqueue_file_drop`. After the last step the next drop starts, with a request for the capabilities. -/
def State.enqueue (io : Bool) (s : State) : State :=
  if s.inFlight.isSome ∨ s.queue ≠ [] then s
  else
    match s.active with
    | none => s.startNext.request io
    | some drop =>
      match drop.nextReq io with
      | (_, .ok none) => s.finish.startNext.request io
      | _ => s.request io

/-- A beat that finds the request in flight overdue. The third one ends the drop: a step is not sent again. -/
def State.noteOverdue (s : State) : State :=
  if s.inFlight.isNone then s
  else if s.overdueBeats + 1 ≥ 3 then { { s with inFlight := none }.fail true with overdueBeats := 0 }
  else { s with overdueBeats := s.overdueBeats + 1 }

/-- The next request, once the wire is idle. -/
def State.sendNext (s : State) : State :=
  if s.inFlight.isSome then s
  else
    match s.queue with
    | [] => { s with overdueBeats := 0 }
    | (job, req) :: rest =>
      { s with
        inFlight := some (job, req)
        queue := rest
        overdueBeats := 0
        link := s.link.send req
        log := .sent (s.link.sent + 1) job req :: s.log }

/-- `service_pump_with_sender`. -/
def State.pump (overdue : Bool) (s : State) : State := (if overdue then s.noteOverdue else s).sendNext

/-- What an answer makes of the drop, or that the guest failed it. -/
def ActiveDrop.reply (drop : ActiveDrop) : DropReply → Option ActiveDrop
  | .ignored | .aborted => some drop
  | .failed => none
  | .caps => some { drop with caps := true }
  | .named name =>
    match drop.file, drop.entries[drop.next]? with
    | none, some entry =>
      some
        { drop with
          folders := drop.folders.insert entry.hostRel (inFolder drop.folders entry.hostRel name)
          next := drop.next + 1 }
    | _, _ => some drop
  | .chunk _ => some drop
  | .stop written =>
    if drop.file.map (·.size) ≠ some written then none
    else some { drop with file := none, next := drop.next + 1 }

/-- `handle_drop_reply`. -/
def State.credit (s : State) (serial : Nat) (reply : Reply) : State :=
  match s.inFlight with
  | none => s
  | some (job, req) =>
    let reply := classify req reply
    if reply = .ignored then s
    else
      let s := { s with inFlight := none, log := .credited serial job :: s.log }
      match s.active with
      | none => s
      | some drop =>
        match drop.reply reply with
        | some drop => { s with active := some drop }
        | none => s.fail false

/-- The harness takes the oldest line from the agent: a READY (`resync_after_agent_restart`) or an answer. -/
def State.deliver (s : State) : Option State :=
  match s.link.outputs with
  | [] => none
  | .ready :: _ => some ({ s with link := s.link.receive, inFlight := none }.fail false)
  | .answer serial _ reply :: _ => some ({ s with link := s.link.receive }.credit serial reply)

/-- The agent answers the line it reads next. -/
def State.agent (s : State) (reply : Reply) : Option State :=
  match s.link.unread with
  | [] => none
  | (serial, req) :: _ =>
    if reply.answers req then
      some { s with link := s.link.answer reply, log := .answered serial req reply :: s.log }
    else none

inductive Act
  /-- A job from the control file; none where its staging folder cannot be read. -/
  | submit (id : List Char) (root : Option (List (Name × Staged)))
  | enqueue (io : Bool)
  | pump (overdue : Bool)
  | agent (reply : Reply)
  | deliver
  /-- A new agent process starts. -/
  | restart
  /-- A line, or an answer, is lost with its process. -/
  | loseLine (i : Nat)
  | loseOutput (i : Nat)

def step (s : State) : Act → Option State
  | .submit id root => some { s with waiting := s.waiting ++ [(id, root)] }
  | .enqueue io => some (s.enqueue io)
  | .pump overdue => some (s.pump overdue)
  | .agent reply => s.agent reply
  | .deliver => s.deliver
  | .restart => some { s with link := s.link.restart }
  | .loseLine i => some { s with link := s.link.loseLine i }
  | .loseOutput i => some { s with link := s.link.loseOutput i }

end BridgeVm.AgentConsole.FileDrop
