import BridgeVm.Lib.Link
import BridgeVm.Share.Names

/-!
# Host-to-guest PUT of a shared file

`share_put.rs` with the pump of `resident_service.rs` and the resynchronization of `agent_restart.rs`, over a queue of
PUTs, and the PUT verbs of the guest agent (`bvagent.ps1`). A short file goes in one PUT line, a longer one as PUTBEG,
PUTCHUNKs and PUTEND. Lines and answers are typed: what the base64 fields and the numbers hold, and of an error its
verb. The keepalive and the other requests of `service_enqueue` are left out.
-/

namespace BridgeVm.AgentConsole.SharePut

open Lib
open Share (shareGuestPath)

/-! ## Requests, lines, answers -/

inductive Phase
  | legacy
  | beg
  | chunk
  | done
deriving DecidableEq

/-- `ServiceReq::SharePut`. -/
structure Put where
  name : List Char
  bytes : List UInt8
  hash : Nat
  nextChunk : Nat
  phase : Phase
deriving DecidableEq

/-- `SHARE_PUT_CHUNK_BYTES`. -/
def chunkBytes : Nat := 24 * 1024

/-- The chunks of a file: `len().div_ceil(SHARE_PUT_CHUNK_BYTES)`. -/
def nchunks (bytes : List UInt8) : Nat := (bytes.length + (chunkBytes - 1)) / chunkBytes

def sharePutReq (name : List Char) (bytes : List UInt8) (hash : Nat) : Put where
  name := name
  bytes := bytes
  hash := hash
  nextChunk := 0
  phase := if bytes.length ≤ chunkBytes then .legacy else .beg

def rewindForRetransmit (req : Put) : Put :=
  if req.phase ≠ .legacy then { req with nextChunk := 0, phase := .beg } else req

/-- A request line. -/
inductive Line
  | put (path : List Char) (bytes : List UInt8)
  | putBeg (path : List Char) (total nchunks : Nat)
  | putChunk (seq : Nat) (bytes : List UInt8)
  | putEnd (seq : Nat)
deriving DecidableEq

/-- An answer line. -/
inductive Reply
  | putOk (path : List Char) (written : Nat)
  | errPut
  | okPutBeg
  | errPutBeg
  | okPutChunk (seq : Nat)
  | errPutChunk
  | errPutEnd
deriving DecidableEq

/-- The answer refuses its line. -/
def Reply.isErr : Reply → Bool
  | .errPut | .errPutBeg | .errPutChunk | .errPutEnd => true
  | _ => false

/-- `share_put_reply_matches_phase`. -/
def replyMatchesPhase : Phase → Reply → Bool
  | .legacy, .errPut | .legacy, .putOk .. => true
  | .beg, .okPutBeg | .beg, .errPutBeg => true
  | .chunk, .okPutChunk _ | .chunk, .errPutChunk => true
  | .done, .putOk .. | .done, .errPutEnd => true
  | _, _ => false

/-! ## Answers to the request in flight -/

/-- What an answer makes of the request in flight. -/
inductive Outcome
  | ignored
  /-- The request goes on with another line. -/
  | sends (req : Put) (line : Line)
  /-- `engine.on_put_ok`. -/
  | ok
  /-- `engine.on_put_rejected`. -/
  | rejected
deriving DecidableEq

def writeChunkLine (req : Put) (seq start stop : Nat) : Option Line :=
  if start > stop ∨ stop > req.bytes.length then none
  else some (.putChunk seq ((req.bytes.drop start).take (stop - start)))

/-- `send_next_share_put_chunk_with_sender`: the first chunk, after OK PUTBEG. -/
def sendNextChunk (req : Put) : Outcome :=
  let start := req.nextChunk * chunkBytes
  let stop := min (start + chunkBytes) req.bytes.length
  if req.phase ≠ .beg ∨ start > stop ∨ start ≥ req.bytes.length then .ignored
  else
    match writeChunkLine req req.nextChunk start stop with
    | some line => .sends { req with nextChunk := req.nextChunk + 1, phase := .chunk } line
    | none => .ignored

/-- `advance_share_put_after_chunk_with_sender`: the next chunk, or PUTEND after the last. -/
def advanceAfterChunk (req : Put) (seq : Nat) : Outcome :=
  if req.phase ≠ .chunk ∨ seq + 1 ≠ req.nextChunk then .ignored
  else if req.nextChunk < nchunks req.bytes then
    let start := req.nextChunk * chunkBytes
    let stop := min (start + chunkBytes) req.bytes.length
    match writeChunkLine req req.nextChunk start stop with
    | some line => .sends { req with nextChunk := req.nextChunk + 1, phase := .chunk } line
    | none => .ignored
  else .sends { req with phase := .done } (.putEnd (nchunks req.bytes))

/-- `handle_share_put_reply_with_sender`. -/
def handleReply (req : Put) (reply : Reply) : Outcome :=
  if replyMatchesPhase req.phase reply = false then .ignored
  else
    match reply with
    | .okPutBeg => sendNextChunk req
    | .okPutChunk seq => advanceAfterChunk req seq
    | .putOk _ _ => .ok
    | .errPut | .errPutBeg | .errPutChunk | .errPutEnd => .rejected

/-- `write_service_req_line`: a PUT starts with PUT or PUTBEG. -/
def writeReqLine (guestDir : List Char) (req : Put) : Option Line :=
  let path := shareGuestPath guestDir req.name
  match req.phase with
  | .legacy => some (.put path req.bytes)
  | .beg => some (.putBeg path req.bytes.length (nchunks req.bytes))
  | .chunk | .done => none

/-! ## The guest agent -/

/-- The open PUT stream. -/
structure PutStream where
  path : List Char
  total : Nat
  written : Nat
  seq : Nat
  /-- What the file holds. -/
  data : List UInt8
deriving DecidableEq

/-- What the agent does with a line: the stream after it, the file written whole, and the answer. `failure` is an error
of the guest's file system; a chunk may then be in the file in part. -/
def agentStep (stream : Option PutStream) (line : Line) (failure : Option Nat) :
    Option PutStream × Option (List Char × List UInt8) × Reply :=
  match line with
  | .put path bytes =>
    if failure.isSome then (stream, none, .errPut) else (stream, some (path, bytes), .putOk path bytes.length)
  | .putBeg path total _ =>
    if failure.isSome then (none, none, .errPutBeg) else (some ⟨path, total, 0, 0, []⟩, none, .okPutBeg)
  | .putChunk seq bytes =>
    match stream with
    | none => (none, none, .errPutChunk)
    | some open' =>
      if seq ≠ open'.seq then (stream, none, .errPutChunk)
      else
        match failure with
        | some n => (some { open' with data := open'.data ++ bytes.take n }, none, .errPutChunk)
        | none =>
          (some { open' with written := open'.written + bytes.length, seq := open'.seq + 1, data := open'.data ++
            bytes },
            none, .okPutChunk seq)
  | .putEnd seq =>
    match stream with
    | none => (none, none, .errPutEnd)
    | some open' =>
      if failure.isSome ∨ seq ≠ open'.seq ∨ open'.written ≠ open'.total then (none, none, .errPutEnd)
      else (none, some (open'.path, open'.data), .putOk open'.path open'.written)

/-! ## The whole -/

/-- What happened, with the number of the line. -/
inductive Event
  | queued (name : List Char) (bytes : List UInt8) (hash : Nat)
  | sent (serial : Nat) (name : List Char)
  /-- The agent answered a PUT or a PUTEND with PUTOK. -/
  | executed (serial : Nat) (path : List Char) (bytes : List UInt8)
  | refused (serial : Nat)
  /-- An answer was credited to the request in flight. -/
  | credited (serial : Nat)
  | onPutOk (name : List Char) (size hash : Nat)
  | onPutRejected (name : List Char)
deriving DecidableEq

structure State where
  inFlight : Option Put
  queue : List Put
  overdueBeats : Nat
  link : Link Line Reply
  stream : Option PutStream
  /-- Newest first. -/
  log : List Event

def start : State where
  inFlight := none
  queue := []
  overdueBeats := 0
  link := Link.idle
  stream := none
  log := []

/-- A line of `req`, which is then in flight. -/
def State.send (s : State) (req : Put) (line : Line) : State :=
  { s with
    inFlight := some req
    link := s.link.send line
    log := .sent (s.link.sent + 1) req.name :: s.log }

/-- The request in flight goes back to the front of the queue. -/
def State.requeue (s : State) : State :=
  match s.inFlight with
  | none => s
  | some req => { s with inFlight := none, queue := rewindForRetransmit req :: s.queue }

/-- A beat that finds the request in flight overdue; the third one gives its place on the wire up. -/
def State.noteOverdue (s : State) : State :=
  if s.inFlight.isNone then s
  else if s.overdueBeats + 1 ≥ 3 then { s.requeue with overdueBeats := 0 }
  else { s with overdueBeats := s.overdueBeats + 1 }

/-- The next request, once the wire is idle. -/
def State.sendNext (guestDir : List Char) (s : State) : State :=
  if s.inFlight.isSome then s
  else
    match s.queue with
    | [] => { s with overdueBeats := 0 }
    | req :: rest =>
      match writeReqLine guestDir req with
      | none => { s with queue := rest, overdueBeats := 0 }
      | some line => { s with queue := rest, overdueBeats := 0 }.send req line

/-- `service_pump_with_sender`. -/
def State.pump (guestDir : List Char) (overdue : Bool) (s : State) : State :=
  (if overdue then s.noteOverdue else s).sendNext guestDir

/-- The agent reads a line and answers it. -/
def State.agent (s : State) (failure : Option Nat) : Option State :=
  match s.link.unread with
  | [] => none
  | (serial, line) :: _ =>
    let (stream, file, reply) := agentStep s.stream line failure
    let wrote := file.toList.map fun (path, bytes) => Event.executed serial path bytes
    some { s with
      stream
      link := s.link.answer reply
      log := wrote ++ (if reply.isErr then [.refused serial] else []) ++ s.log }

/-- An answer is credited to the request in flight, or ignored. -/
def State.credit (s : State) (serial : Nat) (reply : Reply) : State :=
  match s.inFlight with
  | none => s
  | some req =>
    match handleReply req reply with
    | .ignored => s
    | .sends req' line => { s with log := .credited serial :: s.log }.send req' line
    | .ok =>
      { s with
        inFlight := none
        log := .onPutOk req.name req.bytes.length req.hash :: .credited serial :: s.log }
    | .rejected =>
      { s with
        inFlight := none
        log := .onPutRejected req.name :: .credited serial :: s.log }

/-- The harness takes the oldest line from the agent: a READY (`resync_after_agent_restart`) or an answer. -/
def State.deliver (s : State) : Option State :=
  match s.link.outputs with
  | [] => none
  | .ready :: _ => some { s with link := s.link.receive }.requeue
  | .answer serial _ reply :: _ => some ({ s with link := s.link.receive }.credit serial reply)

inductive Act
  | enqueue (name : List Char) (bytes : List UInt8) (hash : Nat)
  | pump (overdue : Bool)
  | agent (failure : Option Nat)
  | deliver
  /-- A new agent process starts. -/
  | restart
  /-- A line, or an answer, is lost with its process. -/
  | loseLine (i : Nat)
  | loseOutput (i : Nat)

def step (guestDir : List Char) (s : State) : Act → Option State
  | .enqueue name bytes hash =>
    some { s with queue := s.queue ++ [sharePutReq name bytes hash], log := .queued name bytes hash :: s.log }
  | .pump overdue => some (s.pump guestDir overdue)
  | .agent failure => s.agent failure
  | .deliver => s.deliver
  | .restart => some { s with link := s.link.restart, stream := none }
  | .loseLine i => some { s with link := s.link.loseLine i }
  | .loseOutput i => some { s with link := s.link.loseOutput i }

end BridgeVm.AgentConsole.SharePut
