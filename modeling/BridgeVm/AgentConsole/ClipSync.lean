import BridgeVm.Lib.Link

/-!
# Clipboard sync

`clip_sync.rs`, `clip_guest_admission.rs` and `clipboard.rs` for text, with images and HTML off, over the pump of
`resident_service.rs` and the resynchronization of `agent_restart.rs`; and the clipboard verbs of the guest agent
(`bvagent.ps1`). A text is the list of its UTF-8 bytes. The pasteboard thread drops a queued write once the Mac has a
newer copy, so a Mac copy counts from when the service takes it.
-/

namespace BridgeVm.AgentConsole.ClipSync

open Lib

abbrev Text := List UInt8

/-! ## Line ends -/

/-- `normalize_clip`: CRLF folded to LF. -/
def normalizeClip : Text → Text
  | 13 :: 10 :: s => 10 :: normalizeClip s
  | b :: s => b :: normalizeClip s
  | [] => []

/-- `to_guest_crlf_into`: LF expanded to CRLF, CRLF kept. -/
def toGuestCrlf : Text → Text
  | 13 :: 10 :: s => 13 :: 10 :: toGuestCrlf s
  | 10 :: s => 13 :: 10 :: toGuestCrlf s
  | b :: s => b :: toGuestCrlf s
  | [] => []

/-! ## Requests, lines, answers -/

inductive Req
  | clipCaps
  | clipPoll
  | clipPush (text : Text)
deriving DecidableEq

def Req.isPush : Req → Bool
  | .clipPush _ => true
  | _ => false

inductive Line
  | clipCaps
  | clipGet
  | clipSet (text : Text)
deriving DecidableEq

/-- `write_service_req_line`. -/
def writeReqLine : Req → Line
  | .clipCaps => .clipCaps
  | .clipPoll => .clipGet
  | .clipPush text => .clipSet (toGuestCrlf text)

inductive Reply
  /-- `CLIPCAPS`, without images. -/
  | caps
  /-- `OUT 255` of an agent without CLIPCAPS. -/
  | out
  | clip (text : Text)
  | okClipSet
  | errClipSet
deriving DecidableEq

/-! ## The baseline -/

/-- `ClipBaseline`, what text sync uses of it. -/
structure ClipBaseline where
  /-- Normalized guest text last observed, adopted or confirmed. -/
  text : Option Text
  rebaseline : Bool
  /-- The line whose answer gave the text. -/
  learned : Nat
deriving DecidableEq

/-- `GUEST_CLIP_MAX_BYTES`. -/
def guestClipMaxBytes : Nat := 8 * 1024 * 1024

/-- `admit_guest_clip`: the baseline after a CLIP answer, and the guest text that may be adopted. -/
def admitGuestClip (baseline : ClipBaseline) (serial : Nat) (text : Text) : ClipBaseline × Option Text :=
  if text.length > guestClipMaxBytes then ({ baseline with text := none }, none)
  else if !baseline.rebaseline then (baseline, some text)
  else if text ≠ [] then ({ text := some (normalizeClip text), rebaseline := false, learned := serial }, none)
  else ({ baseline with rebaseline := false }, none)

/-- `guest_clip_decision`. -/
def guestClipDecision (lastSynced : Option Text) (text : Text) : Option Text :=
  if text = [] then none
  else if lastSynced = some (normalizeClip text) then none
  else some (normalizeClip text)

/-! ## The whole -/

inductive Event
  /-- The service took a Mac copy. -/
  | macCopy (text : Text)
  /-- The Mac copy is over the limit. -/
  | refused
  /-- A push ended in an error. -/
  | failed
  | guestCopy (text : Text)
  /-- The agent executed a CLIPGET or a CLIPSET. -/
  | executed (serial : Nat)
  /-- Guest text was put on the Mac, while the baseline was from line `learned`. -/
  | published (text : Text) (learned : Nat)
deriving DecidableEq

structure State where
  baseline : ClipBaseline
  inFlight : Option Req
  queue : List Req
  overdueBeats : Nat
  link : Link Line Reply
  /-- The guest's clipboard; empty while it has no text. -/
  guest : Text
  /-- Newest first. -/
  log : List Event

/-- The service starts, with `text` on the guest's clipboard. -/
def start (text : Text) : State where
  baseline := { text := none, rebaseline := false, learned := 0 }
  inFlight := none
  queue := [.clipCaps]
  overdueBeats := 0
  link := Link.idle
  guest := text
  log := [.guestCopy text]

/-- `clip_push_pending`. -/
def State.pushPending (s : State) : Bool := s.inFlight.any Req.isPush || s.queue.any Req.isPush

def State.pollPending (s : State) : Bool := s.inFlight = some .clipPoll || s.queue.any fun req => req = .clipPoll

/-- `drop_queued_host_pushes`. -/
def dropQueuedPushes (queue : List Req) : List Req := queue.filter fun req => !req.isPush

/-- The guest is known to hold the text, and no push is under way. -/
def State.holds (s : State) (text : Text) : Bool :=
  !s.baseline.rebaseline && !s.pushPending && s.baseline.text = some (normalizeClip text)

/-- `enqueue_host_clip_change`. -/
def State.hostClipChange (clipMaxBytes : Nat) (s : State) (text : Text) : State :=
  if s.holds text then { s with log := .macCopy text :: s.log }
  else if text.length > clipMaxBytes then
    { s with
      queue := dropQueuedPushes s.queue
      baseline := { s.baseline with rebaseline := true }
      log := .refused :: .macCopy text :: s.log }
  else { s with queue := dropQueuedPushes s.queue ++ [.clipPush text], log := .macCopy text :: s.log }

/-- The interval, or a CLIPCHANGED. -/
def State.enqueuePoll (s : State) : State :=
  if s.pollPending then s else { s with queue := s.queue ++ [.clipPoll] }

/-- A beat that finds the request in flight overdue; the third one gives its place on the wire up. -/
def State.noteOverdue (s : State) : State :=
  match s.inFlight with
  | none => s
  | some req =>
    if s.overdueBeats + 1 ≥ 3 then { s with inFlight := none, queue := req :: s.queue, overdueBeats := 0 }
    else { s with overdueBeats := s.overdueBeats + 1 }

/-- The next request, once the wire is idle. -/
def State.sendNext (s : State) : State :=
  if s.inFlight.isSome then s
  else
    match s.queue with
    | [] => { s with overdueBeats := 0 }
    | req :: rest =>
      { s with inFlight := some req, queue := rest, overdueBeats := 0, link := s.link.send (writeReqLine req) }

/-- `service_pump_with_sender`. -/
def State.pump (overdue : Bool) (s : State) : State := (if overdue then s.noteOverdue else s).sendNext

/-- `handle_clip_poll_reply`, for an answer that is a CLIP. -/
def State.pollReply (s : State) (serial : Nat) (text : Text) : State :=
  let s := { s with inFlight := none }
  if s.pushPending then s
  else
    let (baseline, admitted) := admitGuestClip s.baseline serial text
    match admitted.bind (guestClipDecision baseline.text) with
    | none => { s with baseline }
    | some normalized =>
      { s with
        baseline := { baseline with text := some normalized, learned := serial }
        log := .published normalized s.baseline.learned :: s.log }

/-- The answer to a request: `handle_clip_caps_reply`, `handle_clip_poll_reply`, `handle_clip_push_reply`. -/
def State.reply (s : State) (serial : Nat) (reply : Reply) : State :=
  match s.inFlight, reply with
  | some .clipCaps, .caps | some .clipCaps, .out | some .clipCaps, .errClipSet => { s with inFlight := none }
  | some .clipPoll, .clip text => s.pollReply serial text
  | some .clipPoll, .errClipSet => { s with inFlight := none }
  | some (.clipPush text), .okClipSet =>
    { s with
      inFlight := none
      baseline := { text := some (normalizeClip text), rebaseline := false, learned := serial } }
  | some (.clipPush _), .errClipSet | some (.clipPush _), .out =>
    { s with inFlight := none, baseline := { s.baseline with rebaseline := true }, log := .failed :: s.log }
  | _, _ => s

/-- `resync_after_agent_restart`. -/
def State.resync (s : State) : State :=
  let s :=
    match s.inFlight with
    | some (.clipPush text) =>
      { s with
        inFlight := none
        baseline := { s.baseline with rebaseline := true }
        queue := if s.queue.any Req.isPush then s.queue else .clipPush text :: s.queue }
    | _ => { s with inFlight := none }
  { s with queue := .clipCaps :: s.queue.filter fun req => req ≠ .clipCaps }

/-- The harness takes the oldest line from the agent. -/
def State.deliver (s : State) : Option State :=
  match s.link.outputs with
  | [] => none
  | .ready :: _ => some { s with link := s.link.receive }.resync
  | .answer serial _ reply :: _ => some ({ s with link := s.link.receive }.reply serial reply)

/-- The agent answers the line it reads next. `fails` is an error of the guest's clipboard, or an agent without
CLIPCAPS. -/
def State.agent (s : State) (fails : Bool) : Option State :=
  match s.link.unread with
  | [] => none
  | (serial, line) :: _ =>
    match line with
    | .clipCaps => some { s with link := s.link.answer (if fails then .out else .caps) }
    | .clipGet => some { s with link := s.link.answer (.clip s.guest), log := .executed serial :: s.log }
    | .clipSet text =>
      if fails then some { s with link := s.link.answer .errClipSet }
      else some { s with link := s.link.answer .okClipSet, guest := text, log := .executed serial :: s.log }

inductive Act
  | macCopy (text : Text)
  | guestCopy (text : Text)
  | enqueuePoll
  | pump (overdue : Bool)
  | agent (fails : Bool)
  | deliver
  /-- A new agent process starts. -/
  | restart
  /-- A line, or an answer, is lost with its process. -/
  | loseLine (i : Nat)
  | loseOutput (i : Nat)

def step (clipMaxBytes : Nat) (s : State) : Act → Option State
  | .macCopy text => some (s.hostClipChange clipMaxBytes text)
  | .guestCopy text => some { s with guest := text, log := .guestCopy text :: s.log }
  | .enqueuePoll => some s.enqueuePoll
  | .pump overdue => some (s.pump overdue)
  | .agent fails => s.agent fails
  | .deliver => s.deliver
  | .restart => some { s with link := s.link.restart }
  | .loseLine i => some { s with link := s.link.loseLine i }
  | .loseOutput i => some { s with link := s.link.loseOutput i }

end BridgeVm.AgentConsole.ClipSync
