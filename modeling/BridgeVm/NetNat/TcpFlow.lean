import BridgeVm.NetNat.TcpSend

/-!
# One proxied TCP flow (`net_nat/macaddr.rs`, `handle_outbound_ipv4.rs`, `tcp_send.rs`)

A flow takes guest segments (`handle_tcp`), is polled (`poll_tcp`), is marked by the wake thread, and is evicted. What
the host socket does at each read and write, the other frames in the reply queue and the budget the other flows leave
are inputs.
-/

namespace BridgeVm.NetNat

open Lib

/-- Frames that may wait for guest RX buffers. -/
def maxPendingReplyFrames : Nat := 10000

/-- Guest-to-host TCP bytes buffered while the host peer is not reading. -/
def maxTcpWriteBacklog : Nat := 4 * 1024 * 1024

/-- Our window scale when the guest's SYN offered one. -/
def ourWindowShift : Nat := 6

def tcpFlagFin : UInt8 := 0x01

def tcpFlagSyn : UInt8 := 0x02

def tcpFlagRst : UInt8 := 0x04

def tcpFlagPsh : UInt8 := 0x08

def tcpFlagAck : UInt8 := 0x10

/-- Some flag of `mask` is set. -/
def hasFlag (flags mask : UInt8) : Bool := flags &&& mask != 0

/-! ## Segments and the reply queue -/

/-- A guest segment, of one IPv4 packet: `segment` is the whole of it, options included. -/
structure TcpSegment where
  seq : UInt32
  ack : UInt32
  flags : UInt8
  window : UInt16
  segment : List UInt8
  payload : List UInt8
  fits : payload.length < 2 ^ 16
deriving DecidableEq

theorem TcpSegment.fits_nil : ([] : List UInt8).length < 2 ^ 16 := by decide

/-- A segment to the guest. -/
structure TcpReply where
  seq : UInt32
  ack : UInt32
  flags : UInt8
  window : UInt16
  options : List UInt8
  payload : List UInt8
deriving DecidableEq

/-- The reply queue: the frames that waited in it before, and the segments queued on this flow. -/
structure ReplyQueue where
  waiting : Nat
  replies : List TcpReply
deriving DecidableEq

namespace ReplyQueue

/-- `reply_queue_full`. -/
def full (q : ReplyQueue) : Bool := maxPendingReplyFrames ≤ q.waiting + q.replies.length

/-- A segment is queued when its IPv4 length fits 16 bits (`build_tcp_reply_frame`). -/
def push (q : ReplyQueue) (r : TcpReply) : ReplyQueue :=
  if 40 + r.options.length + r.payload.length < 65536 then { q with replies := q.replies ++ [r] } else q

/-- `queue_tcp_segment`. -/
def queueTcpSegment (q : ReplyQueue) (seq ack : UInt32) (flags : UInt8) (window : UInt16) (payload : List UInt8) :
    ReplyQueue :=
  q.push ⟨seq, ack, flags, window, [], payload⟩

/-- `queue_tcp_reply`. -/
def queueTcpReply (q : ReplyQueue) (seq ack : UInt32) (flags : UInt8) (payload : List UInt8) : ReplyQueue :=
  q.queueTcpSegment seq ack flags 65535 payload

end ReplyQueue

/-! ## The host socket -/

/-- What the host socket does at one call: it moves bytes (a read at most one more than said, a write at most as many),
would block, or fails. -/
inductive HostTurn
  | moves (n : Nat)
  | wouldBlock
  | err
deriving DecidableEq, Repr

inductive IoResult (α : Type)
  | ok (a : α)
  | wouldBlock
  | err
deriving DecidableEq, Repr

/-- The host side of a flow: the peer's stream up to its end and how much of it was read, the bytes the socket took, and
whether its write side is shut down. -/
structure TcpStream where
  incoming : List UInt8
  taken : Nat
  outgoing : List UInt8
  writeShut : Bool
deriving DecidableEq

namespace TcpStream

/-- `read` into a buffer: some bytes of the stream, none at its end. -/
def read (s : TcpStream) (bufLen : Nat) : HostTurn → IoResult (List UInt8) × TcpStream
  | .moves n =>
    let got := slice s.incoming s.taken (min (n + 1) bufLen)
    (.ok got, { s with taken := s.taken + got.length })
  | .wouldBlock => (.wouldBlock, s)
  | .err => (.err, s)

/-- `write`: a shut down socket takes nothing. -/
def write (s : TcpStream) (buf : List UInt8) : HostTurn → IoResult Nat × TcpStream
  | .moves n =>
    if s.writeShut then (.err, s)
    else (.ok (min n buf.length), { s with outgoing := s.outgoing ++ buf.take n })
  | .wouldBlock => (.wouldBlock, s)
  | .err => (.err, s)

/-- `shutdown(Shutdown::Write)`. -/
def shutdownWrite (s : TcpStream) : TcpStream := { s with writeShut := true }

end TcpStream

/-! ## The flow -/

inductive TcpProxyState
  | connecting
  /-- A forwarded host connection: the NAT's SYN waits for the guest's SYN-ACK. -/
  | opening
  | established
deriving DecidableEq, Repr

structure TcpFlow where
  stream : TcpStream
  state : TcpProxyState
  guestNext : UInt32
  ourSeq : UInt32
  send : TcpSendState
  writeBuf : List UInt8
  pendingAck : Bool
  guestFin : Bool
  lastActivity : Nat
  /-- The host socket may have data. -/
  readable : Bool
  watched : Bool
  /-- The receive window (bytes) our last segment to the guest announced. -/
  advertised : Nat
  /-- A one-shot writable event is armed for a write backlog. -/
  writeArmed : Bool
deriving DecidableEq

namespace TcpFlow

def new (stream : TcpStream) (guestNext ourSeq : UInt32) (guestWindow : UInt16) (guestWindowShift : Option (Fin 15))
    (lastActivity : Nat) : TcpFlow where
  stream := stream
  state := .connecting
  guestNext := guestNext
  ourSeq := ourSeq
  send := TcpSendState.new (ourSeq + 1) guestWindow guestWindowShift
  writeBuf := []
  pendingAck := false
  guestFin := false
  lastActivity := lastActivity
  readable := true
  watched := false
  advertised := maxTcpWriteBacklog
  writeArmed := false

def ourShift (f : TcpFlow) : Nat := if f.send.windowShift.isSome then ourWindowShift else 0

def freeWindow (f : TcpFlow) : Nat := maxTcpWriteBacklog - f.writeBuf.length

/-- `window_field`: what the write backlog still takes, recorded as announced. -/
def windowField (f : TcpFlow) : UInt16 × TcpFlow :=
  let field := UInt16.ofNat (min (f.freeWindow >>> f.ourShift) 65535)
  (field, { f with advertised := field.toNat <<< f.ourShift })

def windowGrew (f : TcpFlow) : Bool :=
  let limit := min maxTcpWriteBacklog (65535 <<< f.ourShift)
  f.advertised + limit / 4 ≤ min f.freeWindow limit

/-- `flush_host_write`; a socket that has nothing more to say would block. -/
def flushHostWrite : List HostTurn → TcpFlow → TcpFlow
  | [], f => f
  | w :: writes, f =>
    if f.writeBuf.isEmpty then f
    else
      match f.stream.write f.writeBuf w with
      | (.ok 0, stream) => { f with stream := stream }
      | (.ok len, stream) => flushHostWrite writes { f with stream := stream, writeBuf := f.writeBuf.drop len }
      | (_, stream) => { f with stream := stream }

def closed (f : TcpFlow) : Bool := f.guestFin && f.send.finAcked

/-! ## Opening -/

/-- The options of our SYN and SYN-ACK: MSS 1460, and our window scale. -/
def synOptions : List UInt8 := [2, 4, 5, 180, 1, 3, 3, 6]

def queueSynAck (f : TcpFlow) (q : ReplyQueue) : ReplyQueue :=
  let options := if f.send.windowShift.isSome then synOptions else synOptions.take 4
  q.push ⟨f.ourSeq, f.guestNext, tcpFlagSyn ||| tcpFlagAck, 65535, options, []⟩

def queueSyn (f : TcpFlow) (q : ReplyQueue) : ReplyQueue :=
  q.push ⟨f.ourSeq, 0, tcpFlagSyn, 65535, synOptions, []⟩

/-- The SYN of a forwarded connection went out: its resend timer starts. -/
def synSent (f : TcpFlow) (now : Nat) : TcpFlow :=
  { f with send := { f.send with deadlineMs := some (saturatingAdd now f.send.rtoMs) } }

/-- An unanswered SYN is due again: true to resend it, false to give up. -/
def synDue (f : TcpFlow) (now : Nat) : TcpFlow × Option Bool :=
  if !f.send.deadlineMs.any (· ≤ now) then (f, none)
  else if maxRtoMs ≤ f.send.rtoMs then (f, some false)
  else (synSent { f with send := { f.send with rtoMs := f.send.rtoMs * 2 } } now, some true)

/-- The guest's SYN-ACK to a forwarded connection's SYN. -/
def openFromSynAck (f : TcpFlow) (tcp : TcpSegment) : TcpFlow :=
  { f with
    guestNext := tcp.seq + 1
    send := { f.send with
      windowShift := synWindowShift tcp.segment
      window := tcp.window.toNat
      deadlineMs := none
      rtoMs := initialRtoMs }
    state := .established
    pendingAck := true }

/-- A flow the guest's SYN opens (`handle_tcp`). -/
def openFromSyn (stream : TcpStream) (tcp : TcpSegment) (ourSeq : UInt32) (watched : Bool) (now : Nat) : TcpFlow :=
  { new stream (tcp.seq + 1) ourSeq tcp.window (synWindowShift tcp.segment) now with watched := watched }

/-- A flow a forwarded host connection opens (`open_forwarded`). -/
def openForwarded (stream : TcpStream) (ourSeq : UInt32) (watched : Bool) (now : Nat) : TcpFlow :=
  synSent { new stream 0 ourSeq 0 none now with state := .opening, watched := watched } now

end TcpFlow

/-! ## Sending to the guest -/

/-- What a poll of a flow works on: the flow, the reply queue, and the budget for unacknowledged bytes. -/
structure Sending where
  flow : TcpFlow
  queue : ReplyQueue
  budget : Nat
deriving DecidableEq

namespace Sending

/-- A segment of this flow, with its window field. -/
def segment (s : Sending) (seq : UInt32) (flags : UInt8) (payload : List UInt8) : Sending :=
  let (window, flow) := s.flow.windowField
  { s with flow := flow, queue := s.queue.queueTcpSegment seq flow.guestNext flags window payload }

/-- `resend_oldest`; the unacknowledged bytes wrap in their ring after `wrap`. -/
def resendOldest (s : Sending) (wrap : Nat) : Sending :=
  let unacked := s.flow.send.unacked
  let len := min unacked.len tcpMss
  let (front, back) := unacked.asSlices wrap
  let head := min len front.length
  let payload := front.take head ++ back.take (len - head)
  let flags := tcpFlagAck
  let flags := if len ≠ 0 then flags ||| tcpFlagPsh else flags
  let flags := if s.flow.send.finSent ∧ len = unacked.len then flags ||| tcpFlagFin else flags
  s.segment s.flow.send.una flags payload

/-- Change the flow's send state. -/
def mapSend (s : Sending) (g : TcpSendState → TcpSendState) : Sending :=
  { s with flow := { s.flow with send := g s.flow.send } }

/-- A fast retransmit that was asked for. -/
def repairLoss (s : Sending) (wrap : Nat) : Sending :=
  let resend := s.flow.send.resend
  let s := s.mapSend fun send => { send with resend := false }
  if resend ∧ s.flow.send.inFlight ≠ 0 then s.resendOldest wrap else s

/-- `rto_ms` doubled. -/
def backOff (s : Sending) : Sending :=
  s.mapSend fun send => { send with rtoMs := min (send.rtoMs * 2) maxRtoMs }

/-- A timer that expired: a retransmission, or a probe of a shut window. -/
def expire (s : Sending) (wrap now : Nat) : Sending :=
  if s.flow.send.deadlineMs.any (· ≤ now) then
    let s := s.mapSend fun send => { send with deadlineMs := none }
    if s.flow.send.inFlight ≠ 0 then
      let s := s.resendOldest wrap
      (s.mapSend fun send => { send with recover := some send.next }).backOff
    else if s.flow.send.window = 0 ∧ !s.flow.send.finSent then
      -- One below the window, so the guest answers with its current one.
      (s.segment (s.flow.send.una - 1) tcpFlagAck []).backOff
    else s
  else s

/-- The length of the next read, while there is room for one. -/
def readLen (s : Sending) : Option Nat :=
  if s.flow.send.finSent ∨ s.queue.full then none
  else
    let unacked := s.flow.send.unacked
    let room := min s.flow.send.room (unacked.capacity - unacked.len + s.budget)
    if room = 0 ∨ !s.flow.readable then none else some (min room tcpMss)

/-- The timer of the first bytes in flight. -/
def startTimer (s : Sending) (now : Nat) : Sending :=
  if s.flow.send.inFlight = 0 then
    s.mapSend fun send => { send with rtoMs := initialRtoMs, deadlineMs := some (saturatingAdd now initialRtoMs) }
  else s

/-- Keep a payload until it is acknowledged. -/
def keep (s : Sending) (payload : List UInt8) : Sending :=
  let (unacked, budget) := appendWithinBudget s.flow.send.unacked payload s.budget
  { s.mapSend (fun send => { send with unacked := unacked }) with budget := budget }

/-- Send what a read returned: a FIN at the end of the host's stream, else its bytes. -/
def sendRead (s : Sending) (payload : List UInt8) (now : Nat) : Sending :=
  let flags := if payload.isEmpty then tcpFlagFin ||| tcpFlagAck else tcpFlagPsh ||| tcpFlagAck
  let s := s.startTimer now
  let s := (s.segment s.flow.send.next flags payload).keep payload
  s.mapSend fun send =>
    if payload.isEmpty then { send with next := send.next + 1, finSent := true }
    else { send with next := send.next + UInt32.ofNat payload.length }

/-- The host socket had nothing: a watched one is read again after its event. -/
def readAgain (s : Sending) : Sending := { s with flow := { s.flow with readable := !s.flow.watched } }

/-- Replace the host socket. -/
def setStream (s : Sending) (stream : TcpStream) : Sending := { s with flow := { s.flow with stream := stream } }

/-- Forward host data while there is room; a socket that has nothing more to say would block. -/
def forward (now : Nat) : List HostTurn → Sending → Sending × HostRead
  | [], s => (if s.readLen.isSome then s.readAgain else s, .idle)
  | r :: reads, s =>
    match s.readLen with
    | none => (s, .idle)
    | some len =>
      match s.flow.stream.read len r with
      | (.ok payload, stream) =>
        let (s', result) := forward now reads ((s.setStream stream).sendRead payload now)
        (s', if result = .failed then .failed else .sent)
      | (.wouldBlock, _) => (s.readAgain, .idle)
      | (.err, _) => (s, .failed)

/-- The timer of what is in flight, or of a shut window. -/
def armTimer (s : Sending) (now : Nat) : Sending :=
  let send := s.flow.send
  if send.inFlight ≠ 0 ∨ (send.window = 0 ∧ !send.finSent) then
    if send.deadlineMs.isNone then
      s.mapSend fun send => { send with deadlineMs := some (saturatingAdd now send.rtoMs) }
    else s
  else s.mapSend fun send => { send with deadlineMs := none }

end Sending

/-! ## Polls and guest segments -/

/-- `tcp_connect_error`. -/
inductive ConnectCheck
  | connected
  | pending
  | failed
deriving DecidableEq, Repr

/-- What a poll meets outside the flow. -/
structure PollEnv where
  now : Nat
  /-- Frames in the reply queue. -/
  waiting : Nat
  /-- What the other flows leave of `maxTcpUnackedBytes`. -/
  budget : Nat
  connect : ConnectCheck
  writes : List HostTurn
  reads : List HostTurn
  /-- Whether the wake thread takes a write watch. -/
  armed : Bool
  /-- Where the ring of unacknowledged bytes wraps, at a fast and at a timeout retransmit. -/
  wraps : Nat × Nat

/-- `send_to_guest`. -/
def Sending.sendToGuest (s : Sending) (env : PollEnv) : Sending × HostRead :=
  let s := (s.repairLoss env.wraps.1).expire env.wraps.2 env.now
  match s.forward env.now env.reads with
  | (s, .failed) => (s, .failed)
  | (s, result) => (s.armTimer env.now, result)

/-- What an event leaves: the flow, the segments it queued, and whether the flow is removed. -/
structure Turn where
  flow : TcpFlow
  replies : List TcpReply
  removed : Bool
deriving DecidableEq

/-- A poll under way: whether the flow did something, and whether it is to be removed. -/
structure Polling extends Sending where
  active : Bool
  removed : Bool

namespace Polling

def resetFlags : UInt8 := tcpFlagRst ||| tcpFlagAck

/-- The host connection failed: a reset to the guest, and the flow goes. -/
def reset (p : Polling) (seq : UInt32) : Polling :=
  { p with queue := p.queue.queueTcpReply seq p.flow.guestNext resetFlags [], removed := true }

/-- A connecting flow whose socket spoke; false when its connection failed. -/
def connect (p : Polling) (check : ConnectCheck) : Polling × Bool :=
  if p.flow.state = .connecting ∧ p.flow.readable then
    match check with
    | .connected =>
      let flow := { p.flow with state := .established }
      ({ p with flow := flow, queue := flow.queueSynAck p.queue, active := true }, true)
    | .failed => (p.reset p.flow.ourSeq, false)
    | .pending => ({ p with flow := { p.flow with readable := !p.flow.watched } }, true)
  else (p, true)

/-- The guest's bytes to the host. -/
def upload (p : Polling) (env : PollEnv) : Polling :=
  let flow := p.flow.flushHostWrite env.writes
  let armed := if !flow.writeBuf.isEmpty ∧ flow.watched ∧ !flow.writeArmed then env.armed else flow.writeArmed
  { p with
    flow := { flow with writeArmed := armed }
    active := p.active || flow.writeBuf.length != p.flow.writeBuf.length }

/-- The ACK that is due, or a window update. -/
def acknowledge (p : Polling) : Polling :=
  if p.flow.pendingAck || p.flow.windowGrew then
    let s := p.toSending.segment p.flow.send.next tcpFlagAck []
    { p with
      toSending := { s with flow := { s.flow with pendingAck := false } }
      active := true }
  else p

/-- The host's bytes to the guest. -/
def download (p : Polling) (env : PollEnv) : Polling :=
  match p.toSending.sendToGuest env with
  | (s, .idle) => { p with toSending := s }
  | (s, .sent) => { p with toSending := s, active := true }
  | (s, .failed) => { p with toSending := s }.reset s.flow.send.next

/-- Activity is stamped, and a closed flow goes. -/
def finish (p : Polling) (now : Nat) : Turn where
  flow := if p.active then { p.flow with lastActivity := now } else p.flow
  replies := p.queue.replies
  removed := p.removed || p.flow.closed

end Polling

namespace TcpFlow

/-- The turn of one flow in `poll_tcp`. -/
def pollTcp (f : TcpFlow) (env : PollEnv) : Turn :=
  let queue : ReplyQueue := ⟨env.waiting, []⟩
  if f.state = .opening then
    match f.synDue env.now with
    | (f, some true) => ⟨f, (f.queueSyn queue).replies, false⟩
    | (f, some false) => ⟨f, [], true⟩
    | (f, none) => ⟨f, [], false⟩
  else
    match Polling.connect ⟨⟨f, queue, env.budget⟩, false, false⟩ env.connect with
    | (p, false) => ⟨p.flow, p.queue.replies, true⟩
    | (p, true) =>
      if p.flow.state = .connecting then p.finish env.now
      else (((p.upload env).acknowledge).download env).finish env.now

/-- The guest's ACK, of a segment that carries one. -/
def takeAck (f : TcpFlow) (tcp : TcpSegment) : TcpFlow :=
  if hasFlag tcp.flags tcpFlagAck then
    let bare := tcp.payload.isEmpty && !hasFlag tcp.flags (tcpFlagSyn ||| tcpFlagFin)
    { f with send := f.send.onGuestAck tcp.ack (f.send.guestWindow tcp.window) bare }
  else f

/-- In-order payload: acknowledged now, written to the host as far as it takes it. -/
def takePayload (f : TcpFlow) (payload : List UInt8) (writes : List HostTurn) : TcpFlow :=
  flushHostWrite writes
    { f with
      guestNext := f.guestNext + UInt32.ofNat payload.length
      writeBuf := f.writeBuf ++ payload
      pendingAck := true }

/-- The guest's FIN, when it is in order. -/
def takeFin (f : TcpFlow) (tcp : TcpSegment) : TcpFlow :=
  if hasFlag tcp.flags tcpFlagFin ∧ tcp.seq = f.guestNext then
    { f with
      guestNext := f.guestNext + 1
      guestFin := true
      pendingAck := true
      stream := f.stream.shutdownWrite }
  else f

/-- `handle_tcp` on a flow that exists, but for the eviction sweep at its end. -/
def handleTcp (f : TcpFlow) (tcp : TcpSegment) (now : Nat) (writes : List HostTurn) : Turn :=
  if hasFlag tcp.flags tcpFlagRst then ⟨f, [], true⟩
  else
    let f := { f with lastActivity := now }
    if f.state = .opening then
      let synAck := tcpFlagSyn ||| tcpFlagAck
      if tcp.flags &&& synAck = synAck ∧ tcp.ack = f.ourSeq + 1 then ⟨f.openFromSynAck tcp, [], false⟩
      else ⟨f, [], false⟩
    else
      let f := f.takeAck tcp
      if !tcp.payload.isEmpty ∧ tcp.seq = f.guestNext then
        -- The host peer is not reading: the whole segment is dropped, FIN included.
        if maxTcpWriteBacklog ≤ f.writeBuf.length then ⟨{ f with pendingAck := true }, [], false⟩
        else ⟨(f.takePayload tcp.payload writes).takeFin tcp, [], false⟩
      else if !tcp.payload.isEmpty ∨ tcp.seq = f.guestNext - 1 then
        ⟨takeFin { f with pendingAck := true } tcp, [], false⟩
      else ⟨f.takeFin tcp, [], false⟩

/-- The wake thread saw the socket become ready (`take_ready_sockets`). -/
def markReady (f : TcpFlow) : TcpFlow := { f with readable := true, writeArmed := false }

end TcpFlow

/-! ## Runs -/

/-- What happens to a flow. An eviction sweep removes it for its idle time, or as the least recently used one. -/
inductive FlowEvent
  | segment (tcp : TcpSegment) (now : Nat) (writes : List HostTurn)
  | poll (env : PollEnv)
  | ready
  | evictIdle (now timeout : Nat)
  | evictLru

/-- One event. -/
def TcpFlow.turn (f : TcpFlow) : FlowEvent → Turn
  | .segment tcp now writes => f.handleTcp tcp now writes
  | .poll env => f.pollTcp env
  | .ready => ⟨f.markReady, [], false⟩
  | .evictIdle now timeout => ⟨f, [], decide (timeout < now - f.lastActivity)⟩
  | .evictLru => ⟨f, [], true⟩

/-- A socket nothing went through yet. -/
def TcpStream.Fresh (s : TcpStream) : Prop := s.taken = 0 ∧ s.outgoing = [] ∧ s.writeShut = false

/-- The flows that open: by the guest's SYN, or by a forwarded host connection. -/
inductive Opens : TcpFlow → Prop
  | syn {stream : TcpStream} (tcp : TcpSegment) (ourSeq : UInt32) (watched : Bool) (now : Nat) :
    stream.Fresh → Opens (TcpFlow.openFromSyn stream tcp ourSeq watched now)
  | forwarded {stream : TcpStream} (ourSeq : UInt32) (watched : Bool) (now : Nat) :
    stream.Fresh → Opens (TcpFlow.openForwarded stream ourSeq watched now)

/-- The states a flow reaches before it is removed. -/
inductive Reached : TcpFlow → Prop
  | opens {f : TcpFlow} : Opens f → Reached f
  | turn {f : TcpFlow} (e : FlowEvent) : Reached f → (f.turn e).removed = false → Reached (f.turn e).flow

end BridgeVm.NetNat
