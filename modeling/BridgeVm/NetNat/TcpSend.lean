import BridgeVm.Lib.SeqNum

/-!
# The host-to-guest direction of a proxied TCP flow (`net_nat/tcp_send.rs`)

What the NAT keeps until the guest acknowledges it, how much more the guest's window takes, and how an ACK moves both.
Sequence numbers are 32-bit words; times are milliseconds, saturating at 64 bits.
-/

namespace BridgeVm.NetNat

/-- Payload bytes per segment. -/
def tcpMss : Nat := 1460

/-- Memory allocated for unacknowledged bytes, for all flows together. -/
def maxTcpUnackedBytes : Nat := 16 * 1024 * 1024

def initialRtoMs : Nat := 200

def maxRtoMs : Nat := 3200

def dupAckThreshold : Nat := 3

/-- `u64::saturating_add`. -/
def saturatingAdd (a b : Nat) : Nat := min (a + b) (2 ^ 64 - 1)

/-! ## The byte deque -/

/-- A `VecDeque<u8>`: its bytes in order, and the allocation it keeps. -/
structure ByteDeque where
  bytes : List UInt8
  capacity : Nat
  fits : bytes.length ≤ capacity
deriving DecidableEq

namespace ByteDeque

/-- `VecDeque::new`. -/
def new : ByteDeque := ⟨[], 0, Nat.le_refl 0⟩

def len (d : ByteDeque) : Nat := d.bytes.length

/-- `drain(..n)`, which keeps the allocation. -/
def drain (d : ByteDeque) (n : Nat) : ByteDeque :=
  ⟨d.bytes.drop n, d.capacity, by rw [List.length_drop]; exact (Nat.sub_le _ _).trans d.fits⟩

/-- `as_slices`: the ring buffer wraps after `wrap` bytes. -/
def asSlices (d : ByteDeque) (wrap : Nat) : List UInt8 × List UInt8 := (d.bytes.take wrap, d.bytes.drop wrap)

end ByteDeque

/-- The capacity `append_within_budget` leaves for `need` bytes. -/
def grownCapacity (before need budget : Nat) : Nat :=
  if need > before then max (min (before * 2) (before + budget)) need else before

/-- `append_within_budget`: the buffer, and the budget left. -/
def appendWithinBudget (unacked : ByteDeque) (payload : List UInt8) (budget : Nat) : ByteDeque × Nat :=
  let capacity := grownCapacity unacked.capacity (unacked.len + payload.length) budget
  (⟨unacked.bytes ++ payload, capacity, by
      rw [List.length_append]
      show unacked.len + payload.length ≤ grownCapacity _ _ _
      unfold grownCapacity
      split <;> omega⟩,
    budget - (capacity - unacked.capacity))

/-! ## The send state -/

structure TcpSendState where
  /-- Oldest sequence number the guest has not acknowledged. -/
  una : UInt32
  /-- Next new sequence number (past the FIN once that is sent). -/
  next : UInt32
  /-- The guest's advertised receive window, in bytes. -/
  window : Nat
  /-- The guest's window scale from its SYN, capped at 14, when it offered one. -/
  windowShift : Option (Fin 15)
  /-- The payload from `una` on, kept until the guest acknowledges it. -/
  unacked : ByteDeque
  finSent : Bool
  finAcked : Bool
  dupAcks : Nat
  /-- Set while repairing a loss: the end of the flight it was found in. -/
  recover : Option UInt32
  resend : Bool
  rtoMs : Nat
  /-- Retransmission timer while data is in flight, persist timer while the window is shut. -/
  deadlineMs : Option Nat
deriving DecidableEq

/-- What `send_to_guest` did with the host socket. -/
inductive HostRead
  | idle
  | sent
  | failed
deriving DecidableEq, Repr

def seqBefore (a b : UInt32) : Bool := (a - b).toInt32 < 0

/-- The options of a SYN, up to the window scale option, capped at 14. -/
def windowShiftOption : List UInt8 → Option (Fin 15)
  | [] => none
  | kind :: rest =>
    if kind = 0 then none
    else if kind = 1 then windowShiftOption rest
    else
      match rest.head? with
      | none => none
      | some len =>
        if h : len.toNat ≤ rest.length + 1 ∧ 2 ≤ len.toNat then
          if kind = 3 ∧ len = 3 then rest[1]?.map fun shift =>
            ⟨min shift.toNat 14, Nat.lt_succ_of_le (Nat.min_le_right ..)⟩
          else windowShiftOption (rest.drop (len.toNat - 1))
        else none
termination_by options => options.length
decreasing_by
  · exact Nat.lt_succ_self _
  · exact Nat.lt_succ_of_le (List.length_drop ▸ Nat.sub_le ..)

/-- `syn_window_shift`: the window scale option of a guest SYN. -/
def synWindowShift (segment : List UInt8) : Option (Fin 15) :=
  (segment[12]?).bind fun offset =>
    let headerLen := (offset >>> 4).toNat * 4
    if 20 ≤ headerLen ∧ headerLen ≤ segment.length then
      windowShiftOption ((segment.take headerLen).drop 20)
    else none

namespace TcpSendState

def new (next : UInt32) (window : UInt16) (windowShift : Option (Fin 15)) : TcpSendState where
  una := next
  next := next
  window := window.toNat
  windowShift := windowShift
  unacked := ByteDeque.new
  finSent := false
  finAcked := false
  dupAcks := 0
  recover := none
  resend := false
  rtoMs := initialRtoMs
  deadlineMs := none

def inFlight (s : TcpSendState) : Nat := (s.next - s.una).toNat

/-- A window field of a non-SYN guest segment, in bytes. -/
def guestWindow (s : TcpSendState) (field : UInt16) : Nat := field.toNat <<< ((s.windowShift.getD 0).val)

/-- New payload bytes the guest's window takes now. -/
def room (s : TcpSendState) : Nat :=
  if s.recover.isSome then 0
  else
    let room := s.window - s.inFlight
    if s.inFlight ≠ 0 ∧ room < tcpMss then 0 else room

/-- `drain(..data)`, giving the allocation of an emptied buffer back. -/
def dropAcked (unacked : ByteDeque) (data : Nat) : ByteDeque :=
  if (unacked.drain data).bytes.isEmpty then ByteDeque.new else unacked.drain data

/-- An ACK of `acked` sequence numbers in flight. -/
def takeAck (s : TcpSendState) (ack : UInt32) (window acked : Nat) : TcpSendState :=
  { s with
    unacked := dropAcked s.unacked (min acked s.unacked.len)
    una := ack
    window := window
    dupAcks := 0
    rtoMs := initialRtoMs
    deadlineMs := none
    finAcked := if s.finSent ∧ ack = s.next then true else s.finAcked
    resend := if s.recover.any (seqBefore ack) then true else s.resend
    recover := s.recover.filter (seqBefore ack) }

/-- A repeat of the last ACK. -/
def countDuplicate (s : TcpSendState) : TcpSendState :=
  let dupAcks := min (s.dupAcks + 1) 255
  if dupAcks = dupAckThreshold ∧ s.recover.isNone then
    { s with dupAcks := dupAcks, recover := some s.next, resend := true }
  else { s with dupAcks := dupAcks }

/-- `on_guest_ack`: older ACKs, and ACKs of data never sent, change nothing. -/
def onGuestAck (s : TcpSendState) (ack : UInt32) (window : Nat) (bare : Bool) : TcpSendState :=
  let acked := (ack - s.una).toNat
  if acked ≠ 0 ∧ acked ≤ s.inFlight then s.takeAck ack window acked
  else if acked = 0 then
    let duplicate := bare ∧ window = s.window ∧ s.inFlight ≠ 0
    let s := { s with window := window }
    if duplicate then s.countDuplicate else s
  else s

end TcpSendState

end BridgeVm.NetNat
