import BridgeVm.Lib.AssocMap
import BridgeVm.NetNat.TcpFlow
import Mathlib.Data.List.MinMax

/-!
# The table of TCP flows (`net_nat/macaddr.rs`, `idle_eviction.rs`, `port_forward.rs`)

The flows of the NAT by connection: guest segments and forwarded host connections open them, polls work on all of them
with one budget for unacknowledged bytes, and they are removed by resets, when closed, when idle and when too many.
-/

namespace BridgeVm.NetNat

open Lib

abbrev Ipv4Addr := Vector UInt8 4

/-- The connection of a flow. -/
structure TcpFlowKey where
  guestIp : Ipv4Addr
  guestPort : UInt16
  dstIp : Ipv4Addr
  dstPort : UInt16
deriving DecidableEq

def ipv4Unspecified : Ipv4Addr := #v[0, 0, 0, 0]

def ipv4Broadcast : Ipv4Addr := #v[255, 255, 255, 255]

/-- `is_non_local_ipv4_destination`. -/
def isNonLocalIpv4Destination (dst : Ipv4Addr) : Bool :=
  if dst = ipv4Unspecified ∨ dst = ipv4Broadcast ∨ dst = #v[10, 0, 2, 255] ∨
      (224 ≤ dst[0].toNat ∧ dst[0].toNat ≤ 239) then false
  else !(dst[0] == 10 && dst[1] == 0 && dst[2] == 2)

structure TcpTable where
  flows : AssocMap TcpFlowKey TcpFlow
  tcpIsnCounter : UInt32
  idleTimeoutMs : Nat
  maxFlows : Nat
  lastIdleSweepMs : Nat
deriving DecidableEq

namespace TcpTable

def maxIdleSweepIntervalMs : Nat := 1000

/-- Memory allocated for the unacknowledged bytes of all flows. -/
def unackedBytes (t : TcpTable) : Nat := t.flows.total fun f => f.send.unacked.capacity

/-! ## Eviction -/

/-- `evict_lru`: as many least recently active flows as are too many. -/
def evictLru (cap : Nat) : Nat → AssocMap TcpFlowKey TcpFlow → AssocMap TcpFlowKey TcpFlow
  | 0, flows => flows
  | excess + 1, flows =>
    if flows.entries.length ≤ cap then flows
    else
      match flows.entries.argmin fun kf => kf.2.lastActivity with
      | none => flows
      | some oldest => evictLru cap excess (flows.remove oldest.1)

/-- `evict_idle_flows`. -/
def evictIdleFlows (t : TcpTable) (now : Nat) : TcpTable :=
  let sweepInterval := min (max t.idleTimeoutMs 1) maxIdleSweepIntervalMs
  let swept :=
    if t.idleTimeoutMs = 0 ∨ sweepInterval ≤ now - t.lastIdleSweepMs then
      { t with
        lastIdleSweepMs := now
        flows := t.flows.retain fun kf => now - kf.2.lastActivity ≤ t.idleTimeoutMs }
    else t
  { swept with flows := evictLru t.maxFlows swept.flows.entries.length swept.flows }

/-! ## Guest segments and forwarded connections -/

/-- `next_tcp_isn`: the next initial sequence number, which the counter becomes. -/
def nextTcpIsn (t : TcpTable) : UInt32 := t.tcpIsnCounter + 0x1f3d5b79

/-- What a new host connection meets: its socket, none when the connection was refused at once, and whether the wake
thread watches it. -/
structure Connected where
  stream : Option TcpStream
  watched : Bool

/-- The guest's SYN opens a flow, or its connection is refused at once; either took a sequence number. -/
def openFromSyn (t : TcpTable) (key : TcpFlowKey) (tcp : TcpSegment) (now : Nat) (connected : Connected)
    (ourSeq : UInt32) : TcpTable :=
  match connected.stream with
  | none => { t with tcpIsnCounter := ourSeq }
  | some stream =>
    let flow := TcpFlow.openFromSyn stream tcp ourSeq connected.watched now
    { t with tcpIsnCounter := ourSeq, flows := t.flows.insert key flow }.evictIdleFlows now

/-- `handle_tcp`. -/
def handleTcp (t : TcpTable) (key : TcpFlowKey) (tcp : TcpSegment) (now : Nat) (writes : List HostTurn)
    (connected : Connected) : TcpTable :=
  if hasFlag tcp.flags tcpFlagRst then { t with flows := t.flows.remove key }
  else
    match t.flows.get key with
    | none =>
      if hasFlag tcp.flags tcpFlagSyn ∧ isNonLocalIpv4Destination key.dstIp then
        t.openFromSyn key tcp now connected t.nextTcpIsn
      else t
    | some f =>
      let t' := { t with flows := t.flows.modify key fun f => (f.handleTcp tcp now writes).flow }
      -- The paths that stop while the flow opens, or at the backlog, skip the sweep.
      if f.state = .opening ∨ (!tcp.payload.isEmpty ∧ tcp.seq = f.guestNext ∧
          maxTcpWriteBacklog ≤ f.writeBuf.length) then t'
      else t'.evictIdleFlows now

/-- `open_forwarded`; the source port it takes is one that no flow has. -/
def openForwarded (t : TcpTable) (key : TcpFlowKey) (stream : TcpStream) (watched : Bool) (now : Nat) : TcpTable :=
  if (t.flows.get key).isSome then t
  else
    let ourSeq := t.nextTcpIsn
    let flow := TcpFlow.openForwarded stream ourSeq watched now
    { t with tcpIsnCounter := ourSeq, flows := t.flows.insert key flow }.evictIdleFlows now

/-- `take_ready_sockets`. -/
def takeReadySockets (t : TcpTable) (ready : TcpFlowKey → Bool) : TcpTable :=
  { t with flows := t.flows.mapValues fun key f => if ready key then f.markReady else f }

end TcpTable

/-! ## Polls -/

/-- What the turn of one flow in `poll_tcp` leaves of the budget for unacknowledged bytes. -/
def TcpFlow.budgetLeft (f : TcpFlow) (env : PollEnv) : Nat :=
  if f.state = .opening then env.budget
  else
    match Polling.connect ⟨⟨f, ⟨env.waiting, []⟩, env.budget⟩, false, false⟩ env.connect with
    | (p, false) => p.budget
    | (p, true) =>
      if p.flow.state = .connecting then p.budget else (((p.upload env).acknowledge).download env).budget

namespace TcpTable

/-- The loop of `poll_tcp`: each flow's turn, with the budget and the reply queue the flows before it left. -/
def pollFlows (env : TcpFlowKey → PollEnv) (now : Nat) :
    List (TcpFlowKey × TcpFlow) → Nat → Nat → List (TcpFlowKey × Turn)
  | [], _, _ => []
  | (key, f) :: rest, budget, waiting =>
    let env' := { env key with now := now, budget := budget, waiting := waiting }
    let turn := f.pollTcp env'
    (key, turn) :: pollFlows env now rest (f.budgetLeft env') (waiting + turn.replies.length)

theorem pollFlows_keys (env : TcpFlowKey → PollEnv) (now : Nat) (flows : List (TcpFlowKey × TcpFlow)) :
    ∀ budget waiting, (pollFlows env now flows budget waiting).map Prod.fst = flows.map Prod.fst := by
  induction flows with
  | nil => exact fun _ _ => rfl
  | cons kf flows ih =>
    intro budget waiting
    rw [pollFlows, List.map_cons, List.map_cons, ih]

/-- The flows after the loop. -/
def polled (t : TcpTable) (env : TcpFlowKey → PollEnv) (now waiting : Nat) : AssocMap TcpFlowKey Turn where
  entries := pollFlows env now t.flows.entries (maxTcpUnackedBytes - t.unackedBytes) waiting
  nodup := by
    rw [pollFlows_keys]
    exact t.flows.nodup

/-- `poll_tcp` for a known guest: the budget is what the allocations leave of the limit; the flows that are done are
removed after the loop. -/
def pollTcp (t : TcpTable) (env : TcpFlowKey → PollEnv) (now waiting : Nat) : TcpTable :=
  let turns := (t.polled env now waiting).retain fun kt => !kt.2.removed
  { t with
    flows := ⟨turns.entries.map fun kt => (kt.1, kt.2.flow), by
      rw [List.map_map]
      exact turns.nodup⟩ }

end TcpTable

/-! ## Runs -/

/-- What happens to the table. -/
inductive TableEvent
  | segment (key : TcpFlowKey) (tcp : TcpSegment) (now : Nat) (writes : List HostTurn)
    (connected : TcpTable.Connected)
  | forwarded (key : TcpFlowKey) (stream : TcpStream) (watched : Bool) (now : Nat)
  | ready (ready : TcpFlowKey → Bool)
  | poll (env : TcpFlowKey → PollEnv) (now waiting : Nat)
  | evict (now : Nat)

def TcpTable.step (t : TcpTable) : TableEvent → TcpTable
  | .segment key tcp now writes connected => t.handleTcp key tcp now writes connected
  | .forwarded key stream watched now => t.openForwarded key stream watched now
  | .ready ready => t.takeReadySockets ready
  | .poll env now waiting => t.pollTcp env now waiting
  | .evict now => t.evictIdleFlows now

/-- The tables of a NAT: empty at first; the map may iterate in another order after each event. -/
inductive TcpTable.Reached : TcpTable → Prop
  | new {t : TcpTable} : t.flows = .empty → Reached t
  | step {t : TcpTable} (e : TableEvent) : Reached t → Reached (t.step e)
  | rehash {t : TcpTable} (flows : AssocMap TcpFlowKey TcpFlow) :
    Reached t → flows.entries.Perm t.flows.entries → Reached { t with flows := flows }

end BridgeVm.NetNat
