import BridgeVm.Lib.EventLog
import BridgeVm.VirtioConsole.ControlWhole

/-!
# The agent's byte stream is lossless

What was sent is what the guest got and what still waits, in order; what the guest's chains carried is what the host
drained and what still waits. Each consumed chain is the next one of the available ring.
-/

namespace BridgeVm.Console

open Lib

/-! ## What went through -/

/-- The bytes that events stand for, in the order of the events. -/
def bytesOf (f : ConsoleEvent → List UInt8) (log : List ConsoleEvent) : List UInt8 := log.reverse.flatMap f

def ConsoleEvent.sentBytes : ConsoleEvent → List UInt8
  | .sent data => data
  | _ => []

/-- The bytes of a used buffer of the agent. -/
def ConsoleEvent.receivedBytes : ConsoleEvent → List UInt8
  | .rxUsed u => if u.queue = queueAgentRx then u.data else []
  | _ => []

def ConsoleEvent.takenBytes : ConsoleEvent → List UInt8
  | .txUsed t => t.bytes.getD []
  | _ => []

def ConsoleEvent.drainedBytes : ConsoleEvent → List UInt8
  | .drained bytes => bytes
  | _ => []

/-- The consumed chains of the agent, newest first. -/
def consumedChains (log : List ConsoleEvent) : List TxUsed :=
  log.filterMap fun
    | .txUsed t => some t
    | _ => none

/-- The chains that were dropped. -/
def droppedChains (log : List ConsoleEvent) : Nat := (consumedChains log).countP fun t => t.bytes == none

/-- A chain whose bytes the host takes: readable descriptors only, all backed, within the bound. -/
structure Takeable (mem : GuestMemory) (queue : ConsoleQueue) (head : Nat) (bytes : List UInt8) : Prop where
  chain : ∃ descs, DescriptorChain mem queue.desc queue.size head descs ∧ (∀ d ∈ descs, d.isWrite = false) ∧
    (∀ d ∈ descs, mem.readable d.addr d.len = true) ∧ bytes = mem.chainBytes descs
  bounded : bytes.length ≤ maxAgentMessageLen

/-- What one consumed chain is: the one after the chains before it, with the bytes it carries where the host takes them,
and reported with an empty length. -/
structure TxUsed.Ok (queue : ConsoleQueue) (t : TxUsed) (earlier : List TxUsed) : Prop where
  availIdx : t.availIdx = (queue.lastAvailIdx + earlier.length) % 65536
  head : t.before.readU16At queue.driver (ringOff t.availIdx queue.size) = some t.head
  bytes : ∀ bytes, t.bytes = some bytes ↔ Takeable t.before queue t.head bytes
  after : t.after = t.before.writeUsed queue.device queue.size t.head 0

section Gathering

variable {mem : GuestMemory} {queue : ConsoleQueue} {head maxLen : Nat} {descs : List Descriptor}
  {out bytes : List UInt8}

theorem gather_iff (h : out.length ≤ maxLen) : gather mem maxLen descs out = some bytes ↔
    (∀ d ∈ descs, mem.readable d.addr d.len = true) ∧ bytes = out ++ mem.chainBytes descs ∧
    bytes.length ≤ maxLen := by
  induction descs generalizing out with
  | nil =>
    simp only [gather, Option.some.injEq, List.not_mem_nil, false_imp_iff, implies_true, GuestMemory.chainBytes,
      List.flatMap_nil, List.append_nil, true_and]
    constructor
    · rintro rfl
      exact ⟨rfl, h⟩
    · rintro ⟨rfl, _⟩
      rfl
  | cons d descs ih =>
    have hchain : mem.chainBytes (d :: descs) = mem.span d.addr d.len ++ mem.chainBytes descs := List.flatMap_cons
    unfold gather appendGuestBytesBounded GuestMemory.readBytes
    rw [List.forall_mem_cons, hchain]
    by_cases hmax : out.length + d.len > maxLen
    · rw [if_pos hmax]
      simp only [Option.bind_none, reduceCtorEq, false_iff]
      rintro ⟨_, rfl, hle⟩
      simp only [List.length_append, length_span] at hle
      omega
    · rw [if_neg hmax]
      by_cases hread : mem.readable d.addr d.len = true
      · rw [if_pos hread, Option.map_some, Option.bind_some, ih (by rw [List.length_append, length_span]; omega),
          List.append_assoc]
        simp only [hread, true_and]
      · simp [hread]

/-- **The bytes of a head** are those of its chain, where the host takes them. -/
theorem readChainInto_iff : readChainInto mem queue head maxAgentMessageLen = some bytes ↔
    Takeable mem queue head bytes := by
  unfold readChainInto descriptorChainInto
  cases hc : descriptorChain mem queue.desc queue.size head with
  | none =>
    constructor
    · intro h
      cases h
    · rintro ⟨⟨descs, hchain, _⟩, _⟩
      rw [descriptorChain_iff.mpr hchain] at hc
      cases hc
  | some descs =>
    have hchain := descriptorChain_iff.mp hc
    have hunique : ∀ {descs'}, DescriptorChain mem queue.desc queue.size head descs' → descs' = descs :=
      fun h => Walk.unique h hchain
    dsimp only
    by_cases hw : descs.any Descriptor.isWrite = true
    · rw [if_pos hw]
      obtain ⟨d, hd, hwd⟩ := List.any_eq_true.mp hw
      constructor
      · intro h
        cases h
      · rintro ⟨⟨descs', hchain', hread, _⟩, _⟩
        obtain rfl := hunique hchain'
        rw [hread d hd] at hwd
        cases hwd
    · have hread : ∀ d ∈ descs, d.isWrite = false := by
        intro d hd
        by_contra hwd
        exact hw (List.any_eq_true.mpr ⟨d, hd, by simpa using hwd⟩)
      rw [if_neg hw, gather_iff (Nat.zero_le _), List.nil_append]
      constructor
      · rintro ⟨hbacked, hbytes, hle⟩
        exact ⟨⟨descs, hchain, hread, hbacked, hbytes⟩, hle⟩
      · rintro ⟨⟨descs', hchain', _, hbacked, hbytes⟩, hle⟩
        obtain rfl := hunique hchain'
        exact ⟨hbacked, hbytes, hle⟩

end Gathering

/-! ## The stream -/

/-- Nothing sent, taken or dropped yet. -/
structure Fresh (dev : VirtioConsole) : Prop where
  hostToGuest : dev.hostToGuest = []
  hostInbound : dev.hostInbound = []
  dropped : dev.agentTxDropped = 0
  lastAvailIdx : (dev.queues queueAgentTx).lastAvailIdx < 65536

/-- **The stream is lossless**, since the device was `dev₀`. -/
structure Lossless (dev₀ : VirtioConsole) (s : ConsoleState) : Prop where
  toGuest : bytesOf ConsoleEvent.sentBytes s.log = bytesOf ConsoleEvent.receivedBytes s.log ++ s.dev.hostToGuest
  toHost : bytesOf ConsoleEvent.takenBytes s.log = bytesOf ConsoleEvent.drainedBytes s.log ++ s.dev.hostInbound
  consumed : Traced (fun t earlier => t.Ok (dev₀.queues queueAgentTx) earlier) (consumedChains s.log)
  next : (s.dev.queues queueAgentTx).lastAvailIdx =
    ((dev₀.queues queueAgentTx).lastAvailIdx + (consumedChains s.log).length) % 65536
  dropped : s.dev.agentTxDropped = droppedChains s.log
  room : s.dev.hostInbound.length < maxHostInboundLen + maxAgentMessageLen

section Stream

attribute [local simp] ConsoleEvent.sentBytes ConsoleEvent.receivedBytes ConsoleEvent.takenBytes
  ConsoleEvent.drainedBytes

variable {dev₀ : VirtioConsole} {s s' : ConsoleState}

theorem bytesOf_append (f : ConsoleEvent → List UInt8) (extra log : List ConsoleEvent) :
    bytesOf f (extra ++ log) = bytesOf f log ++ bytesOf f extra := by
  unfold bytesOf
  rw [List.reverse_append, List.flatMap_append]

theorem bytesOf_cons (f : ConsoleEvent → List UInt8) (e : ConsoleEvent) (log : List ConsoleEvent) :
    bytesOf f (e :: log) = bytesOf f log ++ f e := by
  simp [bytesOf]

theorem bytesOf_nil {f : ConsoleEvent → List UInt8} {extra : List ConsoleEvent} (h : ∀ e ∈ extra, f e = []) :
    bytesOf f extra = [] := by
  unfold bytesOf
  rw [List.flatMap_eq_nil_iff]
  intro e he
  exact h e (List.mem_reverse.mp he)

theorem KeepsAgent.lossless (hkeeps : KeepsAgent s.dev s'.dev) (hlog : s'.log = s.log) (h : Lossless dev₀ s) :
    Lossless dev₀ s' := by
  refine ⟨?_, ?_, ?_, ?_, ?_, ?_⟩
  · rw [hlog, hkeeps.hostToGuest]
    exact h.toGuest
  · rw [hlog, hkeeps.hostInbound]
    exact h.toHost
  · rw [hlog]
    exact h.consumed
  · rw [hlog, hkeeps.taken]
    exact h.next
  · rw [hlog, hkeeps.dropped]
    exact h.dropped
  · rw [hkeeps.hostInbound]
    exact h.room

/-- The control plane keeps the stream. -/
theorem Handles.lossless {queues : Fin 6 → ConsoleQueue} (hhandles : Handles queues true s s')
    (hkeeps : KeepsAgent s.dev s'.dev) (h : Lossless dev₀ s) : Lossless dev₀ s' := by
  obtain ⟨extra, hlog, hextra⟩ := hhandles.added
  have hbytes : ∀ f, (∀ e : ConsoleEvent, e.isControl = true → f e = []) →
    bytesOf f s'.log = bytesOf f s.log := by
    intro f hf
    rw [hlog, bytesOf_append, bytesOf_nil fun e he => hf e (hextra e he).1, List.append_nil]
  have hchains : consumedChains s'.log = consumedChains s.log := by
    have hnone : consumedChains extra = [] := by
      rw [consumedChains, List.filterMap_eq_nil_iff]
      intro e he
      have hkind := (hextra e he).1
      cases e with
      | txUsed t => cases hkind
      | _ => rfl
    have happend : consumedChains s'.log = consumedChains extra ++ consumedChains s.log := by
      rw [hlog]
      exact List.filterMap_append
    rw [happend, hnone, List.nil_append]
  have hreceived : ∀ e : ConsoleEvent, e.isControl = true → e.receivedBytes = [] := by
    intro e he
    cases e with
    | rxUsed u =>
      have hqueue : u.queue = queueControlRx := by simpa [ConsoleEvent.isControl] using he
      simp [ConsoleEvent.receivedBytes, hqueue, queueControlRx, queueAgentRx]
    | _ => rfl
  have hothers : ∀ e : ConsoleEvent, e.isControl = true → e.sentBytes = [] ∧ e.takenBytes = [] ∧
    e.drainedBytes = [] := by
    intro e he
    cases e with
    | rxUsed u => exact ⟨rfl, rfl, rfl⟩
    | popped message => exact ⟨rfl, rfl, rfl⟩
    | _ => cases he
  refine ⟨?_, ?_, ?_, ?_, ?_, ?_⟩
  · rw [hbytes _ fun e he => (hothers e he).1, hbytes _ hreceived, hkeeps.hostToGuest]
    exact h.toGuest
  · rw [hbytes _ fun e he => (hothers e he).2.1, hbytes _ fun e he => (hothers e he).2.2, hkeeps.hostInbound]
    exact h.toHost
  · rw [hchains]
    exact h.consumed
  · rw [hchains, hkeeps.taken]
    exact h.next
  · rw [droppedChains, hchains, hkeeps.dropped]
    exact h.dropped
  · rw [hkeeps.hostInbound]
    exact h.room

theorem agentSend_lossless (data : List UInt8) (h : Lossless dev₀ s) : Lossless dev₀ (s.agentSend data) := by
  have hkeeps := maybeReassertHostOpen_keeps { s.dev with hostToGuest := s.dev.hostToGuest ++ data }
  have hlog : (s.agentSend data).log = .sent data :: s.log := rfl
  have hchains : consumedChains (s.agentSend data).log = consumedChains s.log := rfl
  refine ⟨?_, ?_, h.consumed, hkeeps.taken.trans h.next, hkeeps.dropped.trans h.dropped, ?_⟩
  · have hto : (s.agentSend data).dev.hostToGuest = s.dev.hostToGuest ++ data := hkeeps.hostToGuest
    rw [hlog, bytesOf_cons, bytesOf_cons, hto, h.toGuest]
    simp
  · have hin : (s.agentSend data).dev.hostInbound = s.dev.hostInbound := hkeeps.hostInbound
    rw [hlog, bytesOf_cons, bytesOf_cons, hin, h.toHost]
    simp
  · have hin : (s.agentSend data).dev.hostInbound = s.dev.hostInbound := hkeeps.hostInbound
    rw [hin]
    exact h.room

theorem deliverAgentRx_lossless (split : Nat) (h : Lossless dev₀ s) : Lossless dev₀ (s.deliverAgentRx split).1 := by
  rcases deliverAgentRx_cases s split with ⟨hdev, hlog⟩ | ⟨u, _, hqueue, hlog, hbytes, _, htaken, hin, hdropped⟩
  · exact KeepsAgent.lossless (by rw [hdev]; exact .refl _) hlog h
  · have hchains : consumedChains (s.deliverAgentRx split).1.log = consumedChains s.log := by
      rw [hlog]
      rfl
    refine ⟨?_, ?_, ?_, ?_, ?_, ?_⟩
    · have hto := h.toGuest
      rw [hbytes] at hto
      rw [hlog, bytesOf_cons, bytesOf_cons, hto]
      simp [hqueue]
    · rw [hlog, bytesOf_cons, bytesOf_cons, hin, h.toHost]
      simp
    · rw [hchains]
      exact h.consumed
    · rw [hchains, htaken]
      exact h.next
    · rw [droppedChains, hchains, hdropped]
      exact h.dropped
    · rw [hin]
      exact h.room

/-- A turn of the agent's transmit queue keeps the stream. -/
theorem agentTxTurn_lossless {queue : ConsoleQueue} (hqueue : queue.registers = (dev₀.queues queueAgentTx).registers)
    (hs : s.agentTxTurn queue = some s') (h : Lossless dev₀ s) : Lossless dev₀ s' := by
  obtain ⟨hroom, t, hlog, hidx, hbefore, _, hhead, hbytes, hafter, hto, hin, hdropped, _, hnext⟩ :=
    agentTxTurn_cases hs
  obtain ⟨hsize, hdesc, hdriver, hdevice⟩ := registers_eq hqueue
  have hchains : consumedChains s'.log = t :: consumedChains s.log := by
    rw [hlog]
    rfl
  refine ⟨?_, ?_, ?_, ?_, ?_, ?_⟩
  · rw [hlog, bytesOf_cons, bytesOf_cons, hto, h.toGuest]
    simp
  · rw [hlog, bytesOf_cons, bytesOf_cons, hin, h.toHost]
    simp
  · rw [hchains]
    refine ⟨⟨hidx.trans h.next, ?_, ?_, ?_⟩, h.consumed⟩
    · rw [hbefore, ← hdriver, ← hsize]
      exact hhead
    · intro bytes
      rw [hbytes, readChainInto_iff, hbefore]
      have hiff : Takeable s.mem queue t.head bytes ↔ Takeable s.mem (dev₀.queues queueAgentTx) t.head bytes := by
        constructor
        · rintro ⟨⟨descs, hchain, hrest⟩, hle⟩
          exact ⟨⟨descs, by rw [← hdesc, ← hsize]; exact hchain, hrest⟩, hle⟩
        · rintro ⟨⟨descs, hchain, hrest⟩, hle⟩
          exact ⟨⟨descs, by rw [hdesc, hsize]; exact hchain, hrest⟩, hle⟩
      exact hiff
    · rw [hbefore, hafter, ← hsize, ← hdevice]
  · rw [hchains, hnext, h.next, List.length_cons]
    omega
  · rw [droppedChains, hchains, hdropped, h.dropped, List.countP_cons]
    cases t.bytes <;> simp [droppedChains]
  · rw [hin, List.length_append]
    have hle : (t.bytes.getD []).length ≤ maxAgentMessageLen := by
      rcases hsome : t.bytes with _ | bytes
      · exact Nat.zero_le _
      · rw [hsome] at hbytes
        exact (readChainInto_iff.mp hbytes.symm).bounded
    omega

theorem processAgentTxQueue_lossless (hregs : SameRegisters dev₀.queues s) (h : Lossless dev₀ s) :
    Lossless dev₀ s.processAgentTxQueue.1 := by
  unfold ConsoleState.processAgentTxQueue
  apply turns_keep (P := Lossless dev₀)
  · intro s₁ s₂ h₁ hs₂
    exact agentTxTurn_lossless (hregs queueAgentTx) hs₂ h₁
  · exact h

theorem drainInbound_lossless (h : Lossless dev₀ s) : Lossless dev₀ s.drainInbound := by
  have hlog : s.drainInbound.log = .drained s.dev.hostInbound :: s.log := rfl
  refine ⟨?_, ?_, h.consumed, h.next, h.dropped, show 0 < _ by decide⟩
  · have hto : s.drainInbound.dev.hostToGuest = s.dev.hostToGuest := rfl
    rw [hlog, bytesOf_cons, bytesOf_cons, hto, h.toGuest]
    simp
  · have hin : s.drainInbound.dev.hostInbound = [] := rfl
    rw [hlog, bytesOf_cons, bytesOf_cons, hin, h.toHost]
    simp

theorem processControlTxQueue_lossless (h : Lossless dev₀ s) : Lossless dev₀ s.processControlTxQueue.1 :=
  (processControlTxQueue_keeps s).1.lossless (processControlTxQueue_keeps s).2 h

theorem step_lossless (op : ConsoleOp) (hregs : SameRegisters dev₀.queues s) (h : Lossless dev₀ s) :
    Lossless dev₀ (s.step op) := by
  have hflush : ∀ {s : ConsoleState}, SameRegisters dev₀.queues s → Lossless dev₀ s →
      Lossless dev₀ s.flushPendingControl.1 := fun hregs h =>
    (flushPendingControl_handles hregs).1.lossless (flushPendingControl_handles hregs).2 h
  have hcontrol := processControlTxQueue_lossless h
  have hregs₁ := processControlTxQueue_registers hregs
  cases op with
  | agentSend data => exact agentSend_lossless data h
  | notify queueIndex split =>
    show Lossless dev₀ (s.notifyQueue queueIndex split)
    unfold ConsoleState.notifyQueue
    split
    · exact h
    split
    · exact hflush hregs h
    split
    · exact hflush hregs₁ hcontrol
    split
    · exact deliverAgentRx_lossless split h
    split
    · exact processAgentTxQueue_lossless hregs h
    · exact h
  | poll split =>
    show Lossless dev₀ (s.poll split).1
    unfold ConsoleState.poll
    split
    · exact h
    · have hregs₂ := (flushPendingControl_handles hregs₁).1.registers
      have hregs₃ := (deliverAgentRx_handles split hregs₂).registers
      exact processAgentTxQueue_lossless hregs₃ (deliverAgentRx_lossless split (hflush hregs₁ hcontrol))
  | drainInbound => exact drainInbound_lossless h
  | guest mem => exact ⟨h.toGuest, h.toHost, h.consumed, h.next, h.dropped, h.room⟩

theorem run_lossless {dev : VirtioConsole} (hfresh : Fresh dev) (mem : GuestMemory) (ops : List ConsoleOp) :
    Lossless dev (ConsoleState.run ⟨dev, mem, []⟩ ops) := by
  induction ops using List.reverseRecOn with
  | nil =>
    refine ⟨?_, ?_, trivial, ?_, hfresh.dropped, ?_⟩
    · exact hfresh.hostToGuest.symm
    · exact hfresh.hostInbound.symm
    · exact (Nat.mod_eq_of_lt hfresh.lastAvailIdx).symm
    · show dev.hostInbound.length < _
      rw [hfresh.hostInbound]
      decide
  | append_singleton ops op ih =>
    rw [run_concat]
    exact step_lossless op (run_serves dev mem ops).1 ih

theorem processAgentTxQueue_full (h : s.dev.hostInboundHasRoom = false) : s.processAgentTxQueue = (s, false) := by
  unfold ConsoleState.processAgentTxQueue
  have hturn : s.agentTxTurn (s.dev.queues queueAgentTx) = none := by simp [ConsoleState.agentTxTurn, h]
  cases s.entries queueAgentTx with
  | zero => rfl
  | succ n => simp only [ConsoleState.turns, hturn]

end Stream

/-- **The agent's byte stream is lossless**: what the guest received is a prefix of what was sent, each used buffer
holds what it is reported with, the host drains what the consumed chains carried, in order, and a full host leaves the
chains in the ring. -/
theorem agent_stream_lossless (dev : VirtioConsole) (hfresh : Fresh dev) (mem : GuestMemory) (ops : List ConsoleOp) :
    bytesOf ConsoleEvent.receivedBytes (ConsoleState.run ⟨dev, mem, []⟩ ops).log <+:
        bytesOf ConsoleEvent.sentBytes (ConsoleState.run ⟨dev, mem, []⟩ ops).log ∧
      (∀ u, .rxUsed u ∈ (ConsoleState.run ⟨dev, mem, []⟩ ops).log → u.Ok dev.queues) ∧
      Lossless dev (ConsoleState.run ⟨dev, mem, []⟩ ops) ∧
      ((ConsoleState.run ⟨dev, mem, []⟩ ops).dev.hostInboundHasRoom = false →
        (ConsoleState.run ⟨dev, mem, []⟩ ops).processAgentTxQueue = (ConsoleState.run ⟨dev, mem, []⟩ ops,
          false)) := by
  have hlossless := run_lossless hfresh mem ops
  exact ⟨⟨_, hlossless.toGuest.symm⟩, (run_serves dev mem ops).2, hlossless, processAgentTxQueue_full⟩

/-- Three bytes of the guest in a ring of their own. -/
def agentTxChain : GuestMemory :=
  ((((twoBuffers.store 0x6000 (toLeBytes 8 0x9000 ++ toLeBytes 4 3 ++ toLeBytes 4 0)).store 0x7002
    (toLeBytes 2 1)).store
    0x7004 (toLeBytes 2 0)).store 0x9000 [7, 8, 9])

def freshConsole : VirtioConsole :=
  { portOpenPending with
    queues := fun i => if i = queueAgentTx then ⟨2, true, 0x6000, 0x7000, 0x8000, 0, false⟩
      else portOpenPending.queues i
    pendingControl := [] }

/-- Six bytes to a guest whose buffer has four, and three bytes of the guest to the host. -/
theorem agent_stream_lossless_both :
    let s := ConsoleState.run ⟨freshConsole, agentTxChain, []⟩ [.agentSend [1, 2, 3, 4, 5, 6], .poll 2,
      .drainInbound]
    bytesOf ConsoleEvent.receivedBytes s.log <+: bytesOf ConsoleEvent.sentBytes s.log ∧
      bytesOf ConsoleEvent.receivedBytes s.log = [1, 2, 3, 4] ∧
      bytesOf ConsoleEvent.takenBytes s.log = bytesOf ConsoleEvent.drainedBytes s.log ++ s.dev.hostInbound ∧
      bytesOf ConsoleEvent.drainedBytes s.log = [7, 8, 9] := by
  have h := agent_stream_lossless freshConsole ⟨rfl, rfl, rfl, by decide⟩ agentTxChain
    [.agentSend [1, 2, 3, 4, 5, 6], .poll 2, .drainInbound]
  exact ⟨h.1, by decide +kernel, h.2.2.1.toHost, by decide +kernel⟩

end BridgeVm.Console
