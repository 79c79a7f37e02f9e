import BridgeVm.VirtioConsole.Delivery

/-!
# What the handlers of the queues change

The control plane and the agent's byte stream share the device and the log: each handler adds events of one kind only,
and the control plane leaves what belongs to the agent.
-/

namespace BridgeVm.Console

open Lib

/-- The events of the control plane. -/
def ConsoleEvent.isControl : ConsoleEvent → Bool
  | .rxUsed u => u.queue == queueControlRx
  | .popped _ => true
  | _ => false

variable {queues : Fin 6 → ConsoleQueue} {control : Bool} {s s' s₁ : ConsoleState} {dev dev' dev₁ : VirtioConsole}

/-- The events added are of one kind, and each receive buffer was used well. -/
structure Handles (queues : Fin 6 → ConsoleQueue) (control : Bool) (s s' : ConsoleState) : Prop where
  registers : SameRegisters queues s'
  added : ∃ extra, s'.log = extra ++ s.log ∧
    ∀ e ∈ extra, e.isControl = control ∧ ∀ u, e = .rxUsed u → u.Ok queues

theorem Handles.refl (hregs : SameRegisters queues s) : Handles queues control s s :=
  ⟨hregs, [], rfl, fun _ he => by cases he⟩

theorem Handles.trans (h : Handles queues control s s₁) (h' : Handles queues control s₁ s') :
    Handles queues control s s' := by
  obtain ⟨extra, hlog, hextra⟩ := h.added
  obtain ⟨extra', hlog', hextra'⟩ := h'.added
  refine ⟨h'.registers, extra' ++ extra, by rw [hlog', hlog, List.append_assoc], ?_⟩
  intro e he
  rcases List.mem_append.mp he with he | he
  · exact hextra' e he
  · exact hextra e he

theorem Handles.event {e : ConsoleEvent} (hregs : SameRegisters queues s') (hlog : s'.log = e :: s.log)
    (hkind : e.isControl = control) (hok : ∀ u, e = .rxUsed u → u.Ok queues) : Handles queues control s s' := by
  refine ⟨hregs, [e], hlog, ?_⟩
  intro e' he'
  obtain rfl := List.mem_singleton.mp he'
  exact ⟨hkind, hok⟩

/-- Nothing that belongs to the agent has changed. -/
structure KeepsAgent (dev dev' : VirtioConsole) : Prop where
  registers : ∀ i, (dev'.queues i).registers = (dev.queues i).registers
  taken : (dev'.queues queueAgentTx).lastAvailIdx = (dev.queues queueAgentTx).lastAvailIdx
  hostToGuest : dev'.hostToGuest = dev.hostToGuest
  hostInbound : dev'.hostInbound = dev.hostInbound
  dropped : dev'.agentTxDropped = dev.agentTxDropped

theorem KeepsAgent.refl (dev : VirtioConsole) : KeepsAgent dev dev := ⟨fun _ => rfl, rfl, rfl, rfl, rfl⟩

theorem KeepsAgent.trans (h : KeepsAgent dev dev₁) (h' : KeepsAgent dev₁ dev') : KeepsAgent dev dev' :=
  ⟨fun i => (h'.registers i).trans (h.registers i), h'.taken.trans h.taken, h'.hostToGuest.trans h.hostToGuest,
    h'.hostInbound.trans h.hostInbound, h'.dropped.trans h.dropped⟩

theorem KeepsAgent.sameRegisters (h : KeepsAgent s.dev s'.dev) (hregs : SameRegisters queues s) :
    SameRegisters queues s' := fun i => (h.registers i).trans (hregs i)

theorem setQueue_registers {i j : Fin 6} {f : ConsoleQueue → ConsoleQueue}
    (hf : ∀ q, (f q).registers = q.registers) :
    ((dev.setQueue i f).queues j).registers = (dev.queues j).registers := by
  unfold VirtioConsole.setQueue
  dsimp only
  split
  · exact hf _
  · rfl

theorem used_registers (queueIndex i : Fin 6) :
    (((dev.advance queueIndex).markQueueInterrupt queueIndex).queues i).registers = (dev.queues i).registers := by
  have hmark : (((dev.advance queueIndex).markQueueInterrupt queueIndex).queues i).registers =
      ((dev.advance queueIndex).queues i).registers :=
    setQueue_registers (f := fun q => { q with pendingMsix := true }) fun _ => rfl
  have hadvance : ((dev.advance queueIndex).queues i).registers = (dev.queues i).registers :=
    setQueue_registers (f := fun q => { q with lastAvailIdx := (q.lastAvailIdx + 1) % 65536 }) fun _ => rfl
  exact hmark.trans hadvance

theorem used_lastAvailIdx (queueIndex i : Fin 6) :
    (((dev.advance queueIndex).markQueueInterrupt queueIndex).queues i).lastAvailIdx =
      if i = queueIndex then ((dev.queues i).lastAvailIdx + 1) % 65536 else (dev.queues i).lastAvailIdx := by
  unfold VirtioConsole.markQueueInterrupt VirtioConsole.advance VirtioConsole.setQueue
  dsimp only
  split
  · rfl
  · rfl

theorem used_keeps (dev : VirtioConsole) {queueIndex : Fin 6} (h : queueIndex ≠ queueAgentTx) :
    KeepsAgent dev ((dev.advance queueIndex).markQueueInterrupt queueIndex) :=
  ⟨used_registers queueIndex, by rw [used_lastAvailIdx, if_neg h.symm], rfl, rfl, rfl⟩

theorem enqueueControl_keeps (dev : VirtioConsole) (message : List UInt8) :
    KeepsAgent dev (dev.enqueueControl message) := by
  unfold VirtioConsole.enqueueControl
  split
  · exact ⟨fun _ => rfl, rfl, rfl, rfl, rfl⟩
  · exact .refl dev

theorem maybeReassertHostOpen_keeps (dev : VirtioConsole) : KeepsAgent dev dev.maybeReassertHostOpen := by
  unfold VirtioConsole.maybeReassertHostOpen
  dsimp only
  split
  · exact .refl dev
  split
  · exact .refl dev
  · exact (enqueueControl_keeps _ _).trans (enqueueControl_keeps _ _)

theorem handleControlTx_keeps (dev : VirtioConsole) (bytes : List UInt8) :
    KeepsAgent dev (dev.handleControlTx bytes) := by
  have hport : ∀ (dev : VirtioConsole) id f, KeepsAgent dev (dev.setPort id f) :=
    fun _ _ _ => ⟨fun _ => rfl, rfl, rfl, rfl, rfl⟩
  have hopen : ∀ dev : VirtioConsole, KeepsAgent dev
      ({ (dev.enqueueControl agentPortNameMessage).setPort 1 (fun p => { p with hostOpen := true }) with
        agentConnectedConfirmed := false }.enqueueControl portOpenMessage) := by
    intro dev
    have hname := enqueueControl_keeps dev agentPortNameMessage
    refine KeepsAgent.trans ?_ (enqueueControl_keeps _ _)
    exact ⟨hname.registers, hname.taken, hname.hostToGuest, hname.hostInbound, hname.dropped⟩
  unfold VirtioConsole.handleControlTx
  split
  · exact .refl dev
  rename_i c _
  split
  · exact (enqueueControl_keeps _ _).trans (enqueueControl_keeps _ _)
  split
  · dsimp only
    have hready : KeepsAgent dev
        (if h : c.id < 2 then dev.setPort ⟨c.id, h⟩ fun p => { p with ready := true } else dev) := by
      split
      · exact hport _ _ _
      · exact .refl dev
    split
    · exact hready.trans (hopen _)
    · exact hready
  split
  · split
    · exact hport _ _ _
    · exact .refl dev
  · exact .refl dev

/-! ## The control plane -/

theorem controlTxTurn_keeps {queue : ConsoleQueue} (h : s.controlTxTurn queue = some s') :
    KeepsAgent s.dev s'.dev ∧ s'.log = s.log := by
  unfold ConsoleState.controlTxTurn at h
  obtain ⟨head, _, rfl⟩ := Option.map_eq_some_iff.mp h
  refine ⟨.trans ?_ (used_keeps _ (by decide)), rfl⟩
  split
  · exact handleControlTx_keeps _ _
  · exact .refl _

theorem turns_keep {P : ConsoleState → Prop} {turn : ConsoleState → Option ConsoleState}
    (hturn : ∀ s s', P s → turn s = some s' → P s') (n : Nat) (h : P s) : P (ConsoleState.turns turn n s).1 := by
  induction n generalizing s with
  | zero => exact h
  | succ n ih =>
    unfold ConsoleState.turns
    split
    · exact h
    · rename_i s₁ hs₁
      exact ih (hturn s s₁ h hs₁)

theorem processControlTxQueue_keeps (s : ConsoleState) :
    KeepsAgent s.dev s.processControlTxQueue.1.dev ∧ s.processControlTxQueue.1.log = s.log := by
  unfold ConsoleState.processControlTxQueue
  apply turns_keep (P := fun s' => KeepsAgent s.dev s'.dev ∧ s'.log = s.log)
  · intro s₁ s₂ h hs₂
    obtain ⟨hkeeps, hlog⟩ := controlTxTurn_keeps hs₂
    exact ⟨h.1.trans hkeeps, hlog.trans h.2⟩
  · exact ⟨.refl _, rfl⟩

/-- The next buffer of the control queue takes the whole of the first message, where it takes any of it. -/
def Fits (s : ConsoleState) : Prop :=
  ∀ message head descs, s.dev.pendingControl.head? = some message →
  s.offered queueControlRx = some (head, descs) →
    (∀ d ∈ descs, d.isWrite = true) → Backed s.mem descs → 0 < capacity descs →
    message.length ≤ capacity descs

/-- **One turn of the flush**: nothing is delivered; the first message is delivered whole and popped; or it does not
fit, and a part of it is delivered. -/
theorem flushOne_cases (s : ConsoleState) :
    (s.flushOne.2 = false ∧ s.flushOne.1.dev = s.dev ∧ s.flushOne.1.log = s.log ∧ Fits s) ∨
      (∃ u : RxUsed, u.Ok s.dev.queues ∧ u.queue = queueControlRx ∧ s.flushOne.2 = true ∧
        s.flushOne.1.log = .popped u.data :: .rxUsed u :: s.log ∧
        s.dev.pendingControl.head? = some u.data ∧ KeepsAgent s.dev s.flushOne.1.dev ∧ Fits s) ∨
      ∃ u : RxUsed, u.Ok s.dev.queues ∧ u.queue = queueControlRx ∧ s.flushOne.2 = false ∧
        s.flushOne.1.log = .rxUsed u :: s.log ∧ KeepsAgent s.dev s.flushOne.1.dev ∧ ¬Fits s := by
  unfold ConsoleState.flushOne
  split
  · rename_i hempty
    refine .inl ⟨rfl, rfl, rfl, ?_⟩
    intro message head descs hmessage
    rw [hempty] at hmessage
    cases hmessage
  rename_i message rest hpending
  have hdeliver := deliver_cases { s with dev := { s.dev with pendingControl := rest } } queueControlRx message []
  have hoffered : ({ s with dev := { s.dev with pendingControl := rest } } : ConsoleState).offered queueControlRx =
      s.offered queueControlRx := rfl
  have hshort : ∀ {head descs}, s.offered queueControlRx = some (head, descs) →
    capacity descs < message.length → _ :=
    fun hoff hlen => deliver_short (hoffered.trans hoff) hlen
  rw [hoffered] at hdeliver
  unfold ConsoleState.deliverToRxQueue
  rcases hdeliver with ⟨mem', _, heq⟩ | ⟨u, hok, hqueue, hoff, _, _, hlength, hdata, heq⟩
  · left
    have hsame : ({ s.dev with pendingControl := message :: rest } : VirtioConsole) = s.dev := by rw [← hpending]
    refine ⟨by rw [heq], by rw [heq]; exact hsame, by rw [heq], ?_⟩
    intro message' head descs hmessage hoff hwrite hbacked hpos
    rw [hpending] at hmessage
    cases hmessage
    by_contra hlt
    have hsome := (hshort hoff (by omega)).mpr ⟨hwrite, hbacked, hpos⟩
    rw [heq] at hsome
    cases hsome
  · right
    rw [List.append_nil] at hlength hdata
    have hkeeps : ∀ pending, KeepsAgent s.dev { (({ s.dev with pendingControl := rest } : VirtioConsole).advance
        queueControlRx).markQueueInterrupt queueControlRx with pendingControl := pending } := by
      intro pending
      have hused := used_keeps { s.dev with pendingControl := rest } (show queueControlRx ≠ queueAgentTx by decide)
      exact ⟨hused.registers, hused.taken, hused.hostToGuest, hused.hostInbound, hused.dropped⟩
    rw [heq]
    by_cases hfits : message.length ≤ capacity u.descs
    · left
      have hwhole : u.data.length = message.length := by omega
      have hmessage : u.data = message := by rw [hdata, hwhole, List.take_length]
      simp only [hwhole, beq_self_eq_true]
      refine ⟨u, hok, hqueue, trivial, by rw [hmessage], by rw [hpending, hmessage]; rfl, hkeeps _, ?_⟩
      intro message' head descs hmessage' hoff' _ _ _
      rw [hpending] at hmessage'
      cases hmessage'
      rw [hoff] at hoff'
      cases hoff'
      exact hfits
    · right
      have hpart : (u.data.length == message.length) = false := by
        rw [beq_eq_false_iff_ne]
        omega
      simp only [hpart]
      refine ⟨u, hok, hqueue, trivial, rfl, hkeeps _, ?_⟩
      intro h
      have hcapacity : u.data.length = capacity u.descs := by omega
      have hsome := hshort hoff (by omega)
      rw [heq, hcapacity] at hsome
      obtain ⟨hwrite, hbacked, hpos⟩ := hsome.mp rfl
      exact hfits (h message u.head u.descs (by rw [hpending]; rfl) hoff hwrite hbacked hpos)

theorem flushOne_handles (hregs : SameRegisters queues s) :
    Handles queues true s s.flushOne.1 ∧ KeepsAgent s.dev s.flushOne.1.dev := by
  have hok : ∀ {u : RxUsed}, u.Ok s.dev.queues → u.Ok queues := fun h => h.of_registers hregs
  rcases flushOne_cases s with ⟨_, hdev, hlog, _⟩ | ⟨u, hu, hqueue, _, hlog, _, hkeeps, _⟩ |
    ⟨u, hu, hqueue, _, hlog, hkeeps, _⟩
  · have hkeeps : KeepsAgent s.dev s.flushOne.1.dev := by rw [hdev]; exact .refl _
    exact ⟨⟨hkeeps.sameRegisters hregs, [], hlog, fun _ he => by cases he⟩, hkeeps⟩
  · refine ⟨⟨hkeeps.sameRegisters hregs, [.popped u.data, .rxUsed u], hlog, ?_⟩, hkeeps⟩
    intro e he
    simp only [List.mem_cons, List.not_mem_nil, or_false] at he
    rcases he with rfl | rfl
    · refine ⟨rfl, ?_⟩
      intro u' hu'
      cases hu'
    · refine ⟨by simp [ConsoleEvent.isControl, hqueue], ?_⟩
      intro u' hu'
      cases hu'
      exact hok hu
  · refine ⟨.event (hkeeps.sameRegisters hregs) hlog (by simp [ConsoleEvent.isControl, hqueue]) ?_, hkeeps⟩
    intro u' hu'
    cases hu'
    exact hok hu

theorem flushTurns_handles (n : Nat) (hregs : SameRegisters queues s) :
    Handles queues true s (ConsoleState.flushTurns n s).1 ∧ KeepsAgent s.dev (ConsoleState.flushTurns n s).1.dev := by
  induction n generalizing s with
  | zero => exact ⟨.refl hregs, .refl _⟩
  | succ n ih =>
    obtain ⟨hone, hkeeps⟩ := flushOne_handles hregs
    unfold ConsoleState.flushTurns
    split
    · rename_i s₁ hs₁
      rw [hs₁] at hone hkeeps
      obtain ⟨hrest, hkeeps'⟩ := ih hone.registers
      exact ⟨hone.trans hrest, hkeeps.trans hkeeps'⟩
    · rename_i s₁ hs₁
      rw [hs₁] at hone hkeeps
      exact ⟨hone, hkeeps⟩

/-! ## The agent's bytes -/

/-- A delivery to the agent. -/
theorem deliverAgentRx_cases (s : ConsoleState) (split : Nat) :
    ((s.deliverAgentRx split).1.dev = s.dev ∧ (s.deliverAgentRx split).1.log = s.log) ∨
      ∃ u : RxUsed, u.Ok s.dev.queues ∧ u.queue = queueAgentRx ∧
      (s.deliverAgentRx split).1.log = .rxUsed u :: s.log ∧
        s.dev.hostToGuest = u.data ++ (s.deliverAgentRx split).1.dev.hostToGuest ∧
        (∀ i, ((s.deliverAgentRx split).1.dev.queues i).registers = (s.dev.queues i).registers) ∧
        ((s.deliverAgentRx split).1.dev.queues queueAgentTx).lastAvailIdx =
          (s.dev.queues queueAgentTx).lastAvailIdx ∧
        (s.deliverAgentRx split).1.dev.hostInbound = s.dev.hostInbound ∧
        (s.deliverAgentRx split).1.dev.agentTxDropped = s.dev.agentTxDropped := by
  unfold ConsoleState.deliverAgentRx
  split
  · exact .inl ⟨rfl, rfl⟩
  rcases deliver_cases s queueAgentRx (s.dev.hostToGuest.take split) (s.dev.hostToGuest.drop split) with
    ⟨mem', _, heq⟩ | ⟨u, hok, hqueue, _, _, _, _, hdata, heq⟩
  · rw [heq]
    exact .inl ⟨rfl, rfl⟩
  · rw [heq]
    have hused := used_keeps s.dev (show queueAgentRx ≠ queueAgentTx by decide)
    rw [List.take_append_drop] at hdata
    refine .inr ⟨u, hok, hqueue, rfl, ?_, hused.registers, hused.taken, rfl, rfl⟩
    show s.dev.hostToGuest = u.data ++ s.dev.hostToGuest.drop u.data.length
    have hsplit := List.take_append_drop u.data.length s.dev.hostToGuest
    rw [← hdata] at hsplit
    exact hsplit.symm

theorem deliverAgentRx_handles (split : Nat) (hregs : SameRegisters queues s) :
    Handles queues false s (s.deliverAgentRx split).1 := by
  rcases deliverAgentRx_cases s split with ⟨hdev, hlog⟩ | ⟨u, hu, hqueue, hlog, _, hqueues, _⟩
  · refine ⟨?_, [], hlog, fun _ he => by cases he⟩
    intro i
    rw [hdev]
    exact hregs i
  · refine .event (fun i => (hqueues i).trans (hregs i)) hlog ?_ ?_
    · simp [ConsoleEvent.isControl, hqueue, queueAgentRx, queueControlRx]
    · intro u' hu'
      cases hu'
      exact hu.of_registers hregs

/-- A turn of the agent's transmit queue. -/
theorem agentTxTurn_cases {queue : ConsoleQueue} (h : s.agentTxTurn queue = some s') :
    s.dev.hostInbound.length < maxHostInboundLen ∧ ∃ t : TxUsed, s'.log = .txUsed t :: s.log ∧
      t.availIdx = (s.dev.queues queueAgentTx).lastAvailIdx ∧ t.before = s.mem ∧ s'.mem = t.after ∧
      s.mem.readU16At queue.driver (ringOff t.availIdx queue.size) = some t.head ∧
      t.bytes = readChainInto s.mem queue t.head maxAgentMessageLen ∧
      t.after = s.mem.writeUsed queue.device queue.size t.head 0 ∧
      s'.dev.hostToGuest = s.dev.hostToGuest ∧ s'.dev.hostInbound = s.dev.hostInbound ++ t.bytes.getD [] ∧
      s'.dev.agentTxDropped = s.dev.agentTxDropped + (if t.bytes = none then 1 else 0) ∧
      (∀ i, (s'.dev.queues i).registers = (s.dev.queues i).registers) ∧
      (s'.dev.queues queueAgentTx).lastAvailIdx = ((s.dev.queues queueAgentTx).lastAvailIdx + 1) % 65536 := by
  unfold ConsoleState.agentTxTurn at h
  split at h
  · cases h
  rename_i hroom
  have hlt : s.dev.hostInbound.length < maxHostInboundLen := by
    simpa [VirtioConsole.hostInboundHasRoom] using hroom
  obtain ⟨head, hhead, rfl⟩ := Option.map_eq_some_iff.mp h
  refine ⟨hlt, _, rfl, rfl, rfl, rfl, hhead, rfl, rfl, ?_⟩
  dsimp only
  split
  · rename_i bytes hbytes
    rw [hbytes]
    refine ⟨rfl, rfl, rfl, ?_, ?_⟩
    · intro i
      exact used_registers queueAgentTx i
    · rw [used_lastAvailIdx, if_pos rfl]
  · rename_i hbytes
    rw [hbytes]
    refine ⟨rfl, (List.append_nil _).symm, rfl, ?_, ?_⟩
    · intro i
      exact used_registers queueAgentTx i
    · rw [used_lastAvailIdx, if_pos rfl]

theorem processAgentTxQueue_handles (hregs : SameRegisters queues s) :
    Handles queues false s s.processAgentTxQueue.1 := by
  unfold ConsoleState.processAgentTxQueue
  apply turns_keep (P := fun s' => Handles queues false s s')
  · intro s₁ s₂ h hs₂
    obtain ⟨_, t, hlog, _, _, _, _, _, _, _, _, _, hqueues, _⟩ := agentTxTurn_cases hs₂
    refine h.trans (.event (fun i => (hqueues i).trans (h.registers i)) hlog rfl ?_)
    intro u hu
    cases hu
  · exact .refl hregs

end BridgeVm.Console
