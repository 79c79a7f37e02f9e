import Mathlib.Data.List.Induction
import BridgeVm.VirtioConsole.Handlers

/-!
# Control messages arrive whole

A message is popped only when a buffer took all of it, but a buffer too short for it is used with what it holds, and the
message is sent again. So the used buffers of the control queue are the popped messages, one each and in order, in
exactly the runs in which no buffer that can be filled is shorter than the message it meets.
-/

namespace BridgeVm.Console

open Lib

/-- What the used buffers of the control queue hold, newest first. -/
def deliveredControl (log : List ConsoleEvent) : List (List UInt8) :=
  log.filterMap fun
    | .rxUsed u => if u.queue = queueControlRx then some u.data else none
    | _ => none

/-- The messages popped, newest first. -/
def poppedControl (log : List ConsoleEvent) : List (List UInt8) :=
  log.filterMap fun
    | .popped message => some message
    | _ => none

/-- The used buffers of the control queue are the messages popped, each whole and once, in order. -/
def Whole (log : List ConsoleEvent) : Prop := deliveredControl log = poppedControl log

/-- Each turn of the flush fits. -/
def TurnsFit : Nat → ConsoleState → Prop
  | 0, _ => True
  | n + 1, s => Fits s ∧ (s.flushOne.2 = true → TurnsFit n s.flushOne.1)

/-- Each turn of the flush that an operation makes fits. -/
def OpFits (s : ConsoleState) : ConsoleOp → Prop
  | .notify queueIndex _ =>
    s.dev.status &&& driverOk ≠ 0 →
      (queueIndex = queueControlRx → TurnsFit s.dev.pendingControl.length s) ∧
        (queueIndex = queueControlTx →
          TurnsFit s.processControlTxQueue.1.dev.pendingControl.length s.processControlTxQueue.1)
  | .poll _ =>
    s.dev.status &&& driverOk ≠ 0 →
      TurnsFit s.processControlTxQueue.1.dev.pendingControl.length s.processControlTxQueue.1
  | _ => True

variable {queues : Fin 6 → ConsoleQueue} {s s' : ConsoleState}

/-- Events of the agent leave the control plane alone. -/
theorem Handles.whole (h : Handles queues false s s') : Whole s'.log ↔ Whole s.log := by
  obtain ⟨extra, hlog, hextra⟩ := h.added
  have hdelivered : deliveredControl extra = [] := by
    rw [deliveredControl, List.filterMap_eq_nil_iff]
    intro e he
    have hkind := (hextra e he).1
    cases e with
    | rxUsed u => simpa [ConsoleEvent.isControl] using hkind
    | _ => rfl
  have hpopped : poppedControl extra = [] := by
    rw [poppedControl, List.filterMap_eq_nil_iff]
    intro e he
    have hkind := (hextra e he).1
    cases e with
    | popped message => cases hkind
    | _ => rfl
  have hd : deliveredControl s'.log = deliveredControl extra ++ deliveredControl s.log := by
    rw [hlog]
    exact List.filterMap_append
  have hp : poppedControl s'.log = poppedControl extra ++ poppedControl s.log := by
    rw [hlog]
    exact List.filterMap_append
  rw [Whole, hd, hp, hdelivered, hpopped]
  rfl

/-- **One turn of the flush** delivers whole messages only, exactly when it fits. -/
theorem flushOne_whole (h : Whole s.log) : (Whole s.flushOne.1.log ↔ Fits s) ∧
    (s.flushOne.2 = true → Fits s) := by
  rcases flushOne_cases s with ⟨hstop, _, hlog, hfits⟩ | ⟨u, _, hqueue, _, hlog, _, _, hfits⟩ |
    ⟨u, _, hqueue, hstop, hlog, _, hfits⟩
  · rw [hlog]
    exact ⟨⟨fun _ => hfits, fun _ => h⟩, fun _ => hfits⟩
  · refine ⟨⟨fun _ => hfits, fun _ => ?_⟩, fun _ => hfits⟩
    rw [hlog]
    unfold Whole deliveredControl poppedControl at h ⊢
    simp [hqueue, h]
  · refine ⟨⟨fun hwhole => ?_, fun h => absurd h hfits⟩, fun hgo => ?_⟩
    · rw [hlog] at hwhole
      unfold Whole deliveredControl poppedControl at h hwhole
      simp only [List.filterMap_cons, hqueue, if_true, h] at hwhole
      have hlength := congrArg List.length hwhole
      rw [List.length_cons] at hlength
      omega
    · rw [hstop] at hgo
      cases hgo

theorem flushTurns_whole (n : Nat) (h : Whole s.log) : Whole (ConsoleState.flushTurns n s).1.log ↔ TurnsFit n s := by
  induction n generalizing s with
  | zero => exact ⟨fun _ => trivial, fun _ => h⟩
  | succ n ih =>
    obtain ⟨hone, hgo⟩ := flushOne_whole h
    unfold ConsoleState.flushTurns TurnsFit
    rcases hturn : s.flushOne with ⟨s₁, _ | _⟩
    · rw [hturn] at hone
      simp only [hone]
      exact ⟨fun hfits => ⟨hfits, fun hgo => by cases hgo⟩, fun hfits => hfits.1⟩
    · rw [hturn] at hone hgo
      have hfits := hgo rfl
      simp only [ih (hone.mpr hfits)]
      exact ⟨fun hrest => ⟨hfits, fun _ => hrest⟩, fun hrest => hrest.2 trivial⟩

/-! ## Runs -/

theorem flushPendingControl_handles (hregs : SameRegisters queues s) :
    Handles queues true s s.flushPendingControl.1 ∧ KeepsAgent s.dev s.flushPendingControl.1.dev :=
  flushTurns_handles _ hregs

theorem processControlTxQueue_registers (hregs : SameRegisters queues s) :
    SameRegisters queues s.processControlTxQueue.1 :=
  (processControlTxQueue_keeps s).1.sameRegisters hregs

theorem agentSend_registers (data : List UInt8) (hregs : SameRegisters queues s) :
    SameRegisters queues (s.agentSend data) := by
  have hkeeps := maybeReassertHostOpen_keeps { s.dev with hostToGuest := s.dev.hostToGuest ++ data }
  exact fun i => (hkeeps.registers i).trans (hregs i)

/-- An operation keeps the driver's registers, and uses each receive buffer well. -/
structure Serves (queues : Fin 6 → ConsoleQueue) (s s' : ConsoleState) : Prop where
  registers : SameRegisters queues s'
  served : ∀ u, .rxUsed u ∈ s'.log → .rxUsed u ∈ s.log ∨ u.Ok queues

theorem Serves.refl (hregs : SameRegisters queues s) : Serves queues s s := ⟨hregs, fun _ hu => .inl hu⟩

theorem Handles.serves {control : Bool} (h : Handles queues control s s') : Serves queues s s' := by
  obtain ⟨extra, hlog, hextra⟩ := h.added
  refine ⟨h.registers, ?_⟩
  intro u hu
  rw [hlog] at hu
  rcases List.mem_append.mp hu with hu | hu
  · exact .inr ((hextra _ hu).2 u rfl)
  · exact .inl hu

theorem Serves.trans {s₁ : ConsoleState} (h : Serves queues s s₁) (h' : Serves queues s₁ s') :
    Serves queues s s' := by
  refine ⟨h'.registers, ?_⟩
  intro u hu
  rcases h'.served u hu with hu | hok
  · exact h.served u hu
  · exact .inr hok

theorem processControlTxQueue_serves (hregs : SameRegisters queues s) : Serves queues s s.processControlTxQueue.1 := by
  refine ⟨processControlTxQueue_registers hregs, ?_⟩
  intro u hu
  rw [(processControlTxQueue_keeps s).2] at hu
  exact .inl hu

theorem step_serves (op : ConsoleOp) (hregs : SameRegisters queues s) : Serves queues s (s.step op) := by
  cases op with
  | agentSend data =>
    refine ⟨agentSend_registers data hregs, ?_⟩
    intro u hu
    rcases List.mem_cons.mp hu with hu | hu
    · cases hu
    · exact .inl hu
  | notify queueIndex split =>
    show Serves queues s (s.notifyQueue queueIndex split)
    unfold ConsoleState.notifyQueue
    split
    · exact .refl hregs
    split
    · exact (flushPendingControl_handles hregs).1.serves
    split
    · have hcontrol := processControlTxQueue_serves hregs
      exact hcontrol.trans (flushPendingControl_handles hcontrol.registers).1.serves
    split
    · exact (deliverAgentRx_handles split hregs).serves
    split
    · exact (processAgentTxQueue_handles hregs).serves
    · exact .refl hregs
  | poll split =>
    show Serves queues s (s.poll split).1
    unfold ConsoleState.poll
    split
    · exact .refl hregs
    · have hcontrol := processControlTxQueue_serves hregs
      have hflush := hcontrol.trans (flushPendingControl_handles hcontrol.registers).1.serves
      have hdeliver := hflush.trans (deliverAgentRx_handles split hflush.registers).serves
      exact hdeliver.trans (processAgentTxQueue_handles hdeliver.registers).serves
  | drainInbound =>
    refine ⟨hregs, ?_⟩
    intro u hu
    rcases List.mem_cons.mp hu with hu | hu
    · cases hu
    · exact .inl hu
  | guest mem => exact ⟨hregs, fun _ hu => .inl hu⟩

/-- **One operation** leaves the used buffers whole messages exactly when its turns fit. -/
theorem step_whole (op : ConsoleOp) (hregs : SameRegisters queues s) (h : Whole s.log) :
    Whole (s.step op).log ↔ OpFits s op := by
  have hflush : ∀ {s : ConsoleState}, Whole s.log →
      (Whole s.flushPendingControl.1.log ↔ TurnsFit s.dev.pendingControl.length s) := fun h => flushTurns_whole _ h
  have hcontrol : Whole s.processControlTxQueue.1.log := by
    rw [(processControlTxQueue_keeps s).2]
    exact h
  cases op with
  | agentSend data => exact ⟨fun _ => trivial, fun _ => h⟩
  | notify queueIndex split =>
    show Whole (s.notifyQueue queueIndex split).log ↔ _
    unfold ConsoleState.notifyQueue OpFits
    split
    · rename_i hoff
      exact ⟨fun _ hon => absurd hoff hon, fun _ => h⟩
    rename_i hon
    split
    · rename_i hq
      rw [hflush h]
      refine ⟨fun hfit _ => ⟨fun _ => hfit, fun hq' => ?_⟩, fun hfit => (hfit hon).1 hq⟩
      rw [hq] at hq'
      exact absurd hq' (by decide)
    rename_i hrx
    split
    · rename_i hq
      rw [hflush hcontrol]
      exact ⟨fun hfit _ => ⟨fun hq' => absurd hq' hrx, fun _ => hfit⟩, fun hfit => (hfit hon).2 hq⟩
    rename_i htx
    have hnone : (s.dev.status &&& driverOk ≠ 0 →
        (queueIndex = queueControlRx → TurnsFit s.dev.pendingControl.length s) ∧
          (queueIndex = queueControlTx →
            TurnsFit s.processControlTxQueue.1.dev.pendingControl.length s.processControlTxQueue.1)) :=
      fun _ => ⟨fun hq => absurd hq hrx, fun hq => absurd hq htx⟩
    split
    · rw [(deliverAgentRx_handles split hregs).whole]
      exact ⟨fun _ => hnone, fun _ => h⟩
    split
    · rw [(processAgentTxQueue_handles hregs).whole]
      exact ⟨fun _ => hnone, fun _ => h⟩
    · exact ⟨fun _ => hnone, fun _ => h⟩
  | poll split =>
    show Whole (s.poll split).1.log ↔ _
    unfold ConsoleState.poll OpFits
    split
    · rename_i hoff
      exact ⟨fun _ hon => absurd hoff hon, fun _ => h⟩
    · rename_i hon
      have hregs₁ := processControlTxQueue_registers hregs
      have hregs₂ := (flushPendingControl_handles hregs₁).1.registers
      have hregs₃ := (deliverAgentRx_handles split hregs₂).registers
      dsimp only
      rw [(processAgentTxQueue_handles hregs₃).whole, (deliverAgentRx_handles split hregs₂).whole, hflush hcontrol]
      exact ⟨fun hfit _ => hfit, fun hfit => hfit hon⟩
  | drainInbound => exact ⟨fun _ => trivial, fun _ => h⟩
  | guest mem => exact ⟨fun _ => trivial, fun _ => h⟩

theorem run_concat (s : ConsoleState) (ops : List ConsoleOp) (op : ConsoleOp) :
    s.run (ops ++ [op]) = (s.run ops).step op := by
  simp [ConsoleState.run]

theorem run_serves (dev : VirtioConsole) (mem : GuestMemory) (ops : List ConsoleOp) :
    SameRegisters dev.queues (ConsoleState.run ⟨dev, mem, []⟩ ops) ∧
      ∀ u, .rxUsed u ∈ (ConsoleState.run ⟨dev, mem, []⟩ ops).log → u.Ok dev.queues := by
  induction ops using List.reverseRecOn with
  | nil => exact ⟨fun _ => rfl, fun u hu => by cases hu⟩
  | append_singleton ops op ih =>
    have hserves := step_serves op ih.1
    rw [run_concat]
    refine ⟨hserves.registers, ?_⟩
    intro u hu
    rcases hserves.served u hu with hu | hok
    · exact ih.2 u hu
    · exact hok

/-- **The used control buffers are the popped messages, each whole and once, in order**, exactly when each turn of the
flushes fits; and each used buffer holds what it is reported with. -/
theorem control_whole (dev : VirtioConsole) (mem : GuestMemory) (ops : List ConsoleOp) :
    ((∀ before, before <+: ops → Whole (ConsoleState.run ⟨dev, mem, []⟩ before).log) ↔
        ∀ before op, before ++ [op] <+: ops → OpFits (ConsoleState.run ⟨dev, mem, []⟩ before) op) ∧
      ∀ u, .rxUsed u ∈ (ConsoleState.run ⟨dev, mem, []⟩ ops).log → u.Ok dev.queues := by
  refine ⟨⟨?_, ?_⟩, (run_serves dev mem ops).2⟩
  · intro hwhole before op hbefore
    have hstep := step_whole op (run_serves dev mem before).1 (hwhole before ((List.prefix_append ..).trans hbefore))
    rw [← hstep, ← run_concat]
    exact hwhole _ hbefore
  · intro hfits before hbefore
    induction before using List.reverseRecOn with
    | nil => rfl
    | append_singleton before op ih =>
      have hwhole := ih ((List.prefix_append ..).trans hbefore)
      rw [run_concat, step_whole op (run_serves dev mem before).1 hwhole]
      exact hfits before op hbefore

/-! ## A buffer that is too short -/

/-- A descriptor of a receive buffer. -/
def rxDescriptor (addr len : Nat) : List UInt8 :=
  toLeBytes 8 addr ++ toLeBytes 4 len ++ toLeBytes 2 descFWrite ++ toLeBytes 2 0

/-- A buffer of four bytes, and one of sixty-four. -/
def twoBuffers : GuestMemory :=
  (((⟨fun _ => 0, fun _ _ => true, fun _ _ => true⟩ : GuestMemory).store 0x1000
    (rxDescriptor 0x4000 4 ++ rxDescriptor 0x5000 64)).store 0x2002 (toLeBytes 2 2)).store 0x2004
      (toLeBytes 2 0 ++ toLeBytes 2 1)

/-- PORT_OPEN waits for a control buffer. -/
def portOpenPending : VirtioConsole where
  queues _ := ⟨2, true, 0x1000, 0x2000, 0x3000, 0, false⟩
  pendingMsixQueueBits := 0
  status := driverOk
  interruptStatus := 0
  ports _ := ⟨true, false, true⟩
  pendingControl := [portOpenMessage]
  hostToGuest := []
  hostInbound := []
  agentConnectedConfirmed := false
  agentTxDropped := 0

/-- The first buffer is used with half of the message, and the second with the whole. -/
theorem message_cut_and_sent_again :
    deliveredControl (ConsoleState.run ⟨portOpenPending, twoBuffers, []⟩ [.notify 2 0, .notify 2 0]).log =
        [portOpenMessage, portOpenMessage.take 4] ∧
      poppedControl (ConsoleState.run ⟨portOpenPending, twoBuffers, []⟩ [.notify 2 0, .notify 2 0]).log =
        [portOpenMessage] ∧
      ¬Whole (ConsoleState.run ⟨portOpenPending, twoBuffers, []⟩ [.notify 2 0, .notify 2 0]).log := by
  have hdelivered : deliveredControl
    (ConsoleState.run ⟨portOpenPending, twoBuffers, []⟩ [.notify 2 0, .notify 2 0]).log =
      [portOpenMessage, portOpenMessage.take 4] := by decide +kernel
  have hpopped : poppedControl (ConsoleState.run ⟨portOpenPending, twoBuffers, []⟩ [.notify 2 0, .notify 2 0]).log =
      [portOpenMessage] := by decide +kernel
  refine ⟨hdelivered, hpopped, ?_⟩
  unfold Whole
  rw [hdelivered, hpopped]
  decide

end BridgeVm.Console
