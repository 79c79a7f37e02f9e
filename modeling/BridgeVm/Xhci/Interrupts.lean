import BridgeVm.Msix.Delivery
import BridgeVm.Xhci.EventOrder

/-!
# xHCI interrupts (`xhci/interrupts.rs`, `xhci/interrupts/raise.rs`)

An interrupter that has something pending and is enabled sends the message of its own vector, at once or at a drain
after the vector was masked. The controller caches which interrupters these are (`Cached`); a pending interrupt stays
pending until its message is sent or the guest acknowledges it (`pending_step`).
-/

namespace BridgeVm.Xhci

open Lib Msix

/-- `USB_CMD_INTE`. -/
def usbCmdInte : UInt32 := 4

/-- The controller and its MSI-X table. -/
structure Interrupting where
  xhci : XhciController
  msix : MsixTable

namespace XhciController

/-- `clear_interrupter_pending`, of the interrupter of a vector. -/
def clearVectorPending (c : XhciController) (vector : Nat) : XhciController :=
  if h : vector < interrupterCount then c.clearInterrupterPending ⟨vector, h⟩ else c

/-- IMAN.IP and IMAN.IE. -/
def pending (c : XhciController) (index : Fin interrupterCount) : Bool :=
  (getElem c.interrupters index index.isLt).iman.toBitVec.getLsbD 0

def enabled (c : XhciController) (index : Fin interrupterCount) : Bool :=
  (getElem c.interrupters index index.isLt).iman.toBitVec.getLsbD 1

/-- The cached bit of an interrupter. -/
def cachedBit (c : XhciController) (index : Fin interrupterCount) : Bool :=
  c.pendingEnabledInterrupterBits.toBitVec.getLsbD index

/-- The cache holds the interrupters that are pending and enabled. -/
def Cached (c : XhciController) : Prop := ∀ index, c.cachedBit index = (c.pending index && c.enabled index)

end XhciController

namespace Interrupting

def powerOn : Interrupting := ⟨.new, .new interrupterCount (by decide)⟩

/-- One vector of `raise_pending_interrupter_msix_into`. -/
def raiseVector (functionEnabled functionMasked : Bool) (p : Interrupting × List MsixMessage) (vector : Nat) :
    Interrupting × List MsixMessage :=
  match p.1.msix.raise vector functionEnabled functionMasked with
  | (msix, none) => (⟨p.1.xhci, msix⟩, p.2)
  | (msix, some message) => (⟨p.1.xhci.clearVectorPending vector, msix⟩, p.2 ++ [message])

/-- The bits of the cache, from the lowest. -/
def pendingVectors (c : XhciController) : List Nat :=
  (List.range 32).filter fun vector => c.pendingEnabledInterrupterBits.toBitVec.getLsbD vector

/-- `raise_pending_interrupter_msix_into`. -/
def raisePendingInterrupterMsixInto (s : Interrupting) (functionEnabled functionMasked : Bool)
    (out : List MsixMessage) : Interrupting × List MsixMessage :=
  if s.xhci.usbCommand &&& usbCmdInte == 0 then (s, out)
  else (pendingVectors s.xhci).foldl (raiseVector functionEnabled functionMasked) (s, out)

/-- `drain_pending_msix_into`: nothing while no interrupter is pending and enabled, whatever the table has pending. -/
def drainPendingMsixInto (s : Interrupting) (functionEnabled functionMasked : Bool) (out : List MsixMessage) :
    Interrupting × List MsixMessage :=
  if s.xhci.pendingEnabledInterrupterBits == 0 then (s, out)
  else
    let (msix, sent) := s.msix.drainPending functionEnabled functionMasked
    let xhci := sent.foldl (fun c message => c.clearVectorPending message.vector) s.xhci
    raisePendingInterrupterMsixInto ⟨xhci, msix⟩ functionEnabled functionMasked (out ++ sent)

/-- What may happen between an event and its interrupt. -/
inductive InterruptOp
  | post (mem : GuestMemory) (interrupter : Nat) (parameter : UInt64) (status control : UInt32)
  | iman (index : Fin interrupterCount) (value : UInt32)
  | erdpLow (index : Fin interrupterCount) (value : UInt32)
  | erdpHigh (index : Fin interrupterCount) (value : UInt32)
  | table (offset size value : Nat)
  | drain (functionEnabled functionMasked : Bool)
  | raise (functionEnabled functionMasked : Bool)

def step (s : Interrupting) : InterruptOp → Interrupting × List MsixMessage
  | .post mem interrupter parameter status control =>
    ({ s with xhci := (s.xhci.postEventToInterrupter mem interrupter parameter status control).1 }, [])
  | .iman index value => ({ s with xhci := s.xhci.writeIman index value }, [])
  | .erdpLow index value => ({ s with xhci := s.xhci.writeErdpLow index value }, [])
  | .erdpHigh index value => ({ s with xhci := s.xhci.writeErdpHigh index value }, [])
  | .table offset size value => ({ s with msix := s.msix.tableWrite offset size value }, [])
  | .drain functionEnabled functionMasked => s.drainPendingMsixInto functionEnabled functionMasked []
  | .raise functionEnabled functionMasked => s.raisePendingInterrupterMsixInto functionEnabled functionMasked []

def after (s : Interrupting) (ops : List InterruptOp) : Interrupting := ops.foldl (fun s op => (s.step op).1) s

/-- The states after power on: any register writes, and what else may happen. -/
inductive Reached : Interrupting → Prop
  | powerOn : Reached powerOn
  | mmioWrite {s : Interrupting} (hr : Reached s) (mem : GuestMemory) (offset size : Nat) (value : UInt64) :
      Reached { s with xhci := (s.xhci.mmioWriteWithMem mem offset size value).1 }
  | step {s : Interrupting} (hr : Reached s) (op : InterruptOp) : Reached (s.step op).1

end Interrupting

namespace Interrupting

/-- The guest acknowledges an interrupt: IMAN.IP written as one, or ERDP with its busy bit. -/
def InterruptOp.acknowledges (i : Fin interrupterCount) : InterruptOp → Bool
  | .iman index value => decide (index = i) && value &&& imanInterruptPending != 0
  | .erdpLow index value => decide (index = i) && value &&& erdpEhb != 0
  | _ => false

/-- The messages that a run sends. -/
def messages : Interrupting → List InterruptOp → List MsixMessage
  | _, [] => []
  | s, op :: ops => (s.step op).2 ++ messages (s.step op).1 ops

end Interrupting

/-! ## Bits -/

namespace XhciController

theorem interrupterBit (index : Fin interrupterCount) :
    ((1 : UInt32) <<< UInt32.ofNat index).toBitVec = 1#32 <<< index.val := by
  revert index
  decide

theorem getLsbD_setBit (x : UInt32) (index i : Fin interrupterCount) :
    (x ||| 1 <<< UInt32.ofNat index).toBitVec.getLsbD i = (x.toBitVec.getLsbD i || decide (i = index)) := by
  have hlt : index.val < 32 := Nat.lt_trans index.isLt (by decide)
  rw [UInt32.toBitVec_or, interrupterBit, getLsbD_or_shiftLeft_one _ hlt]
  simp [Fin.ext_iff]

theorem getLsbD_clearBit (x : UInt32) (index i : Fin interrupterCount) :
    (x &&& ~~~(1 <<< UInt32.ofNat index)).toBitVec.getLsbD i = (x.toBitVec.getLsbD i && !decide (i = index)) := by
  have hlt : index.val < 32 := Nat.lt_trans index.isLt (by decide)
  rw [UInt32.toBitVec_and, UInt32.toBitVec_not, interrupterBit, getLsbD_and_not_shiftLeft_one _ hlt]
  simp [Fin.ext_iff]

theorem pendingAndEnabled (x : UInt32) :
    (x &&& (imanInterruptPending ||| imanInterruptEnable) == (imanInterruptPending ||| imanInterruptEnable)) =
      (x.toBitVec.getLsbD 0 && x.toBitVec.getLsbD 1) := by
  have hmask : (imanInterruptPending ||| imanInterruptEnable).toNat = 2 ^ 2 - 1 := rfl
  have hlow : (x &&& (imanInterruptPending ||| imanInterruptEnable)).toNat = x.toNat % 4 := by
    rw [UInt32.toNat_and, hmask, Nat.and_two_pow_sub_one_eq_mod]
  have hbit : ∀ n, x.toBitVec.getLsbD n = x.toNat.testBit n := fun n => rfl
  have hzero : x.toNat.testBit 0 = decide (x.toNat % 2 = 1) := Nat.testBit_zero _
  have hone : x.toNat.testBit 1 = decide (x.toNat / 2 % 2 = 1) := by
    rw [Nat.testBit_succ, Nat.testBit_zero]
  rw [hbit, hbit, hzero, hone, Bool.eq_iff_iff, beq_iff_eq, ← UInt32.toNat_inj, hlow, hmask]
  simp only [Bool.and_eq_true, decide_eq_true_eq]
  omega

/-! ## The cache -/

variable {c c' : XhciController} {index i : Fin interrupterCount}

theorem cachedBit_refreshInterrupterPendingBits (c : XhciController) (index i : Fin interrupterCount) :
    (c.refreshInterrupterPendingBits index).cachedBit i =
      if i = index then c.pending index && c.enabled index else c.cachedBit i := by
  have htest := pendingAndEnabled c.interrupters[index].iman
  rw [show (c.interrupters[index].iman.toBitVec.getLsbD 0 && c.interrupters[index].iman.toBitVec.getLsbD 1) =
    (c.pending index && c.enabled index) from rfl] at htest
  simp only [cachedBit, refreshInterrupterPendingBits, htest]
  by_cases hboth : (c.pending index && c.enabled index) = true
  · rw [if_pos hboth, getLsbD_setBit]
    by_cases hi : i = index
    · simp [hi, hboth]
    · simp [hi]
  · rw [if_neg hboth, getLsbD_clearBit]
    by_cases hi : i = index
    · simp [hi, hboth]
    · simp [hi]

theorem cached_refreshInterrupterPendingBits (h : ∀ i, i ≠ index → c.cachedBit i = (c.pending i && c.enabled i)) :
    (c.refreshInterrupterPendingBits index).Cached := by
  intro i
  rw [cachedBit_refreshInterrupterPendingBits]
  split
  · rename_i heq
    rw [heq]
    rfl
  · rename_i hne
    exact h i hne

theorem Cached.of_eq (h : c.Cached) (hbits : c'.pendingEnabledInterrupterBits = c.pendingEnabledInterrupterBits)
    (him : ∀ i : Fin interrupterCount,
      (getElem c'.interrupters i i.isLt).iman = (getElem c.interrupters i i.isLt).iman) : c'.Cached := by
  intro i
  have hi := h i
  unfold cachedBit pending enabled at hi ⊢
  rw [hbits, him i]
  exact hi

theorem setInterrupter_iman {f : Interrupter → Interrupter} (hf : ∀ i, (f i).iman = i.iman)
    (i : Fin interrupterCount) :
    (getElem (c.setInterrupter index f).interrupters i i.isLt).iman = (getElem c.interrupters i i.isLt).iman := by
  rw [setInterrupter_get]
  split
  · rename_i heq
    rw [heq, hf]
  · rfl

theorem Cached.setInterrupter (h : c.Cached) {f : Interrupter → Interrupter} (hf : ∀ i, (f i).iman = i.iman) :
    (c.setInterrupter index f).Cached := h.of_eq rfl (setInterrupter_iman hf)

theorem Cached.refreshed (h : c.Cached) (f : Interrupter → Interrupter) :
    ((c.setInterrupter index f).refreshInterrupterPendingBits index).Cached := by
  refine cached_refreshInterrupterPendingBits fun i hne => ?_
  have hi := h i
  unfold cachedBit pending enabled at hi ⊢
  rw [setInterrupter_get, if_neg hne]
  exact hi

theorem Cached.setInterrupterPending (h : c.Cached) : (c.setInterrupterPending index).Cached := h.refreshed _

theorem Cached.clearInterrupterPending (h : c.Cached) : (c.clearInterrupterPending index).Cached := h.refreshed _

theorem Cached.writeIman (h : c.Cached) (value : UInt32) : (c.writeIman index value).Cached := h.refreshed _

theorem Cached.clearVectorPending (h : c.Cached) (vector : Nat) : (c.clearVectorPending vector).Cached := by
  unfold XhciController.clearVectorPending
  split
  · exact h.clearInterrupterPending
  · exact h

theorem Cached.storeErdp (h : c.Cached) (erdp : UInt64) : (c.storeErdp index erdp).Cached := by
  have hset : (c.setInterrupter index fun i => { i with erdp }).Cached := h.setInterrupter fun _ => rfl
  exact hset.of_eq rfl fun _ => rfl

theorem Cached.writeErdpLow (h : c.Cached) (value : UInt32) : (c.writeErdpLow index value).Cached := by
  unfold XhciController.writeErdpLow
  dsimp only
  split
  · have hbusy : (c.setInterrupter index fun i => { i with eventHandlerBusy := false }).Cached :=
      h.setInterrupter fun _ => rfl
    exact hbusy.clearInterrupterPending.storeErdp _
  · exact h.storeErdp _

theorem Cached.resetEventRing (h : c.Cached) : (c.resetEventRing index).Cached := by
  have hset : (c.setInterrupter index fun i =>
      { i with eventEnqueue := 0, eventHandlerBusy := false, eventCycle := true }).Cached :=
        h.setInterrupter fun _ => rfl
  exact hset.of_eq rfl fun _ => rfl

theorem cached_of_zero (hbits : c.pendingEnabledInterrupterBits = 0)
    (him : ∀ i : Fin interrupterCount, (getElem c.interrupters i i.isLt).iman = 0) : c.Cached := by
  intro i
  unfold cachedBit pending enabled
  rw [hbits, him i]
  simp

theorem cached_new : XhciController.new.Cached :=
  cached_of_zero rfl fun i => by simp [XhciController.new, Interrupter.new]

theorem cached_resetProgrammedState (c : XhciController) : c.resetProgrammedState.Cached :=
  cached_of_zero rfl fun i => by simp [resetProgrammedState, Interrupter.new]

theorem Cached.eventPosted (h : c.Cached) (trace : EventPostTrace) : (c.eventPosted trace).Cached := by
  have hset : (c.eventWritten trace.interrupter trace.segmentTrbs).Cached :=
    Cached.setInterrupterPending (h.setInterrupter fun _ => rfl)
  exact hset.of_eq rfl fun _ => rfl

theorem postEventToInterrupter_fst (c : XhciController) (mem : GuestMemory) (n : Nat) (parameter : UInt64)
    (status control : UInt32) :
    (c.postEventToInterrupter mem n parameter status control).1 = c ∧
        (c.postEventToInterrupter mem n parameter status control).2.2 = none ∨
      ∃ trace, (c.postEventToInterrupter mem n parameter status control).2.2 = some trace ∧
        (c.postEventToInterrupter mem n parameter status control).1 = c.eventPosted trace := by
  unfold postEventToInterrupter
  dsimp only
  split
  · exact Or.inl ⟨rfl, rfl⟩
  · split
    · exact Or.inl ⟨rfl, rfl⟩
    · split
      · exact Or.inl ⟨rfl, rfl⟩
      · split
        · exact Or.inl ⟨rfl, rfl⟩
        · split
          · exact Or.inl ⟨rfl, rfl⟩
          · exact Or.inr ⟨_, rfl, rfl⟩

theorem Cached.postEventToInterrupter (h : c.Cached) (mem : GuestMemory) (n : Nat) (parameter : UInt64)
    (status control : UInt32) : (c.postEventToInterrupter mem n parameter status control).1.Cached := by
  rcases postEventToInterrupter_fst c mem n parameter status control with ⟨heq, -⟩ | ⟨trace, -, heq⟩
  · rwa [heq]
  · rw [heq]
    exact h.eventPosted trace

theorem Cached.writeInterrupter (h : c.Cached) (reg : Nat) (value : UInt32) :
    (c.writeInterrupter index reg value).Cached := by
  unfold XhciController.writeInterrupter
  split
  · exact h.writeIman value
  · exact h.setInterrupter fun _ => rfl
  · exact Cached.resetEventRing (h.setInterrupter fun _ => rfl)
  · exact Cached.resetEventRing (h.setInterrupter fun _ => rfl)
  · exact Cached.resetEventRing (h.setInterrupter fun _ => rfl)
  · exact h.writeErdpLow value
  · exact h.storeErdp _
  · exact h

theorem Cached.writePort (h : c.Cached) (port : Fin portCount) (value : UInt32) :
    (c.writePort port value).1.Cached := by
  unfold XhciController.writePort
  dsimp only
  split
  · exact h.of_eq rfl fun _ => rfl
  · exact h.of_eq rfl fun _ => rfl

theorem Cached.writeUsbCommand (h : c.Cached) (value : UInt32) : (c.writeUsbCommand value).Cached := by
  unfold XhciController.writeUsbCommand
  dsimp only
  split
  · have hreset := cached_resetProgrammedState { c with ports := c.ports.map PortState.postHcrst }
    split
    · exact hreset.of_eq rfl fun _ => rfl
    · exact hreset.of_eq rfl fun _ => rfl
  · exact h.of_eq rfl fun _ => rfl

theorem Cached.writeDword (h : c.Cached) (offset : Nat) (value : UInt32) : (c.writeDword offset value).1.Cached := by
  unfold XhciController.writeDword
  split
  · split
    · exact h.writePort _ value
    · exact h
  · split
    · exact h.writeInterrupter _ value
    · split
      · exact h.writeUsbCommand value
      all_goals exact h.of_eq rfl fun _ => rfl

theorem Cached.writeRegisters (offset bytes : Nat) (value : UInt64) (rounds : Nat) :
    ∀ (consumed : Nat) {c : XhciController}, c.Cached →
      (XhciController.writeRegisters offset bytes value rounds consumed c).1.Cached := by
  induction rounds with
  | zero => exact fun _ _ h => h
  | succ rounds ih =>
    intro consumed c h
    unfold XhciController.writeRegisters
    split
    · exact h
    · exact ih _ (h.writeDword _ _)

theorem Cached.postPendingPortStatusChangeEvent (h : c.Cached) (mem : GuestMemory) :
    (c.postPendingPortStatusChangeEvent mem).1.Cached := by
  unfold XhciController.postPendingPortStatusChangeEvent
  split
  · exact h
  · have hposted := h.postEventToInterrupter mem 0 portStatusChangeEventPortId 0 EventKind.portStatusChange.control
    dsimp only
    split
    · exact hposted.of_eq rfl fun _ => rfl
    · exact hposted

theorem Cached.mmioWriteWithMem (h : c.Cached) (mem : GuestMemory) (offset size : Nat) (value : UInt64) :
    (c.mmioWriteWithMem mem offset size value).1.Cached := by
  have hwritten : (c.mmioWrite offset size value).1.Cached := by
    unfold XhciController.mmioWrite
    split
    · exact h
    · exact Cached.writeRegisters _ _ _ _ _ h
  unfold XhciController.mmioWriteWithMem
  dsimp only
  have hmarked : (if (c.mmioWrite offset size value).2 then
      { (c.mmioWrite offset size value).1 with portStatusChangePending := true }
    else (c.mmioWrite offset size value).1).Cached := by
    split
    · exact hwritten.of_eq rfl fun _ => rfl
    · exact hwritten
  split
  · exact hmarked.postPendingPortStatusChangeEvent mem
  · exact hmarked

/-! ## Pending interrupts -/

theorem pending_setInterrupter {f : Interrupter → Interrupter} (hf : ∀ i, (f i).iman = i.iman)
    (i : Fin interrupterCount) : (c.setInterrupter index f).pending i = c.pending i := by
  unfold pending
  rw [setInterrupter_iman hf]

theorem pending_refreshed (c : XhciController) (index i : Fin interrupterCount) (f : Interrupter → Interrupter) :
    ((c.setInterrupter index f).refreshInterrupterPendingBits index).pending i =
      if i = index then (f (getElem c.interrupters index index.isLt)).iman.toBitVec.getLsbD 0 else c.pending i := by
  have hget := @setInterrupter_get c index f i
  unfold pending refreshInterrupterPendingBits
  dsimp only
  rw [hget]
  split
  · rfl
  · rfl

theorem pending_setInterrupterPending (c : XhciController) (index i : Fin interrupterCount) :
    (c.setInterrupterPending index).pending i = (c.pending i || decide (i = index)) := by
  unfold setInterrupterPending
  rw [pending_refreshed]
  split
  · rename_i heq
    simp [heq, imanInterruptPending]
  · rename_i hne
    simp [hne]

theorem pending_clearInterrupterPending (c : XhciController) (index i : Fin interrupterCount) :
    (c.clearInterrupterPending index).pending i = (c.pending i && !decide (i = index)) := by
  unfold clearInterrupterPending
  rw [pending_refreshed]
  split
  · rename_i heq
    simp [heq, imanInterruptPending]
  · rename_i hne
    simp [hne]

theorem pending_clearVectorPending (c : XhciController) (vector : Nat) (i : Fin interrupterCount) :
    (c.clearVectorPending vector).pending i = (c.pending i && !decide (vector = i.val)) := by
  unfold clearVectorPending
  split
  · rename_i hlt
    rw [pending_clearInterrupterPending]
    simp [Fin.ext_iff, eq_comm]
  · rename_i hge
    have hne : vector ≠ i.val := fun h => hge (h ▸ i.isLt)
    simp [hne]

theorem enabled_clearVectorPending (c : XhciController) (vector : Nat) (i : Fin interrupterCount) :
    (c.clearVectorPending vector).enabled i = c.enabled i := by
  unfold clearVectorPending
  split
  · rename_i hlt
    have hget := @setInterrupter_get c ⟨vector, hlt⟩
      (fun i => { i with iman := i.iman &&& ~~~imanInterruptPending }) i
    unfold enabled clearInterrupterPending refreshInterrupterPendingBits
    dsimp only
    rw [hget]
    split
    · rename_i heq
      simp [heq, imanInterruptPending]
    · rfl
  · rfl

theorem usbCommand_clearVectorPending (c : XhciController) (vector : Nat) :
    (c.clearVectorPending vector).usbCommand = c.usbCommand := by
  unfold clearVectorPending
  split
  · rfl
  · rfl

theorem pending_writeIman (c : XhciController) (value : UInt32) (hp : c.pending i = true)
    (hack : ¬(i = index ∧ value &&& imanInterruptPending ≠ 0)) : (c.writeIman index value).pending i = true := by
  unfold writeIman
  dsimp only
  rw [pending_refreshed]
  split
  · rename_i heq
    have hvalue : value &&& imanInterruptPending = 0 := by
      by_contra h
      exact hack ⟨heq, h⟩
    have hold : c.interrupters[index].iman.toBitVec.getLsbD 0 = true := heq ▸ hp
    rw [hvalue, if_neg (by decide), UInt32.toBitVec_or, BitVec.getLsbD_or, UInt32.toBitVec_and,
      BitVec.getLsbD_and, hold]
    simp [imanInterruptPending]
  · exact hp

end XhciController

namespace Interrupting

open XhciController Recorded

variable {s : Interrupting} {i : Fin interrupterCount}

/-! ## Raises -/

/-- One vector of a raise: its message is sent and IMAN.IP cleared, or the controller is as before. Table entries
stay. -/
theorem raiseVector_cases (functionEnabled functionMasked : Bool) (p : Interrupting × List MsixMessage)
    (vector : Nat) :
    (raiseVector functionEnabled functionMasked p vector).1.msix.entries = p.1.msix.entries ∧
      (((raiseVector functionEnabled functionMasked p vector).1.xhci = p.1.xhci ∧
        (raiseVector functionEnabled functionMasked p vector).2 = p.2) ∨
      ∃ m, m.vector = vector ∧ functionEnabled = true ∧ functionMasked = false ∧
        deliverable p.1.msix vector = true ∧
        (raiseVector functionEnabled functionMasked p vector).1.xhci = p.1.xhci.clearVectorPending vector ∧
        (raiseVector functionEnabled functionMasked p vector).2 = p.2 ++ [m]) := by
  unfold raiseVector
  cases functionEnabled with
  | false => simp [MsixTable.raise]
  | true =>
    rcases raise_cases p.1.msix vector functionMasked with ⟨-, heq⟩ | ⟨-, heq⟩ | ⟨-, rfl, hmask, m, hm, heq⟩
    · rw [heq]
      exact ⟨rfl, Or.inl ⟨rfl, rfl⟩⟩
    · rw [heq]
      exact ⟨rfl, Or.inl ⟨rfl, rfl⟩⟩
    · rw [heq]
      refine ⟨rfl, Or.inr ⟨m, (MsixTable.message_vector hm).1, rfl, rfl, ?_, rfl, rfl⟩⟩
      simp [deliverable, hmask, hm]

theorem deliverable_of_entries {t t' : MsixTable} (h : t'.entries = t.entries) (v : Nat) :
    deliverable t' v = deliverable t v := by
  unfold deliverable MsixTable.vectorMasked MsixTable.message
  rw [h]

theorem raiseVector_sent (p : Interrupting × List MsixMessage) {vector : Nat}
    (h : deliverable p.1.msix vector = true) :
    ∃ m ∈ (raiseVector true false p vector).2, m.vector = vector := by
  simp only [deliverable, Bool.and_eq_true, Bool.not_eq_true'] at h
  obtain ⟨hmask, hsome⟩ := h
  obtain ⟨m, hm⟩ := Option.isSome_iff_exists.mp hsome
  obtain ⟨hvector, hlt⟩ := MsixTable.message_vector hm
  have hin : ¬p.1.msix.entries.length ≤ vector := by
    rw [← MsixTable.vectorCount_eq]
    omega
  refine ⟨m, ?_, hvector⟩
  simp [raiseVector, MsixTable.raise, hin, hmask, hm]

/-- A raise over a list of vectors sends each deliverable one. -/
theorem raiseVectors_sent {vector : Nat} (vectors : List Nat) :
    ∀ p : Interrupting × List MsixMessage, deliverable p.1.msix vector = true →
      (vector ∈ vectors ∨ ∃ m ∈ p.2, m.vector = vector) →
      ∃ m ∈ (vectors.foldl (raiseVector true false) p).2, m.vector = vector := by
  induction vectors with
  | nil =>
    rintro p - (h | h)
    · exact absurd h List.not_mem_nil
    · exact h
  | cons v vectors ih =>
    intro p hdel h
    obtain ⟨hentries, hcases⟩ := raiseVector_cases true false p v
    refine ih _ ((deliverable_of_entries hentries vector).trans hdel) ?_
    have hkeep : (∃ m ∈ p.2, m.vector = vector) → ∃ m ∈ (raiseVector true false p v).2,
      m.vector = vector := by
      rintro ⟨m, hm, hv⟩
      rcases hcases with ⟨-, hout⟩ | ⟨_, -, -, -, -, -, hout⟩
      · exact ⟨m, hout ▸ hm, hv⟩
      · exact ⟨m, hout ▸ List.mem_append_left _ hm, hv⟩
    rcases h with h | h
    · rcases List.mem_cons.mp h with rfl | h
      · exact Or.inr (raiseVector_sent p hdel)
      · exact Or.inl h
    · exact Or.inr (hkeep h)

/-! ## What a drain and a raise keep -/

/-- The state and the messages of a raise or a drain so far: the controller's cache is right, the vector is pending or
sent, and what was sent was deliverable. -/
structure Sending (s : Interrupting) (functionEnabled functionMasked : Bool)
    (p : Interrupting × List MsixMessage) : Prop where
  cached : s.xhci.Cached → p.1.xhci.Cached
  entries : p.1.msix.entries = s.msix.entries
  usbCommand : p.1.xhci.usbCommand = s.xhci.usbCommand
  enabled : ∀ i, p.1.xhci.enabled i = s.xhci.enabled i
  kept : ∀ i, s.xhci.pending i = true → p.1.xhci.pending i = true ∨ ∃ m ∈ p.2, m.vector = i.val
  sent : ∀ m ∈ p.2, functionEnabled = true ∧ functionMasked = false ∧ deliverable s.msix m.vector = true

variable {functionEnabled functionMasked : Bool} {p : Interrupting × List MsixMessage}

theorem Sending.start (s : Interrupting) : Sending s functionEnabled functionMasked (s, []) where
  cached := fun h => h
  entries := rfl
  usbCommand := rfl
  enabled := fun _ => rfl
  kept := fun _ h => Or.inl h
  sent := fun _ h => absurd h List.not_mem_nil

/-- A message more, and IMAN.IP of its vector cleared. -/
theorem Sending.clear (h : Sending s functionEnabled functionMasked p) {m : MsixMessage}
    {q : Interrupting × List MsixMessage}
    (hxhci : q.1.xhci = p.1.xhci.clearVectorPending m.vector) (hentries : q.1.msix.entries = p.1.msix.entries)
    (hmem : ∀ m', m' ∈ q.2 ↔ m' ∈ p.2 ∨ m' = m)
    (hsent : functionEnabled = true ∧ functionMasked = false ∧ deliverable s.msix m.vector = true) :
    Sending s functionEnabled functionMasked q where
  cached := fun hc => hxhci ▸ (h.cached hc).clearVectorPending m.vector
  entries := hentries.trans h.entries
  usbCommand := by rw [hxhci, usbCommand_clearVectorPending, h.usbCommand]
  enabled := fun i => by rw [hxhci, enabled_clearVectorPending, h.enabled]
  kept := fun i hp => by
    rcases h.kept i hp with hp | ⟨m', hm', hv⟩
    · by_cases hv : m.vector = i.val
      · exact Or.inr ⟨m, (hmem m).mpr (Or.inr rfl), hv⟩
      · refine Or.inl ?_
        rw [hxhci, pending_clearVectorPending, hp]
        simp [hv]
    · exact Or.inr ⟨m', (hmem m').mpr (Or.inl hm'), hv⟩
  sent := fun m' hm' => by
    rcases (hmem m').mp hm' with hm' | rfl
    · exact h.sent m' hm'
    · exact hsent

theorem Sending.raiseVector (h : Sending s functionEnabled functionMasked p) (vector : Nat) :
    Sending s functionEnabled functionMasked (raiseVector functionEnabled functionMasked p vector) := by
  obtain ⟨hentries, ⟨hxhci, hout⟩ | ⟨m, rfl, hen, hmask, hdel, hxhci, hout⟩⟩ :=
    raiseVector_cases functionEnabled functionMasked p vector
  · refine ⟨fun hc => ?_, hentries.trans h.entries, ?_, fun i => ?_, fun i hp => ?_, fun m hm => ?_⟩
    · rw [hxhci]
      exact h.cached hc
    · rw [hxhci, h.usbCommand]
    · rw [hxhci, h.enabled]
    · rw [hxhci, hout]
      exact h.kept i hp
    · exact h.sent m (hout ▸ hm)
  · refine h.clear hxhci hentries (fun m' => ?_) ⟨hen, hmask, (deliverable_of_entries h.entries _).symm.trans hdel⟩
    rw [hout]
    simp

theorem Sending.raiseVectors (vectors : List Nat) :
    ∀ {p : Interrupting × List MsixMessage}, Sending s functionEnabled functionMasked p →
      Sending s functionEnabled functionMasked
        (vectors.foldl (Interrupting.raiseVector functionEnabled functionMasked) p) := by
  induction vectors with
  | nil => exact fun h => h
  | cons v vectors ih => exact fun h => ih (h.raiseVector v)

theorem Sending.raise (h : Sending s functionEnabled functionMasked p) : Sending s functionEnabled functionMasked
    (raisePendingInterrupterMsixInto p.1 functionEnabled functionMasked p.2) := by
  unfold raisePendingInterrupterMsixInto
  split
  · exact h
  · exact Sending.raiseVectors _ h

/-- The table's drain: entries stay, and what is sent was deliverable. -/
theorem drainPending_sent (t : MsixTable) (functionEnabled functionMasked : Bool) :
    (t.drainPending functionEnabled functionMasked).1.entries = t.entries ∧
      ∀ m ∈ (t.drainPending functionEnabled functionMasked).2,
        functionEnabled = true ∧ functionMasked = false ∧ deliverable t m.vector = true := by
  by_cases hoff : (!functionEnabled || functionMasked) = true
  · unfold MsixTable.drainPending MsixTable.drainPendingInto
    rw [if_pos hoff]
    exact ⟨rfl, fun m hm => absurd hm List.not_mem_nil⟩
  · have hon : functionEnabled = true ∧ functionMasked = false := by simpa using hoff
    refine drainPending_induct
      (P := fun p => p.1.entries = t.entries ∧ ∀ m ∈ p.2,
        functionEnabled = true ∧ functionMasked = false ∧ deliverable t m.vector = true)
      (fun p v hp => ?_) ⟨rfl, fun m hm => absurd hm List.not_mem_nil⟩ functionEnabled functionMasked
    unfold MsixTable.drainVector
    split
    · exact hp
    · rename_i hmask
      split
      · exact hp
      · rename_i m hm
        refine ⟨hp.1, fun m' hm' => ?_⟩
        rcases List.mem_append.mp hm' with hm' | hm'
        · exact hp.2 m' hm'
        · obtain rfl := List.mem_singleton.mp hm'
          refine ⟨hon.1, hon.2, ?_⟩
          rw [(MsixTable.message_vector hm).1, ← deliverable_of_entries hp.1 v]
          simp [deliverable, hmask, hm]

theorem Sending.clears (msix : MsixTable) (sent : List MsixMessage) :
    ∀ {p : Interrupting × List MsixMessage}, Sending s functionEnabled functionMasked p →
      (∀ m ∈ sent, functionEnabled = true ∧ functionMasked = false ∧ deliverable s.msix m.vector = true) →
      msix.entries = p.1.msix.entries →
      Sending s functionEnabled functionMasked
        (⟨sent.foldl (fun c message => c.clearVectorPending message.vector) p.1.xhci, msix⟩, p.2 ++ sent) := by
  induction sent with
  | nil =>
    intro p h _ hentries
    rw [List.append_nil]
    exact ⟨h.cached, hentries.trans h.entries, h.usbCommand, h.enabled, h.kept, h.sent⟩
  | cons m sent ih =>
    intro p h hsent hentries
    have hfirst : Sending s functionEnabled functionMasked
        (⟨p.1.xhci.clearVectorPending m.vector, p.1.msix⟩, p.2 ++ [m]) :=
      h.clear rfl rfl (fun m' => by simp) (hsent m (List.mem_cons_self ..))
    have hrest := ih hfirst (fun m' hm' => hsent m' (List.mem_cons_of_mem _ hm')) hentries
    rw [List.append_assoc] at hrest
    exact hrest

theorem drain_sending (s : Interrupting) (functionEnabled functionMasked : Bool) :
    Sending s functionEnabled functionMasked
    (s.drainPendingMsixInto functionEnabled functionMasked []) := by
  unfold drainPendingMsixInto
  split
  · exact Sending.start s
  · obtain ⟨hentries, hsent⟩ := drainPending_sent s.msix functionEnabled functionMasked
    exact ((Sending.start s).clears _ _ hsent hentries).raise

theorem raise_sending (s : Interrupting) (functionEnabled functionMasked : Bool) :
    Sending s functionEnabled functionMasked
    (s.raisePendingInterrupterMsixInto functionEnabled functionMasked []) := (Sending.start s).raise

/-! ## Runs -/

theorem cached_step (h : s.xhci.Cached) (op : InterruptOp) : (s.step op).1.xhci.Cached := by
  cases op with
  | post mem interrupter parameter status control =>
    exact h.postEventToInterrupter mem interrupter parameter status control
  | iman index value => exact h.writeIman value
  | erdpLow index value => exact h.writeErdpLow value
  | erdpHigh index value => exact h.storeErdp _
  | table offset size value => exact h
  | drain functionEnabled functionMasked => exact (drain_sending s functionEnabled functionMasked).cached h
  | raise functionEnabled functionMasked => exact (raise_sending s functionEnabled functionMasked).cached h

theorem reached_cached (h : Reached s) : s.xhci.Cached := by
  induction h with
  | powerOn => exact cached_new
  | mmioWrite hr mem offset size value ih => exact ih.mmioWriteWithMem mem offset size value
  | step hr op ih => exact cached_step ih op

theorem cached_after (h : s.xhci.Cached) (ops : List InterruptOp) : (s.after ops).xhci.Cached := by
  induction ops generalizing s with
  | nil => exact h
  | cons op ops ih => exact ih (cached_step h op)

theorem pending_storeErdp (c : XhciController) (index i : Fin interrupterCount) (erdp : UInt64) :
    (c.storeErdp index erdp).pending i = c.pending i :=
  pending_setInterrupter (f := fun i => { i with erdp }) (fun _ => rfl) i

theorem pending_eventPosted (c : XhciController) (trace : EventPostTrace) (i : Fin interrupterCount) :
    (c.eventPosted trace).pending i = (c.pending i || decide (i = trace.interrupter)) := by
  have hwritten : ∀ f : Interrupter → Interrupter, (∀ i, (f i).iman = i.iman) →
      ((c.setInterrupter trace.interrupter f).setInterrupterPending trace.interrupter).pending i =
        (c.pending i || decide (i = trace.interrupter)) := fun f hf => by
    rw [pending_setInterrupterPending, pending_setInterrupter hf]
  exact hwritten _ fun _ => rfl

/-- A pending interrupt stays pending until it is acknowledged or its message is sent. -/
theorem pending_step (hp : s.xhci.pending i = true) {op : InterruptOp} (hack : op.acknowledges i = false) :
    (s.step op).1.xhci.pending i = true ∨ ∃ m ∈ (s.step op).2, m.vector = i.val := by
  cases op with
  | post mem interrupter parameter status control =>
    refine Or.inl ?_
    simp only [step]
    rcases postEventToInterrupter_fst s.xhci mem interrupter parameter status control with ⟨heq, -⟩ |
      ⟨trace, -, heq⟩
    · rwa [heq]
    · rw [heq, pending_eventPosted, hp, Bool.true_or]
  | iman index value =>
    refine Or.inl (pending_writeIman s.xhci value hp ?_)
    rintro ⟨rfl, hvalue⟩
    simp [InterruptOp.acknowledges, hvalue] at hack
  | erdpLow index value =>
    refine Or.inl ?_
    simp only [step, writeErdpLow]
    rw [pending_storeErdp]
    split
    · rename_i hehb
      have hne : i ≠ index := by
        rintro rfl
        simp [InterruptOp.acknowledges, hehb] at hack
      have hidle : ∀ f : Interrupter → Interrupter, (∀ i, (f i).iman = i.iman) →
          ((s.xhci.setInterrupter index f).clearInterrupterPending index).pending i = true := fun f hf => by
        rw [pending_clearInterrupterPending, pending_setInterrupter hf, hp]
        simp [hne]
      exact hidle _ fun _ => rfl
    · exact hp
  | erdpHigh index value =>
    refine Or.inl ?_
    simp only [step, writeErdpHigh]
    rw [pending_storeErdp, hp]
  | table offset size value => exact Or.inl hp
  | drain functionEnabled functionMasked => exact (drain_sending s functionEnabled functionMasked).kept i hp
  | raise functionEnabled functionMasked => exact (raise_sending s functionEnabled functionMasked).kept i hp

theorem pending_or_sent (ops : List InterruptOp) (hack : ∀ op ∈ ops, op.acknowledges i = false) :
    ∀ {s : Interrupting}, s.xhci.pending i = true →
      (s.after ops).xhci.pending i = true ∨ ∃ m ∈ s.messages ops, m.vector = i.val := by
  induction ops with
  | nil => exact Or.inl
  | cons op ops ih =>
    intro s hp
    rcases pending_step hp (hack op (List.mem_cons_self ..)) with hp | ⟨m, hm, hv⟩
    · refine (ih (fun op' hop => hack op' (List.mem_cons_of_mem _ hop)) hp).imp_right ?_
      rintro ⟨m, hm, hv⟩
      exact ⟨m, List.mem_append_right _ hm, hv⟩
    · exact Or.inr ⟨m, List.mem_append_left _ hm, hv⟩

theorem messages_append (s : Interrupting) (ops more : List InterruptOp) :
    s.messages (ops ++ more) = s.messages ops ++ (s.after ops).messages more := by
  induction ops generalizing s with
  | nil => rfl
  | cons op ops ih => exact (congrArg _ (ih _)).trans (List.append_assoc ..).symm

theorem raise_sends {p : Interrupting × List MsixMessage} (hcached : p.1.xhci.Cached)
    (hinte : p.1.xhci.usbCommand &&& usbCmdInte ≠ 0) (hie : p.1.xhci.enabled i = true)
    (hdeliverable : deliverable p.1.msix i = true)
    (h : p.1.xhci.pending i = true ∨ ∃ m ∈ p.2, m.vector = i.val) :
    ∃ m ∈ (raisePendingInterrupterMsixInto p.1 true false p.2).2, m.vector = i.val := by
  unfold raisePendingInterrupterMsixInto
  rw [if_neg (by simpa using hinte)]
  refine raiseVectors_sent _ p hdeliverable ?_
  rcases h with hp | hsent
  · refine Or.inl (List.mem_filter.mpr ⟨List.mem_range.mpr (Nat.lt_trans i.isLt (by decide)), ?_⟩)
    have hbit := hcached i
    rw [hp, hie] at hbit
    exact hbit
  · exact Or.inr hsent

theorem drain_sends (hcached : s.xhci.Cached) (hp : s.xhci.pending i = true)
    (hinte : s.xhci.usbCommand &&& usbCmdInte ≠ 0) (hie : s.xhci.enabled i = true)
    (hdeliverable : deliverable s.msix i = true) :
    ∃ m ∈ (s.drainPendingMsixInto true false []).2, m.vector = i.val := by
  have hsome : ¬(s.xhci.pendingEnabledInterrupterBits == 0) = true := by
    intro hzero
    have hbit := hcached i
    rw [cachedBit, beq_iff_eq.mp hzero, hp, hie] at hbit
    simp at hbit
  unfold drainPendingMsixInto
  rw [if_neg hsome]
  obtain ⟨hentries, hsent⟩ := drainPending_sent s.msix true false
  have hcleared := (Sending.start s).clears _ _ hsent hentries
  have hraise := raise_sends (hcleared.cached hcached) (by rw [hcleared.usbCommand]; exact hinte)
    (by rw [hcleared.enabled]; exact hie) (by rw [deliverable_of_entries hcleared.entries]; exact hdeliverable)
    (hcleared.kept i hp)
  exact hraise

/-- **An event that was posted interrupts.** After any run from power on, when an event was posted and its interrupt was
not acknowledged since, its message has been sent once a drain finds the function and the vector unmasked and interrupts
enabled. -/
theorem posted_event_interrupts (s : Interrupting) (hr : Reached s) (mem : GuestMemory) (interrupter : Nat)
    (parameter : UInt64) (status control : UInt32) (trace : EventPostTrace)
    (hpost : (s.xhci.postEventToInterrupter mem interrupter parameter status control).2.2 = some trace)
    (ops : List InterruptOp) (last : Interrupting)
    (hlast : last = (s.step (.post mem interrupter parameter status control)).1.after ops)
    (hack : ∀ op ∈ ops, op.acknowledges trace.interrupter = false)
    (hinte : last.xhci.usbCommand &&& usbCmdInte ≠ 0) (hie : last.xhci.enabled trace.interrupter = true)
    (hdeliverable : deliverable last.msix trace.interrupter = true) :
    ∃ m ∈ (s.step (.post mem interrupter parameter status control)).1.messages (ops ++ [.drain true false]),
      m.vector = trace.interrupter.val := by
  have hcached := cached_after (cached_step (reached_cached hr) (.post mem interrupter parameter status control)) ops
  have hposted : (s.step (.post mem interrupter parameter status control)).1.xhci.pending trace.interrupter = true := by
    simp only [step]
    rcases postEventToInterrupter_fst s.xhci mem interrupter parameter status control with ⟨-, hnone⟩ |
      ⟨t, ht, heq⟩
    · rw [hpost] at hnone
      cases hnone
    · obtain rfl := Option.some.inj (hpost.symm.trans ht)
      rw [heq, pending_eventPosted]
      simp
  rw [messages_append, ← hlast]
  rw [← hlast] at hcached
  rcases pending_or_sent ops hack hposted with hp | ⟨m, hm, hv⟩
  · rw [← hlast] at hp
    obtain ⟨m, hm, hv⟩ := drain_sends hcached hp hinte hie hdeliverable
    exact ⟨m, List.mem_append_right _ (List.mem_append_left _ hm), hv⟩
  · exact ⟨m, List.mem_append_left _ hm, hv⟩

/-! ## Two events while the vector is masked -/

/-- A register write. -/
def written (s : Interrupting) (mem : GuestMemory) (offset size : Nat) (value : UInt64) : Interrupting :=
  { s with xhci := (s.xhci.mmioWriteWithMem mem offset size value).1 }

/-- Ring 0 is programmed, and its interrupts are enabled. -/
def ringProgrammed : Interrupting :=
  ((((powerOn.written Machine.segmentTable 0x1028 4 1).written Machine.segmentTable 0x1038 8 0x3000).written
    Machine.segmentTable 0x1030 8 0x2000).written Machine.segmentTable 0x1020 4 2).written Machine.segmentTable 0x40 4 5

/-- Vector 0 has an address and is masked. -/
def ringReady : Interrupting := ringProgrammed.after [.table 0 8 0xfee00000, .table 8 4 35]

/-- One event posted to ring 0. -/
def eventToRing : InterruptOp := .post Machine.segmentTable 0 0 0 EventKind.portStatusChange.control

/-- The event at a TRB of ring 0. -/
def eventAt (enqueue : Nat) : EventPostTrace where
  segmentBase := 0x3000
  segmentTrbs := 16
  enqueue
  cycle := true
  interrupter := XhciController.eventTarget 0
  parameter := 0
  status := 0
  control := portStatusChangeControl ||| 1
  eventGpa := 0x3000 + enqueue * trbSizeBytes

theorem Reached.written (h : Reached s) (mem : GuestMemory) (offset size : Nat) (value : UInt64) :
    Reached (s.written mem offset size value) := h.mmioWrite mem offset size value

theorem reached_ringProgrammed : Reached ringProgrammed :=
  (((((Reached.powerOn.written _ _ _ _).written _ _ _ _).written _ _ _ _).written _ _ _ _).written _ _ _ _)

theorem reached_ringReady : Reached ringReady := (reached_ringProgrammed.step _).step _

/-- Masked at the first drain; then unmasked, but disabled in IMAN at the second, and enabled at the third. -/
theorem masked_event_interrupts :
    ∃ m ∈ (ringReady.step eventToRing).1.messages
        ([.drain true false, .table 12 4 0, .iman 0 0, .drain true false, .iman 0 2] ++ [.drain true false]),
      m.vector = 0 :=
  posted_event_interrupts ringReady reached_ringReady Machine.segmentTable 0 0 0 EventKind.portStatusChange.control
    (eventAt 0) (by decide +kernel) _ _ rfl (by decide +kernel) (by decide +kernel) (by decide +kernel)
      (by decide +kernel)

/-- Every event that the ERDP still stands at has its message sent once a drain finds the function and the vector
unmasked, when only what is allowed happens between. -/
def EventsInterrupt (allowed : InterruptOp → Bool) : Prop :=
  ∀ s, Reached s → ∀ mem interrupter parameter status control trace,
    (s.xhci.postEventToInterrupter mem interrupter parameter status control).2.2 = some trace →
    ∀ ops last, last = (s.step (.post mem interrupter parameter status control)).1.after ops →
    (∀ op ∈ ops, allowed op = true) → last.xhci.interrupters[trace.interrupter].erdp.toNat = trace.eventGpa →
    last.xhci.usbCommand &&& usbCmdInte ≠ 0 → last.xhci.enabled trace.interrupter = true →
    last.msix.vectorMasked trace.interrupter = false →
    ∃ m ∈ (s.step (.post mem interrupter parameter status control)).1.messages (ops ++ [.drain true false]),
      m.vector = trace.interrupter.val

def InterruptOp.isIman : InterruptOp → Bool
  | .iman .. => true
  | _ => false

/-- ERDP written with its busy bit. -/
def InterruptOp.isBusyAck : InterruptOp → Bool
  | .erdpLow _ value => value &&& erdpEhb != 0
  | _ => false

/-- The guest acknowledges the first of two events while the vector is masked, with ERDP or with IMAN, and the ERDP
stands at the second: no message is sent for it once the vector is unmasked; nor while the vector has no address. -/
theorem acknowledged_older_event :
    ¬EventsInterrupt (fun op => !op.isIman) ∧ ¬EventsInterrupt (fun op => !op.isBusyAck) ∧
      ¬EventsInterrupt (fun op => !op.isIman && !op.isBusyAck) := by
  refine ⟨fun h => ?_, fun h => ?_, fun h => ?_⟩
  · have hsent := h (ringReady.step eventToRing).1 (reached_ringReady.step _) Machine.segmentTable 0 0 0
      EventKind.portStatusChange.control (eventAt 1) (by decide +kernel)
      [.drain true false, .erdpLow 0 (0x3010 ||| erdpEhb), .table 12 4 0] _ rfl (by decide +kernel)
      (by decide +kernel) (by decide +kernel) (by decide +kernel) (by decide +kernel)
    revert hsent
    decide +kernel
  · have hsent := h (ringReady.step eventToRing).1 (reached_ringReady.step _) Machine.segmentTable 0 0 0
      EventKind.portStatusChange.control (eventAt 1) (by decide +kernel)
      [.drain true false, .erdpLow 0 0x3010, .iman 0 3, .table 12 4 0] _ rfl (by decide +kernel)
      (by decide +kernel) (by decide +kernel) (by decide +kernel) (by decide +kernel)
    revert hsent
    decide +kernel
  · have hsent := h ringProgrammed reached_ringProgrammed Machine.segmentTable 0 0 0
      EventKind.portStatusChange.control (eventAt 0) (by decide +kernel) [.table 12 4 0] _ rfl (by decide +kernel)
      (by decide +kernel) (by decide +kernel) (by decide +kernel) (by decide +kernel)
    revert hsent
    decide +kernel

end Interrupting

end BridgeVm.Xhci
