import BridgeVm.Xhci.DeviceContext
import BridgeVm.Xhci.Ep0Doorbells

/-!
# The command ring (`commands.rs`)

A doorbell follows Link TRBs to the next command, executes it and posts its completion; the consumer is then behind it.
The command that follows waits for a doorbell of its own (`second_command_waits`), so that a run of doorbells executes
the commands in ring order, one each (`one_command_a_doorbell`).
-/

namespace BridgeVm.Xhci

open Lib

/-- `DOORBELL0`. -/
def doorbell0 : Nat := 0x2000

/-- `MAX_LINK_TRBS_PER_DOORBELL`. -/
def maxLinkTrbsPerDoorbell : Nat := 8

/-- `is_command_doorbell`. -/
def isCommandDoorbell (offset size : Nat) : Bool := offset == doorbell0 && size == 4

/-! ## Commands -/

inductive Command
  | enableSlot
  | disableSlot
  | addressDevice
  | configureEndpoint
  | evaluateContext
  | stopEndpoint
  | setTrDequeuePointer
  | resetDevice
  | noOp
deriving DecidableEq

/-- `TRB_TYPE_ENABLE_SLOT` and the other types of commands; a ring stops at any other. -/
def Command.ofTrbType (trbType : UInt32) : Option Command :=
  match trbType.toNat with
  | 9 => some .enableSlot
  | 10 => some .disableSlot
  | 11 => some .addressDevice
  | 12 => some .configureEndpoint
  | 13 => some .evaluateContext
  | 15 => some .stopEndpoint
  | 16 => some .setTrDequeuePointer
  | 17 => some .resetDevice
  | 23 => some .noOp
  | _ => none

/-- `command_slot_id`. -/
def commandSlotId (trb : TransferTrb) : UInt32 := (trb.control >>> 24) &&& 0xff

/-- `command_endpoint_id`. -/
def commandEndpointId (trb : TransferTrb) : UInt32 := (trb.control >>> 16) &&& 0x1f

namespace Command

/-- The slot in the completion of a command. -/
def completionSlot (command : Command) (trb : TransferTrb) : UInt32 :=
  match command with
  | .enableSlot => slot1
  | .noOp => 0
  | _ => commandSlotId trb

/-- What a command does before its completion is posted. -/
def before (command : Command) (s : Slot1) (dcbaap : UInt64) (mem : GuestMemory) (trb : TransferTrb) :
    Slot1 × GuestMemory :=
  match command with
  | .setTrDequeuePointer =>
    if commandSlotId trb ≠ slot1 then (s, mem)
    else if commandEndpointId trb = 1 then
      let s := { s with ep0Dequeue := (trb.parameter &&& ~~~0xf).toNat, ep0Dcs := trb.parameter &&& 1 != 0 }
      (s, s.writeEp0OutputDequeue dcbaap mem)
    else if commandEndpointId trb = 3 then
      { s with dci3 := s.dci3.capture trb.parameter }.writeDci3OutputDequeue dcbaap mem
    else if commandEndpointId trb = 5 then
      let s := { s with dci5 := .capture trb.parameter }
      (s, s.writeDci5OutputDequeue dcbaap mem)
    else (s, mem)
  | .addressDevice =>
    s.captureAddressDevice dcbaap mem trb.parameter (commandSlotId trb) (trb.control &&& 0x200 != 0)
  | .configureEndpoint => s.captureConfigureEndpoint dcbaap mem trb.parameter (commandSlotId trb)
  | _ => (s, mem)

/-- What it does once its completion is posted. -/
def after (command : Command) (s : Slot1) (dcbaap : UInt64) (mem : GuestMemory) (trb : TransferTrb) :
    Slot1 × GuestMemory :=
  if command = .stopEndpoint then
    if commandSlotId trb = slot1 ∧ commandEndpointId trb = endpointIdEp0 then (s, s.writeEp0OutputStopped dcbaap mem)
    else (s, mem)
  else if commandSlotId trb ≠ slot1 then (s, mem)
  else
    match command with
    | .disableSlot => { s with usbConfiguration := 0 }.disableContext dcbaap mem
    | .addressDevice => ({ s with usbConfiguration := 0 }, mem)
    | .resetDevice => ({ s with usbConfiguration := 0, dci3 := .invalid, dci5 := .invalid }, mem)
    | _ => (s, mem)

end Command

/-- The place of the consumer in the command ring. -/
def XhciController.commandRing (c : XhciController) : RingPosition := ⟨c.commandDequeue.toNat, c.commandCycle⟩

/-- The consumer follows a Link TRB. -/
def XhciController.followLink (c : XhciController) (trb : TransferTrb) : XhciController :=
  { c with
    commandDequeue := trb.parameter &&& ~~~0xf
    commandCycle := if trb.control &&& trbToggleCycle != 0 then !c.commandCycle else c.commandCycle }

/-- `advance_command_dequeue`. -/
def XhciController.advanceCommandDequeue (c : XhciController) (commandTrb : Nat) : XhciController :=
  match checkedAdd commandTrb trbSizeBytes with
  | none => c
  | some next => { c with commandDequeue := .ofNat next, crcr := .ofNat (next ||| c.commandCycle.toNat) }

/-- The controller with its slot. -/
structure Controller where
  xhci : XhciController
  slot1 : Slot1

namespace Controller

/-- The arm of a command in `process_command_doorbell`, with `post_command_completion`. -/
def executeCommand (c : Controller) (mem : GuestMemory) (trb : TransferTrb) (command : Command) :
    Controller × GuestMemory × Option EventPostTrace :=
  let (slot1, mem) := command.before c.slot1 c.xhci.dcbaap mem trb
  match c.xhci.postEvent mem (.ofNat trb.gpa) (completionCodeSuccess <<< 24)
      (EventKind.commandCompletion (command.completionSlot trb)).control with
  | (xhci, mem, none) => (⟨xhci, slot1⟩, mem, none)
  | (xhci, mem, some trace) =>
    let (slot1, mem) := command.after slot1 xhci.dcbaap mem trb
    (⟨xhci.advanceCommandDequeue trb.gpa, slot1⟩, mem, some trace)

/-- `process_command_doorbell`, over its rounds: the completion that was posted. -/
def processCommandDoorbellIn : Nat → Controller → GuestMemory → Controller × GuestMemory × Option EventPostTrace
  | 0, c, mem => (c, mem, none)
  | rounds + 1, c, mem =>
    if c.xhci.commandDequeue.toNat = 0 then (c, mem, none)
    else
      match readTransferTrb mem c.xhci.commandDequeue.toNat with
      | none => (c, mem, none)
      | some trb =>
        if trb.control &&& trbCycle ≠ cycleBit c.xhci.commandCycle then (c, mem, none)
        else if trb.trbType = trbTypeLink then
          processCommandDoorbellIn rounds { c with xhci := c.xhci.followLink trb } mem
        else
          match Command.ofTrbType trb.trbType with
          | none => (c, mem, none)
          | some command => c.executeCommand mem trb command

def processCommandDoorbell (c : Controller) (mem : GuestMemory) : Controller × GuestMemory × Option EventPostTrace :=
  c.processCommandDoorbellIn maxLinkTrbsPerDoorbell mem

end Controller

/-! ## What a doorbell does -/

/-- Link TRBs that the consumer owns, one behind the other. -/
inductive FollowsLinks (mem : GuestMemory) : RingPosition → Nat → RingPosition → Prop
  | here (p : RingPosition) : FollowsLinks mem p 0 p
  | link {p q : RingPosition} {trb : TransferTrb} {n : Nat} (hnull : p.gpa ≠ 0)
      (hread : readTransferTrb mem p.gpa = some trb) (howned : trb.cycle = p.cycle) (htype : trb.trbType = trbTypeLink)
      (hrest : FollowsLinks mem (p.after trb) n q) : FollowsLinks mem p (n + 1) q

/-- A command that the consumer owns. -/
structure Ready (mem : GuestMemory) (p : RingPosition) (trb : TransferTrb) (command : Command) : Prop where
  nonnull : p.gpa ≠ 0
  read : readTransferTrb mem p.gpa = some trb
  owned : trb.cycle = p.cycle
  known : Command.ofTrbType trb.trbType = some command

/-- Neither a command nor a Link TRB of the consumer. -/
def Idle (mem : GuestMemory) (p : RingPosition) : Prop :=
  p.gpa = 0 ∨ ∀ trb, readTransferTrb mem p.gpa = some trb →
    trb.cycle ≠ p.cycle ∨ trb.trbType ≠ trbTypeLink ∧ Command.ofTrbType trb.trbType = none

/-- The completion of a command at a place. -/
structure Completes (p : RingPosition) (trb : TransferTrb) (command : Command) (trace : EventPostTrace) : Prop where
  parameter : trace.parameter = .ofNat p.gpa
  status : trace.status = completionCodeSuccess <<< 24
  control : trace.control =
    (EventKind.commandCompletion (command.completionSlot trb)).control ||| cycleBit trace.cycle

/-- The place behind a command; there is none behind the last TRB of the address space. -/
def behindCommand (p : RingPosition) : RingPosition :=
  match checkedAdd p.gpa trbSizeBytes with
  | none => p
  | some next => ⟨next, p.cycle⟩

/-- What a doorbell of so many rounds does, from a controller to a controller. -/
inductive DoorbellOutcome (c : XhciController) (mem : GuestMemory) (rounds : Nat) :
    XhciController → Option EventPostTrace → Prop
  | executed {c' : XhciController} {links : Nat} {p : RingPosition} {trb : TransferTrb} {command : Command}
      {trace : EventPostTrace} (hlinks : FollowsLinks mem c.commandRing links p) (hfew : links < rounds)
      (hready : Ready mem p trb command) (hcompletes : Completes p trb command trace)
      (hlog : c'.log = .posted trace :: c.log) (hring : c'.commandRing = behindCommand p) :
      DoorbellOutcome c mem rounds c' (some trace)
  /-- No event ring takes the completion. -/
  | refused {c' c₁ : XhciController} {mem₁ : GuestMemory} {links : Nat} {p : RingPosition} {trb : TransferTrb}
      {command : Command} (hlinks : FollowsLinks mem c.commandRing links p) (hfew : links < rounds)
      (hready : Ready mem p trb command) (hsame : c₁.interrupters = c.interrupters)
      (hrefused : (c₁.postEvent mem₁ (.ofNat p.gpa) (completionCodeSuccess <<< 24)
        (EventKind.commandCompletion (command.completionSlot trb)).control).2.2 = none)
      (hlog : c'.log = c.log) (hring : c'.commandRing = p) : DoorbellOutcome c mem rounds c' none
  | idle {c' : XhciController} {links : Nat} {p : RingPosition} (hlinks : FollowsLinks mem c.commandRing links p)
      (hfew : links < rounds) (hidle : Idle mem p) (hlog : c'.log = c.log) (hring : c'.commandRing = p) :
      DoorbellOutcome c mem rounds c' none
  | linksOnly {c' : XhciController} {p : RingPosition} (hlinks : FollowsLinks mem c.commandRing rounds p)
      (hlog : c'.log = c.log) (hring : c'.commandRing = p) : DoorbellOutcome c mem rounds c' none

section Doorbell

variable {c c' : XhciController} {mem : GuestMemory} {trb : TransferTrb} {rounds : Nat}
  {posted : Option EventPostTrace}

theorem cycleBit_iff (cycle : Bool) : trb.control &&& trbCycle = cycleBit cycle ↔ trb.cycle = cycle := by
  have hbit : trb.control &&& trbCycle = 0 ∨ trb.control &&& trbCycle = 1 := by
    have hmod : (trb.control &&& trbCycle).toNat = trb.control.toNat % 2 := by
      rw [UInt32.toNat_and]
      exact Nat.and_one_is_mod _
    rcases Nat.mod_two_eq_zero_or_one trb.control.toNat with hzero | hone
    · exact .inl (UInt32.toNat_inj.1 (hmod.trans hzero))
    · exact .inr (UInt32.toNat_inj.1 (hmod.trans hone))
  unfold TransferTrb.cycle cycleBit
  rcases hbit with hbit | hbit <;> rw [hbit] <;> cases cycle <;> decide

theorem followLink_ring (htype : trb.trbType = trbTypeLink) :
    (c.followLink trb).commandRing = c.commandRing.after trb := by
  unfold XhciController.commandRing XhciController.followLink RingPosition.after TransferTrb.togglesCycle
  rw [if_pos htype, htype, beq_self_eq_true, Bool.true_and]
  cases trb.control &&& trbToggleCycle != 0 <;> simp [TransferTrb.linkPointer]

theorem advanceCommandDequeue_ring {gpa : Nat} (h : gpa = c.commandRing.gpa) :
    (c.advanceCommandDequeue gpa).commandRing = behindCommand c.commandRing := by
  unfold XhciController.advanceCommandDequeue behindCommand
  rw [h]
  cases hnext : checkedAdd c.commandRing.gpa trbSizeBytes with
  | none => rfl
  | some next =>
    have hlt : next < 2 ^ 64 := by
      unfold checkedAdd at hnext
      split at hnext
      · obtain rfl := Option.some.inj hnext
        assumption
      · cases hnext
    unfold XhciController.commandRing
    dsimp only
    rw [UInt64.toNat_ofNat', Nat.mod_eq_of_lt hlt]

theorem postEvent_ring {index : Nat} {parameter : UInt64} {status control : UInt32} :
    (c.postEventToInterrupter mem index parameter status control).1.commandRing = c.commandRing ∧
      (c.postEventToInterrupter mem index parameter status control).1.dcbaap = c.dcbaap := by
  unfold XhciController.postEventToInterrupter
  dsimp only
  repeat' split
  all_goals exact ⟨rfl, rfl⟩

theorem DoorbellOutcome.link (hnull : c.commandRing.gpa ≠ 0)
    (hread : readTransferTrb mem c.commandRing.gpa = some trb)
    (howned : trb.cycle = c.commandRing.cycle) (htype : trb.trbType = trbTypeLink)
    (h : DoorbellOutcome (c.followLink trb) mem rounds c' posted) : DoorbellOutcome c mem (rounds + 1) c' posted := by
  have hfollow : ∀ {n q}, FollowsLinks mem (c.followLink trb).commandRing n q →
      FollowsLinks mem c.commandRing (n + 1) q := fun hlinks =>
    .link hnull hread howned htype (followLink_ring htype ▸ hlinks)
  cases h with
  | executed hlinks hfew hready hcompletes hlog hring =>
    exact .executed (hfollow hlinks) (by omega) hready hcompletes hlog hring
  | refused hlinks hfew hready hsame hrefused hlog hring =>
    exact .refused (hfollow hlinks) (by omega) hready hsame hrefused hlog hring
  | idle hlinks hfew hidle hlog hring => exact .idle (hfollow hlinks) (by omega) hidle hlog hring
  | linksOnly hlinks hlog hring => exact .linksOnly (hfollow hlinks) hlog hring

theorem readTransferTrb_gpa {gpa : Nat} (h : readTransferTrb mem gpa = some trb) : trb.gpa = gpa := by
  unfold readTransferTrb at h
  obtain ⟨raw, -, rfl⟩ := Option.map_eq_some_iff.1 h
  rfl

/-- A command at the place of the consumer. -/
theorem executeCommand_outcome {c : Controller} {command : Command}
    (hready : Ready mem c.xhci.commandRing trb command) :
    DoorbellOutcome c.xhci mem (rounds + 1) (c.executeCommand mem trb command).1.xhci
      (c.executeCommand mem trb command).2.2 := by
  have hgpa := readTransferTrb_gpa hready.read
  unfold Controller.executeCommand
  generalize command.before c.slot1 c.xhci.dcbaap mem trb = effect
  obtain ⟨slot, mem₁⟩ := effect
  dsimp only
  rw [hgpa]
  have hring : (c.xhci.postEvent mem₁ (.ofNat c.xhci.commandRing.gpa) (completionCodeSuccess <<< 24)
      (EventKind.commandCompletion (command.completionSlot trb)).control).1.commandRing = c.xhci.commandRing :=
    postEvent_ring.1
  cases hpost : c.xhci.postEvent mem₁ (.ofNat c.xhci.commandRing.gpa) (completionCodeSuccess <<< 24)
      (EventKind.commandCompletion (command.completionSlot trb)).control with
  | mk xhci rest =>
    obtain ⟨mem₂, posted⟩ := rest
    rw [hpost] at hring
    dsimp only at hring
    rcases XhciController.postEventToInterrupter_cases hpost with ⟨rfl, rfl, rfl⟩ | ⟨trace, rfl, hposted⟩
    · exact .refused (.here _) (Nat.succ_pos rounds) hready rfl (by rw [hpost]) rfl rfl
    · refine .executed (.here _) (Nat.succ_pos rounds) hready ⟨hposted.sent.1, hposted.sent.2,
        hposted.control⟩ ?_ ?_
      · have hkeeps : ∀ gpa, (xhci.advanceCommandDequeue gpa).log = xhci.log := by
          intro gpa
          unfold XhciController.advanceCommandDequeue
          cases checkedAdd gpa trbSizeBytes <;> rfl
        exact (hkeeps _).trans hposted.log
      · rw [← hring]
        exact advanceCommandDequeue_ring rfl

/-- **What a command doorbell does**: it executes one command or none, and ends whatever the ring holds. -/
theorem processCommandDoorbellIn_outcome (rounds : Nat) (c : Controller) (mem : GuestMemory) :
    DoorbellOutcome c.xhci mem rounds (c.processCommandDoorbellIn rounds mem).1.xhci
      (c.processCommandDoorbellIn rounds mem).2.2 := by
  induction rounds generalizing c with
  | zero => exact .linksOnly (.here _) rfl rfl
  | succ rounds ih =>
    rw [Controller.processCommandDoorbellIn]
    by_cases hnull : c.xhci.commandDequeue.toNat = 0
    · rw [if_pos hnull]
      exact .idle (.here _) (Nat.succ_pos rounds) (.inl hnull) rfl rfl
    · rw [if_neg hnull]
      cases hread : readTransferTrb mem c.xhci.commandDequeue.toNat with
      | none =>
        refine .idle (.here _) (Nat.succ_pos rounds) (.inr fun trb hsome => ?_) rfl rfl
        rw [XhciController.commandRing, hread] at hsome
        cases hsome
      | some trb =>
        dsimp only
        have honly : ∀ trb', readTransferTrb mem c.xhci.commandRing.gpa = some trb' → trb' = trb := by
          intro trb' hsome
          rw [XhciController.commandRing, hread] at hsome
          exact (Option.some.inj hsome).symm
        by_cases howned : trb.control &&& trbCycle = cycleBit c.xhci.commandCycle
        · rw [if_neg (not_not.2 howned)]
          rw [cycleBit_iff] at howned
          by_cases htype : trb.trbType = trbTypeLink
          · rw [if_pos htype]
            exact .link hnull hread howned htype (ih { c with xhci := c.xhci.followLink trb })
          · rw [if_neg htype]
            cases hknown : Command.ofTrbType trb.trbType with
            | none =>
              refine .idle (.here _) (Nat.succ_pos rounds) (.inr fun trb' hsome => ?_) rfl rfl
              rw [honly trb' hsome]
              exact .inr ⟨htype, hknown⟩
            | some command => exact executeCommand_outcome ⟨hnull, hread, howned, hknown⟩
        · rw [if_pos howned]
          refine .idle (.here _) (Nat.succ_pos rounds) (.inr fun trb' hsome => ?_) rfl rfl
          rw [honly trb' hsome]
          exact .inl fun hcycle => howned ((cycleBit_iff _).2 hcycle)

end Doorbell

/-! ## Runs -/

/-- A doorbell of a run: the controller and the memory that it found, what it posted, and the controller behind it. -/
structure CommandDoorbell where
  found : XhciController
  mem : GuestMemory
  posted : Option EventPostTrace
  left : XhciController

/-- What happens to the command ring. -/
inductive CommandEvent
  | programmed (ring : RingPosition)
  | doorbell (d : CommandDoorbell)

/-- The controller, guest memory, and what has happened to the command ring, newest first. -/
structure CommandRun where
  controller : Controller
  mem : GuestMemory
  log : List CommandEvent

/-- An action on the controller, with the command doorbell among its register writes, or a change of the slot by a
transfer. -/
inductive CommandOp
  | act (action : Action)
  | slot (slot1 : Slot1)

/-- The register writes that program the command ring: of CRCR, and of USBCMD with HCRST. -/
def programsDword (offset : Nat) (value : UInt32) : Bool :=
  offset == 0x58 || offset == 0x5c || offset == 0x40 && value &&& usbCmdHcrst != 0

/-- One of the writes that `mmio_write` makes programs the command ring. -/
def programsRegisters (offset bytes : Nat) (value : UInt64) : Nat → Nat → XhciController → Bool
  | 0, _, _ => false
  | rounds + 1, consumed, c =>
    if bytes ≤ consumed then false
    else
      let current := offset + consumed
      let aligned := current / 4 * 4
      let chunk := min (4 - current % 4) (bytes - consumed)
      let part := value >>> UInt64.ofNat (consumed * 8)
      let next := XhciController.mergeDword (c.readDword aligned) current chunk part
      programsDword aligned next ||
        programsRegisters offset bytes value rounds (consumed + chunk) (c.writeDword aligned next).1

def programsRing (c : XhciController) : Action → Bool
  | .mmioWrite offset size value => programsRegisters offset (min size 8) value (min size 8) 0 c
  | _ => false

namespace CommandRun

/-- A machine in place of the one before, with a note when the guest programmed the command ring. -/
def moved (s : CommandRun) (programmed : Bool) (m : Machine) : CommandRun where
  controller := { s.controller with xhci := m.xhci }
  mem := m.mem
  log := if programmed then .programmed m.xhci.commandRing :: s.log else s.log

def doorbell (s : CommandRun) : CommandRun :=
  let (controller, mem, posted) := s.controller.processCommandDoorbell s.mem
  ⟨controller, mem, .doorbell ⟨s.controller.xhci, s.mem, posted, controller.xhci⟩ :: s.log⟩

/-- `mmio_write_with_mem` with its command doorbell. -/
def step (s : CommandRun) : CommandOp → CommandRun
  | .act action =>
    let s := s.moved (programsRing s.controller.xhci action) ((Machine.mk s.controller.xhci s.mem).step action)
    match action with
    | .mmioWrite offset size _ => if isCommandDoorbell offset size then s.doorbell else s
    | _ => s
  | .slot slot1 => { s with controller := { s.controller with slot1 } }

def run (s : CommandRun) (ops : List CommandOp) : CommandRun := ops.foldl step s

end CommandRun

section Registers

variable {c : XhciController}

theorem writeInterrupter_ring (index : Fin interrupterCount) (reg : Nat) (value : UInt32) :
    (c.writeInterrupter index reg value).commandRing = c.commandRing := by
  unfold XhciController.writeInterrupter
  split
  case h_6 =>
    unfold XhciController.writeErdpLow
    dsimp only
    split <;> rfl
  all_goals rfl

theorem writePort_ring (port : Fin portCount) (value : UInt32) :
    (c.writePort port value).1.commandRing = c.commandRing := by
  unfold XhciController.writePort
  dsimp only
  split <;> rfl

theorem writeDword_ring {offset : Nat} {value : UInt32} (h : programsDword offset value = false) :
    (c.writeDword offset value).1.commandRing = c.commandRing := by
  unfold programsDword at h
  unfold XhciController.writeDword
  split
  · split
    · exact writePort_ring _ value
    · rfl
  · split
    · exact writeInterrupter_ring _ _ value
    · split
      · -- without HCRST
        unfold XhciController.writeUsbCommand
        simp only [beq_self_eq_true, Bool.true_and, Bool.or_eq_false_iff] at h
        rw [h.2, if_neg Bool.false_ne_true]
        rfl
      · rfl
      · cases h
      · cases h
      all_goals rfl

theorem writeRegisters_ring {offset bytes : Nat} {value : UInt64} {rounds consumed : Nat}
    (h : programsRegisters offset bytes value rounds consumed c = false) :
    (XhciController.writeRegisters offset bytes value rounds consumed c).1.commandRing = c.commandRing := by
  induction rounds generalizing consumed c with
  | zero => rfl
  | succ rounds ih =>
    unfold programsRegisters at h
    unfold XhciController.writeRegisters
    by_cases hdone : bytes ≤ consumed
    · rw [if_pos hdone]
    · rw [if_neg hdone] at h ⊢
      obtain ⟨hfirst, hrest⟩ := Bool.or_eq_false_iff.1 h
      exact (ih hrest).trans (writeDword_ring hfirst)

/-- Only CRCR and a reset program the command ring. -/
theorem machineStep_ring (m : Machine) (action : Action) (h : programsRing m.xhci action = false) :
    (m.step action).xhci.commandRing = m.xhci.commandRing := by
  cases action with
  | mmioWrite offset size value =>
    have hwrite : (m.xhci.mmioWrite offset size value).1.commandRing = m.xhci.commandRing := by
      unfold XhciController.mmioWrite
      split
      · rfl
      · exact writeRegisters_ring h
    rw [← hwrite]
    show (m.xhci.mmioWriteWithMem m.mem offset size value).1.commandRing = _
    unfold XhciController.mmioWriteWithMem XhciController.postPendingPortStatusChangeEvent
    dsimp only
    repeat' split
    all_goals first | rfl | exact postEvent_ring.1
  | post interrupter parameter status kind => exact postEvent_ring.1
  | memory mem => rfl
  | messageSent vector =>
    unfold Machine.step
    dsimp only
    split <;> rfl

end Registers

/-- Where a log leaves the consumer of the command ring. -/
def ringBehind (origin : RingPosition) : List CommandEvent → RingPosition
  | [] => origin
  | .programmed ring :: _ => ring
  | .doorbell d :: _ => d.left.commandRing

/-- A doorbell goes on where the ring was left, and executes one command or none. -/
def InRingOrder (origin : RingPosition) : CommandEvent → List CommandEvent → Prop
  | .programmed _, _ => True
  | .doorbell d, earlier => d.found.commandRing = ringBehind origin earlier ∧
    DoorbellOutcome d.found d.mem maxLinkTrbsPerDoorbell d.left d.posted

section Runs

variable {s : CommandRun} {origin : RingPosition}

/-- The consumer is where the log left it, and the log is in ring order. -/
def Ordered (origin : RingPosition) (s : CommandRun) : Prop :=
  s.controller.xhci.commandRing = ringBehind origin s.log ∧ Traced (InRingOrder origin) s.log

theorem moved_ordered (h : Ordered origin s) {programmed : Bool} {m : Machine}
    (hkeeps : programmed = false → m.xhci.commandRing = s.controller.xhci.commandRing) :
    Ordered origin (s.moved programmed m) := by
  cases programmed with
  | false => exact ⟨(hkeeps rfl).trans h.1, h.2⟩
  | true => exact ⟨rfl, trivial, h.2⟩

theorem doorbell_ordered (h : Ordered origin s) : Ordered origin s.doorbell :=
  ⟨rfl, ⟨h.1, processCommandDoorbellIn_outcome _ s.controller s.mem⟩, h.2⟩

theorem step_ordered (h : Ordered origin s) (op : CommandOp) : Ordered origin (s.step op) := by
  cases op with
  | slot slot1 => exact h
  | act action =>
    have hmoved := moved_ordered h (machineStep_ring ⟨s.controller.xhci, s.mem⟩ action)
    cases action with
    | mmioWrite offset size value =>
      unfold CommandRun.step
      dsimp only
      split
      · exact doorbell_ordered hmoved
      · exact hmoved
    | post => exact hmoved
    | memory => exact hmoved
    | messageSent => exact hmoved

/-- **One command a doorbell.** In every run the doorbells execute the commands in ring order, from where the guest
programmed the ring: each follows at most eight Link TRBs to the next place and executes the command there, if the
consumer owns one, posting one completion with its address. -/
theorem one_command_a_doorbell (controller : Controller) (mem : GuestMemory) (ops : List CommandOp) :
    Ordered controller.xhci.commandRing ((CommandRun.mk controller mem []).run ops) := by
  have hrun : ∀ s, Ordered controller.xhci.commandRing s → Ordered controller.xhci.commandRing (s.run ops) := by
    induction ops with
    | nil => exact fun s h => h
    | cons op ops ih => exact fun s h => ih _ (step_ordered h op)
  exact hrun _ ⟨rfl, trivial⟩

end Runs

/-! ## A second command -/

/-- RAM with the event ring of `segmentTable`, and two No Op commands in a ring at `0x1000`. -/
def twoCommands : GuestMemory :=
  let trb (control : Nat) := toLeBytes 8 0 ++ toLeBytes 4 0 ++ toLeBytes 4 control
  Machine.segmentTable.store 0x1000 (trb 0x5c01 ++ trb 0x5c01)

/-- The controller with that command ring, in the cycle state one. -/
def commandsAtRing : Controller where
  xhci := ((Machine.powerOn twoCommands).run (Machine.programRing ++ [.mmioWrite 0x58 8 0x1001])).xhci
  slot1 := .new

/-- One doorbell executes the first of two commands; the second is the consumer's and waits. -/
theorem second_command_waits : ¬ ∀ (c : Controller) (mem : GuestMemory) (trb : TransferTrb) (command : Command),
    ¬ Ready (c.processCommandDoorbell mem).2.1 (c.processCommandDoorbell mem).1.xhci.commandRing trb command := by
  intro h
  refine h commandsAtRing twoCommands ⟨0x1010, 0, 0, 0x5c01⟩ .noOp ⟨?_, ?_, ?_, rfl⟩
  · decide +kernel
  · decide +kernel
  · decide +kernel

end BridgeVm.Xhci
