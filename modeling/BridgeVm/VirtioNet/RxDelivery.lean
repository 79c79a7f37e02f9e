import BridgeVm.VirtioNet.Virtqueue

/-!
# The virtio-net receive path (`virtio_net/datapath.rs`, `rx_delivery.rs`)

A pump takes the pending frame, or one from the backend, and delivers it into the next available chain behind a
virtio-net header. A frame that is not delivered is kept, and so is the chain: `rx_pump_progress` says when that does
not happen.
-/

namespace BridgeVm.Virtio

open Lib

universe u

/-- Where the host side of the link has frames. -/
class NetSource (β : Type u) where
  pollReceive : β → Option (List UInt8) × β

structure VirtioNetRxStats where
  rxCount : Nat
  rxBytes : Nat
deriving DecidableEq, Repr

/-- The device, as far as receiving reads and writes it. -/
structure VirtioNetRx (β : Type u) where
  backend : β
  stats : VirtioNetRxStats
  rx : VirtioNetQueue
  pendingMsixQueueBits : Nat
  status : Nat
  interruptStatus : Nat
  pendingRxFrame : Option (List UInt8)

/-- The header of every frame: one buffer, nothing else. -/
def rxHeader : List UInt8 := List.replicate 10 0 ++ toLeBytes 2 1

/-- The used element of a delivered frame. -/
structure RxUsed where
  head : Nat
  usedLen : Nat
deriving DecidableEq, Repr

/-- The head of the next available chain. -/
def VirtioNetQueue.availableHead (queue : VirtioNetQueue) (mem : GuestMemory) : Option Nat :=
  if !queue.ready ∨ queue.size = 0 ∨ queue.desc = 0 then none
  else
    match mem.readU16At queue.driver 2 with
    | none => none
    | some availIdx =>
      if queue.lastAvailIdx = availIdx then none
      else mem.readU16At queue.driver (ringOff queue.lastAvailIdx queue.size)

namespace VirtioNetRx

variable {β : Type u}

/-- `mark_queue_interrupt` on the RX queue. -/
def markQueueInterrupt (dev : VirtioNetRx β) : VirtioNetRx β :=
  { dev with
    rx := { dev.rx with pendingMsix := true },
    pendingMsixQueueBits := dev.pendingMsixQueueBits ||| 1,
    interruptStatus := dev.interruptStatus ||| 1 }

/-- `u32::try_from(..).unwrap_or(u32::MAX)` of the bytes of a frame with its header. -/
def usedLen (frame : List UInt8) : Nat :=
  if virtioNetHdrLen + frame.length < 2 ^ 32 then virtioNetHdrLen + frame.length else 2 ^ 32 - 1

/-- `deliver_rx_frame`: the used element when the frame was delivered. -/
def deliverRxFrame (dev : VirtioNetRx β) (frame : List UInt8) (mem : GuestMemory) :
    VirtioNetRx β × GuestMemory × Option RxUsed :=
  match dev.rx.availableHead mem with
  | none => (dev, mem, none)
  | some head =>
    match descriptorChainInto mem dev.rx head with
    | none => (dev, mem, none)
    | some descs =>
      match scatterWriteSlices mem descs [rxHeader, frame] with
      | (mem, false) => (dev, mem, none)
      | (mem, true) =>
        let mem := mem.writeUsed dev.rx.device dev.rx.size head (usedLen frame)
        let dev := { dev with
          rx := { dev.rx with lastAvailIdx := (dev.rx.lastAvailIdx + 1) % 65536 },
          stats := ⟨satAdd dev.stats.rxCount 1, satAdd dev.stats.rxBytes frame.length⟩ }
        (dev.markQueueInterrupt, mem, some ⟨head, usedLen frame⟩)

/-- The frame of a pump, and the backend after it was asked. -/
def takeFrame [NetSource β] (dev : VirtioNetRx β) : Option (List UInt8) × β :=
  match dev.pendingRxFrame with
  | some frame => (some frame, dev.backend)
  | none => NetSource.pollReceive dev.backend

/-- `pump_receive`. -/
def pumpReceive [NetSource β] (dev : VirtioNetRx β) (mem : GuestMemory) :
    VirtioNetRx β × GuestMemory × Option RxUsed :=
  if dev.status &&& driverOk = 0 then (dev, mem, none)
  else
    match dev.takeFrame with
    | (none, backend) => ({ dev with backend }, mem, none)
    | (some frame, backend) =>
      match { dev with backend, pendingRxFrame := none }.deliverRxFrame frame mem with
      | (dev, mem, some used) => (dev, mem, some used)
      | (dev, mem, none) => ({ dev with pendingRxFrame := some frame }, mem, none)

/-- Pumps one after the other, with nothing written in between. -/
def pumps [NetSource β] : Nat → VirtioNetRx β × GuestMemory → VirtioNetRx β × GuestMemory
  | 0, s => s
  | n + 1, s =>
    let (dev, mem, _) := s.1.pumpReceive s.2
    pumps n (dev, mem)

end VirtioNetRx

/-! ## Progress -/

/-- The frame lies whole in the chain of `head`, behind its header, with a used element of as many bytes. -/
structure RxDelivered (queue : VirtioNetQueue) (mem : GuestMemory) (frame : List UInt8) (head : Nat)
    (mem' : GuestMemory) (used : Option RxUsed) : Prop where
  element : used = some ⟨head, virtioNetHdrLen + frame.length⟩
  chain : ∃ descs, Chain mem queue head descs ∧ (∀ desc ∈ descs, desc.isWrite = true) ∧
    virtioNetHdrLen + frame.length ≤ capacity descs ∧
    mem' = (mem.storeChain descs (rxHeader ++ frame)).writeUsed queue.device queue.size head
      (virtioNetHdrLen + frame.length)

/-- What a pump that makes progress does: it delivers the frame, or lets go of the frame, or gives the chain back
unused. -/
def RxProgress {β : Type u} (dev : VirtioNetRx β) (mem : GuestMemory) (frame : List UInt8) (head : Nat)
    (after : VirtioNetRx β × GuestMemory × Option RxUsed) : Prop :=
  (RxDelivered dev.rx mem frame head after.2.1 after.2.2 ∧ after.1.pendingRxFrame = none ∧
    after.1.rx.lastAvailIdx = (dev.rx.lastAvailIdx + 1) % 65536) ∨
  (after.2.2 = none ∧ after.1.pendingRxFrame = none) ∨ after.2.2 = some ⟨head, 0⟩

section Progress

variable {β : Type u} {dev : VirtioNetRx β} {mem : GuestMemory} {frame : List UInt8} {head : Nat}
  {backend : β}

theorem length_rxHeader : rxHeader.length = virtioNetHdrLen := by decide

theorem usedLen_eq_iff : VirtioNetRx.usedLen frame = virtioNetHdrLen + frame.length ↔
    virtioNetHdrLen + frame.length < 2 ^ 32 := by
  unfold VirtioNetRx.usedLen
  split <;> omega

theorem usedLen_pos (frame : List UInt8) : 0 < VirtioNetRx.usedLen frame := by
  unfold VirtioNetRx.usedLen virtioNetHdrLen
  split <;> omega

theorem chainTakes_frame {descs : List Descriptor} (h : ChainTakes mem descs [rxHeader, frame]) :
    (∀ desc ∈ descs, desc.isWrite = true) ∧ virtioNetHdrLen + frame.length ≤ capacity descs := by
  have hlen : [rxHeader, frame].flatten.length = virtioNetHdrLen + frame.length := by
    simp [length_rxHeader]
  rcases h.2 with hnil | ⟨hwrite, hroom, -⟩
  · rw [hnil] at hlen
    simp only [List.length_nil, virtioNetHdrLen] at hlen
    omega
  · exact ⟨hwrite, hlen ▸ hroom⟩

theorem deliverRxFrame_taken (dev : VirtioNetRx β) {descs : List Descriptor}
    (hhead : dev.rx.availableHead mem = some head)
    (hchain : Chain mem dev.rx head descs) (htakes : ChainTakes mem descs [rxHeader, frame]) :
    ∃ dev', dev.deliverRxFrame frame mem = (dev', (mem.storeChain descs (rxHeader ++ frame)).writeUsed dev.rx.device
        dev.rx.size head (VirtioNetRx.usedLen frame), some ⟨head, VirtioNetRx.usedLen frame⟩) ∧
      dev'.pendingRxFrame = dev.pendingRxFrame ∧ dev'.rx.lastAvailIdx = (dev.rx.lastAvailIdx + 1) % 65536 := by
  obtain ⟨-, hok, hstored⟩ := scatterWriteSlices_spec mem descs [rxHeader, frame]
  have hflatten : [rxHeader, frame].flatten = rxHeader ++ frame := by simp
  have hresult : scatterWriteSlices mem descs [rxHeader, frame] = (mem.storeChain descs (rxHeader ++ frame), true) :=
    Prod.ext (hflatten ▸ hstored htakes) (hok.2 htakes)
  unfold VirtioNetRx.deliverRxFrame
  rw [hhead]
  dsimp only
  rw [descriptorChainInto_iff.2 hchain]
  dsimp only
  rw [hresult]
  exact ⟨_, rfl, rfl, rfl⟩

theorem deliverRxFrame_refused (dev : VirtioNetRx β) (frame : List UInt8)
    (hhead : dev.rx.availableHead mem = some head)
    (h : ¬∃ descs, Chain mem dev.rx head descs ∧ ChainTakes mem descs [rxHeader, frame]) :
    ∃ mem', dev.deliverRxFrame frame mem = (dev, mem', none) := by
  unfold VirtioNetRx.deliverRxFrame
  rw [hhead]
  dsimp only
  cases hchain : descriptorChainInto mem dev.rx head with
  | none => exact ⟨mem, rfl⟩
  | some descs =>
    dsimp only
    obtain ⟨-, hok, -⟩ := scatterWriteSlices_spec mem descs [rxHeader, frame]
    have hnot : (scatterWriteSlices mem descs [rxHeader, frame]).2 = false := by
      rw [← Bool.not_eq_true]
      exact fun htrue => h ⟨descs, descriptorChainInto_iff.1 hchain, hok.1 htrue⟩
    generalize scatterWriteSlices mem descs [rxHeader, frame] = result at hnot
    obtain ⟨mem', ok⟩ := result
    subst hnot
    exact ⟨mem', rfl⟩

/-- **A pump makes progress exactly when the chain takes the frame**; otherwise it keeps the frame and the chain. -/
theorem rx_pump_progress [NetSource β] (hdriver : dev.status &&& driverOk ≠ 0)
    (hhead : dev.rx.availableHead mem = some head)
    (hframe : dev.takeFrame = (some frame, backend)) :
    (RxProgress dev mem frame head (dev.pumpReceive mem) ↔
      (∃ descs, Chain mem dev.rx head descs ∧ ChainTakes mem descs [rxHeader, frame]) ∧
        virtioNetHdrLen + frame.length < 2 ^ 32) ∧
    ((¬∃ descs, Chain mem dev.rx head descs ∧ ChainTakes mem descs [rxHeader, frame]) →
      (dev.pumpReceive mem).1.pendingRxFrame = some frame ∧ (dev.pumpReceive mem).1.rx = dev.rx) := by
  unfold VirtioNetRx.pumpReceive
  rw [if_neg hdriver, hframe]
  dsimp only
  by_cases htaken : ∃ descs, Chain mem dev.rx head descs ∧ ChainTakes mem descs [rxHeader, frame]
  · refine ⟨?_, fun hnot => absurd htaken hnot⟩
    obtain ⟨descs, hchain, htakes⟩ := htaken
    obtain ⟨dev', hdeliver, hpending, hindex⟩ := deliverRxFrame_taken
      { dev with backend, pendingRxFrame := none } hhead hchain htakes
    obtain ⟨hwrite, hroom⟩ := chainTakes_frame htakes
    rw [hdeliver]
    constructor
    · rintro (⟨hdelivered, -⟩ | ⟨hnone, -⟩ | hzero)
      · exact ⟨⟨descs, hchain, htakes⟩,
          usedLen_eq_iff.1 (congrArg RxUsed.usedLen (Option.some.inj hdelivered.element))⟩
      · cases hnone
      · have hlen : VirtioNetRx.usedLen frame = 0 := congrArg RxUsed.usedLen (Option.some.inj hzero)
        exact absurd hlen (Nat.ne_of_gt (usedLen_pos frame))
    · rintro ⟨-, hlen⟩
      rw [usedLen_eq_iff.2 hlen]
      exact .inl ⟨⟨rfl, descs, hchain, hwrite, hroom, rfl⟩, hpending, hindex⟩
  · obtain ⟨mem', hdeliver⟩ :=
      deliverRxFrame_refused { dev with backend, pendingRxFrame := none } frame hhead htaken
    rw [hdeliver]
    refine ⟨⟨?_, fun h => absurd h.1 htaken⟩, fun _ => ⟨rfl, rfl⟩⟩
    rintro (⟨hdelivered, -⟩ | ⟨-, hnone⟩ | hzero)
    · cases hdelivered.element
    · cases hnone
    · cases hzero

end Progress

/-! ## A chain of read-only buffers -/

/-- A backend with a frame of one byte, again and again. -/
instance : NetSource Unit := ⟨fun backend => (some [7], backend)⟩

/-- One available chain: a buffer that only the driver may write. -/
def readOnlyChain : GuestMemory := ⟨fun a => if a = 66 then 1 else 0, fun _ _ => true, fun _ _ => true⟩

/-- One available chain: a buffer of sixteen bytes for the device. -/
def writableChain : GuestMemory :=
  ⟨fun a => if a = 24 then 16 else if a = 28 then 2 else if a = 66 then 1 else 0, fun _ _ => true, fun _ _ => true⟩

def receiver : VirtioNetRx Unit := ⟨(), ⟨0, 0⟩, oneEntryQueue, 0, driverOk, 0, none⟩

/-- The device with the frame it could not deliver. -/
def blockedReceiver : VirtioNetRx Unit := { receiver with pendingRxFrame := some [7] }

theorem writableChain_taken : RxProgress receiver writableChain [7] 0 (receiver.pumpReceive writableChain) :=
  (rx_pump_progress (by decide) (by decide +kernel) rfl).1.2
    ⟨⟨[⟨0, 16, 2, 0⟩], descriptorChainInto_iff.1
      (by decide +kernel), by decide, .inr (by decide +kernel)⟩, by decide⟩

theorem read_only_chain_blocks (n : Nat) :
    VirtioNetRx.pumps n (blockedReceiver, readOnlyChain) = (blockedReceiver, readOnlyChain) := by
  induction n with
  | zero => rfl
  | succ n ih => exact ih

/-- The frame is neither delivered nor let go of, and the chain is not given back, by any pump. -/
theorem rx_never_progresses : ¬∀ (dev : VirtioNetRx Unit) (mem : GuestMemory) (frame : List UInt8) (head : Nat)
    (backend : Unit), dev.status &&& driverOk ≠ 0 → dev.rx.availableHead mem = some head →
      dev.takeFrame = (some frame, backend) → RxProgress dev mem frame head (dev.pumpReceive mem) ∨
        ∃ n, (VirtioNetRx.pumps n (dev, mem)).1.pendingRxFrame ≠ some frame ∨
          (VirtioNetRx.pumps n (dev, mem)).1.rx.lastAvailIdx ≠ dev.rx.lastAvailIdx := by
  intro h
  rcases h blockedReceiver readOnlyChain [7] 0 () (by decide) (by decide +kernel) rfl with hprogress | ⟨n, hmoved⟩
  · have hused : (blockedReceiver.pumpReceive readOnlyChain).2.2 = none := by decide +kernel
    have hkept : (blockedReceiver.pumpReceive readOnlyChain).1.pendingRxFrame = some [7] := by decide +kernel
    rcases hprogress with ⟨hdelivered, -⟩ | ⟨-, hnone⟩ | hzero
    · rw [hused] at hdelivered
      cases hdelivered.element
    · rw [hkept] at hnone
      cases hnone
    · rw [hused] at hzero
      cases hzero
  · rw [read_only_chain_blocks] at hmoved
    rcases hmoved with hframe | hindex
    · exact hframe rfl
    · exact hindex rfl

end BridgeVm.Virtio
