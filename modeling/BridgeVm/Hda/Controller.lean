import BridgeVm.Hda.Stream

/-!
# The HDA controller

`hda/hdapcmsink.rs` with `command_dma.rs`, `stream_control.rs`, `stream_lifecycle.rs`, `layout.rs`,
`interrupt_sources.rs` and `controller_interrupt_sources.rs`. The registers, the command and response rings and the
message latch around the two streams. What a codec answers to a verb is given, and so are the bytes that the elapsed
time allows a poll to move.
-/

namespace BridgeVm.Hda

open Lib

universe u v

def gctlCrst : UInt32 := 1

def intctlGie : UInt32 := 0x80000000

/-- `INTCTL_CIE` and `INTSTS_CIS`. -/
def intctlCie : UInt32 := 0x40000000

def intstsCis : UInt32 := 0x40000000

def intctlCaptureStream : UInt32 := 1

def intctlPlaybackStream : UInt32 := 2

def corbctlCmeie : UInt8 := 1

def corbctlRun : UInt8 := 2

def corbstsCmei : UInt8 := 1

def rirbctlRintctl : UInt8 := 1

def rirbctlDma : UInt8 := 2

def rirbctlOic : UInt8 := 4

def rirbstsRintfl : UInt8 := 1

def rirbstsOis : UInt8 := 4

def icisIcb : UInt16 := 1

def icisIrv : UInt16 := 2

def sdctlIoce : UInt32 := 4

def sdctlFeie : UInt32 := 8

def sdctlDeie : UInt32 := 16

def sdstsFifoe : UInt8 := 8

def ringSizeCapabilities : UInt8 := 0xe0

/-- `ring_entries`. -/
def ringEntries (size : UInt8) : UInt16 := if size &&& 3 = 0 then 2 else if size &&& 3 = 1 then 16 else 256

/-- A codec: its response to a verb. -/
class HdaCodec (κ : Type v) where
  verb : κ → UInt32 → UInt32 × κ

/-- A message as the PCI function sends it. -/
structure MsiMessage where
  address : UInt64
  data : UInt32
deriving DecidableEq, Repr

structure HdaController (σ : Type u) (κ : Type v) where
  gctl : UInt32
  wakeen : UInt16
  statests : UInt16
  intctl : UInt32
  corbBase : UInt64
  corbWp : UInt16
  corbRp : UInt16
  corbRpReset : Bool
  corbCtl : UInt8
  corbSts : UInt8
  corbSize : UInt8
  rirbBase : UInt64
  rirbWp : UInt16
  rintcnt : UInt16
  rirbCtl : UInt8
  rirbSts : UInt8
  rirbSize : UInt8
  responsesSinceIrq : UInt16
  icoi : UInt32
  icii : UInt32
  icis : UInt16
  dpBase : UInt64
  stream : StreamDescriptor
  capture : StreamDescriptor
  pcmSink : PcmSink
  pcmSource : Option σ
  microphone : Bool
  codec : κ
  interruptAsserted : UInt32
  interruptPending : Bool

/-- A controller and the guest memory it reaches. -/
structure HdaSystem (σ : Type u) (κ : Type v) where
  ctrl : HdaController σ κ
  mem : GuestMemory

def StreamDescriptor.new : StreamDescriptor := ⟨0, 0, 0, 0, 0, 0, 0, 0, 0⟩

/-- A stream's status that is enabled: `capture_interrupt_pending`, and the same test of playback. -/
def StreamDescriptor.interruptPending (s : StreamDescriptor) : Bool :=
  (s.sts &&& sdstsBcis != 0 && s.ctl &&& sdctlIoce != 0) ||
    (s.sts &&& sdstsFifoe != 0 && s.ctl &&& sdctlFeie != 0) ||
    (s.sts &&& sdstsDese != 0 && s.ctl &&& sdctlDeie != 0)

namespace HdaController

variable {σ : Type u} {κ : Type v}

/-- `HdaController::new` with the host's sink and source, a fresh codec and the launch-time microphone setting. -/
def new (pcmSink : PcmSink) (pcmSource : Option σ) (microphone : Bool) (codec : κ) : HdaController σ κ where
  gctl := 0
  wakeen := 0
  statests := 0
  intctl := 0
  corbBase := 0
  corbWp := 0
  corbRp := 0
  corbRpReset := false
  corbCtl := 0
  corbSts := 0
  corbSize := ringSizeCapabilities ||| 2
  rirbBase := 0
  rirbWp := 0
  rintcnt := 1
  rirbCtl := 0
  rirbSts := 0
  rirbSize := ringSizeCapabilities ||| 2
  responsesSinceIrq := 0
  icoi := 0
  icii := 0
  icis := 0
  dpBase := 0
  stream := .new
  capture := .new
  pcmSink
  pcmSource
  microphone
  codec
  interruptAsserted := 0
  interruptPending := false

/-! ## Interrupt sources -/

/-- `controller_interrupt_pending`. -/
def controllerInterruptPending (c : HdaController σ κ) : Bool :=
  c.statests &&& c.wakeen != 0 ||
    (c.rirbSts &&& rirbstsRintfl != 0 && c.rirbCtl &&& rirbctlRintctl != 0) ||
    (c.rirbSts &&& rirbstsOis != 0 && c.rirbCtl &&& rirbctlOic != 0) ||
    (c.corbSts &&& corbstsCmei != 0 && c.corbCtl &&& corbctlCmeie != 0)

/-- `interrupt_sources`. -/
def interruptSources (c : HdaController σ κ) : UInt32 :=
  let sources := if c.controllerInterruptPending && c.intctl &&& intctlCie != 0 then intstsCis else 0
  let sources :=
    if c.stream.interruptPending && c.intctl &&& intctlPlaybackStream != 0 then sources ||| intctlPlaybackStream
    else sources
  if c.capture.interruptPending && c.intctl &&& intctlCaptureStream != 0 then sources ||| intctlCaptureStream
  else sources

/-- The sources as the latch looks at them: none without GIE. -/
def requested (c : HdaController σ κ) : UInt32 := if c.intctl &&& intctlGie != 0 then c.interruptSources else 0

/-- The sources that rise for the latch. -/
def rising (c : HdaController σ κ) : UInt32 :=
  if c.microphone then c.requested &&& ~~~c.interruptAsserted
  else if c.interruptAsserted = 0 then c.requested
  else 0

/-- `drain_pending_msi_into`. -/
def drainPendingMsiInto (c : HdaController σ κ) (enabled : Bool) (address : UInt64) (data : UInt32)
    (out : List MsiMessage) : HdaController σ κ × List MsiMessage :=
  let pending := c.interruptPending || c.rising != 0
  let c := { c with interruptAsserted := c.requested }
  if enabled && pending then ({ c with interruptPending := false }, out ++ [⟨address, data⟩])
  else ({ c with interruptPending := pending }, out)

/-! ## Registers -/

/-- `controller_reset`: the host's sink and source and the microphone setting stay. -/
def controllerReset (source : PcmSource σ) (codec : κ) (c : HdaController σ κ) : HdaController σ κ :=
  let pcmSource :=
    if c.capture.ctl &&& sdctlRun != 0 then c.pcmSource.map source.streamStopped else c.pcmSource
  .new c.pcmSink pcmSource c.microphone codec

/-- `write_gctl`. -/
def writeGctl (source : PcmSource σ) (codec : κ) (c : HdaController σ κ) (next : UInt32) : HdaController σ κ :=
  if next &&& gctlCrst = 0 then c.controllerReset source codec
  else
    let c := if c.gctl &&& gctlCrst = 0 then { c with gctl := gctlCrst, statests := c.statests ||| 1 } else c
    { c with gctl := (c.gctl &&& gctlCrst) ||| (next &&& 0x102) }

/-- `corb_pointer_mask`, `rirb_pointer_mask`. -/
def corbPointerMask (c : HdaController σ κ) : UInt16 := ringEntries c.corbSize - 1

def rirbPointerMask (c : HdaController σ κ) : UInt16 := ringEntries c.rirbSize - 1

/-- `write_capture_ctl`. -/
def writeCaptureCtl (source : PcmSource σ) (c : HdaController σ κ) (next : UInt32) : HdaController σ κ :=
  let wasRunning := c.capture.ctl &&& sdctlRun != 0
  let capture := if next &&& sdctlSrst != 0 then c.capture.reset else { c.capture with ctl := next }
  let running := capture.ctl &&& sdctlRun != 0
  let pcmSource :=
    match wasRunning, running with
    | false, true => c.pcmSource.map source.streamStarted
    | true, false => c.pcmSource.map source.streamStopped
    | _, _ => c.pcmSource
  { c with capture, pcmSource }

/-- `write_stream_ctl`. -/
def writeStreamCtl (c : HdaController σ κ) (next : UInt32) : HdaController σ κ :=
  if next &&& sdctlSrst != 0 then { c with stream := c.stream.reset }
  else { c with stream := { c.stream with ctl := next &&& ~~~sdctlSrst } }

/-- `guest_stream_bits`, `internal_stream_bits`: without the microphone playback is the guest's bit 0. -/
def guestStreamBits (c : HdaController σ κ) (internal : UInt32) : UInt32 :=
  if c.microphone then internal
  else
    (internal &&& ~~~(intctlCaptureStream ||| intctlPlaybackStream)) |||
      (if internal &&& intctlPlaybackStream != 0 then 1 else 0)

def internalStreamBits (c : HdaController σ κ) (guest : UInt32) : UInt32 :=
  if c.microphone then guest
  else
    (guest &&& ~~~(intctlCaptureStream ||| intctlPlaybackStream)) |||
      (if guest &&& 1 != 0 then intctlPlaybackStream else 0)

/-- `layout_offset`. -/
def layoutOffset (c : HdaController σ κ) (offset : Nat) : Option Nat :=
  if c.microphone then some offset
  else if (0x80 ≤ offset ∧ offset ≤ 0x9f) ∨ (0x2084 ≤ offset ∧ offset ≤ 0x2087) then some (offset + 0x20)
  else if (0xa0 ≤ offset ∧ offset ≤ 0xbf) ∨ (0x20a4 ≤ offset ∧ offset ≤ 0x20a7) then none
  else some offset

/-- The low or high half of a 64-bit base; the low one is aligned by a mask. -/
def withLowBase (old : UInt64) (mask next : UInt64) : UInt64 :=
  (old &&& ~~~0xffffffff) ||| (next.toUInt32.toUInt64 &&& ~~~mask)

def withHighBase (old next : UInt64) : UInt64 :=
  (old &&& (0xffffffff : UInt64)) ||| (next.toUInt32.toUInt64 <<< 32)

end HdaController

/-- A register of the block: where it is, what a partial write merges with, and what a write does. -/
structure HdaRegister (σ : Type u) (κ : Type v) where
  offset : Nat
  width : Nat
  old : HdaController σ κ → UInt64
  write : HdaController σ κ → UInt64 → HdaController σ κ

section Registers

variable {σ : Type u} {κ : Type v}

/-- The registers of one stream, at its base; they are written while the stream is stopped. `control` is CTL. -/
def streamRegisters (base : Nat) (get : HdaController σ κ → StreamDescriptor)
    (set : HdaController σ κ → StreamDescriptor → HdaController σ κ)
    (control : HdaController σ κ → UInt32 → HdaController σ κ) : List (HdaRegister σ κ) :=
  let stopped (c : HdaController σ κ) (s : StreamDescriptor) : HdaController σ κ :=
    if (get c).ctl &&& sdctlRun = 0 then set c s else c
  [⟨base, 3, fun c => (get c).ctl.toUInt64, fun c next => control c (next.toUInt32 &&& 0xf0001f)⟩,
    ⟨base + 0x3, 1, fun _ => 0, fun c next =>
      set c { get c with sts := (get c).sts &&& ~~~(next.toUInt8 &&& (sdstsBcis ||| sdstsFifoe ||| sdstsDese)) }⟩,
    ⟨base + 0x8, 4, fun c => (get c).cbl.toUInt64, fun c next => stopped c { get c with cbl := next.toUInt32 }⟩,
    ⟨base + 0xc, 2, fun c => (get c).lvi.toUInt64, fun c next => stopped c { get c with lvi := next.toUInt16 }⟩,
    ⟨base + 0x12, 2, fun c => (get c).fmt.toUInt64, fun c next =>
      stopped c { get c with fmt := next.toUInt16 &&& 0x7fff }⟩,
    ⟨base + 0x18, 4, fun c => (get c).bdl.toUInt32.toUInt64, fun c next =>
      stopped c { get c with bdl := HdaController.withLowBase (get c).bdl 0x7f next }⟩,
    ⟨base + 0x1c, 4, fun c => (get c).bdl >>> 32, fun c next =>
      stopped c { get c with bdl := HdaController.withHighBase (get c).bdl next }⟩]

/-- The registers before the streams', in the order a write takes them. -/
def controllerRegisters [HdaCodec κ] (source : PcmSource σ) (codec : κ) : List (HdaRegister σ κ) :=
  [⟨0x08, 4, fun c => c.gctl.toUInt64, fun c next => c.writeGctl source codec next.toUInt32⟩,
    ⟨0x0c, 2, fun c => c.wakeen.toUInt64, fun c next => { c with wakeen := next.toUInt16 &&& 0x7fff }⟩,
    ⟨0x0e, 2, fun _ => 0, fun c next => { c with statests := c.statests &&& ~~~next.toUInt16 }⟩,
    ⟨0x20, 4, fun c => (c.guestStreamBits c.intctl).toUInt64, fun c next =>
      { c with
        intctl := c.internalStreamBits next.toUInt32 &&&
          (intctlGie ||| intctlCie ||| intctlCaptureStream ||| intctlPlaybackStream) }⟩,
    ⟨0x40, 4, fun c => c.corbBase.toUInt32.toUInt64, fun c next =>
      { c with corbBase := HdaController.withLowBase c.corbBase 0x7f next }⟩,
    ⟨0x44, 4, fun c => c.corbBase >>> 32, fun c next =>
      { c with corbBase := HdaController.withHighBase c.corbBase next }⟩,
    ⟨0x48, 2, fun c => c.corbWp.toUInt64, fun c next => { c with corbWp := next.toUInt16 &&& c.corbPointerMask }⟩,
    ⟨0x4a, 2, fun c => c.corbRp.toUInt64, fun c next =>
      if next &&& 0x8000 != 0 then { c with corbRp := 0, corbRpReset := true } else { c with corbRpReset := false }⟩,
    ⟨0x4c, 1, fun c => c.corbCtl.toUInt64, fun c next => { c with corbCtl := next.toUInt8 &&& 0x03 }⟩,
    ⟨0x4d, 1, fun _ => 0, fun c next => { c with corbSts := c.corbSts &&& ~~~next.toUInt8 }⟩,
    ⟨0x4e, 1, fun c => c.corbSize.toUInt64, fun c next =>
      if c.corbCtl &&& corbctlRun = 0 then
        let c := { c with corbSize := ringSizeCapabilities ||| min (next.toUInt8 &&& 0x03) 2 }
        { c with corbWp := c.corbWp &&& c.corbPointerMask, corbRp := c.corbRp &&& c.corbPointerMask }
      else c⟩,
    ⟨0x50, 4, fun c => c.rirbBase.toUInt32.toUInt64, fun c next =>
      { c with rirbBase := HdaController.withLowBase c.rirbBase 0x7f next }⟩,
    ⟨0x54, 4, fun c => c.rirbBase >>> 32, fun c next =>
      { c with rirbBase := HdaController.withHighBase c.rirbBase next }⟩,
    ⟨0x58, 2, fun c => c.rirbWp.toUInt64, fun c next =>
      if next &&& 0x8000 != 0 then { c with rirbWp := 0, responsesSinceIrq := 0 } else c⟩,
    ⟨0x5a, 2, fun c => c.rintcnt.toUInt64, fun c next => { c with rintcnt := next.toUInt16 }⟩,
    ⟨0x5c, 1, fun c => c.rirbCtl.toUInt64, fun c next => { c with rirbCtl := next.toUInt8 &&& 0x07 }⟩,
    ⟨0x5d, 1, fun _ => 0, fun c next => { c with rirbSts := c.rirbSts &&& ~~~next.toUInt8 }⟩,
    ⟨0x5e, 1, fun c => c.rirbSize.toUInt64, fun c next =>
      if c.rirbCtl &&& rirbctlDma = 0 then
        let c := { c with rirbSize := ringSizeCapabilities ||| min (next.toUInt8 &&& 0x03) 2 }
        { c with rirbWp := c.rirbWp &&& c.rirbPointerMask }
      else c⟩,
    ⟨0x60, 4, fun c => c.icoi.toUInt64, fun c next => { c with icoi := next.toUInt32 }⟩,
    ⟨0x68, 2, fun c => c.icis.toUInt64, fun c next =>
      let c := if next &&& icisIrv.toUInt64 != 0 then { c with icis := c.icis &&& ~~~icisIrv } else c
      if next &&& icisIcb.toUInt64 != 0 && c.icis &&& icisIcb == 0 then
        let (icii, codec) := HdaCodec.verb c.codec c.icoi
        { c with icii, codec, icis := ((c.icis ||| icisIcb) &&& ~~~icisIcb) ||| icisIrv }
      else c⟩,
    ⟨0x70, 4, fun c => c.dpBase.toUInt32.toUInt64, fun c next =>
      { c with dpBase := HdaController.withLowBase c.dpBase 0x7e next }⟩,
    ⟨0x74, 4, fun c => c.dpBase >>> 32, fun c next =>
      { c with dpBase := HdaController.withHighBase c.dpBase next }⟩]

/-- The registers in the order a write takes them. -/
def hdaRegisters [HdaCodec κ] (source : PcmSource σ) (codec : κ) : List (HdaRegister σ κ) :=
  controllerRegisters source codec ++
    streamRegisters 0x80 HdaController.capture (fun c capture => { c with capture })
      (HdaController.writeCaptureCtl source) ++
    streamRegisters 0xa0 HdaController.stream (fun c stream => { c with stream }) HdaController.writeStreamCtl

/-- The `rw!` of a register: its value with the bytes written replaced, when one of its bytes is. -/
def rwBytes (written : Nat → Option UInt8) (off width : Nat) (old : UInt64) : Option UInt64 :=
  if (List.range width).any fun i => (written (off + i)).isSome then
    some (UInt64.ofNat (ofLeBytes ((toLeBytes 8 old.toNat).mapIdx fun i byte =>
      if i < width then (written (off + i)).getD byte else byte)))
  else none

/-- A register takes its bytes of a write. -/
def HdaRegister.apply (written : Nat → Option UInt8) (c : HdaController σ κ) (r : HdaRegister σ κ) :
    HdaController σ κ :=
  match rwBytes written r.offset r.width (r.old c) with
  | none => c
  | some next => r.write c next

/-- The bytes of a write, by the register offsets they land on; a later byte wins. -/
def HdaController.writtenBytes (c : HdaController σ κ) (offset size : Nat) (value : UInt64) : Nat → Option UInt8 :=
  fun absolute =>
    ((List.range (min size 8)).reverse.find? fun byte =>
      c.layoutOffset (offset + byte) == some absolute).map fun byte =>
      (value >>> (8 * UInt64.ofNat byte)).toUInt8

end Registers

/-! ## Commands and responses -/

namespace HdaSystem

variable {σ : Type u} {κ : Type v} [HdaCodec κ]

/-- `push_rirb`: false when the response cannot be written. -/
def pushRirb (h : HdaSystem σ κ) (response : UInt32) (codec : UInt8) : HdaSystem σ κ × Bool :=
  let c := h.ctrl
  let next := (c.rirbWp + 1) &&& c.rirbPointerMask
  let entry := toLeBytes 4 response.toNat ++ toLeBytes 4 (codec &&& 0x0f).toNat
  let overrun : HdaSystem σ κ := { h with ctrl := { c with rirbSts := c.rirbSts ||| rirbstsOis } }
  match checkedAdd c.rirbBase.toNat (next.toNat * 8) with
  | none => (overrun, false)
  | some address =>
    let (mem, written) := h.mem.writeBytes address entry
    if !written then (overrun, false)
    else
      let responses := c.responsesSinceIrq + 1
      let threshold := if c.rintcnt = 0 then 256 else c.rintcnt
      let c := { c with rirbWp := next, responsesSinceIrq := responses }
      let c :=
        if threshold ≤ responses then { c with rirbSts := c.rirbSts ||| rirbstsRintfl, responsesSinceIrq := 0 } else c
      (⟨c, mem⟩, true)

/-- The loop of `process_corb`, at most `guard` verbs; whether a response was produced. -/
def corbLoop : Nat → HdaSystem σ κ → HdaSystem σ κ × Bool
  | 0, h => (h, false)
  | guard + 1, h =>
    let c := h.ctrl
    if c.corbRp = c.corbWp then (h, false)
    else
      let next := (c.corbRp + 1) &&& c.corbPointerMask
      match (checkedAdd c.corbBase.toNat (next.toNat * 4)).bind fun address => h.mem.readBytes address 4 with
      | none => ({ h with ctrl := { c with corbSts := c.corbSts ||| corbstsCmei } }, false)
      | some raw =>
        let verb := UInt32.ofNat (ofLeBytes raw)
        let (response, codec) := HdaCodec.verb c.codec verb
        match { h with ctrl := { c with codec, corbRp := next } }.pushRirb response (verb >>> 28).toUInt8 with
        | (h, false) => (h, false)
        | (h, true) => ((corbLoop guard h).1, true)

/-- `process_corb`: a ring that drains raises the response interrupt, however few responses there are. -/
def processCorb (h : HdaSystem σ κ) : HdaSystem σ κ :=
  let c := h.ctrl
  if c.gctl &&& gctlCrst = 0 ∨ c.corbCtl &&& corbctlRun = 0 ∨ c.rirbCtl &&& rirbctlDma = 0 then h
  else
    let (h, produced) := h.corbLoop (c.corbPointerMask.toNat + 1)
    if produced ∧ h.ctrl.corbRp = h.ctrl.corbWp ∧ h.ctrl.rirbCtl &&& rirbctlRintctl ≠ 0 then
      { h with ctrl := { h.ctrl with rirbSts := h.ctrl.rirbSts ||| rirbstsRintfl, responsesSinceIrq := 0 } }
    else h

/-- `mmio_write`. -/
def mmioWrite (source : PcmSource σ) (codec : κ) (h : HdaSystem σ κ) (offset size : Nat) (value : UInt64) :
    HdaSystem σ κ :=
  let written := h.ctrl.writtenBytes offset size value
  processCorb { h with ctrl := (hdaRegisters source codec).foldl (HdaRegister.apply written) h.ctrl }

/-! ## Polls -/

/-- `poll_capture` with the bytes the elapsed time allows, none for the first poll after RUN; `none` is an overflow. -/
def pollCapture (source : PcmSource σ) (h : HdaSystem σ κ) (budget : Option Nat) : Option (HdaSystem σ κ) :=
  let c := h.ctrl
  if c.capture.ctl &&& sdctlRun = 0 ∨ c.gctl &&& gctlCrst = 0 then some h
  else
    match budget with
    | none => some h
    | some budget =>
      if (streamPcmFormat c.capture.fmt).isNone then
        some { h with ctrl := { c with capture := { c.capture with sts := c.capture.sts ||| sdstsDese } } }
      else
        (fillCapture source ⟨c.capture, c.dpBase, h.mem, c.pcmSource, []⟩ budget).map fun p =>
          ⟨{ c with capture := p.1.stream, pcmSource := p.1.host }, p.1.mem⟩

/-- `poll_playback`. -/
def pollPlayback (h : HdaSystem σ κ) (budget : Option Nat) : Option (HdaSystem σ κ) :=
  let c := h.ctrl
  if c.stream.ctl &&& sdctlRun = 0 ∨ c.gctl &&& gctlCrst = 0 then some h
  else
    match budget with
    | none => some h
    | some budget =>
      if (streamPcmFormat c.stream.fmt).isNone then
        some { h with ctrl := { c with stream := { c.stream with sts := c.stream.sts ||| sdstsDese } } }
      else
        (consumeStream c.microphone ⟨c.stream, c.dpBase, h.mem, c.pcmSink, []⟩ budget).map fun p =>
          ⟨{ c with stream := p.1.stream, pcmSink := p.1.host }, p.1.mem⟩

end HdaSystem

end BridgeVm.Hda
