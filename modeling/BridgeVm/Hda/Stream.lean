import BridgeVm.GuestMemory
import BridgeVm.Lib.Splice

/-!
# HDA stream DMA (`hda/playback_dma.rs`, `hda/playback_entry.rs`, `hda/capture_dma.rs`)

One stream of the controller walks its buffer descriptor list: playback hands the bytes of guest memory to a sink,
capture stores the bytes of a source. The two loops are one loop (`dmaLoop`) over what a stream does with a chunk
(`Direction`). Arithmetic of the registers is checked: `none` is an overflow. A log of what the stream did, newest
first, is read by no function.
-/

namespace BridgeVm.Hda

open Lib

universe u

def sdctlSrst : UInt32 := 1

def sdctlRun : UInt32 := 2

def sdstsBcis : UInt8 := 4

def sdstsDese : UInt8 := 16

def bdlIoc : UInt32 := 1

def capturePositionEntry : UInt64 := 0

def playbackPositionEntry : UInt64 := 8

/-! ## Formats and registers -/

structure PcmFormat where
  rate : Nat
  channels : Nat
  bits : Nat
deriving DecidableEq, Repr

/-- `stream_sample_rate`. -/
def streamSampleRate (fmt : UInt16) : Option Nat :=
  if fmt &&& 0x8000 != 0 then none
  else
    let base := if fmt &&& 0x4000 != 0 then 44100 else 48000
    let multiplier := ((fmt >>> 11) &&& 7).toNat + 1
    let divisor := ((fmt >>> 8) &&& 7).toNat + 1
    some (base * multiplier / divisor)

/-- `stream_pcm_format`: sixteen-bit samples alone. -/
def streamPcmFormat (fmt : UInt16) : Option PcmFormat :=
  (streamSampleRate fmt).bind fun rate =>
    if (fmt >>> 4) &&& 7 = 1 then some ⟨rate, (fmt &&& 15).toNat + 1, 16⟩ else none

structure StreamDescriptor where
  ctl : UInt32
  sts : UInt8
  lpib : UInt32
  cbl : UInt32
  lvi : UInt16
  fmt : UInt16
  bdl : UInt64
  bdlIndex : UInt16
  bdlOffset : UInt32
deriving DecidableEq, Repr

/-- SRST keeps the programmed buffer and format alone. -/
def StreamDescriptor.reset (stream : StreamDescriptor) : StreamDescriptor :=
  { stream with ctl := sdctlSrst, sts := 0, lpib := 0, bdlIndex := 0, bdlOffset := 0 }

/-- An entry of the buffer descriptor list. -/
structure BdlEntry where
  address : UInt64
  length : UInt32
  flags : UInt32
deriving DecidableEq, Repr

def BdlEntry.ofBytes (raw : List UInt8) : BdlEntry where
  address := UInt64.ofNat (ofLeBytes (slice raw 0 8))
  length := UInt32.ofNat (ofLeBytes (slice raw 8 4))
  flags := UInt32.ofNat (ofLeBytes (slice raw 12 4))

/-- `read_playback_descriptor`, and the same read of the capture stream. -/
def readDescriptor (mem : GuestMemory) (bdl : UInt64) (index : Nat) : Option BdlEntry :=
  (checkedAdd bdl.toNat (index * 16)).bind fun address => (mem.readBytes address 16).map BdlEntry.ofBytes

/-- 32-bit and 16-bit addition; `none` is an overflow. -/
def add32 (a b : UInt32) : Option UInt32 := if a.toNat + b.toNat < 2 ^ 32 then some (a + b) else none

def add16 (a b : UInt16) : Option UInt16 := if a.toNat + b.toNat < 2 ^ 16 then some (a + b) else none

/-! ## Streams -/

/-- A chunk that was moved: the entry and the offset it was taken at, guest memory and the host side before, guest
memory after, and the bytes. -/
structure Moved (ε : Type u) where
  index : Nat
  offset : Nat
  entry : BdlEntry
  mem : GuestMemory
  host : ε
  after : GuestMemory
  bytes : List UInt8

inductive StreamEvent (ε : Type u)
  | moved (chunk : Moved ε)
  /-- The entry ended before the offset: the guest has shortened it. -/
  | skipped (index : Nat) (entry : BdlEntry) (mem : GuestMemory)
  /-- LPIB written to the position buffer. -/
  | position (lpib : Nat)
  /-- A descriptor or memory fault: the entry and the offset it happened at. -/
  | halted (index offset : Nat) (mem : GuestMemory)

/-- A stream, the guest memory it reaches and its host side. -/
structure Dma (ε : Type u) where
  stream : StreamDescriptor
  dpBase : UInt64
  mem : GuestMemory
  host : ε
  log : List (StreamEvent ε)

/-- What playback and capture do differently: the entry of the position buffer, what is done with a chunk at an address
(none: the address does not exist or is not backed), and what the host side hears when the guest sets and clears RUN and
of a fault. -/
structure Direction (ε : Type u) where
  positionEntry : UInt64
  transfer : PcmFormat → ε → GuestMemory → Option Nat → Nat → ε × Option (GuestMemory × List UInt8)
  started : ε → ε
  stopped : ε → ε
  faulted : ε → ε

namespace Dma

variable {ε : Type u}

def running (s : Dma ε) : Bool := s.stream.ctl &&& sdctlRun != 0

/-- The descriptor at the stream's entry. -/
def descriptor (s : Dma ε) : Option BdlEntry := readDescriptor s.mem s.stream.bdl s.stream.bdlIndex.toNat

/-- `halt_stream_dma`, `halt_capture_dma`. -/
def haltDma (d : Direction ε) (s : Dma ε) : Dma ε where
  stream := { s.stream with sts := s.stream.sts ||| sdstsDese, ctl := s.stream.ctl &&& ~~~sdctlRun }
  dpBase := s.dpBase
  mem := s.mem
  host := d.faulted s.host
  log := .halted s.stream.bdlIndex.toNat s.stream.bdlOffset.toNat s.mem :: s.log

/-- `complete_bdl_entry`, `complete_capture_entry`. -/
def completeBdlEntry (s : Dma ε) (flags : UInt32) : Option (Dma ε) :=
  let sts := if flags &&& bdlIoc != 0 then s.stream.sts ||| sdstsBcis else s.stream.sts
  let index := if s.stream.lvi ≤ s.stream.bdlIndex then some 0 else add16 s.stream.bdlIndex 1
  index.map fun bdlIndex => { s with stream := { s.stream with sts, bdlOffset := 0, bdlIndex } }

/-- `wrap_cyclic_buffer`, `wrap_capture_buffer`. -/
def wrapCyclicBuffer (s : Dma ε) : Dma ε :=
  { s with stream := { s.stream with lpib := 0, bdlIndex := 0, bdlOffset := 0 } }

/-- `write_position_buffer`, `write_capture_position`: an entry that is not backed is not written. -/
def writePositionBuffer (d : Direction ε) (s : Dma ε) : Dma ε :=
  if s.dpBase &&& 1 = 0 then s
  else
    let entry := (s.dpBase &&& ~~~0x7f) + d.positionEntry
    { s with
      mem := (s.mem.writeBytes entry.toNat (toLeBytes 4 s.stream.lpib.toNat)).1
      log := .position s.stream.lpib.toNat :: s.log }

/-- The entry is left at its end, or before the offset. -/
def skipEntry (s : Dma ε) (entry : BdlEntry) : Option (Dma ε) :=
  { s with log := .skipped s.stream.bdlIndex.toNat entry s.mem :: s.log }.completeBdlEntry entry.flags

/-- The cursor and LPIB move past a chunk. -/
def advance (d : Direction ε) (s : Dma ε) (entry : BdlEntry) (chunkLen : Nat) : Option (Dma ε) :=
  (add32 s.stream.bdlOffset (UInt32.ofNat chunkLen)).bind fun bdlOffset =>
    (add32 s.stream.lpib (UInt32.ofNat chunkLen)).bind fun lpib =>
      let s := { s with stream := { s.stream with bdlOffset, lpib } }.writePositionBuffer d
      let completed := if bdlOffset = entry.length then s.completeBdlEntry entry.flags else some s
      completed.map fun s =>
        if s.stream.cbl ≤ s.stream.lpib then s.wrapCyclicBuffer.writePositionBuffer d else s

/-- A chunk of an entry is moved. -/
def moveChunk (d : Direction ε) (format : PcmFormat) (s : Dma ε) (entry : BdlEntry) (chunkLen budget : Nat) :
    Option (Dma ε × Nat) :=
  let address := checkedAdd entry.address.toNat s.stream.bdlOffset.toNat
  match d.transfer format s.host s.mem address chunkLen with
  | (host, none) => some ({ s with host }.haltDma d, budget)
  | (host, some (mem, bytes)) =>
    let chunk : Moved ε :=
      ⟨s.stream.bdlIndex.toNat, s.stream.bdlOffset.toNat, entry, s.mem, s.host, mem, bytes⟩
    ({ s with mem, host, log := .moved chunk :: s.log }.advance d entry chunkLen).map fun s => (s, budget - chunkLen)

/-- How much of an entry is moved at once. -/
def chunkLen (s : Dma ε) (entry : BdlEntry) (budget : Nat) : Nat :=
  let remainingEntry := entry.length.toNat - s.stream.bdlOffset.toNat
  let remainingCbl := s.stream.cbl.toNat - min s.stream.lpib.toNat s.stream.cbl.toNat
  min (min budget remainingEntry) remainingCbl

/-- One round of the loop. -/
def dmaRound (d : Direction ε) (format : PcmFormat) (s : Dma ε) (budget : Nat) : Option (Dma ε × Nat) :=
  match s.descriptor with
  | none => some (s.haltDma d, budget)
  | some entry =>
    if entry.length = 0 then some (s.haltDma d, budget)
    else if entry.length ≤ s.stream.bdlOffset then (s.skipEntry entry).map fun s => (s, budget)
    else if s.chunkLen entry budget = 0 then some (s.wrapCyclicBuffer.writePositionBuffer d, budget)
    else s.moveChunk d format entry (s.chunkLen entry budget) budget

/-- The loop: while budget is left and RUN is set. A fault clears RUN, so that `break` is the test of the loop. -/
def dmaLoop (d : Direction ε) (format : PcmFormat) : Nat → Dma ε → Nat → Option (Dma ε × Nat)
  | 0, s, budget => some (s, budget)
  | rounds + 1, s, budget =>
    if 0 < budget ∧ s.running then (s.dmaRound d format budget).bind fun p => dmaLoop d format rounds p.1 p.2
    else some (s, budget)

/-- `consume_stream` and `fill_capture`, with the budget that is left; the rounds suffice (`dma_exits`). -/
def dma (d : Direction ε) (s : Dma ε) (budget : Nat) : Option (Dma ε × Nat) :=
  if budget = 0 ∨ s.stream.cbl = 0 ∨ s.stream.bdl = 0 then some (s, budget)
  else
    match streamPcmFormat s.stream.fmt with
    | none => some ({ s with stream := { s.stream with sts := s.stream.sts ||| sdstsDese } }, budget)
    | some format => dmaLoop d format (3 * budget + 2) s budget

/-! ## What the guest does between polls -/

/-- `write_stream_ctl`, `write_capture_ctl` without SRST: the cursor stays. -/
def writeCtl (d : Direction ε) (s : Dma ε) (next : UInt32) : Dma ε :=
  let ctl := next &&& ~~~sdctlSrst
  let host :=
    match s.running, ctl &&& sdctlRun != 0 with
    | false, true => d.started s.host
    | true, false => d.stopped s.host
    | _, _ => s.host
  { s with stream := { s.stream with ctl }, host }

/-- SRST; the log starts anew. -/
def streamReset (d : Direction ε) (s : Dma ε) : Dma ε :=
  { s with stream := s.stream.reset, host := if s.running then d.stopped s.host else s.host, log := [] }

/-- A poll with its budget, guest memory rewritten by the guest, RUN set or cleared, status bits acknowledged, the
position buffer moved. -/
inductive DmaOp
  | poll (budget : Nat)
  | memory (mem : GuestMemory)
  | control (next : UInt32)
  | acknowledge (bits : UInt8)
  | positionBase (base : UInt64)

def step (d : Direction ε) (s : Dma ε) : DmaOp → Option (Dma ε)
  | .poll budget => (s.dma d budget).map Prod.fst
  | .memory mem => some { s with mem }
  | .control next => some (s.writeCtl d next)
  | .acknowledge bits => some { s with stream := { s.stream with sts := s.stream.sts &&& ~~~bits } }
  | .positionBase dpBase => some { s with dpBase }

def run (d : Direction ε) (s : Dma ε) (ops : List DmaOp) : Option (Dma ε) := ops.foldlM (step d) s

end Dma

/-! ## Playback -/

/-- The installed sink: the chunks it was handed, oldest first. -/
abbrev PcmSink := Option (List (PcmFormat × List UInt8))

/-- Playback reads a chunk and hands it to the sink (`emit_pcm_chunk`). -/
def emitPcmChunk (format : PcmFormat) (sink : PcmSink) (mem : GuestMemory) (address : Option Nat) (chunkLen : Nat) :
    PcmSink × Option (GuestMemory × List UInt8) :=
  match address.bind fun address => mem.readBytes address chunkLen with
  | none => (sink, none)
  | some bytes => (sink.map fun received => received ++ [(format, bytes)], some (mem, bytes))

/-- Without the microphone playback has the first position entry. -/
def playback (microphone : Bool) : Direction PcmSink where
  positionEntry := if microphone then playbackPositionEntry else 0
  transfer := emitPcmChunk
  started := id
  stopped := id
  faulted := id

/-- `consume_stream`. -/
def consumeStream (microphone : Bool) (s : Dma PcmSink) (budget : Nat) : Option (Dma PcmSink × Nat) :=
  s.dma (playback microphone) budget

/-! ## Capture -/

/-- A host source: the bytes it fills of those it is asked for, and what it hears of a start and a stop. -/
structure PcmSource (σ : Type u) where
  readPcm : PcmFormat → Nat → σ → List UInt8 × σ
  streamStarted : σ → σ
  streamStopped : σ → σ

/-- The chunk a source fills: silence for what it has not. -/
def capturedChunk (chunkLen : Nat) (filled : List UInt8) : List UInt8 :=
  filled.take chunkLen ++ List.replicate (chunkLen - filled.length) 0

/-- Capture asks the source, when there is one, and stores the chunk; what the source gave for an address that is not
backed is lost. -/
def captureChunk {σ : Type u} (source : PcmSource σ) (format : PcmFormat) (host : Option σ) (mem : GuestMemory)
    (address : Option Nat) (chunkLen : Nat) : Option σ × Option (GuestMemory × List UInt8) :=
  let filled := (host.map fun state => (source.readPcm format chunkLen state).1).getD []
  let host := host.map fun state => (source.readPcm format chunkLen state).2
  let chunk := capturedChunk chunkLen filled
  match address with
  | none => (host, none)
  | some address =>
    let (mem, written) := mem.writeBytes address chunk
    (host, if written then some (mem, chunk) else none)

def capture {σ : Type u} (source : PcmSource σ) : Direction (Option σ) where
  positionEntry := capturePositionEntry
  transfer := captureChunk source
  started := fun host => host.map source.streamStarted
  stopped := fun host => host.map source.streamStopped
  faulted := fun host => host.map source.streamStopped

/-- `fill_capture`. -/
def fillCapture {σ : Type u} (source : PcmSource σ) (s : Dma (Option σ)) (budget : Nat) :
    Option (Dma (Option σ) × Nat) := s.dma (capture source) budget

end BridgeVm.Hda
