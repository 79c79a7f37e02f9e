import Mathlib.Data.Nat.Log
import BridgeVm.Lib.LittleEndian
import BridgeVm.Lib.ReleaseAcquire
import BridgeVm.Lib.Transition

/-!
# The ring between the HDA and the host's audio callback

`hda_coreaudio_atomic_ring.rs`: a ring of PCM frames in atomic slots, two counters that wrap around `usize` and a flag.
One producer and any number of callbacks take one step for each access to an atomic; `System` also records the batches
that were accepted and refused, what was stored and what was copied out.
-/

namespace BridgeVm.Hda.PcmRing

open Lib

abbrev FRAME_BYTES : Nat := 4

/-- The values of a `usize`. -/
abbrev USIZE : Nat := 2 ^ 64

def wrappingAdd (a b : Nat) : Nat := (a + b) % USIZE

def wrappingSub (a b : Nat) : Nat := (a + USIZE - b) % USIZE

def checkedAdd (a b : Nat) : Option Nat := if a + b < USIZE then some (a + b) else none

def nextPowerOfTwo (n : Nat) : Nat := 2 ^ Nat.clog 2 n

/-! ## The ring -/

inductive Loc
  | slot (i : Nat)
  | head
  | tail
  | consuming
deriving DecidableEq

/-- What an atomic holds: a slot a `u32`, a counter a `usize`, the flag a `bool`. -/
abbrev Loc.Value : Loc → Type
  | .slot _ | .head | .tail => Nat
  | .consuming => Bool

instance : (l : Loc) → DecidableEq l.Value
  | .slot _ | .head | .tail => inferInstanceAs (DecidableEq Nat)
  | .consuming => inferInstanceAs (DecidableEq Bool)

/-- What a ring keeps for good. -/
structure AtomicPcmRing where
  logicalFrames : Nat
  mask : Nat
deriving DecidableEq

def AtomicPcmRing.new (capacityBytes : Nat) : AtomicPcmRing :=
  let logicalFrames := capacityBytes / FRAME_BYTES
  { logicalFrames, mask := nextPowerOfTwo (max logicalFrames 1) - 1 }

def AtomicPcmRing.slot (ring : AtomicPcmRing) (counter frame : Nat) : Nat := wrappingAdd counter frame &&& ring.mask

/-! ## The producer -/

/-- Byte `offset` of a batch in two parts. -/
def byteOf (first second : List UInt8) (offset : Nat) : UInt8 :=
  if offset < first.length then first.getD offset 0 else second.getD (offset - first.length) 0

/-- Frame `frame` of a batch, as a `u32`. -/
def wordOf (first second : List UInt8) (frame : Nat) : Nat :=
  ofLeBytes ((List.range FRAME_BYTES).map fun i => byteOf first second (frame * FRAME_BYTES + i))

/-- Where the producer stands in `publish_parts`. -/
inductive Publishing
  | idle
  | headLoaded (first second : List UInt8) (capacity bytes head : Nat)
  /-- The batch fits, and `frame` of its frames are in their slots. -/
  | copying (first second : List UInt8) (head frames frame : Nat)
deriving DecidableEq

/-! ## The callbacks -/

structure Consumer where
  cursor : Nat
  published : Nat
deriving DecidableEq

def Consumer.len (c : Consumer) : Nat := wrappingSub c.published c.cursor * FRAME_BYTES

/-- Where a callback stands. -/
inductive Draining
  | outside
  /-- In `try_consumer`, with the flag set. -/
  | claimed
  | cursorLoaded (cursor : Nat)
  | consumer (c : Consumer)
  /-- In `drain_into`, with `frame` of `frames` frames copied out. -/
  | copying (c : Consumer) (frames frame : Nat)
deriving DecidableEq

structure Callback where
  view : View Loc
  place : Draining

/-! ## The threads -/

structure System where
  memory : Memory Loc Loc.Value
  view : View Loc
  publishing : Publishing
  callbacks : Nat → Callback
  /-- The batches for which `publish_parts` has returned true. -/
  accepted : List (List UInt8)
  /-- The batches for which it has returned false. -/
  refused : List (List UInt8)
  /-- The stores to slots, each with its slot. -/
  written : List (Nat × Nat)
  /-- The frames of each drain that has returned. -/
  drains : List Nat
  /-- The frames copied out. -/
  copied : List Nat

/-- What has been written to the buffers of `drain_into`, in order. -/
def System.drained (s : System) : List UInt8 := s.copied.flatMap (toLeBytes FRAME_BYTES)

/-- A ring without frames, its counters anywhere. -/
def init (start : Nat) : System :=
  { memory := Memory.init fun
      | .slot _ => 0
      | .head | .tail => start
      | .consuming => false
    view := fun _ => 0
    publishing := .idle
    callbacks := fun _ => ⟨fun _ => 0, .outside⟩
    accepted := [], refused := [], written := [], drains := [], copied := [] }

inductive Action
  /-- `publish_parts` is called and, where its batch has whole frames, loads the head. -/
  | publish (first second : List UInt8) (capacity : Nat) (write : Nat)
  /-- The producer loads the tail and reserves the batch, if it fits. -/
  | loadTail (write : Nat)
  | storeSlot
  | commit
  /-- `try_consumer` sets the flag. -/
  | exchange (callback : Nat)
  /-- `try_consumer` finds the flag set. -/
  | exchangeFails (callback : Nat) (write : Nat)
  | loadCursor (callback : Nat) (write : Nat)
  | loadPublished (callback : Nat) (write : Nat)
  | drainInto (callback : Nat) (destination : Nat)
  | loadSlot (callback : Nat) (write : Nat)
  | storeTail (callback : Nat)
  | drop (callback : Nat)
deriving DecidableEq

def System.refuse (s : System) (first second : List UInt8) : System :=
  { s with publishing := .idle, refused := s.refused ++ [first ++ second] }

def System.setCallback (s : System) (callback : Nat) (c : Callback) : System :=
  { s with callbacks := Function.update s.callbacks callback c }

/-! ### Steps of the producer -/

def System.publish (s : System) (first second : List UInt8) (capacity write : Nat) : Option System :=
  match s.publishing, checkedAdd first.length second.length with
  | .idle, some bytes =>
    if bytes % FRAME_BYTES ≠ 0 then some (s.refuse first second)
    else (s.memory.loadRelaxed s.view .head write).map fun (head, view) =>
      { s with view, publishing := .headLoaded first second capacity bytes head }
  | .idle, none => some (s.refuse first second)
  | _, _ => none

def System.loadTail (ring : AtomicPcmRing) (s : System) (write : Nat) : Option System :=
  match s.publishing with
  | .headLoaded first second capacity bytes head =>
    (s.memory.loadAcquire s.view .tail write).map fun (tail, view) =>
      let frames := bytes / FRAME_BYTES
      let used := wrappingSub head tail
      let limit := min ring.logicalFrames (capacity / FRAME_BYTES)
      if frames > limit - used then { s with view }.refuse first second
      else { s with view, publishing := .copying first second head frames 0 }
  | _ => none

def System.storeSlot (ring : AtomicPcmRing) (s : System) : Option System :=
  match s.publishing with
  | .copying first second head frames frame =>
    if frame < frames then
      let slot := ring.slot head frame
      let word := wordOf first second frame
      let stored := s.memory.storeRelaxed s.view (.slot slot) word
      some { s with
        memory := stored.1, view := stored.2, publishing := .copying first second head frames (frame + 1),
        written := s.written ++ [(slot, word)] }
    else none
  | _ => none

def System.commit (s : System) : Option System :=
  match s.publishing with
  | .copying first second head frames frame =>
    if frame < frames then none
    else
      let stored := s.memory.storeRelease s.view .head (wrappingAdd head frames)
      some { s with
        memory := stored.1, view := stored.2, publishing := .idle, accepted := s.accepted ++ [first ++ second] }
  | _ => none

/-! ### Steps of a callback -/

def System.exchange (s : System) (callback : Nat) : Option System :=
  match (s.callbacks callback).place with
  | .outside =>
    (s.memory.exchangeAcquire (s.callbacks callback).view .consuming false true).map fun (memory, view) =>
      { s with memory }.setCallback callback ⟨view, .claimed⟩
  | _ => none

def System.exchangeFails (s : System) (callback write : Nat) : Option System :=
  match (s.callbacks callback).place, s.memory.loadRelaxed (s.callbacks callback).view .consuming write with
  | .outside, some (true, view) => some (s.setCallback callback ⟨view, .outside⟩)
  | _, _ => none

def System.loadCursor (s : System) (callback write : Nat) : Option System :=
  match (s.callbacks callback).place with
  | .claimed =>
    (s.memory.loadRelaxed (s.callbacks callback).view .tail write).map fun (cursor, view) =>
      s.setCallback callback ⟨view, .cursorLoaded cursor⟩
  | _ => none

def System.loadPublished (s : System) (callback write : Nat) : Option System :=
  match (s.callbacks callback).place with
  | .cursorLoaded cursor =>
    (s.memory.loadAcquire (s.callbacks callback).view .head write).map fun (published, view) =>
      s.setCallback callback ⟨view, .consumer ⟨cursor, published⟩⟩
  | _ => none

def System.drainInto (s : System) (callback destination : Nat) : Option System :=
  match s.callbacks callback with
  | ⟨view, .consumer c⟩ =>
    let frames := min (c.len / FRAME_BYTES) (destination / FRAME_BYTES)
    some (s.setCallback callback ⟨view, .copying c frames 0⟩)
  | _ => none

def System.loadSlot (ring : AtomicPcmRing) (s : System) (callback write : Nat) : Option System :=
  match s.callbacks callback with
  | ⟨view, .copying c frames frame⟩ =>
    if frame < frames then
      (s.memory.loadRelaxed view (.slot (ring.slot c.cursor frame)) write).map fun (word, view) =>
        { s with copied := s.copied ++ [word] }.setCallback callback ⟨view, .copying c frames (frame + 1)⟩
    else none
  | _ => none

def System.storeTail (s : System) (callback : Nat) : Option System :=
  match s.callbacks callback with
  | ⟨view, .copying c frames frame⟩ =>
    if frame < frames then none
    else
      let cursor := wrappingAdd c.cursor frames
      let stored := s.memory.storeRelease view .tail cursor
      some ({ s with memory := stored.1, drains := s.drains ++ [frames] }.setCallback callback
        ⟨stored.2, .consumer { c with cursor }⟩)
  | _ => none

def System.drop (s : System) (callback : Nat) : Option System :=
  match s.callbacks callback with
  | ⟨view, .consumer _⟩ =>
    let stored := s.memory.storeRelease view .consuming false
    some ({ s with memory := stored.1 }.setCallback callback ⟨stored.2, .outside⟩)
  | _ => none

def step (ring : AtomicPcmRing) (s : System) : Action → Option System
  | .publish first second capacity write => s.publish first second capacity write
  | .loadTail write => s.loadTail ring write
  | .storeSlot => s.storeSlot ring
  | .commit => s.commit
  | .exchange callback => s.exchange callback
  | .exchangeFails callback write => s.exchangeFails callback write
  | .loadCursor callback write => s.loadCursor callback write
  | .loadPublished callback write => s.loadPublished callback write
  | .drainInto callback destination => s.drainInto callback destination
  | .loadSlot callback write => s.loadSlot ring callback write
  | .storeTail callback => s.storeTail callback
  | .drop callback => s.drop callback

end BridgeVm.Hda.PcmRing
