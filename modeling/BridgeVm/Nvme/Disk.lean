import BridgeVm.Lib.ChunkMap

/-!
# The raw-file disk and its copy-on-write overlay (`nvme/disk.rs`, `nvme/disk_overlay.rs`)

A host file, and for a read-only disk a map of the 4 KiB chunks the guest wrote. Host calls that fail are inputs of the
operation (`HostIo`). Offsets and lengths are naturals: both lie inside the image, whose length is a 64-bit number.
-/

namespace BridgeVm.Nvme

open Lib

def fileOverlayChunkSize : Nat := 4096

inductive IoError
  /-- The overlay would reach `projected` bytes, over its quota. -/
  | outOfMemory (projected quota : Nat)
  | unexpectedEof
  /-- A host file call failed. -/
  | host
deriving DecidableEq, Repr

/-- The host file calls of one operation: which positional reads fail, and after how many bytes a write fails. -/
structure HostIo where
  readFails : Nat → Bool
  writeFails : Option Nat

/-- Every host call succeeds. -/
def HostIo.fine : HostIo := ⟨fun _ => false, none⟩

structure RawFileDisk where
  file : List UInt8
  len : Nat
  overlay : ChunkMap UInt8
  /-- Ceiling on the overlay. -/
  overlayQuotaBytes : Nat
  overlayBytes : Nat
  writeBack : Bool

/-- A disk on a file, with an empty overlay under `quota`. -/
def RawFileDisk.rawFile (file : List UInt8) (quota : Nat) (writeBack : Bool) : RawFileDisk where
  file := file
  len := file.length
  overlay := ∅
  overlayQuotaBytes := quota
  overlayBytes := 0
  writeBack := writeBack

/-- `read_exact_at` on the backing file. -/
def RawFileDisk.readExactAt (d : RawFileDisk) (io : HostIo) (offset n : Nat) : Except IoError (List UInt8) :=
  if io.readFails offset then .error .host
  else if d.file.length < offset + n then .error .unexpectedEof
  else .ok (slice d.file offset n)

/-- `write_all_at` on the backing file; a failing call may have written a prefix. -/
def RawFileDisk.writeAllAt (d : RawFileDisk) (io : HostIo) (offset : Nat) (data : List UInt8) :
    RawFileDisk × Except IoError Unit :=
  match io.writeFails with
  | none => ({ d with file := splice d.file offset data }, .ok ())
  | some n => ({ d with file := splice d.file offset (data.take n) }, .error .host)

/-- `chunk_len`. -/
def RawFileDisk.chunkLen (d : RawFileDisk) (base : Nat) : Except IoError Nat :=
  if base ≥ d.len then .error .unexpectedEof else .ok (min (d.len - base) fileOverlayChunkSize)

/-- The chunk a write goes into, and the overlay bytes once it is held: of the overlay, or a new one under the quota,
read from the backing file unless the write covers it whole. -/
def RawFileDisk.holdChunk (d : RawFileDisk) (io : HostIo) (base chunkLen chunkOff copyLen : Nat) :
    Except IoError (List UInt8 × Nat) :=
  match d.overlay[base]? with
  | some chunk => .ok (chunk, d.overlayBytes)
  | none =>
    let projected := d.overlayBytes + chunkLen
    if projected > d.overlayQuotaBytes then .error (.outOfMemory projected d.overlayQuotaBytes)
    else if chunkOff ≠ 0 ∨ copyLen ≠ chunkLen then
      (d.readExactAt io base chunkLen).map fun chunk => (chunk, projected)
    else .ok (List.replicate chunkLen 0, projected)

/-- One turn of the write loop, at `abs` with `rest` still to copy: the disk and the bytes copied. -/
def RawFileDisk.writeChunk (d : RawFileDisk) (io : HostIo) (abs : Nat) (rest : List UInt8) :
    Except IoError (RawFileDisk × Nat) :=
  let base := abs / fileOverlayChunkSize * fileOverlayChunkSize
  match d.chunkLen base with
  | .error e => .error e
  | .ok chunkLen =>
    let chunkOff := abs - base
    let copyLen := min rest.length (chunkLen - chunkOff)
    match d.holdChunk io base chunkLen chunkOff copyLen with
    | .error e => .error e
    | .ok (chunk, overlayBytes) =>
      .ok ({ d with
        overlay := d.overlay.insert base (splice chunk chunkOff (rest.take copyLen)),
        overlayBytes := overlayBytes }, copyLen)

inductive WriteResult
  | done
  | failed (e : IoError)
  /-- The loop copies nothing and never ends. -/
  | stuck
deriving DecidableEq, Repr

/-- The write loop; each turn copies at least one byte while the range lies in the image. -/
def RawFileDisk.writeChunks (io : HostIo) : Nat → RawFileDisk → Nat → List UInt8 → RawFileDisk × WriteResult
  | _, d, _, [] => (d, .done)
  | 0, d, _, _ :: _ => (d, .stuck)
  | fuel + 1, d, abs, b :: rest =>
    match d.writeChunk io abs (b :: rest) with
    | .error e => (d, .failed e)
    | .ok (d', copied) => writeChunks io fuel d' (abs + copied) ((b :: rest).drop copied)

/-- `write_at`. -/
def RawFileDisk.writeAt (d : RawFileDisk) (io : HostIo) (offset : Nat) (data : List UInt8) :
    RawFileDisk × WriteResult :=
  if data.isEmpty then (d, .done)
  else if d.writeBack then
    match d.writeAllAt io offset data with
    | (d', .ok ()) => (d', .done)
    | (d', .error e) => (d', .failed e)
  else writeChunks io data.length d offset data

/-- `read_at_into`: the span of the backing file with the overlay's chunks merged in. -/
def RawFileDisk.readAt (d : RawFileDisk) (io : HostIo) (offset n : Nat) : Except IoError (List UInt8) :=
  if n = 0 then .ok []
  else
    (d.readExactAt io offset n).map fun dst =>
      (d.overlay.range (offset - (fileOverlayChunkSize - 1)) (offset + n)).foldl (ChunkMap.mergeChunk offset) dst

end BridgeVm.Nvme
