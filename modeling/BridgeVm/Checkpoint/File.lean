import BridgeVm.Checkpoint.State
import BridgeVm.Lib.Splice
import Mathlib.Logic.Function.Basic

/-!
# The checkpoint file (`checkpoint/hvvcpu.rs`)

The registers of every vCPU, the nonzero chunks of guest RAM, and two opaque states, in five tagged sections behind a
header. A file is its bytes; reading it yields the checkpoint or the text of the error.
-/

namespace BridgeVm.Checkpoint

open Lib

/-- `BVMCKP03`. -/
def checkpointMagic : List UInt8 := [0x42, 0x56, 0x4d, 0x43, 0x4b, 0x50, 0x30, 0x33]

def checkpointVersion : UInt32 := 3

def sparseRamChunkSize : Nat := 16 * 1024

def sectionCount : UInt32 := 5

def maxSectionBytes : Nat := 128 * 1024 * 1024 * 1024

structure SparseRamChunk where
  offset : UInt64
  bytes : List UInt8
deriving DecidableEq, Repr

structure VcpuRegisterBundle where
  x : Vector UInt64 31
  pc : UInt64
  fpcr : UInt64
  fpsr : UInt64
  cpsr : UInt64
  sysRegs : List (UInt16 × UInt64)
  simd : Vector (Vector UInt8 16) 32
  gicIccRegs : List (UInt16 × UInt64)
  vtimerOffset : UInt64
  vtimerMasked : Bool
deriving DecidableEq, Repr

structure VmCheckpoint where
  ramLen : UInt64
  ramChunks : List SparseRamChunk
  vcpus : List VcpuRegisterBundle
  gicState : List UInt8
  deviceState : List UInt8
deriving DecidableEq, Repr

/-! ## Guest RAM -/

/-- The `i`-th chunk of `ram.chunks(SPARSE_RAM_CHUNK_SIZE)`. -/
def ramChunk (ram : List UInt8) (i : Nat) : List UInt8 := slice ram (i * sparseRamChunkSize) sparseRamChunkSize

/-- The chunk of the checkpoint at index `i`, unless all its bytes are zero. -/
def sparseChunk (ram : List UInt8) (i : Nat) : Option SparseRamChunk :=
  if (ramChunk ram i).any (· ≠ 0) then some ⟨.ofNat (i * sparseRamChunkSize), ramChunk ram i⟩ else none

/-- `sparse_ram_chunks`. -/
def sparseRamChunks (ram : List UInt8) : List SparseRamChunk :=
  (List.range ((ram.length + sparseRamChunkSize - 1) / sparseRamChunkSize)).filterMap (sparseChunk ram)

/-- One chunk of `restore_sparse_ram`. -/
def restoreChunk (ram : List UInt8) (chunk : SparseRamChunk) : Except String (List UInt8) :=
  let start := chunk.offset.toNat
  let stop := start + chunk.bytes.length
  if 2 ^ 64 ≤ stop then throw "RAM chunk range overflow"
  else if ram.length < stop ∨ sparseRamChunkSize < chunk.bytes.length then throw "RAM chunk is outside guest RAM"
  else return splice ram start chunk.bytes

/-- `restore_sparse_ram`. -/
def restoreSparseRam (ram : List UInt8) (chunks : List SparseRamChunk) : Except String (List UInt8) :=
  chunks.foldlM restoreChunk (List.replicate ram.length 0)

/-- `VmCheckpoint::capture`, with what it reads from the hypervisor given. -/
def capture (vcpus : List VcpuRegisterBundle) (ram gicState deviceState : List UInt8) : Except String VmCheckpoint :=
  if vcpus = [] then throw "checkpoint requires at least one vCPU"
  else
    return { ramLen := .ofNat ram.length, ramChunks := sparseRamChunks ram, vcpus := vcpus, gicState := gicState,
             deviceState := deviceState }

/-! ## Encoding -/

def encodeRamChunk (chunk : SparseRamChunk) : List UInt8 := writeU64 chunk.offset ++ writeBlob chunk.bytes

def encodeRamChunks (chunks : List SparseRamChunk) : List UInt8 :=
  writeU32 (.ofNat chunks.length) ++ writeU32 0 ++ chunks.flatMap encodeRamChunk

/-- A system register or a GIC register, with its value. -/
def encodeReg (entry : UInt16 × UInt64) : List UInt8 :=
  writeU16 entry.1 ++ writeU16 0 ++ writeU32 0 ++ writeU64 entry.2

def encodeRegs (entries : List (UInt16 × UInt64)) : List UInt8 :=
  writeU32 (.ofNat entries.length) ++ entries.flatMap encodeReg

def encodeVcpu (state : VcpuRegisterBundle) : List UInt8 :=
  state.x.toList.flatMap writeU64 ++ writeU64 state.pc ++ writeU64 state.fpcr ++ writeU64 state.fpsr ++
    writeU64 state.cpsr ++ encodeRegs state.sysRegs ++ state.simd.toList.flatMap Vector.toList ++
    encodeRegs state.gicIccRegs ++ writeU64 state.vtimerOffset ++ writeBool state.vtimerMasked ++ List.replicate 7 0

def encodeVcpus (vcpus : List VcpuRegisterBundle) : List UInt8 :=
  writeU32 (.ofNat vcpus.length) ++ vcpus.flatMap encodeVcpu

def encodeMeta (ramLen : UInt64) : List UInt8 :=
  writeU64 ramLen ++ writeU32 (.ofNat sparseRamChunkSize) ++ writeU32 0

/-- The sections of a checkpoint file. -/
inductive SectionTag
  | metadata
  | ram
  | vcpu
  | gic
  | device
deriving DecidableEq, Repr

namespace SectionTag

/-- `META`, `RAM0`, `VCPU`, `GIC0` and `DEV0`. -/
def bytes : SectionTag → List UInt8
  | metadata => [0x4d, 0x45, 0x54, 0x41]
  | ram => [0x52, 0x41, 0x4d, 0x30]
  | vcpu => [0x56, 0x43, 0x50, 0x55]
  | gic => [0x47, 0x49, 0x43, 0x30]
  | device => [0x44, 0x45, 0x56, 0x30]

/-- The order in which `write_to` writes them. -/
def all : List SectionTag := [metadata, ram, vcpu, gic, device]

/-- The slot for a tag. -/
def ofBytes (tag : List UInt8) : Option SectionTag := all.find? fun kind => kind.bytes = tag

end SectionTag

/-- `write_section`. -/
def writeSection (tag payload : List UInt8) : List UInt8 :=
  tag ++ writeU32 0 ++ writeU64 (.ofNat payload.length) ++ payload

def checkpointHeader : List UInt8 := checkpointMagic ++ writeU32 checkpointVersion ++ writeU32 sectionCount

namespace VmCheckpoint

def payload (c : VmCheckpoint) : SectionTag → List UInt8
  | .metadata => encodeMeta c.ramLen
  | .ram => encodeRamChunks c.ramChunks
  | .vcpu => encodeVcpus c.vcpus
  | .gic => c.gicState
  | .device => c.deviceState

/-- The file of a checkpoint with its sections in the given order. -/
def fileInOrder (c : VmCheckpoint) (order : List SectionTag) : List UInt8 :=
  checkpointHeader ++ order.flatMap fun kind => writeSection kind.bytes (c.payload kind)

/-- `VmCheckpoint::write_to`. -/
def writeTo (c : VmCheckpoint) : List UInt8 := c.fileInOrder SectionTag.all

end VmCheckpoint

/-! ## Decoding -/

open Cursor Reader

/-- One round of `decode_ram_chunks`. -/
def decodeRamChunk (ramLen : UInt64) (previousEnd : Nat) : Cursor SparseRamChunk := do
  let offset ← u64
  let bytes ← blob
  let stop := offset.toNat + bytes.length
  check (stop < 2 ^ 64) "RAM chunk range overflow"
  check (previousEnd ≤ offset.toNat ∧ stop ≤ ramLen.toNat ∧ bytes ≠ [] ∧
    bytes.length ≤ sparseRamChunkSize ∧
    offset.toNat % sparseRamChunkSize = 0) "invalid or overlapping sparse RAM chunk"
  return ⟨offset, bytes⟩

/-- The loop of `decode_ram_chunks`. -/
def decodeRamChunksLoop (ramLen : UInt64) : Nat → Nat → Cursor (List SparseRamChunk)
  | 0, _ => return []
  | count + 1, previousEnd => do
    let chunk ← decodeRamChunk ramLen previousEnd
    let chunks ← decodeRamChunksLoop ramLen count (chunk.offset.toNat + chunk.bytes.length)
    return chunk :: chunks

/-- `decode_ram_chunks`. -/
def decodeRamChunks (data : List UInt8) (ramLen : UInt64) : Except String (List SparseRamChunk) :=
  runOn data <| finishing "trailing bytes in RAM0" do
    let count ← u32
    let reserved ← u32
    check (reserved = 0) "invalid RAM0 reserved field"
    decodeRamChunksLoop ramLen count.toNat 0

/-- One entry of a register list. -/
def decodeReg (error : String) : Cursor (UInt16 × UInt64) := do
  let reg ← u16
  let reserved ← u16
  check (reserved = 0) error
  let reserved ← u32
  check (reserved = 0) error
  let value ← u64
  return (reg, value)

def decodeRegs (error : String) : Cursor (List (UInt16 × UInt64)) := do
  let count ← u32
  times (decodeReg error) count.toNat

def decodeVtimerMasked : Cursor Bool := do
  let value ← u8
  if value = 0 then return false
  else if value = 1 then return true
  else throw "invalid vtimer mask value"

/-- One round of `decode_vcpus`; a SIMD register is read byte by byte here. -/
def decodeVcpu : Cursor VcpuRegisterBundle := do
  let x ← vector u64 31
  let pc ← u64
  let fpcr ← u64
  let fpsr ← u64
  let cpsr ← u64
  let sysRegs ← decodeRegs "invalid VCPU system-register entry"
  let simd ← vector (vector u8 16) 32
  let gicIccRegs ← decodeRegs "invalid VCPU GIC-register entry"
  let vtimerOffset ← u64
  let vtimerMasked ← decodeVtimerMasked
  let reserved ← take 7
  check (reserved.all (· = 0)) "invalid VCPU reserved bytes"
  return { x, pc, fpcr, fpsr, cpsr, sysRegs, simd, gicIccRegs, vtimerOffset, vtimerMasked }

/-- `decode_vcpus`. -/
def decodeVcpus (data : List UInt8) : Except String (List VcpuRegisterBundle) :=
  runOn data <| finishing "trailing bytes in VCPU section" do
    let count ← u32
    times decodeVcpu count.toNat

/-- The META section; its three checks share one text. -/
def decodeMeta (data : List UInt8) : Except String UInt64 :=
  runOn data <| finishing "invalid META section" do
    let ramLen ← u64
    let chunkSize ← u32
    let reserved ← u32
    check (chunkSize.toNat = sparseRamChunkSize ∧ reserved = 0) "invalid META section"
    return ramLen

/-! ## Reading a file -/

/-- `read_exact` of a buffer of `len` bytes. -/
def readExact (len : Nat) : Cursor (List UInt8) := fun s =>
  if s.rest.length < len then .error "failed to fill whole buffer"
  else .ok (s.rest.take len, ⟨s.pos + len, s.rest.drop len⟩)

/-- `read_section`. -/
def readSection : Cursor (List UInt8 × List UInt8) := do
  let header ← readExact 16
  let flags := ofLeBytes (slice header 4 4)
  let len := ofLeBytes (slice header 8 8)
  check (flags = 0 ∧ len ≤ maxSectionBytes) "invalid checkpoint section header"
  let payload ← readExact len
  return (header.take 4, payload)

/-- The payload slots of `read_from_path`. -/
abbrev Slots := SectionTag → Option (List UInt8)

/-- The section loop of `read_from_path`. -/
def readSections : Nat → Slots → Cursor Slots
  | 0, slots => return slots
  | n + 1, slots => do
    let entry ← readSection
    match SectionTag.ofBytes entry.1 with
    | none => throw "unknown checkpoint section"
    | some kind =>
      check (slots kind).isNone "duplicate checkpoint section"
      readSections n (Function.update slots kind (some entry.2))

/-- The header of `read_from_path`: the number of sections. -/
def readHeader : Cursor UInt32 := do
  let header ← readExact 16
  check (header.take 8 = checkpointMagic) "checkpoint magic mismatch"
  let version : UInt32 := .ofNat (ofLeBytes (slice header 8 4))
  check (version = checkpointVersion) s!"unsupported checkpoint version {version}"
  let count : UInt32 := .ofNat (ofLeBytes (slice header 12 4))
  check (count = sectionCount) s!"checkpoint has {count} sections, expected {sectionCount}"
  return count

def readSlots (file : List UInt8) : Except String Slots :=
  runOn file <| finishing "trailing bytes after checkpoint sections" do
    let count ← readHeader
    readSections count.toNat fun _ => none

/-- `ok_or_else`. -/
def required (slot : Option (List UInt8)) (error : String) : Except String (List UInt8) :=
  match slot with
  | none => throw error
  | some payload => return payload

/-- The checkpoint of the five payloads. -/
def decodeSlots (slots : Slots) : Except String VmCheckpoint := do
  let ramLen ← required (slots .metadata) "missing META" >>= decodeMeta
  let ramChunks ← required (slots .ram) "missing RAM0" >>= fun data => decodeRamChunks data ramLen
  let vcpus ← required (slots .vcpu) "missing VCPU" >>= decodeVcpus
  let gicState ← required (slots .gic) "missing GIC0"
  let deviceState ← required (slots .device) "missing DEV0"
  return { ramLen, ramChunks, vcpus, gicState, deviceState }

/-- `VmCheckpoint::read_from_path`. -/
def readFromPath (file : List UInt8) : Except String VmCheckpoint := readSlots file >>= decodeSlots

end BridgeVm.Checkpoint
