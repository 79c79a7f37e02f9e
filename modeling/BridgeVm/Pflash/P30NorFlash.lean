import BridgeVm.Lib.LittleEndian

/-!
# The writable flash bank (`pflash.rs`)

An Intel P30 command set over an array of bytes: what a write means depends on the mode that earlier writes left. `none`
is a panic of the code: a shift or a slice out of range.
-/

namespace BridgeVm.Pflash

open Lib

def cmdReadDeviceId : Nat := 0x90
def cmdReadStatusRegister : Nat := 0x70
def cmdClearStatusRegister : Nat := 0x50
def cmdReadArray : Nat := 0xff
def cmdReadCfiQuery : Nat := 0x98
def cmdWordProgramSetup : Nat := 0x40
def cmdAltWordProgramSetup : Nat := 0x10
def cmdBufferedProgramSetup : Nat := 0xe8
def cmdBlockEraseSetup : Nat := 0x20
def cmdLockBlockSetup : Nat := 0x60
def cmdConfirm : Nat := 0xd0

inductive Mode
  | readArray
  | readStatus
  | readId
  | readCfi
  | programWord
  | eraseSetup (blockBase : Nat)
  | lockSetup
  | awaitBufferCount
  | bufferData (remainingWords : Nat)
deriving DecidableEq, Repr

structure P30NorFlash where
  base : Nat
  blockSize : Nat
  blockSize_pos : 0 < blockSize
  bytes : List UInt8
  mode : Mode

/-- A write at an offset of the bank. -/
structure Write where
  offset : Nat
  size : Nat
  value : Nat
deriving DecidableEq, Repr

namespace P30NorFlash

variable (f : P30NorFlash)

/-- `offset`: `none` outside the bank. -/
def offset (gpa : Nat) : Option Nat :=
  if f.base ≤ gpa ∧ gpa - f.base < f.bytes.length then some (gpa - f.base) else none

/-- `read_array`: ones past the end of the bank. -/
def readArray (offset size : Nat) : Option Nat :=
  if 8 < size then none else some (ofLeBytes ((List.range size).map fun i => (f.bytes[offset + i]?).getD 0xff))

end P30NorFlash

/-- `status_value`. -/
def statusValue (size : Nat) : Nat :=
  if size = 1 ∨ size = 2 then 0x80 else if size = 4 then 0x00800080 else if size = 8 then 0x0080008000800080 else 0

/-- `cfi_value`. -/
def cfiValue (offset size : Nat) : Nat := if offset = 0x40 ∧ size = 4 then 0x00595251 else 0

/-- `command_byte`. -/
def commandByte (value : Nat) : Option Nat :=
  if value % 256 ∈ [cmdReadDeviceId, cmdReadStatusRegister, cmdClearStatusRegister, cmdReadArray, cmdReadCfiQuery,
      cmdWordProgramSetup, cmdAltWordProgramSetup, cmdBufferedProgramSetup, cmdConfirm, cmdBlockEraseSetup,
      cmdLockBlockSetup] then some (value % 256)
  else none

namespace P30NorFlash

variable (f : P30NorFlash)

def read (offset size : Nat) : Option Nat :=
  match f.mode with
  | .readStatus | .awaitBufferCount | .bufferData _ => some (statusValue size)
  | .readId => some 0
  | .readCfi => some (cfiValue offset size)
  | _ => f.readArray offset size

/-- The loop of `program`: bits are cleared, and what lies past the end of the bank is dropped. -/
def programBytes (bytes : List UInt8) (offset size value : Nat) : List UInt8 :=
  (List.range size).foldl (fun bytes i => bytes.modify (offset + i) fun byte => byte &&& UInt8.ofNat
    (value >>> (8 * i)))
    bytes

def program (w : Write) : Option P30NorFlash :=
  if 8 < w.size then none else some { f with bytes := programBytes f.bytes w.offset w.size w.value }

/-- `block_base`. -/
def blockBase (offset : Nat) : Nat := offset - offset % f.blockSize

/-- `erase_block`. -/
def eraseBlock (blockBase : Nat) : Option P30NorFlash :=
  let last := min (blockBase + f.blockSize) f.bytes.length
  if last < blockBase then none
  else some { f with bytes := f.bytes.take blockBase ++ List.replicate (last - blockBase) 0xff ++ f.bytes.drop last }

def command (offset cmd : Nat) : Option P30NorFlash :=
  if cmd = cmdReadArray then some { f with mode := .readArray }
  else if cmd = cmdReadStatusRegister ∨ cmd = cmdClearStatusRegister then some { f with mode := .readStatus }
  else if cmd = cmdReadDeviceId then some { f with mode := .readId }
  else if cmd = cmdReadCfiQuery then some { f with mode := .readCfi }
  else if cmd = cmdWordProgramSetup ∨ cmd = cmdAltWordProgramSetup then some { f with mode := .programWord }
  else if cmd = cmdBufferedProgramSetup then some { f with mode := .awaitBufferCount }
  else if cmd = cmdBlockEraseSetup then some { f with mode := .eraseSetup (f.blockBase offset) }
  else if cmd = cmdLockBlockSetup then some { f with mode := .lockSetup }
  else if cmd = cmdConfirm then
    let erased :=
      match f.mode with
      | .eraseSetup blockBase => f.eraseBlock blockBase
      | _ => some f
    erased.map fun f => { f with mode := .readStatus }
  else some f

def write (w : Write) : Option P30NorFlash :=
  match f.mode with
  | .programWord => (f.program w).map fun f => { f with mode := .readStatus }
  | .awaitBufferCount => some { f with mode := .bufferData (w.value % 256 + 1) }
  | .bufferData (remaining + 1) => (f.program w).map fun f => { f with mode := .bufferData remaining }
  | _ =>
    match commandByte w.value with
    | none => some f
    | some cmd => f.command w.offset cmd

end P30NorFlash

/-! ## Accesses -/

inductive MmioOp
  | read (size : Nat)
  | write (size value : Nat)
deriving DecidableEq, Repr

structure Access where
  gpa : Nat
  op : MmioOp
deriving DecidableEq, Repr

inductive MmioOutcome
  | unmapped
  | readValue (value : Nat)
  | writeAck
deriving DecidableEq, Repr

/-- The bank, and the writes it took, newest first. -/
structure Session where
  flash : P30NorFlash
  log : List Write

/-- `access`. -/
def Session.access (s : Session) (a : Access) : Option (Session × MmioOutcome) :=
  match s.flash.offset a.gpa with
  | none => some (s, .unmapped)
  | some offset =>
    match a.op with
    | .read size => (s.flash.read offset size).map fun value => (s, .readValue value)
    | .write size value =>
      (s.flash.write ⟨offset, size, value⟩).map fun flash =>
        (⟨flash, ⟨offset, size, value⟩ :: s.log⟩, .writeAck)

def Session.step (s : Session) (a : Access) : Option Session := (s.access a).map Prod.fst

end BridgeVm.Pflash
