import BridgeVm.Lib.LittleEndian

/-!
# Config space of one PCIe function (`pcie/cfg_addr.rs`, `cfg_regs.rs`, `bar.rs`, `function.rs`, `capabilities.rs`)

A function answers dword reads and writes of its config space: identity registers, the command register, six Base
Address Registers and the bytes of its capability list, of which a few are writable.
-/

namespace BridgeVm.Pcie

open Lib

/-- Bus, device and function. -/
abbrev Bdf := UInt8 × UInt8 × UInt8

/-! ## ECAM addresses -/

/-- `CfgAddr`: which function's config space, and the register offset within it. -/
structure CfgAddr where
  bus : UInt8
  device : UInt8
  function : UInt8
  reg : UInt16
deriving DecidableEq, Repr

def CfgAddr.fromEcamOffset (ecamOffset : UInt64) : CfgAddr where
  bus := ((ecamOffset >>> 20) &&& 0xff).toUInt8
  device := ((ecamOffset >>> 15) &&& 0x1f).toUInt8
  function := ((ecamOffset >>> 12) &&& 0x7).toUInt8
  reg := (ecamOffset &&& 0xfff).toUInt16

def CfgAddr.bdf (a : CfgAddr) : Bdf := (a.bus, a.device, a.function)

/-! ## Registers -/

def regVendorDevice : UInt16 := 0x00
def regCommandStatus : UInt16 := 0x04
def regRevisionClass : UInt16 := 0x08
def regBistHeader : UInt16 := 0x0c
def regBar0 : UInt16 := 0x10
def regSubsystemIds : UInt16 := 0x2c
def regCapPtr : UInt16 := 0x34
def regInterruptLinePin : UInt16 := 0x3c

def numBars : Nat := 6

def headerTypeEndpoint : UInt8 := 0x00

def cmdIoSpace : UInt16 := (1 : UInt16) <<< 0
def cmdMemorySpace : UInt16 := (1 : UInt16) <<< 1
def cmdBusMaster : UInt16 := (1 : UInt16) <<< 2
def cmdWritableMask : UInt16 := cmdIoSpace ||| cmdMemorySpace ||| cmdBusMaster

def statusCapList : UInt16 := (1 : UInt16) <<< 4

def allOnes (size : UInt8) : UInt64 :=
  if size = 1 then 0xff else if size = 2 then 0xffff else 0xffffffff

/-- The field of `size` bytes at `reg` of a dword. -/
def extract (dword : UInt32) (reg : UInt16) (size : UInt8) : UInt64 :=
  (dword >>> ((reg &&& 0x3).toUInt32 * 8)).toUInt64 &&& allOnes size

/-- Merge a write of `size` bytes at `reg` into a dword. -/
def insert (dword : UInt32) (reg : UInt16) (size : UInt8) (value : UInt64) : UInt32 :=
  let shift := (reg &&& 0x3).toUInt32 * 8
  let widthMask := (allOnes size).toUInt32
  (dword &&& ~~~(widthMask <<< shift)) ||| ((value.toUInt32 &&& widthMask) <<< shift)

/-! ## Base Address Registers -/

inductive BarKind where
  | memory32
  | memory64Low
  | memory64High
  | io
deriving DecidableEq, Repr

/-- `Bar`; a zero `sizeMask` means that the BAR is unimplemented. -/
structure Bar where
  value : UInt32
  sizeMask : UInt32
  typeBits : UInt32
  sizingProbe : Bool
  kind : BarKind
deriving DecidableEq, Repr

namespace Bar

/-- `Bar::default()`. -/
def unimplemented : Bar := ⟨0, 0, 0, false, .memory32⟩

/-- What the constructors assert of a size. -/
def ValidSize (least size : UInt32) : Prop := least ≤ size ∧ size &&& (size - 1) = 0

instance (least size : UInt32) : Decidable (ValidSize least size) := inferInstanceAs (Decidable (_ ∧ _))

def memory32 (size : UInt32) (_ : ValidSize 0x10 size) : Bar := ⟨0, ~~~(size - 1), 0, false, .memory32⟩

def memory64WithTypeBits (size : UInt32) (_ : ValidSize 0x10 size) (lowTypeBits : UInt32) : Bar × Bar :=
  (⟨0, ~~~(size - 1), lowTypeBits, false, .memory64Low⟩, ⟨0, 0xffffffff, 0, false, .memory64High⟩)

def memory64 (size : UInt32) (h : ValidSize 0x10 size) : Bar × Bar := memory64WithTypeBits size h 0x4

def memory64Prefetchable (size : UInt32) (h : ValidSize 0x10 size) : Bar × Bar := memory64WithTypeBits size h 0x0c

def io (size : UInt32) (_ : ValidSize 0x4 size) : Bar := ⟨0, ~~~(size - 1), 0x1, false, .io⟩

def read (b : Bar) : UInt32 := if b.sizeMask = 0 then 0 else b.value

/-- A 32-bit write: all ones is the sizing probe, anything else programs a base. -/
def write (b : Bar) (value : UInt32) : Bar :=
  if b.sizeMask = 0 then b
  else if value = 0xffffffff then { b with sizingProbe := true, value := b.sizeMask ||| b.typeBits }
  else { b with sizingProbe := false, value := (value &&& b.sizeMask) ||| b.typeBits }

/-- Size of the decoded region, or zero. -/
def size (b : Bar) : UInt64 :=
  if b.sizeMask = 0 then 0
  else
    match b.kind with
    | .memory32 | .memory64Low => (~~~(b.sizeMask &&& ~~~(0xf : UInt32)) + 1).toUInt64
    | .memory64High => 0
    | .io => (~~~(b.sizeMask &&& ~~~(0x3 : UInt32)) + 1).toUInt64

/-- Programmed base, if the BAR is implemented. -/
def base (b : Bar) : Option UInt64 :=
  if b.sizeMask = 0 then none
  else
    match b.kind with
    | .memory32 | .memory64Low => some (b.value &&& b.sizeMask &&& ~~~(0xf : UInt32)).toUInt64
    | .memory64High => none
    | .io => some (b.value &&& b.sizeMask &&& ~~~(0x3 : UInt32)).toUInt64

def assignedBase (b : Bar) : Option UInt64 := do
  let base ← b.base
  match b.kind with
  | .memory32 | .memory64Low => if base ≠ 0 ∧ !b.sizingProbe then some base else none
  | .io => if !b.sizingProbe then some base else none
  | .memory64High => none

/-- Offset into this BAR for `addr`, if the BAR decodes it. -/
def offsetOf (b : Bar) (addr : UInt64) : Option UInt64 := do
  let base ← b.assignedBase
  if addr < base then none
  else if addr - base < b.size then some (addr - base) else none

def pioOffsetOf (b : Bar) (port : UInt64) : Option UInt64 := if b.kind = .io then b.offsetOf port else none

end Bar

/-! ## Functions -/

/-- `Function`: the config-space record. -/
structure Function where
  bdf : Bdf
  vendorDevice : UInt32
  revisionClass : UInt32
  subsystemIds : UInt32
  command : UInt16
  bars : Vector Bar numBars
  capPtr : UInt8
  interruptPin : UInt8
  capBytes : List (UInt16 × UInt8)
deriving DecidableEq, Repr

/-- `MsixFunctionControl`. -/
structure MsixFunctionControl where
  enabled : Bool
  functionMasked : Bool
deriving DecidableEq, Repr

/-- `MsixFunctionControl::default()`. -/
def MsixFunctionControl.off : MsixFunctionControl := ⟨false, false⟩

/-- `HdaMsiConfig`. -/
structure HdaMsiConfig where
  enabled : Bool
  address : UInt64
  data : UInt32
deriving DecidableEq, Repr

/-- `HdaMsiConfig::default()`. -/
def HdaMsiConfig.off : HdaMsiConfig := ⟨false, 0, 0⟩

def capIdPm : UInt8 := 0x01
def capIdMsi : UInt8 := 0x05
def capIdMsix : UInt8 := 0x11

def pmCapD1 : UInt16 := (1 : UInt16) <<< 9
def pmCapD2 : UInt16 := (1 : UInt16) <<< 10

/-- `HDA_MSI_CAP_BYTES.len()`. -/
def msiCapLen : UInt16 := 14

/-- `MsixCapability::SIZE_BYTES`. -/
def msixCapLen : UInt16 := 12

/-- `u16::from_le_bytes`. -/
def u16FromLe (lo hi : UInt8) : UInt16 := lo.toUInt16 ||| (hi.toUInt16 <<< 8)

/-- `u32::from_le_bytes`. -/
def u32FromLe (b₀ b₁ b₂ b₃ : UInt8) : UInt32 :=
  b₀.toUInt32 ||| (b₁.toUInt32 <<< 8) ||| (b₂.toUInt32 <<< 16) ||| (b₃.toUInt32 <<< 24)

/-- The first byte listed at an offset. -/
def byteAt (bytes : List (UInt16 × UInt8)) (off : UInt16) : UInt8 :=
  ((bytes.find? fun p => p.1 = off).map Prod.snd).getD 0

/-- Replace the first byte listed at an offset, or list it last. -/
def setByte (off : UInt16) (value : UInt8) : List (UInt16 × UInt8) → List (UInt16 × UInt8)
  | [] => [(off, value)]
  | p :: bytes => if p.1 = off then (p.1, value) :: bytes else p :: setByte off value bytes

namespace Function

def readCapabilityDword (f : Function) (reg : UInt16) : UInt32 :=
  u32FromLe (byteAt f.capBytes reg) (byteAt f.capBytes (reg + 1)) (byteAt f.capBytes (reg + 2))
    (byteAt f.capBytes (reg + 3))

def capabilityByte (f : Function) (off : UInt16) : UInt8 := byteAt f.capBytes off

def setCapabilityByte (f : Function) (off : UInt16) (value : UInt8) : Function :=
  { f with capBytes := setByte off value f.capBytes }

/-- The loop of `capability_offset`, from the capability at `cap`. -/
def capabilityFrom (f : Function) (capabilityId : UInt8) : Nat → UInt8 → Option UInt16
  | 0, _ => none
  | n + 1, cap =>
    if cap = 0 then none
    else if f.capabilityByte cap.toUInt16 = capabilityId then some cap.toUInt16
    else f.capabilityFrom capabilityId n (f.capabilityByte (cap.toUInt16 + 1))

def capabilityOffset (f : Function) (capabilityId : UInt8) : Option UInt16 :=
  f.capabilityFrom capabilityId 32 f.capPtr

def msixCapabilityOffset (f : Function) : Option UInt16 := f.capabilityOffset capIdMsix

/-- One byte of a write into the MSI capability at `cap`. -/
def writeMsiByte (cap reg : UInt16) (f : Function) (byte : UInt16 × UInt8) : Function :=
  let off := reg + byte.1
  if off < cap then f
  else if off - cap = 2 then
    f.setCapabilityByte off ((f.capabilityByte off &&& ~~~(0x01 : UInt8)) ||| (byte.2 &&& 0x01))
  else if off - cap = 4 then f.setCapabilityByte off (byte.2 &&& ~~~(0x03 : UInt8))
  else if 5 ≤ off - cap ∧ off - cap ≤ 13 then f.setCapabilityByte off byte.2
  else f

/-- The bytes of a dword, with their places. -/
def placedBytes (value : UInt32) : List (UInt16 × UInt8) := List.zip [0, 1, 2, 3] (toLeBytes 4 value.toNat)

/-- `write_msi_capability_dword`: none when the write is not the capability's. -/
def writeMsiCapabilityDword (f : Function) (reg : UInt16) (value : UInt32) : Option Function := do
  let cap ← f.capabilityOffset capIdMsi
  if reg + 4 ≤ cap ∨ cap + msiCapLen ≤ reg then none
  else some ((placedBytes value).foldl (writeMsiByte cap reg) f)

/-- `write_pm_capability_dword`: the power state, unless the transition is unsupported. -/
def writePmCapabilityDword (f : Function) (reg : UInt16) (value : UInt32) : Option Function := do
  let cap ← f.capabilityOffset capIdPm
  let pmcsr := cap + 4
  if reg ≠ pmcsr then none
  else
    let pmc := u16FromLe (f.capabilityByte (cap + 2)) (f.capabilityByte (cap + 3))
    let current := f.capabilityByte pmcsr
    let old := current &&& 0x03
    let requested := (value &&& 0x03).toUInt8
    let unsupported := (requested = 1 ∧ pmc &&& pmCapD1 = 0) ∨ (requested = 2 ∧ pmc &&& pmCapD2 = 0) ∨
      (old ≠ 0 ∧ requested ≠ 0 ∧ requested < old)
    if unsupported then some f
    else some (f.setCapabilityByte pmcsr ((current &&& ~~~(0x03 : UInt8)) ||| requested))

/-- The message control word with one byte of the write merged in. -/
def mergeControlByte (controlOff reg : UInt16) (requested : UInt16) (byte : UInt16 × UInt8) : UInt16 :=
  if reg + byte.1 = controlOff then (requested &&& ~~~(0x00ff : UInt16)) ||| byte.2.toUInt16
  else if reg + byte.1 = controlOff + 1 then (requested &&& ~~~(0xff00 : UInt16)) ||| (byte.2.toUInt16 <<< 8)
  else requested

/-- The MSI-X part of `write_capability_dword`: only the enable and function mask bits are writable. -/
def writeMsixCapabilityDword (f : Function) (reg : UInt16) (value : UInt32) : Option Function := do
  let cap ← f.msixCapabilityOffset
  if reg + 4 ≤ cap ∨ cap + msixCapLen ≤ reg then none
  else
    let controlOff := cap + 2
    let current := u16FromLe (f.capabilityByte controlOff) (f.capabilityByte (controlOff + 1))
    let requested := (placedBytes value).foldl (mergeControlByte controlOff reg) current
    let next := (current &&& ~~~(0xc000 : UInt16)) ||| (requested &&& 0xc000)
    some ((f.setCapabilityByte controlOff next.toUInt8).setCapabilityByte (controlOff + 1) (next >>> 8).toUInt8)

/-- `write_capability_dword`: none when the write is no capability's. -/
def writeCapabilityDword (f : Function) (reg : UInt16) (value : UInt32) : Option Function :=
  f.writeMsiCapabilityDword reg value <|> f.writePmCapabilityDword reg value <|> f.writeMsixCapabilityDword reg value

def msiConfig (f : Function) : Option HdaMsiConfig := do
  let cap ← f.capabilityOffset capIdMsi
  let byte := fun off => f.capabilityByte (cap + off)
  let control := u16FromLe (byte 2) (byte 3)
  let addressLow := u32FromLe (byte 4) (byte 5) (byte 6) (byte 7)
  let addressHigh := u32FromLe (byte 8) (byte 9) (byte 10) (byte 11)
  let data := u16FromLe (byte 12) (byte 13)
  some ⟨control &&& 0x0001 != 0, (addressHigh.toUInt64 <<< 32) ||| addressLow.toUInt64, data.toUInt32⟩

def msixControl (f : Function) : Option MsixFunctionControl := do
  let controlOff := (← f.msixCapabilityOffset) + 2
  let control := u16FromLe (f.capabilityByte controlOff) (f.capabilityByte (controlOff + 1))
  some ⟨control &&& 0x8000 != 0, control &&& 0x4000 != 0⟩

/-- The BAR whose register contains `reg`, if one does. -/
def barIndex (reg : UInt16) : Option (Fin numBars) :=
  if regBar0 ≤ reg ∧ reg < regBar0 + 24 then some (.ofNat 6 ((reg - regBar0) / 4).toNat) else none

/-- `read_dword`. -/
def readDword (f : Function) (reg : UInt16) : UInt32 :=
  if reg = regVendorDevice then f.vendorDevice
  else if reg = regCommandStatus then
    let status := if f.capPtr ≠ 0 then statusCapList else 0
    f.command.toUInt32 ||| (status.toUInt32 <<< 16)
  else if reg = regRevisionClass then f.revisionClass
  else if reg = regBistHeader then headerTypeEndpoint.toUInt32 <<< 16
  else if reg = regSubsystemIds then f.subsystemIds
  else if reg = regCapPtr then f.capPtr.toUInt32
  else if reg = regInterruptLinePin then f.interruptPin.toUInt32 <<< 8
  else
    match barIndex reg with
    | some idx => (f.bars.get idx).read
    | none => f.readCapabilityDword reg

/-- `write_dword`: everything but the command, the BARs and a few capability bytes is read-only. -/
def writeDword (f : Function) (reg : UInt16) (value : UInt32) : Function :=
  if reg = regCommandStatus then { f with command := value.toUInt16 &&& cmdWritableMask }
  else
    match barIndex reg with
    | some idx => { f with bars := f.bars.set idx ((f.bars.get idx).write value) }
    | none => (f.writeCapabilityDword reg value).getD f

/-- `memory64_assigned_base`. -/
def memory64AssignedBase (f : Function) (idx : Nat) : Option UInt64 := do
  let low ← f.bars[idx]?
  let high ← f.bars[idx + 1]?
  if low.kind ≠ .memory64Low ∨ high.kind ≠ .memory64High then none
  else if low.sizingProbe || high.sizingProbe then none
  else
    let base := (high.value.toUInt64 <<< 32) ||| (← low.base)
    if base ≠ 0 then some base else none

end Function

end BridgeVm.Pcie
