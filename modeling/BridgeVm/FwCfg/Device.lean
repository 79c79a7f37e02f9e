import BridgeVm.GuestMemory
import BridgeVm.Lib.AssocMap
import BridgeVm.Lib.BigEndian
import BridgeVm.Lib.Splice

/-!
# The firmware-configuration device (`fwcfg.rs`)

Items of bytes under 16-bit keys, one of them selected, and a cursor into it. The data register gives the bytes of the
item one by one; a DMA command, which lies in guest memory, moves many of them.
-/

namespace BridgeVm

open Lib

/-! ## Registers and control words -/

namespace FwCfg

/-- `REG_DATA`. -/
def regData : UInt64 := 0x00

/-- `REG_SELECTOR`. -/
def regSelector : UInt64 := 0x08

/-- `REG_DMA`. -/
def regDma : UInt64 := 0x10

/-- `KEY_SIGNATURE`. -/
def keySignature : UInt16 := 0x0000

/-- `KEY_ID`. -/
def keyId : UInt16 := 0x0001

/-- `KEY_FILE_DIR`. -/
def keyFileDir : UInt16 := 0x0019

/-- `DMA_CTL_ERROR`. -/
def dmaCtlError : UInt32 := 0x01

/-- `DMA_CTL_READ`. -/
def dmaCtlRead : UInt32 := 0x02

/-- `DMA_CTL_SKIP`. -/
def dmaCtlSkip : UInt32 := 0x04

/-- `DMA_CTL_SELECT`. -/
def dmaCtlSelect : UInt32 := 0x08

/-- `DMA_CTL_WRITE`. -/
def dmaCtlWrite : UInt32 := 0x10

/-- `DMA_REG_SIGNATURE`. -/
def dmaRegSignature : UInt64 := 0x51454d5520434647

end FwCfg

structure FwCfgDmaAccess where
  control : UInt32
  length : UInt32
  address : UInt64
deriving DecidableEq, Repr

/-- `FwCfgDmaAccess::from_bytes`. -/
def FwCfgDmaAccess.fromBytes (bytes : List UInt8) : FwCfgDmaAccess where
  control := UInt32.ofNat (ofBeBytes (slice bytes 0 4))
  length := UInt32.ofNat (ofBeBytes (slice bytes 4 4))
  address := UInt64.ofNat (ofBeBytes (slice bytes 8 8))

/-- A control word with one of the command bits. -/
def FwCfgDmaAccess.has (access : FwCfgDmaAccess) (bit : UInt32) : Bool := access.control &&& bit != 0

/-- An item; no vector of the host is longer than `isize::MAX`. -/
structure FwCfg.Entry where
  data : List UInt8
  writable : Bool
  fits : data.length < 2 ^ 63

structure FwCfg where
  entries : AssocMap UInt16 FwCfg.Entry
  selector : UInt16
  offset : UInt64

namespace FwCfg

/-- `usize::saturating_add`. -/
def saturatingAdd (a : UInt64) (n : Nat) : UInt64 := UInt64.ofNat (min (a.toNat + n) (2 ^ 64 - 1))

/-- `FwCfg::new`: no named files yet. -/
def new : FwCfg where
  entries := ((AssocMap.empty.insert keySignature ⟨[0x51, 0x45, 0x4d, 0x55], false, by decide⟩).insert keyId
    ⟨toLeBytes 4 0x03, false, by decide⟩).insert keyFileDir ⟨toBeBytes 4 0, false, by decide⟩
  selector := keySignature
  offset := 0

def select (fw : FwCfg) (key : UInt16) : FwCfg := { fw with selector := key, offset := 0 }

def current (fw : FwCfg) : Option Entry := fw.entries.get fw.selector

def advance (fw : FwCfg) (n : Nat) : FwCfg := { fw with offset := saturatingAdd fw.offset n }

/-! ## The data register -/

/-- `read_data_byte`. -/
def readDataByte (fw : FwCfg) : FwCfg × UInt8 :=
  (fw.advance 1, (fw.current.bind fun entry => entry.data[fw.offset.toNat]?).getD 0)

/-- `read_data`. -/
def readData : Nat → FwCfg → FwCfg × List UInt8
  | 0, fw => (fw, [])
  | n + 1, fw =>
    let (fw, byte) := fw.readDataByte
    let (fw, bytes) := readData n fw
    (fw, byte :: bytes)

/-! ## DMA commands -/

/-- The bytes from the cursor to the end of the selected item. -/
def available (fw : FwCfg) : List UInt8 :=
  match fw.current with
  | some entry => entry.data.drop fw.offset.toNat
  | none => []

/-- What one round of a read stores: zeros past the end of the item, the rest of the item before it. -/
def nextChunk (fw : FwCfg) (len : Nat) : List UInt8 :=
  if fw.available.isEmpty then List.replicate (min len 4096) 0
  else fw.available.take (min len fw.available.length)

theorem length_nextChunk_le (fw : FwCfg) (len : Nat) : (fw.nextChunk len).length ≤ len := by
  unfold nextChunk
  split
  · rw [List.length_replicate]
    exact min_le_left _ _
  · rw [List.length_take]
    omega

theorem length_nextChunk_pos (fw : FwCfg) {len : Nat} (h : len ≠ 0) : 0 < (fw.nextChunk len).length := by
  unfold nextChunk
  split
  · rw [List.length_replicate]
    omega
  · rename_i hsome
    rw [List.isEmpty_iff_length_eq_zero] at hsome
    rw [List.length_take]
    omega

/-- `dma_read_into_guest`. -/
def dmaReadIntoGuest (fw : FwCfg) (gpa len : Nat) (mem : GuestMemory) : FwCfg × GuestMemory × Bool :=
  if len = 0 then (fw, mem, true)
  else
    let chunk := fw.nextChunk len
    let (mem, written) := mem.writeBytes gpa chunk
    let fw' := fw.advance chunk.length
    match checkedAdd gpa chunk.length with
    | some next =>
      if written then dmaReadIntoGuest fw' next (len - chunk.length) mem
      else (fw', mem, written && len - chunk.length == 0)
    | none => (fw', mem, written && len - chunk.length == 0)
termination_by len
decreasing_by
  have := fw.length_nextChunk_pos ‹¬len = 0›
  omega

/-- `guest_range_readable`. -/
def guestRangeReadable (mem : GuestMemory) (gpa len : Nat) : Bool :=
  if len = 0 then true
  else
    match mem.readBytes gpa (min len 256) with
    | none => false
    | some _ =>
      match checkedAdd gpa (min len 256) with
      | none => false
      | some next => guestRangeReadable mem next (len - min len 256)
termination_by len

/-- The rounds of `copy_guest_prefix_into_entry`. -/
def copyGuestPrefix (mem : GuestMemory) (gpa remaining entryOffset consumed : Nat) (data : List UInt8) :
    List UInt8 × Bool :=
  if remaining = 0 then (data, true)
  else
    match checkedAdd entryOffset consumed with
    | none => (data, true)
    | some pos =>
      if data.length ≤ pos then (data, true)
      else
        let chunk := min (min remaining 256) (data.length - pos)
        match mem.readBytes gpa chunk with
        | none => (data, false)
        | some scratch =>
          let data := splice data pos scratch
          match checkedAdd gpa chunk with
          | none => (data, false)
          | some next => copyGuestPrefix mem next (remaining - chunk) entryOffset (consumed + chunk) data
termination_by remaining

theorem length_readBytes {mem : GuestMemory} {gpa len : Nat} {bytes : List UInt8}
    (h : mem.readBytes gpa len = some bytes) : bytes.length = len := by
  unfold GuestMemory.readBytes at h
  split at h
  · cases h
    exact length_span
  · cases h

theorem length_copyGuestPrefix (mem : GuestMemory) (gpa remaining entryOffset consumed : Nat) (data : List UInt8) :
    (copyGuestPrefix mem gpa remaining entryOffset consumed data).1.length = data.length := by
  fun_induction copyGuestPrefix mem gpa remaining entryOffset consumed data with
  | case1 => rfl
  | case2 => rfl
  | case3 => rfl
  | case4 => rfl
  | case5 _ _ _ _ _ _ _ _ _ _ hread =>
    have := length_readBytes hread
    exact length_splice (by omega)
  | case6 _ _ _ _ _ _ _ _ _ _ hread _ _ _ ih =>
    have := length_readBytes hread
    rw [ih]
    exact length_splice (by omega)

/-- `copy_guest_prefix_into_entry`. -/
def copyGuestPrefixIntoEntry (mem : GuestMemory) (gpa remaining entryOffset : Nat) (entry : Entry) : Entry × Bool :=
  ({ data := (copyGuestPrefix mem gpa remaining entryOffset 0 entry.data).1
     writable := entry.writable
     fits := by
       rw [length_copyGuestPrefix]
       exact entry.fits },
    (copyGuestPrefix mem gpa remaining entryOffset 0 entry.data).2)

/-- `dma_execute`: a read goes before a write, a write before a skip. -/
def dmaExecute (fw : FwCfg) (access : FwCfgDmaAccess) (mem : GuestMemory) : FwCfg × GuestMemory × UInt32 :=
  let fw := if access.has dmaCtlSelect then fw.select (access.control >>> 16).toUInt16 else fw
  let length := access.length.toNat
  if access.has dmaCtlRead then
    let (fw, mem, done) := fw.dmaReadIntoGuest access.address.toNat length mem
    if !done then (fw, mem, dmaCtlError) else (fw, mem, 0)
  else if access.has dmaCtlWrite then
    match fw.current with
    | none => (fw, mem, dmaCtlError)
    | some entry =>
      if !entry.writable then (fw, mem, dmaCtlError)
      else if !guestRangeReadable mem access.address.toNat length then (fw, mem, dmaCtlError)
      else
        let copy := copyGuestPrefixIntoEntry mem access.address.toNat length fw.offset.toNat
        let fw := { fw with entries := fw.entries.modify fw.selector fun entry => (copy entry).1 }
        if !(copy entry).2 then (fw, mem, dmaCtlError) else (fw.advance length, mem, 0)
  else if access.has dmaCtlSkip then (fw.advance length, mem, 0)
  else (fw, mem, 0)

/-- `run_dma_at`. -/
def runDmaAt (fw : FwCfg) (ctrlGpa : UInt64) (mem : GuestMemory) : FwCfg × GuestMemory :=
  match mem.readBytes ctrlGpa.toNat 16 with
  | none => (fw, mem)
  | some buf =>
    let (fw, mem, result) := fw.dmaExecute (.fromBytes buf) mem
    (fw, (mem.writeBytes ctrlGpa.toNat (toBeBytes 4 result.toNat)).1)

/-! ## The register window -/

/-- `swap_bytes` of the lowest `n` bytes. -/
def swapBytes (n : Nat) (value : UInt64) : Nat := ofBeBytes (toLeBytes n value.toNat)

/-- `mmio_read`: the data register gives its bytes lowest first. -/
def mmioRead (fw : FwCfg) (offset : UInt64) (size : UInt8) : FwCfg × UInt64 :=
  if offset = regData then
    let (fw, bytes) := readData size.toNat fw
    (fw, UInt64.ofNat (ofLeBytes bytes))
  else if offset = regDma then (fw, dmaRegSignature)
  else (fw, 0)

/-- `mmio_write`: the selector and the DMA register are big-endian. -/
def mmioWrite (fw : FwCfg) (offset value : UInt64) (mem : GuestMemory) : FwCfg × GuestMemory :=
  if offset = regSelector then (fw.select (UInt16.ofNat (swapBytes 2 value)), mem)
  else if offset = regDma then fw.runDmaAt (UInt64.ofNat (swapBytes 8 value)) mem
  else (fw, mem)

end FwCfg

end BridgeVm
