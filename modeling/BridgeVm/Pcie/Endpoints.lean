import BridgeVm.Pcie.Config

/-!
# The endpoints of the root complex (`pcie/endpoint_ids.rs`, `msix_capability.rs`, `virtio_caps.rs`,
`function_builders.rs`, `ecam.rs`)

The config space of each endpoint as it is built, and the root complex made of them.
-/

namespace BridgeVm.Pcie

open Lib

/-! ## Capabilities -/

/-- The bytes of a capability, placed from its offset on. -/
def placeBytes (offset : UInt8) (bytes : List UInt8) : List (UInt16 × UInt8) :=
  bytes.mapIdx fun i byte => (offset.toUInt16 + .ofNat i, byte)

/-- `MsixCapability`, with what its constructor asserts. -/
structure MsixCapability where
  tableSize : UInt16
  tableBir : UInt8
  tableOffset : UInt32
  pbaBir : UInt8
  pbaOffset : UInt32
  hsize : 1 ≤ tableSize ∧ tableSize ≤ 2048
  hbir : tableBir < 6 ∧ pbaBir < 6
  haligned : tableOffset % 8 = 0 ∧ pbaOffset % 8 = 0

namespace MsixCapability

def messageControl (c : MsixCapability) : UInt16 := (c.tableSize - 1) &&& 0x07ff

def tableOffsetBir (c : MsixCapability) : UInt32 :=
  (c.tableOffset &&& ~~~(0x7 : UInt32)) ||| (c.tableBir &&& 0x7).toUInt32

def pbaOffsetBir (c : MsixCapability) : UInt32 := (c.pbaOffset &&& ~~~(0x7 : UInt32)) ||| (c.pbaBir &&& 0x7).toUInt32

def toBytes (c : MsixCapability) (next : UInt8) : List UInt8 :=
  [capIdMsix, next] ++ toLeBytes 2 c.messageControl.toNat ++ toLeBytes 4 c.tableOffsetBir.toNat ++
    toLeBytes 4 c.pbaOffsetBir.toNat

end MsixCapability

def virtioPciCapVendor : UInt8 := 0x09

/-- `VirtioPciCap::bytes`. -/
def virtioPciCapBytes (next cfgType bar : UInt8) (regionOffset regionLength : UInt32) : List UInt8 :=
  [virtioPciCapVendor, next, 16, cfgType, bar, 0, 0, 0] ++ toLeBytes 4 regionOffset.toNat ++
    toLeBytes 4 regionLength.toNat

/-- `VirtioPciCap64::bytes`, with the region at offset zero. -/
def virtioPciCap64Bytes (next cfgType bar id : UInt8) (regionOffset regionLength : UInt64) : List UInt8 :=
  [virtioPciCapVendor, next, 24, cfgType, bar, id, 0, 0] ++ (toLeBytes 8 regionOffset.toNat).take 4 ++
    (toLeBytes 8 regionLength.toNat).take 4 ++ (toLeBytes 8 regionOffset.toNat).drop 4 ++
    (toLeBytes 8 regionLength.toNat).drop 4

/-- The notify capability: its length byte is patched to 20 and the multiplier appended. -/
def notifyCapBytes (next : UInt8) : List UInt8 :=
  (virtioPciCapBytes next 2 4 0x3000 0x1000).set 2 20 ++ toLeBytes 4 4

/-- `capability_list_inner`: the vendor capabilities from offset 0x40 on. -/
def capabilityListInner (msixCapOffset : UInt8) (sharedMemory : Option (UInt8 × UInt8 × UInt64)) :
    List (UInt16 × UInt8) :=
  let deviceNext := if sharedMemory.isSome then 0x90 else msixCapOffset
  placeBytes 0x40 (virtioPciCapBytes 0x50 1 4 0x0000 0x1000) ++ placeBytes 0x50 (notifyCapBytes 0x64) ++
    placeBytes 0x64 (virtioPciCapBytes 0x74 3 4 0x1000 0x1000) ++
    placeBytes 0x74 (virtioPciCapBytes deviceNext 4 4 0x2000 0x1000) ++
    match sharedMemory with
    | some (shmid, bar, length) => placeBytes 0x90 (virtioPciCap64Bytes msixCapOffset 8 bar shmid 0 length)
    | none => []

def virtioCapPtr : UInt8 := 0x40

/-! ## Endpoints -/

def hostBridgeBdf : Bdf := (0, 0, 0)
def nvmeBdf : Bdf := (0, 1, 0)
def xhciBdf : Bdf := (0, 2, 0)
def virtioBlkBdf : Bdf := (0, 3, 0)
def virtioNetBdf : Bdf := (0, 4, 0)
def virtioGpuBdf : Bdf := (0, 5, 0)
def virtioConsoleBdf : Bdf := (0, 6, 0)
def hdaBdf : Bdf := (0, 7, 0)

/-- A dword of two identity words. -/
def idPair (high low : UInt16) : UInt32 := (high.toUInt32 <<< 16) ||| low.toUInt32

/-- The class code over the revision. -/
def classOverRevision (classCode : UInt32) (revision : UInt8) : UInt32 := (classCode <<< 8) ||| revision.toUInt32

/-- `NVME_PM_CAP_BYTES`, with the next pointer patched. -/
def nvmePmCapBytes (next : UInt8) : List UInt8 := [0x01, next, 0x03, 0x00, 0x08, 0x00, 0x00, 0x00]

def xhciPcieCapBytes : List UInt8 :=
  [0x10, 0x00, 0x92, 0x00, 0x20, 0x80, 0x00, 0x00, 0x00, 0x00, 0x00, 0x00, 0x11, 0x04, 0x00, 0x00, 0x00, 0x00, 0x11,
    0x00]

def hdaMsiCapBytes : List UInt8 :=
  [0x05, 0x00, 0x80, 0x00, 0x00, 0x00, 0x00, 0x00, 0x00, 0x00, 0x00, 0x00, 0x00, 0x00]

/-- The six BARs of an endpoint, by number. -/
def barArray (b₀ b₁ b₂ b₃ b₄ : Bar) : Vector Bar numBars := #v[b₀, b₁, b₂, b₃, b₄, .unimplemented]

namespace Function

def hostBridge : Function where
  bdf := hostBridgeBdf
  vendorDevice := idPair 0x0008 0x1b36
  revisionClass := classOverRevision 0x060000 0x00
  subsystemIds := 0
  command := 0
  bars := barArray .unimplemented .unimplemented .unimplemented .unimplemented .unimplemented
  capPtr := 0
  interruptPin := 0
  capBytes := []

def nvmeMsix : MsixCapability := ⟨9, 0, 0x2000, 0, 0x3000, by decide, by decide, by decide⟩

/-- The type bits are read back before the BAR is programmed. -/
def nvme : Function where
  bdf := nvmeBdf
  vendorDevice := idPair 0x0010 0x1b36
  revisionClass := classOverRevision 0x010802 0x01
  subsystemIds := idPair 0x1100 0x1af4
  command := 0
  bars :=
    let bar0 := (Bar.memory64 0x4000 (by decide)).1
    barArray { bar0 with value := bar0.typeBits } (Bar.memory64 0x4000 (by decide)).2 .unimplemented .unimplemented
      .unimplemented
  capPtr := 0x40
  interruptPin := 0
  capBytes := placeBytes 0x40 (nvmeMsix.toBytes 0x50) ++ placeBytes 0x50 (nvmePmCapBytes 0x60) ++
    placeBytes 0x60 xhciPcieCapBytes

def virtioBlkMsix : MsixCapability := ⟨2, 1, 0x0000, 1, 0x0800, by decide, by decide, by decide⟩

def virtioBlk : Function where
  bdf := virtioBlkBdf
  vendorDevice := idPair 0x1001 0x1af4
  revisionClass := classOverRevision 0x010000 0x00
  subsystemIds := idPair 0x0002 0x1af4
  command := 0
  bars := barArray (.io 0x80 (by decide)) (.memory32 0x1000 (by decide)) .unimplemented .unimplemented
    (.memory32 0x4000 (by decide))
  capPtr := virtioCapPtr
  interruptPin := 0
  capBytes := capabilityListInner 0x84 none ++ placeBytes 0x84 (virtioBlkMsix.toBytes 0)

/-- A modern-only virtio endpoint: its MSI-X table in BAR1 and its registers in BAR4. -/
def modernVirtio (bdf : Bdf) (vendorDevice revisionClass subsystemIds : UInt32) (bar2 bar3 : Bar)
    (sharedMemory : Option (UInt8 × UInt8 × UInt64)) (msix : MsixCapability) : Function where
  bdf := bdf
  vendorDevice := vendorDevice
  revisionClass := revisionClass
  subsystemIds := subsystemIds
  command := 0
  bars := barArray .unimplemented (.memory32 0x1000 (by decide)) bar2 bar3 (.memory32 0x4000 (by decide))
  capPtr := virtioCapPtr
  interruptPin := 0
  capBytes := capabilityListInner 0x84 sharedMemory ++ placeBytes 0x84 (msix.toBytes 0)

def virtioNetMsix : MsixCapability := ⟨2, 1, 0x0000, 1, 0x0800, by decide, by decide, by decide⟩

def virtioNet : Function :=
  modernVirtio virtioNetBdf (idPair 0x1041 0x1af4) (classOverRevision 0x020000 0x01) (idPair 0x0040 0x1af4)
    .unimplemented .unimplemented none virtioNetMsix

def virtioGpuMsix : MsixCapability := ⟨3, 1, 0x0000, 1, 0x0800, by decide, by decide, by decide⟩

/-- The host-visible window, when there is one, is a prefetchable pair at BAR2; none is a failed assertion. -/
def virtioGpu (hostVisibleBarSize : Option UInt64) (pciDeviceId : UInt16) : Option Function :=
  let build := modernVirtio virtioGpuBdf (idPair pciDeviceId 0x1af4) (classOverRevision 0x038000 0x01)
    (idPair 0x1100 0x1af4)
  match hostVisibleBarSize with
  | none => some (build .unimplemented .unimplemented none virtioGpuMsix)
  | some size =>
    if size > 0xffffffff then none
    else if h : Bar.ValidSize 0x10 size.toUInt32 then
      let (bar2, bar3) := Bar.memory64Prefetchable size.toUInt32 h
      some (build { bar2 with value := bar2.typeBits } bar3 (some (1, 2, size)) virtioGpuMsix)
    else none

def virtioConsoleMsix : MsixCapability := ⟨6, 1, 0x0000, 1, 0x0800, by decide, by decide, by decide⟩

def virtioConsole : Function :=
  modernVirtio virtioConsoleBdf (idPair 0x1043 0x1af4) (classOverRevision 0x078000 0x01) (idPair 0x1100 0x1af4)
    .unimplemented .unimplemented none virtioConsoleMsix

def xhciMsix : MsixCapability := ⟨16, 0, 0x3000, 0, 0x3800, by decide, by decide, by decide⟩

def xhci : Function where
  bdf := xhciBdf
  vendorDevice := idPair 0x000d 0x1b36
  revisionClass := classOverRevision 0x0c0330 0x01
  subsystemIds := idPair 0x1100 0x1af4
  command := 0
  bars := barArray (Bar.memory64 0x4000 (by decide)).1 (Bar.memory64 0x4000 (by decide)).2 .unimplemented
    .unimplemented .unimplemented
  capPtr := 0x90
  interruptPin := 0
  capBytes := placeBytes 0x90 (xhciMsix.toBytes 0xa0) ++ placeBytes 0xa0 xhciPcieCapBytes

def hda : Function where
  bdf := hdaBdf
  vendorDevice := idPair 0x2668 0x8086
  revisionClass := classOverRevision 0x040300 0x01
  subsystemIds := idPair 0x1100 0x1af4
  command := 0
  bars := barArray (.memory32 0x4000 (by decide)) .unimplemented .unimplemented .unimplemented .unimplemented
  capPtr := 0x60
  interruptPin := 0
  capBytes := placeBytes 0x60 hdaMsiCapBytes

end Function

/-! ## The root complex -/

/-- `PcieMmioTarget` and `PciePioTarget`: the BAR an address falls in. -/
structure Target where
  bdf : Bdf
  barIndex : Nat
  offset : UInt64
deriving DecidableEq, Repr

/-- `PcieMmioTargetMru`. -/
structure Mru where
  base : UInt64
  stop : UInt64
  target : Target
deriving DecidableEq, Repr

/-- `PcieEcam`. -/
structure PcieEcam where
  functions : List Function
  mmioMru : Option Mru
deriving DecidableEq, Repr

/-- `PcieEcamConfig`. -/
structure PcieEcamConfig where
  xhciPresent : Bool
  hdaPresent : Bool
  virtioBlkPresent : Bool
  virtioNetPresent : Bool
  virtioGpuPresent : Bool
  virtioConsolePresent : Bool
  virtioGpuPciDeviceId : UInt16
  virtioGpu3dEnabled : Bool
deriving DecidableEq, Repr

/-- `parse_virtio_gpu_hostmem_size`, of the parsed environment value; none is a failed assertion. -/
def parseVirtioGpuHostmemSize (mib : Option UInt64) : Option UInt64 :=
  let mib := mib.getD 1024
  if mib = 0 then some 0
  else if mib &&& (mib - 1) ≠ 0 then none
  else if 2 ^ 64 ≤ mib.toNat * (1024 * 1024) then none
  else if mib * (1024 * 1024) ≤ 0xffffffff then some (mib * (1024 * 1024)) else none

namespace PcieEcam

/-- The GPU endpoint of `new_with_config`. -/
def gpuFunction (config : PcieEcamConfig) (hostmemMib : Option UInt64) : Option Function :=
  if config.virtioGpu3dEnabled then do
    let size ← parseVirtioGpuHostmemSize hostmemMib
    Function.virtioGpu (if size ≠ 0 then some size else none) config.virtioGpuPciDeviceId
  else Function.virtioGpu none config.virtioGpuPciDeviceId

def gpuFunctions (config : PcieEcamConfig) (hostmemMib : Option UInt64) : Option (List Function) :=
  if config.virtioGpuPresent then (gpuFunction config hostmemMib).map fun f => [f] else some []

/-- An endpoint that the configuration may leave out. -/
def optional (present : Bool) (f : Function) : List Function := if present then [f] else []

/-- The functions of `new_with_config`, given the GPU's. -/
def functionsOf (config : PcieEcamConfig) (gpu : List Function) : List Function :=
  [.hostBridge, .nvme] ++ optional config.xhciPresent .xhci ++ optional config.hdaPresent .hda ++
    optional config.virtioBlkPresent .virtioBlk ++ optional config.virtioNetPresent .virtioNet ++ gpu ++
    optional config.virtioConsolePresent .virtioConsole

/-- `new_with_config`; none when an assertion about the host memory size fails. -/
def newWithConfig (config : PcieEcamConfig) (hostmemMib : Option UInt64) : Option PcieEcam :=
  (gpuFunctions config hostmemMib).map fun gpu => { functions := functionsOf config gpu, mmioMru := none }

def functionAt (e : PcieEcam) (bdf : Bdf) : Option Function := e.functions.find? fun f => f.bdf = bdf

/-- `cfg_read`: all ones when no function answers. -/
def cfgRead (e : PcieEcam) (ecamOffset : UInt64) (size : UInt8) : UInt64 :=
  let addr := CfgAddr.fromEcamOffset ecamOffset
  match e.functionAt addr.bdf with
  | none => allOnes size
  | some func => extract (func.readDword (addr.reg &&& ~~~(0x3 : UInt16))) addr.reg size

/-- The read, merge and write of `cfg_write` at its function. -/
def writeFunction (addr : CfgAddr) (size : UInt8) (value : UInt64) (f : Function) : Function :=
  let dwordReg := addr.reg &&& ~~~(0x3 : UInt16)
  f.writeDword dwordReg (insert (f.readDword dwordReg) addr.reg size value)

/-- Apply `g` to the first function at `bdf` (`function_at_mut`). -/
def modifyAt (bdf : Bdf) (g : Function → Function) : List Function → List Function
  | [] => []
  | f :: fs => if f.bdf = bdf then g f :: fs else f :: modifyAt bdf g fs

/-- `cfg_write`: forgets the cached BAR, whichever function is written. -/
def cfgWrite (e : PcieEcam) (ecamOffset : UInt64) (size : UInt8) (value : UInt64) : PcieEcam :=
  let addr := CfgAddr.fromEcamOffset ecamOffset
  { functions := modifyAt addr.bdf (writeFunction addr size value) e.functions, mmioMru := none }

/-- `nvme_msix_control` and its siblings. -/
def msixControlAt (e : PcieEcam) (bdf : Bdf) : MsixFunctionControl :=
  ((e.functionAt bdf).bind Function.msixControl).getD .off

def nvmeMsixControl (e : PcieEcam) : MsixFunctionControl := e.msixControlAt nvmeBdf
def xhciMsixControl (e : PcieEcam) : MsixFunctionControl := e.msixControlAt xhciBdf
def virtioNetMsixControl (e : PcieEcam) : MsixFunctionControl := e.msixControlAt virtioNetBdf
def virtioGpuMsixControl (e : PcieEcam) : MsixFunctionControl := e.msixControlAt virtioGpuBdf
def virtioConsoleMsixControl (e : PcieEcam) : MsixFunctionControl := e.msixControlAt virtioConsoleBdf

def hdaMsiConfig (e : PcieEcam) : HdaMsiConfig := ((e.functionAt hdaBdf).bind Function.msiConfig).getD .off

end PcieEcam

end BridgeVm.Pcie
