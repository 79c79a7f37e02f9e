import BridgeVm.Nvme.DataPath

/-!
# Data of the NVMe admin commands (`nvme/identify.rs`, `identify_command.rs`, `log_page.rs`, `features.rs`, `admin.rs`)

The Identify structures, the log pages, the feature capabilities, and the commands that only read the controller and
write one of these to guest memory.
-/

namespace BridgeVm.Nvme

open Lib

/-- A zeroed page. -/
def zeroPage : List UInt8 := List.replicate pageSize 0

/-- The ASCII bytes of a text. -/
def ascii (text : String) : List UInt8 := text.toList.map fun ch => UInt8.ofNat ch.toNat

/-- `write_ascii`: the text in a field of `n` bytes, padded with spaces. -/
def asciiField (n : Nat) (text : String) : List UInt8 := (ascii text ++ List.replicate n 32).take n

/-- `write_cstr`: the text in a field of `n` bytes, padded with zeros. -/
def cstrField (n : Nat) (text : String) : List UInt8 :=
  (ascii text).take (n - 1) ++ List.replicate (n - (ascii text).length) 0

/-- The fields of a page, each at its offset. -/
def pageOf (fields : List (Nat × List UInt8)) : List UInt8 :=
  fields.foldl (fun page field => splice page field.1 field.2) zeroPage

/-- NGUID, EUI64 and UUID of a namespace, `namespace_identifiers`. -/
def namespaceIdentifiers (nsid : Nat) : List UInt8 × List UInt8 × List UInt8 :=
  let uuid := [0x42, 0x56, 0x4d, 0x00, 0x20, 0x26, 0x06, 0x20, 0x80, 0x00, 0x00, 0x00, 0x00, 0x00, 0x00]
  if nsid = nsid2 then (ascii "BridgeVM-NVMeNS2", ascii "BVMNVME2", uuid ++ [0x02])
  else (ascii "BridgeVM-NVMeNS1", ascii "BVMNVME1", uuid ++ [0x01])

/-- `append_namespace_id_descriptor`. -/
def namespaceIdDescriptor (nidt : UInt8) (id : List UInt8) : List UInt8 :=
  [nidt, UInt8.ofNat id.length, 0, 0] ++ id

def maxAsyncEventRequests : Nat := 4

/-- The bits of Command Effects: supported, and logical block content change. -/
def cmdEffectCsupp : Nat := 1 <<< 0

def cmdEffectLbcc : Nat := 1 <<< 1

def smartHealthLog : List UInt8 := pageOf [(1, toLeBytes 2 300), (3, [100]), (4, [10])]

def firmwareSlotInfoLog : List UInt8 := pageOf [(0, [1]), (8, asciiField 64 "BridgeVM NVMe firmware slot 1")]

/-- The admin commands in the Command Effects log. -/
def supportedAdminOps : List Nat :=
  [adminOpDeleteIoSq, adminOpCreateIoSq, adminOpGetLogPage, adminOpDeleteIoCq, adminOpCreateIoCq, adminOpIdentify,
    adminOpSetFeatures, adminOpGetFeatures, adminOpAsyncEventRequest, adminOpSecuritySend, adminOpSecurityRecv]

def commandEffectsLog : List UInt8 :=
  pageOf <|
    supportedAdminOps.map (fun op => (op * 4, toLeBytes 4 cmdEffectCsupp)) ++
      [(1024 + nvmOpFlush * 4, toLeBytes 4 (cmdEffectCsupp ||| cmdEffectLbcc)),
        (1024 + nvmOpWrite * 4, toLeBytes 4 (cmdEffectCsupp ||| cmdEffectLbcc)),
        (1024 + nvmOpRead * 4, toLeBytes 4 cmdEffectCsupp),
        (1024 + nvmOpDatasetManagement * 4, toLeBytes 4 (cmdEffectCsupp ||| cmdEffectLbcc))]

/-! ## Features -/

def featureArbitration : Nat := 0x01

def featurePowerManagement : Nat := 0x02

def featureTemperatureThreshold : Nat := 0x04

def featureErrorRecovery : Nat := 0x05

def featureVolatileWriteCache : Nat := 0x06

def featureNumberOfQueues : Nat := 0x07

def featureInterruptCoalescing : Nat := 0x08

def featureInterruptVectorConfiguration : Nat := 0x09

def featureWriteAtomicityNormal : Nat := 0x0a

def featureAsyncEventConfiguration : Nat := 0x0b

def featureAutonomousPowerStateTransition : Nat := 0x0c

def featureCapNamespaceSpecific : Nat := 1 <<< 1

def featureCapChangeable : Nat := 1 <<< 2

/-- `feature_capabilities`. -/
def featureCapabilities (fid : Nat) : Option Nat :=
  if fid ∈ [featureTemperatureThreshold, featureVolatileWriteCache, featureNumberOfQueues,
    featureWriteAtomicityNormal,
      featureAsyncEventConfiguration] then some featureCapChangeable
  else if fid = featureErrorRecovery then some (featureCapChangeable ||| featureCapNamespaceSpecific)
  else if fid ∈ [featureArbitration, featurePowerManagement, featureInterruptCoalescing,
      featureInterruptVectorConfiguration, featureAutonomousPowerStateTransition] then some 0
  else none

/-- The features that only read as zero. -/
def zeroFeatures : List Nat :=
  [featureArbitration, featurePowerManagement, featureTemperatureThreshold, featureErrorRecovery,
    featureInterruptCoalescing, featureWriteAtomicityNormal, featureAsyncEventConfiguration]

namespace DataPath

/-! ## Identify and log pages -/

/-- `namespace_count`. -/
def namespaceCount (d : DataPath) : Nat := if d.disk2.isSome then 2 else 1

/-- `block_count_for`. -/
def blockCountFor (d : DataPath) (nsid : Nat) : Nat := ((d.backendForNsid nsid).map fun b => b.byteLen / lbaSize).getD 0

def identifyController (d : DataPath) : List UInt8 :=
  pageOf
    [(0, toLeBytes 2 0x1b36), (2, toLeBytes 2 0x1b36), (4, asciiField 20 "BRIDGEVM0000000001"),
      (24, asciiField 40 "BridgeVM NVMe"), (64, asciiField 8 "1.0"), (80, toLeBytes 4 0x00010400),
      (259, [UInt8.ofNat (maxAsyncEventRequests - 1)]), (256, toLeBytes 2 1), (512, [0x66]), (513, [0x44]),
      (516, toLeBytes 4 d.namespaceCount), (520, toLeBytes 2 (1 <<< 2)), (525, [0x07]),
      (768, cstrField 256 "nqn.2026-06.dev.bridgevm:bridgevm-hvf:nvme0")]

def identifyNamespace (d : DataPath) (nsid : Nat) : List UInt8 :=
  let nsze := toLeBytes 8 (d.blockCountFor nsid)
  let (nguid, eui64, _) := namespaceIdentifiers nsid
  pageOf [(0, nsze), (8, nsze), (16, nsze), (104, nguid), (120, eui64), (128, toLeBytes 4 (9 <<< 16))]

def identifyActiveNamespaceList (d : DataPath) (afterNsid : Nat) : List UInt8 :=
  let active := [nsid1, nsid2].filter fun nsid => afterNsid < nsid ∧ (d.backendForNsid nsid).isSome
  pageOf [(0, active.flatMap (toLeBytes 4))]

def identifyNamespaceDescriptorList (nsid : Nat) : List UInt8 :=
  let (nguid, eui64, uuid) := namespaceIdentifiers nsid
  pageOf [(0, namespaceIdDescriptor 0x03 uuid ++ namespaceIdDescriptor 0x02 nguid ++ namespaceIdDescriptor 0x01 eui64)]

/-- The structure IDENTIFY asks for, if there is one. -/
def identifyData (d : DataPath) (cmd : SubmissionEntry) : Option (List UInt8) :=
  match cmd.cdw10 &&& 0xff with
  | 0x01 => some d.identifyController
  | 0x06 => if (cmd.cdw11 >>> 24) &&& 0xff ≠ 0 then none else some zeroPage
  | 0x02 => some (d.identifyActiveNamespaceList cmd.nsid)
  | 0x03 => if (d.backendForNsid cmd.nsid).isSome then some (identifyNamespaceDescriptorList cmd.nsid) else none
  | 0x00 => if (d.backendForNsid cmd.nsid).isSome then some (d.identifyNamespace cmd.nsid) else some zeroPage
  | _ => none

/-- `admin_identify`. -/
def adminIdentify (d : DataPath) (cmd : SubmissionEntry) : Nat × DataPath :=
  match d.identifyData cmd with
  | none => (scInvalidField, d)
  | some data => d.writeAdminData cmd data

/-- The log page of an identifier. -/
def logPage (lid : Nat) : Option (List UInt8) :=
  match lid with
  | 0x02 => some smartHealthLog
  | 0x03 => some firmwareSlotInfoLog
  | 0x05 => some commandEffectsLog
  | _ => none

/-- The part of a log page GET LOG PAGE asks for, when there is one. -/
def logPageData (cmd : SubmissionEntry) : Option (List UInt8) :=
  let offset := (cmd.cdw13 <<< 32) ||| cmd.cdw12
  if offset % 4 ≠ 0 ∨ pageSize ≤ offset then none
  else
    let numd := ((cmd.cdw11 &&& 0xffff) <<< 16) ||| ((cmd.cdw10 >>> 16) &&& 0xffff)
    let dwordCount := min (numd + 1) (2 ^ 32 - 1)
    let byteCount := min (dwordCount * 4) (pageSize - offset)
    (logPage (cmd.cdw10 &&& 0xff)).map fun log => slice log offset byteCount

/-- `admin_get_log_page`. -/
def adminGetLogPage (d : DataPath) (cmd : SubmissionEntry) : Nat × DataPath :=
  match logPageData cmd with
  | none => (scInvalidFieldDnr, d)
  | some data => d.writeAdminData cmd data

/-! ## Security -/

/-- `admin_security_receive`. -/
def adminSecurityReceive (d : DataPath) (cmd : SubmissionEntry) : Nat × DataPath :=
  let secp := (cmd.cdw10 >>> 24) &&& 0xff
  let spsp := (cmd.cdw10 >>> 8) &&& 0xffff
  if secp = 0 ∧ spsp = 0 then
    if cmd.cdw11 < 10 then (scInvalidFieldDnr, d) else d.writeAdminData cmd [0, 0, 0, 0, 0, 0, 0, 2, 0, 0]
  else (scInvalidFieldDnr, d)

/-- `write_apst_table`. -/
def writeApstTable (d : DataPath) (cmd : SubmissionEntry) : Nat × DataPath :=
  if cmd.prp1 = 0 then (scSuccess, d) else d.writeAdminData cmd (List.replicate 256 0)

/-! ## What is backed stays -/

theorem adminIdentify_backing (d : DataPath) (cmd : SubmissionEntry) : d.SameBacking (d.adminIdentify cmd).2 := by
  unfold adminIdentify
  split
  · exact SameBacking.refl d
  · exact writeAdminData_backing d cmd _

theorem writeLogPage_backing (d : DataPath) (cmd : SubmissionEntry) (page : Option (List UInt8)) :
    d.SameBacking (match page with | none => (scInvalidFieldDnr, d) | some data => d.writeAdminData cmd data).2 := by
  cases page with
  | none => exact SameBacking.refl d
  | some data => exact writeAdminData_backing d cmd data

theorem adminGetLogPage_backing (d : DataPath) (cmd : SubmissionEntry) : d.SameBacking (d.adminGetLogPage cmd).2 :=
  writeLogPage_backing d cmd (logPageData cmd)

theorem adminSecurityReceive_backing (d : DataPath) (cmd : SubmissionEntry) :
    d.SameBacking (d.adminSecurityReceive cmd).2 := by
  unfold adminSecurityReceive
  dsimp only
  split
  · split
    · exact SameBacking.refl d
    · exact writeAdminData_backing d cmd _
  · exact SameBacking.refl d

theorem writeApstTable_backing (d : DataPath) (cmd : SubmissionEntry) : d.SameBacking (d.writeApstTable cmd).2 := by
  unfold writeApstTable
  split
  · exact SameBacking.refl d
  · exact writeAdminData_backing d cmd _

end DataPath

end BridgeVm.Nvme
