import BridgeVm.GuestMemory

/-!
# The NVMe wire format (`nvme/protocol.rs`)

Submission entries as the controller decodes them, opcodes and status codes. Fields are the naturals their bytes encode.
-/

namespace BridgeVm.Nvme

open Lib

def lbaSize : Nat := 512

def pageSize : Nat := 4096

def adminOpDeleteIoSq : Nat := 0x00

def adminOpCreateIoSq : Nat := 0x01

def adminOpGetLogPage : Nat := 0x02

def adminOpDeleteIoCq : Nat := 0x04

def adminOpCreateIoCq : Nat := 0x05

def adminOpIdentify : Nat := 0x06

def adminOpSetFeatures : Nat := 0x09

def adminOpGetFeatures : Nat := 0x0a

def adminOpAsyncEventRequest : Nat := 0x0c

def adminOpSecuritySend : Nat := 0x81

def adminOpSecurityRecv : Nat := 0x82

def nvmOpFlush : Nat := 0x00

def nvmOpWrite : Nat := 0x01

def nvmOpRead : Nat := 0x02

def nvmOpDatasetManagement : Nat := 0x09

def scSuccess : Nat := 0x0000

def scInvalidOpcode : Nat := 0x0001

def scInvalidField : Nat := 0x0002

def scInternalDeviceError : Nat := 0x0006

def scLbaOutOfRange : Nat := 0x0080

/-- The Do Not Retry bit of a status. -/
def scDnr : Nat := 0x4000

def scInvalidFieldDnr : Nat := scInvalidField ||| scDnr

def scInvalidQueueIdentifier : Nat := 0x0101

def scInvalidQueueSize : Nat := 0x0102

def scInvalidQueueDeletion : Nat := 0x010c

/-- The primary namespace. -/
def nsid1 : Nat := 1

/-- The optional second namespace. -/
def nsid2 : Nat := 2

/-- The broadcast namespace, `u32::MAX`. -/
def nsidAll : Nat := 0xffffffff

/-- A decoded submission-queue entry. -/
structure SubmissionEntry where
  opcode : Nat
  commandId : Nat
  nsid : Nat
  prp1 : Nat
  prp2 : Nat
  cdw10 : Nat
  cdw11 : Nat
  cdw12 : Nat
  cdw13 : Nat
  cdw14 : Nat
  cdw15 : Nat
deriving DecidableEq, Repr

/-- The `n` bytes at `at` as a number. -/
def leField (bs : List UInt8) (pos n : Nat) : Nat := ofLeBytes ((bs.drop pos).take n)

/-- `SubmissionEntry::from_bytes`. -/
def SubmissionEntry.fromBytes (bs : List UInt8) : SubmissionEntry where
  opcode := leField bs 0 1
  commandId := leField bs 2 2
  nsid := leField bs 4 4
  prp1 := leField bs 24 8
  prp2 := leField bs 32 8
  cdw10 := leField bs 40 4
  cdw11 := leField bs 44 4
  cdw12 := leField bs 48 4
  cdw13 := leField bs 52 4
  cdw14 := leField bs 56 4
  cdw15 := leField bs 60 4

/-- What executing a command leaves: its status, and whether it completes now. -/
structure CommandResult where
  status : Nat
  complete : Bool
deriving DecidableEq, Repr

namespace CommandResult

/-- `CommandResult::complete`. -/
def done (status : Nat) : CommandResult := ⟨status, true⟩

def pending : CommandResult := ⟨scSuccess, false⟩

end CommandResult

theorem leField_lt (bs : List UInt8) (pos n : Nat) : leField bs pos n < 256 ^ n := by
  refine (ofLeBytes_lt _).trans_le (Nat.pow_le_pow_right (by omega) ?_)
  rw [List.length_take]
  omega

theorem fromBytes_commandId_lt (bs : List UInt8) : (SubmissionEntry.fromBytes bs).commandId < 2 ^ 16 :=
  leField_lt bs 2 2

end BridgeVm.Nvme
