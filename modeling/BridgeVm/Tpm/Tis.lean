import BridgeVm.Lib.BigEndian

/-!
# The TPM's FIFO interface

`tpm_tis.rs`: five localities in front of one command engine, with one buffer and one offset for all of them. The
engine is the parameter `execute`, with a state of its own; `none` is an error of it.
-/

namespace BridgeVm.Tpm

open Lib

def localityCount : Nat := 5
def localitySize : Nat := 0x1000
def mmioSize : Nat := localityCount * localitySize
def maxBufferSize : Nat := 4096

def regAccess : Nat := 0x000
def regIntEnable : Nat := 0x008
def regIntVector : Nat := 0x00c
def regIntStatus : Nat := 0x010
def regIntfCapability : Nat := 0x014
def regSts : Nat := 0x018
def regDataFifo : Nat := 0x024
def regInterfaceId : Nat := 0x030
def regDidVid : Nat := 0xf00
def regRid : Nat := 0xf04

def accessValid : Nat := 0x80
def accessActiveLocality : Nat := 0x20
def accessPendingRequest : Nat := 0x04
def accessRequestUse : Nat := 0x02

def stsValid : Nat := 0x80
def stsCommandReady : Nat := 0x40
def stsTpmGo : Nat := 0x20
def stsDataAvailable : Nat := 0x10
def stsExpect : Nat := 0x08
def stsResponseRetry : Nat := 0x02

def stsTpmFamily20 : Nat := 1 <<< 26
def interfaceCapabilityTpm2 : Nat := 0x30000697
def interfaceIdTpm2Fifo : Nat := 0x00002100

def tpm2HeaderSize : Nat := 10
def tpm2RcFailure : List UInt8 := [0x80, 0x01, 0x00, 0x00, 0x00, 0x0a, 0x00, 0x00, 0x01, 0x01]

/-! ## Packets -/

/-- `packet_size`: the big-endian size behind the tag. -/
def packetSize (packet : List UInt8) : Except String Nat :=
  if 6 ≤ packet.length then .ok (ofBeBytes ((packet.drop 2).take 4)) else .error "TPM packet has no size field"

def validatePacket (kind : String) (packet : List UInt8) : Except String Unit :=
  let len := packet.length
  if len < tpm2HeaderSize ∨ maxBufferSize < len then
    .error s!"TPM {kind} length {len} is outside {tpm2HeaderSize}..={maxBufferSize}"
  else
    match packetSize packet with
    | .error message => .error message
    | .ok declared =>
      if declared ≠ len then .error s!"TPM {kind} declares {declared} bytes but carries {len}" else .ok ()

theorem validatePacket_ok {kind : String} {packet : List UInt8} (h : validatePacket kind packet = .ok ()) :
    packet.length ≤ maxBufferSize ∧ packetSize packet = .ok packet.length := by
  unfold validatePacket at h
  by_cases hlen : packet.length < tpm2HeaderSize ∨ maxBufferSize < packet.length
  · simp [hlen] at h
  · cases hsize : packetSize packet with
    | error message => simp [hlen, hsize] at h
    | ok declared =>
      by_cases hdecl : declared = packet.length
      · exact ⟨by omega, by rw [hdecl]⟩
      · simp [hlen, hsize, hdecl] at h

/-! ## The interface -/

inductive TisState
  | idle
  | ready
  | reception
  | completion
deriving DecidableEq

structure Locality where
  access : Nat
  status : Nat
  state : TisState
  intEnable : Nat
  intStatus : Nat
deriving DecidableEq

def Locality.default : Locality := ⟨accessValid, stsValid, .idle, 0, 0⟩

structure TpmTis (β : Type) where
  backend : β
  localities : Fin 5 → Locality
  activeLocality : Option (Fin 5)
  buffer : List UInt8
  rwOffset : Nat

variable {β : Type}

def TpmTis.new (backend : β) : TpmTis β := ⟨backend, fun _ => .default, none, [], 0⟩

/-- One locality changed. -/
def TpmTis.setLocality (t : TpmTis β) (l : Fin 5) (f : Locality → Locality) : TpmTis β :=
  { t with localities := Function.update t.localities l (f (t.localities l)) }

/-- A call of the backend: the locality and the command. -/
abbrev Call := Fin 5 × List UInt8

section Registers

variable (t : TpmTis β) (l : Fin 5)

def isFifo (registerOffset : Nat) : Bool :=
  registerOffset = regDataFifo || (0x080 ≤ registerOffset && registerOffset ≤ 0x0ff)

def registerValue (register size : Nat) : Nat :=
  let state := t.localities l
  if register = regAccess then
    let access := if t.activeLocality = some l then state.access ||| accessActiveLocality else state.access
    if ∃ other : Fin 5, other ≠ l ∧ (t.localities other).access &&& accessRequestUse ≠ 0 then
      access ||| accessPendingRequest
    else access
  else if register = regIntEnable then state.intEnable
  else if register = regIntVector then 0
  else if register = regIntStatus then state.intStatus
  else if register = regIntfCapability then interfaceCapabilityTpm2
  else if register = regSts then
    if t.activeLocality ≠ some l then 0
    else
      let available := if state.state = .completion then t.buffer.length - t.rwOffset else maxBufferSize - t.rwOffset
      let burst := if size = 1 then min available 0xff else min available 0xffff
      stsTpmFamily20 ||| state.status ||| (burst <<< 8)
  else if register = regInterfaceId then interfaceIdTpm2Fifo
  else if register = regDidVid then 0x00011014
  else if register = regRid then 1
  else 0xffffffff

/-- The active locality gives the interface up. -/
def relinquish : TpmTis β := { t.setLocality l fun _ => .default with activeLocality := none }

/-- A locality asks for the interface, and gets it when it is free. -/
def requestUse : TpmTis β :=
  let t := t.setLocality l fun item => { item with access := item.access ||| accessRequestUse }
  if t.activeLocality = none then
    { t.setLocality l fun item => { item with access := item.access &&& (0xff ^^^ accessRequestUse) } with
      activeLocality := some l }
  else t

def writeAccess (value : Nat) : TpmTis β :=
  let t := if value &&& accessActiveLocality ≠ 0 ∧ t.activeLocality = some l then relinquish t l else t
  if value &&& accessRequestUse ≠ 0 then requestUse t l else t

/-- The bytes a FIFO access of `size` bytes carries: no further than the register's four. -/
def accessBytes (registerOffset size value : Nat) : List UInt8 :=
  toLeBytes (min size (4 - registerOffset % 4)) value

/-- The loop of `write_fifo`: the bytes that fit, and whether one did not. -/
def pushBytes : List UInt8 → List UInt8 → List UInt8 × Bool
  | buffer, [] => (buffer, false)
  | buffer, byte :: bytes => if maxBufferSize ≤ buffer.length then (buffer, true)
    else pushBytes (buffer ++ [byte]) bytes

/-- The status behind a FIFO write. -/
def receptionStatus (buffer : List UInt8) (full : Bool) (status : Nat) : Nat :=
  let status := if full then stsValid else status
  if 6 ≤ buffer.length then
    match packetSize buffer with
    | .ok declared =>
      if declared = buffer.length then stsValid
      else if buffer.length < declared ∧ declared ≤ maxBufferSize then stsValid ||| stsExpect
      else stsValid
    | .error _ => stsValid
  else status

/-- The first bytes behind a Ready state start a reception. -/
def beginReception : TpmTis β :=
  if (t.localities l).state = .ready then
    { t.setLocality l fun item => { item with state := .reception, status := stsValid ||| stsExpect } with
      buffer := [], rwOffset := 0 }
  else t

/-- The bytes of a FIFO write of the active locality. -/
def receive (bytes : List UInt8) : TpmTis β :=
  if (t.localities l).state ≠ .reception then t
  else
    let (buffer, full) := pushBytes t.buffer bytes
    { t.setLocality l fun item => { item with status := receptionStatus buffer full item.status } with
      buffer, rwOffset := buffer.length }

def writeFifo (registerOffset size value : Nat) : TpmTis β :=
  if t.activeLocality ≠ some l then t
  else receive (beginReception t l) l (accessBytes registerOffset size value)

/-- The loop of `read_fifo`: the bytes from `offset` on, `0xff` behind the end, and the offset behind them. -/
def takeBytes (buffer : List UInt8) : Nat → Nat → List UInt8 × Nat
  | offset, 0 => ([], offset)
  | offset, n + 1 =>
    let byte := buffer[offset]?.getD 0xff
    let (bytes, next) := takeBytes buffer (if offset < buffer.length then offset + 1 else offset) n
    (byte :: bytes, next)

/-- `read_fifo`; `u64::MAX` where the locality has no response. -/
def readFifo (size : Nat) : Nat × TpmTis β :=
  if t.activeLocality ≠ some l ∨ (t.localities l).state ≠ .completion then (2 ^ 64 - 1, t)
  else
    let (bytes, rwOffset) := takeBytes t.buffer t.rwOffset size
    let t := { t with rwOffset }
    (ofLeBytes bytes,
      if t.buffer.length ≤ rwOffset then t.setLocality l fun item => { item with status := stsValid } else t)

/-- `mmio_read`. -/
def mmioRead (offset size : Nat) : Nat × TpmTis β :=
  if ¬(size = 1 ∨ size = 2 ∨ size = 4) ∨ mmioSize ≤ offset then (2 ^ 64 - 1, t)
  else
    let locality := Fin.ofNat 5 (offset / localitySize)
    let registerOffset := offset % localitySize
    if isFifo registerOffset then readFifo t locality size
    else
      let value := registerValue t locality (registerOffset - registerOffset % 4) size
      ((value >>> (registerOffset % 4 * 8)) % 2 ^ (size * 8), t)

variable (execute : β → Fin 5 → List UInt8 → Option (List UInt8) × β)

/-- The response to the command in the buffer, and the call of the backend. -/
def respond : List UInt8 × β × Option Call :=
  match validatePacket "command" t.buffer with
  | .error _ => (tpm2RcFailure, t.backend, none)
  | .ok () =>
    let (response, backend) := execute t.backend l t.buffer
    let response :=
      match response with
      | none => tpm2RcFailure
      | some response =>
        match validatePacket "response" response with
        | .error _ => tpm2RcFailure
        | .ok () => response
    (response, backend, some (l, t.buffer))

/-- `execute_command`, with the call of the backend and the response it leaves. -/
def executeCommand : TpmTis β × Option Call × Option (List UInt8) :=
  let (response, backend, call) := respond t l execute
  ({ t.setLocality l fun item => { item with state := .completion, status := stsValid ||| stsDataAvailable } with
      backend, buffer := response, rwOffset := 0 }, call, some response)

def writeStatus (value : Nat) : TpmTis β × Option Call × Option (List UInt8) :=
  if t.activeLocality ≠ some l then (t, none, none)
  else if value &&& stsCommandReady ≠ 0 then
    ({ t.setLocality l fun item => { item with state := .ready, status := stsValid ||| stsCommandReady } with
        buffer := [], rwOffset := 0 }, none, none)
  else if value &&& stsResponseRetry ≠ 0 ∧ (t.localities l).state = .completion then
    ({ t.setLocality l fun item => { item with status := stsValid ||| stsDataAvailable } with rwOffset := 0 },
      none, none)
  else if value &&& stsTpmGo ≠ 0 ∧ (t.localities l).state = .reception ∧
    (t.localities l).status &&& stsExpect = 0 then
    executeCommand t l execute
  else (t, none, none)

/-- `mmio_write`. -/
def mmioWrite (offset size value : Nat) : TpmTis β × Option Call × Option (List UInt8) :=
  if ¬(size = 1 ∨ size = 2 ∨ size = 4) ∨ mmioSize ≤ offset then (t, none, none)
  else
    let locality := Fin.ofNat 5 (offset / localitySize)
    let registerOffset := offset % localitySize
    if isFifo registerOffset then (writeFifo t locality registerOffset size value, none, none)
    else
      let aligned := registerOffset - registerOffset % 4
      let shifted := ((value % 2 ^ 32) <<< (registerOffset % 4 * 8)) % 2 ^ 32
      if aligned = regAccess then (writeAccess t locality (shifted % 256), none, none)
      else if aligned = regSts then writeStatus t locality execute shifted
      else if aligned = regIntEnable then
        (t.setLocality locality fun item => { item with intEnable := shifted }, none, none)
      else if aligned = regIntStatus then
        (t.setLocality locality fun item => { item with intStatus := item.intStatus &&& (0xffffffff ^^^ shifted) },
          none, none)
      else (t, none, none)

end Registers

/-! ## Runs -/

/-- An access of the guest. -/
inductive Mmio
  | read (offset size : Nat)
  | write (offset size value : Nat)
deriving DecidableEq

def Mmio.offset : Mmio → Nat
  | .read offset _ => offset
  | .write offset _ _ => offset

/-- An access and what came of it. -/
structure Entry where
  op : Mmio
  /-- The active locality before it. -/
  active : Option (Fin 5)
  /-- What a read returned. -/
  value : Nat
  /-- The call of the backend. -/
  call : Option Call
  /-- The response a command got. -/
  response : Option (List UInt8)
deriving DecidableEq

/-- The interface and all that the guest did with it, newest first. -/
structure Session (β : Type) where
  tis : TpmTis β
  log : List Entry

variable (execute : β → Fin 5 → List UInt8 → Option (List UInt8) × β)

def Session.step (s : Session β) : Mmio → Option (Session β)
  | .read offset size =>
    let (value, tis) := mmioRead s.tis offset size
    some ⟨tis, ⟨.read offset size, s.tis.activeLocality, value, none, none⟩ :: s.log⟩
  | .write offset size value =>
    let (tis, call, response) := mmioWrite s.tis execute offset size value
    some ⟨tis, ⟨.write offset size value, s.tis.activeLocality, 0, call, response⟩ :: s.log⟩

end BridgeVm.Tpm
