import BridgeVm.Lib.Bitmap
import BridgeVm.Lib.LittleEndian
import BridgeVm.Lib.Splice

/-!
# MSI-X table and pending bit array (`msix.rs`)

The BAR-backed table of an endpoint: its entries, as the sixteen bytes the guest reads and writes, and one pending bit
for each vector. `raise` and `drainPendingInto` return the messages to send.
-/

namespace BridgeVm.Msix

open Lib

/-- One deliverable message. -/
structure MsixMessage where
  vector : Nat
  address : Nat
  data : Nat
deriving DecidableEq, Repr

def entryBytes : Nat := 16

def vectorControlMasked : Nat := 1

/-- One table entry: address, data and vector control. -/
structure MsixEntry where
  bytes : List UInt8
  hlen : bytes.length = entryBytes
deriving DecidableEq, Repr

/-- The little-endian word at a byte offset of an entry. -/
def MsixEntry.u32At (e : MsixEntry) (off : Nat) : Nat := ofLeBytes (slice e.bytes off 4)

def MsixEntry.masked (e : MsixEntry) : Bool := e.u32At 12 &&& vectorControlMasked != 0

/-- `message`: none while the address is zero. -/
def MsixEntry.message (e : MsixEntry) (vector : Nat) : Option MsixMessage :=
  let address := e.u32At 0 ||| (e.u32At 4 <<< 32)
  if address ≠ 0 then some ⟨vector, address, e.u32At 8⟩ else none

/-- `mask_reserved_vector_control_bits`. -/
def MsixEntry.maskReserved (e : MsixEntry) : MsixEntry where
  bytes := splice e.bytes 12 (toLeBytes 4 (e.u32At 12 &&& vectorControlMasked))
  hlen := by
    rw [length_splice (by rw [length_toLeBytes, e.hlen]; decide)]
    exact e.hlen

/-- One byte of an entry. -/
def MsixEntry.setByte (e : MsixEntry) (off : Nat) (b : UInt8) : MsixEntry where
  bytes := e.bytes.set off b
  hlen := by rw [List.length_set, e.hlen]

/-- Zero, with the vector masked. -/
def MsixEntry.new : MsixEntry := ⟨List.replicate 12 0 ++ toLeBytes 4 vectorControlMasked, rfl⟩

/-- `MsixTable`: at least one vector, and a word of pending bits for each 64 of them. -/
structure MsixTable where
  entries : List MsixEntry
  pendingBits : List (BitVec 64)
  hcount : 0 < entries.length ∧ entries.length < 2 ^ 16
  hpba : pendingBits.length = (entries.length + 63) / 64
deriving DecidableEq, Repr

namespace MsixTable

def new (vectorCount : Nat) (h : 0 < vectorCount ∧ vectorCount < 2 ^ 16) : MsixTable where
  entries := List.replicate vectorCount .new
  pendingBits := List.replicate ((vectorCount + 63) / 64) 0
  hcount := by rwa [List.length_replicate]
  hpba := by rw [List.length_replicate, List.length_replicate]

/-- `vector_count`. -/
def vectorCount (t : MsixTable) : Nat := t.entries.length % 2 ^ 16

def tableByteLen (t : MsixTable) : Nat := t.entries.length * entryBytes

/-- One byte of a table write: bytes past the table are skipped. -/
def tableWriteByte (t : MsixTable) (off : Nat) (b : UInt8) : MsixTable :=
  if off ≥ t.tableByteLen then t
  else
    { t with
      entries := t.entries.modify (off / entryBytes) fun e => (e.setByte (off % entryBytes) b).maskReserved
      hcount := by rw [List.length_modify]; exact t.hcount
      hpba := by rw [List.length_modify]; exact t.hpba }

def tableWrite (t : MsixTable) (offset size value : Nat) : MsixTable :=
  (List.range (min size 8)).foldl
    (fun t byte => t.tableWriteByte (offset + byte) (UInt8.ofNat ((value >>> (byte * 8)) &&& 0xff))) t

def message (t : MsixTable) (vector : Nat) : Option MsixMessage :=
  t.entries[vector]?.bind fun e => e.message vector

/-- `vector_masked`: a vector past the table is masked. -/
def vectorMasked (t : MsixTable) (vector : Nat) : Bool := (t.entries[vector]?.map MsixEntry.masked).getD true

def pending (t : MsixTable) (vector : Nat) : Bool :=
  (t.pendingBits[vector / 64]?).any fun word => (word &&& (1#64 <<< (vector % 64))) != 0

def setPending (t : MsixTable) (vector : Nat) : MsixTable :=
  { t with
    pendingBits := t.pendingBits.modify (vector / 64) fun word => word ||| (1#64 <<< (vector % 64))
    hpba := by rw [List.length_modify]; exact t.hpba }

def clearPending (t : MsixTable) (vector : Nat) : MsixTable :=
  { t with
    pendingBits := t.pendingBits.modify (vector / 64) fun word => word &&& ~~~(1#64 <<< (vector % 64))
    hpba := by rw [List.length_modify]; exact t.hpba }

/-- Raise one vector: nothing while the function is disabled, the pending bit while it is masked. -/
def raise (t : MsixTable) (vector : Nat) (functionEnabled functionMasked : Bool) : MsixTable × Option MsixMessage :=
  if !functionEnabled || t.entries.length ≤ vector then (t, none)
  else if functionMasked || t.vectorMasked vector then (t.setPending vector, none)
  else
    match t.message vector with
    | none => (t.setPending vector, none)
    | some message => (t, some message)

/-- One pending vector of a drain: delivered and cleared when it is unmasked and has an address. -/
def drainVector (p : MsixTable × List MsixMessage) (vector : Nat) : MsixTable × List MsixMessage :=
  if p.1.vectorMasked vector then p
  else
    match p.1.message vector with
    | none => p
    | some message => (p.1.clearPending vector, p.2 ++ [message])

/-- One word of a drain: its bits as they stand at the start of the word, up to the last vector. -/
def drainWord (p : MsixTable × List MsixMessage) (wordIdx : Nat) : MsixTable × List MsixMessage :=
  (((setBits (entry 0 p.1.pendingBits wordIdx)).map fun bit => wordIdx * 64 + bit).takeWhile
    fun vector => decide (vector < p.1.vectorCount)).foldl drainVector p

/-- `drain_pending_into`. -/
def drainPendingInto (t : MsixTable) (functionEnabled functionMasked : Bool) (out : List MsixMessage) :
    MsixTable × List MsixMessage :=
  if !functionEnabled || functionMasked then (t, out)
  else (List.range t.pendingBits.length).foldl drainWord (t, out)

/-- `drain_pending`. -/
def drainPending (t : MsixTable) (functionEnabled functionMasked : Bool) : MsixTable × List MsixMessage :=
  t.drainPendingInto functionEnabled functionMasked []

/-! ## Pending bits -/

variable {t : MsixTable} {v j : Nat}

theorem vectorCount_eq (t : MsixTable) : t.vectorCount = t.entries.length := Nat.mod_eq_of_lt t.hcount.2

theorem word_lt (h : v < t.vectorCount) : v / 64 < t.pendingBits.length := by
  rw [vectorCount_eq] at h
  rw [t.hpba]
  omega

theorem pending_eq (t : MsixTable) (v : Nat) : t.pending v = bitAt t.pendingBits v := by
  unfold pending bitAt entry
  cases t.pendingBits[v / 64]? with
  | none =>
    have hzero : (0 : BitVec 64).getLsbD (v % 64) = false := BitVec.getLsbD_zero
    exact hzero.symm
  | some word => exact and_shiftLeft_one_bne_zero word (Nat.mod_lt v (by decide))

theorem pending_setPending (h : v < t.vectorCount) (j : Nat) :
    (t.setPending v).pending j = (t.pending j || decide (j = v)) := by
  rw [pending_eq, pending_eq]
  exact bitAt_set (word_lt h) j

theorem pending_clearPending (t : MsixTable) (v j : Nat) :
    (t.clearPending v).pending j = (t.pending j && !decide (j = v)) := by
  rw [pending_eq, pending_eq]
  exact bitAt_clear v j

theorem pending_new {n : Nat} (h : 0 < n ∧ n < 2 ^ 16) (v : Nat) : (new n h).pending v = false := by
  rw [pending_eq, bitAt, entry]
  have hzero : (0 : BitVec 64).getLsbD (v % 64) = false := BitVec.getLsbD_zero
  show ((List.replicate ((n + 63) / 64) (0 : BitVec 64))[v / 64]?.getD 0).getLsbD (v % 64) = false
  rw [List.getElem?_replicate]
  split
  · exact hzero
  · exact hzero

theorem message_vector {m : MsixMessage} (h : t.message v = some m) : m.vector = v ∧ v < t.vectorCount := by
  unfold message at h
  obtain ⟨e, he, hm⟩ := Option.bind_eq_some_iff.mp h
  refine ⟨?_, ?_⟩
  · unfold MsixEntry.message at hm
    dsimp only at hm
    split at hm
    · cases hm
      rfl
    · cases hm
  · rw [vectorCount_eq]
    exact (List.getElem?_eq_some_iff.mp he).1

/-! ## Table writes -/

theorem tableWriteByte_pending (t : MsixTable) (off : Nat) (b : UInt8) :
    (t.tableWriteByte off b).pendingBits = t.pendingBits ∧
      (t.tableWriteByte off b).entries.length = t.entries.length := by
  unfold tableWriteByte
  split
  · exact ⟨rfl, rfl⟩
  · exact ⟨rfl, List.length_modify _ _ _⟩

theorem tableWrite_pending (t : MsixTable) (offset size value : Nat) :
    (t.tableWrite offset size value).pendingBits = t.pendingBits ∧
      (t.tableWrite offset size value).entries.length = t.entries.length := by
  unfold tableWrite
  generalize List.range (min size 8) = bytes
  induction bytes generalizing t with
  | nil => exact ⟨rfl, rfl⟩
  | cons byte rest ih =>
    rw [List.foldl_cons]
    obtain ⟨hbits, hlen⟩ := ih (t.tableWriteByte (offset + byte) (UInt8.ofNat ((value >>> (byte * 8)) &&& 0xff)))
    obtain ⟨hbits', hlen'⟩ := tableWriteByte_pending t (offset + byte)
      (UInt8.ofNat ((value >>> (byte * 8)) &&& 0xff))
    exact ⟨hbits.trans hbits', hlen.trans hlen'⟩

end MsixTable

end BridgeVm.Msix
