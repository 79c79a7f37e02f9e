import Mathlib.Data.List.Induction
import BridgeVm.Lib.Transition
import BridgeVm.Pflash.P30NorFlash

/-!
# Safety of the flash array

The command set read off the writes alone (`expect`) says which write is a command, a count or data, and which erase
setup a confirm answers. The modes of the bank follow it, but for one thing: an armed erase outlives the writes that are
no command, where each other setup is used up by the very next write. So the array is safe in exactly the runs in which
no such write stands between an erase setup and its confirm, or the block is erased already.
-/

namespace BridgeVm.Pflash

open Lib

/-! ## The command set -/

/-- What the next write to the bank is; `data n` is the first of `n + 1` data writes. -/
inductive Expect
  | command
  | word
  | count
  | data (n : Nat)
deriving DecidableEq, Repr

/-- The low byte of a write. -/
def Write.low (w : Write) : Nat := w.value % 256

def Expect.next : Expect → Write → Expect
  | .command, w =>
    if w.low = cmdWordProgramSetup ∨ w.low = cmdAltWordProgramSetup then .word
    else if w.low = cmdBufferedProgramSetup then .count
    else .command
  | .word, _ => .command
  | .count, w => .data w.low
  | .data 0, _ => .command
  | .data (n + 1), _ => .data n

/-- What the next write is, after the writes of `log`, newest first. -/
def expect : List Write → Expect
  | [] => .command
  | w :: log => (expect log).next w

/-- The next write is the data of a word program, or one of the announced writes of a buffered program. -/
def DataNext (log : List Write) : Prop := expect log = .word ∨ ∃ n, expect log = .data n

/-- The last write, where it is an erase setup. -/
def setup : List Write → Option Write
  | [] => none
  | w :: log => if expect log = .command ∧ w.low = cmdBlockEraseSetup then some w else none

/-- The last erase setup, where no command or program came after it. -/
def armed : List Write → Option Write
  | [] => none
  | w :: log =>
    if expect log ≠ .command then none
    else if w.low = cmdBlockEraseSetup then some w
    else if commandByte w.value = none then armed log
    else none

theorem armed_mem {log : List Write} {e : Write} (h : armed log = some e) : e ∈ log := by
  induction log with
  | nil => cases h
  | cons w log ih =>
    unfold armed at h
    split at h
    · cases h
    split at h
    · cases h
      exact List.mem_cons_self
    split at h
    · exact List.mem_cons_of_mem _ (ih h)
    · cases h

theorem armed_of_setup {log : List Write} {e : Write} (h : setup log = some e) : armed log = some e := by
  cases log with
  | nil => cases h
  | cons w log =>
    simp only [setup] at h
    split at h
    · rename_i hsetup
      cases h
      simp [armed, hsetup]
    · cases h

/-! ## What a write leaves -/

namespace P30NorFlash

theorem programBytes_get (bytes : List UInt8) (offset size value i : Nat) :
    (programBytes bytes offset size value)[i]? = (bytes[i]?).map fun byte =>
      if offset ≤ i ∧ i < offset + size then byte &&& UInt8.ofNat (value >>> (8 * (i - offset))) else byte := by
  induction size with
  | zero =>
    have hout : ¬(offset ≤ i ∧ i < offset) := by omega
    simp [programBytes, hout]
  | succ size ih =>
    unfold programBytes at ih ⊢
    rw [List.range_succ, List.foldl_append, List.foldl_cons, List.foldl_nil, List.getElem?_modify, ih]
    by_cases hi : offset + size = i
    · subst hi
      have hin : offset ≤ offset + size ∧ offset + size < offset + (size + 1) := by omega
      simp [hin]
    · have hiff : (offset ≤ i ∧ i < offset + (size + 1)) ↔ (offset ≤ i ∧ i < offset + size) := by omega
      simp [hi, hiff]

variable (f : P30NorFlash)

/-- The array with a block erased. -/
def erased (blockBase : Nat) : List UInt8 :=
  f.bytes.take blockBase ++
    List.replicate (min (blockBase + f.blockSize) f.bytes.length - blockBase) 0xff ++
      f.bytes.drop (min (blockBase + f.blockSize) f.bytes.length)

theorem erased_get {b : Nat} (hb : b ≤ f.bytes.length) (i : Nat) :
    (f.erased b)[i]? = (f.bytes[i]?).map fun byte => if b ≤ i ∧ i < b + f.blockSize then 0xff else byte := by
  unfold erased
  rw [List.append_assoc, List.getElem?_append, List.getElem?_append, List.length_take, List.length_replicate,
    List.getElem?_take, List.getElem?_replicate, List.getElem?_drop]
  have hmin : min b f.bytes.length = b := by omega
  rw [hmin]
  by_cases hlow : i < b
  · have hout : ¬(b ≤ i ∧ i < b + f.blockSize) := by omega
    simp [hlow, hout]
  by_cases hend : i < f.bytes.length
  · by_cases hblock : i < b + f.blockSize
    · have hin : b ≤ i ∧ i < b + f.blockSize := by omega
      have hmid : i - b < min (b + f.blockSize) f.bytes.length - b := by omega
      simp [hlow, hin, hmid, List.getElem?_eq_getElem hend]
    · have hout : ¬(b ≤ i ∧ i < b + f.blockSize) := by omega
      have hmid : ¬i - b < min (b + f.blockSize) f.bytes.length - b := by omega
      have hrest : min (b + f.blockSize) f.bytes.length +
          (i - b - (min (b + f.blockSize) f.bytes.length - b)) = i := by omega
      simp [hlow, hout, hmid, hrest]
  · have hmid : ¬i - b < min (b + f.blockSize) f.bytes.length - b := by omega
    have hrest : f.bytes.length ≤ min (b + f.blockSize) f.bytes.length +
        (i - b - (min (b + f.blockSize) f.bytes.length - b)) := by omega
    have hnone : f.bytes[i]? = none := List.getElem?_eq_none (by omega)
    simp [hlow, hmid, hnone, List.getElem?_eq_none hrest]

/-- The array after a write, by the command set. -/
def written (log : List Write) (w : Write) : List UInt8 :=
  match expect log with
  | .word | .data _ => programBytes f.bytes w.offset w.size w.value
  | .count => f.bytes
  | .command =>
    if w.low = cmdConfirm then ((armed log).map fun e => f.erased (f.blockBase e.offset)).getD f.bytes else f.bytes

end P30NorFlash

/-- What the next write is to a mode. -/
def Mode.expect : Mode → Expect
  | .programWord => .word
  | .awaitBufferCount => .count
  | .bufferData (remaining + 1) => .data remaining
  | _ => .command

def Mode.armed : Mode → Option Nat
  | .eraseSetup blockBase => some blockBase
  | _ => none

/-- The mode is the one the command set gives. -/
structure Follows (f : P30NorFlash) (log : List Write) : Prop where
  expect : f.mode.expect = expect log
  armed : f.mode.armed = (armed log).map fun e => f.blockBase e.offset
  inside : ∀ w ∈ log, w.offset < f.bytes.length

/-- A write went as the command set says. -/
structure Taken (f : P30NorFlash) (log : List Write) (w : Write) (f' : P30NorFlash) : Prop where
  base : f'.base = f.base
  blockSize : f'.blockSize = f.blockSize
  bytes : f'.bytes = f.written log w
  expect : f'.mode.expect = (expect log).next w
  armed : f'.mode.armed = (armed (w :: log)).map fun e => f.blockBase e.offset

section Writes

variable {f f' : P30NorFlash} {log : List Write} {w : Write}

theorem blockBase_le (h : Follows f log) {e : Write} (he : armed log = some e) :
    f.blockBase e.offset ≤ f.bytes.length := by
  have hinside := h.inside e (armed_mem he)
  unfold P30NorFlash.blockBase
  omega

/-- A confirm erases the armed block, if there is one. -/
theorem confirm_taken (h : Follows f log) (hexpect : expect log = .command) (hlow : w.low = cmdConfirm) :
    ∃ f', f.command w.offset w.low = some f' ∧ Taken f log w f' := by
  have harmed : armed (w :: log) = none := by
    have hknown : commandByte w.value ≠ none := by
      simp only [Write.low] at hlow
      simp [commandByte, hlow]
    simp [armed, hexpect, hlow, hknown, cmdConfirm, cmdBlockEraseSetup]
  have hnext : (expect log).next w = .command := by
    rw [hexpect]
    simp [Expect.next, hlow, cmdConfirm, cmdWordProgramSetup, cmdAltWordProgramSetup, cmdBufferedProgramSetup]
  have hcommand : f.command w.offset w.low =
      (match f.mode with
        | .eraseSetup blockBase => f.eraseBlock blockBase
        | _ => some f).map fun f : P30NorFlash => { f with mode := .readStatus } := by
    rw [hlow]
    rfl
  rcases harm : armed log with _ | e
  · have hmode : f.mode.armed = none := by simp [h.armed, harm]
    have hbytes : f.written log w = f.bytes := by simp [P30NorFlash.written, hexpect, hlow, harm]
    refine ⟨{ f with mode := .readStatus }, ?_, rfl, rfl, hbytes.symm, hnext.symm, by rw [harmed]; rfl⟩
    rw [hcommand]
    split
    · rename_i b hb
      rw [hb] at hmode
      cases hmode
    · rfl
  · have hmode : f.mode.armed = some (f.blockBase e.offset) := by simp [h.armed, harm]
    have hbytes : f.written log w = f.erased (f.blockBase e.offset) := by
      simp [P30NorFlash.written, hexpect, hlow, harm]
    have hle := blockBase_le h harm
    have herase : f.eraseBlock (f.blockBase e.offset) =
        some { f with bytes := f.erased (f.blockBase e.offset) } := by
      unfold P30NorFlash.eraseBlock
      dsimp only
      rw [if_neg (by omega)]
      rfl
    refine ⟨{ f with bytes := f.erased (f.blockBase e.offset), mode := .readStatus }, ?_, rfl, rfl, hbytes.symm,
      hnext.symm, by rw [harmed]; rfl⟩
    rw [hcommand]
    have hm : f.mode = .eraseSetup (f.blockBase e.offset) := by
      unfold Mode.armed at hmode
      split at hmode
      · cases hmode
        assumption
      · cases hmode
    simp only [hm, herase, Option.map_some]

theorem command_taken (h : Follows f log) (hexpect : expect log = .command) {cmd : Nat}
    (hcmd : commandByte w.value = some cmd) : ∃ f', f.command w.offset cmd = some f' ∧ Taken f log w f' := by
  have hknown : commandByte w.value ≠ none := by simp [hcmd]
  unfold commandByte at hcmd
  split at hcmd
  · rename_i hmem
    have hlow : w.low = cmd := Option.some.inj hcmd
    subst hlow
    by_cases hconfirm : w.low = cmdConfirm
    · exact confirm_taken h hexpect hconfirm
    have hbytes : f.written log w = f.bytes := by simp [P30NorFlash.written, hexpect, hconfirm]
    simp only [List.mem_cons, List.not_mem_nil, or_false] at hmem
    have hlow : w.value % 256 = w.low := rfl
    simp only [hlow] at hmem
    have hmode : ∀ mode, f.command w.offset w.low = some { f with mode := mode } →
        mode.expect = Expect.command.next w →
          mode.armed = (if w.low = cmdBlockEraseSetup then some w else none).map (fun e => f.blockBase e.offset) →
            ∃ f', f.command w.offset w.low = some f' ∧ Taken f log w f' := by
      intro mode hcommand hexpect' harmed
      refine ⟨_, hcommand, rfl, rfl, hbytes.symm, by rw [hexpect]; exact hexpect', ?_⟩
      rw [armed, if_neg (not_not.mpr hexpect), if_neg hknown]
      exact harmed
    rcases hmem with hc | hc | hc | hc | hc | hc | hc | hc | hc | hc | hc
    · exact hmode .readId (by rw [hc]; rfl) (by simp only [Expect.next, hc]; rfl) (by rw [hc]; rfl)
    · exact hmode .readStatus (by rw [hc]; rfl) (by simp only [Expect.next, hc]; rfl) (by rw [hc]; rfl)
    · exact hmode .readStatus (by rw [hc]; rfl) (by simp only [Expect.next, hc]; rfl) (by rw [hc]; rfl)
    · exact hmode .readArray (by rw [hc]; rfl) (by simp only [Expect.next, hc]; rfl) (by rw [hc]; rfl)
    · exact hmode .readCfi (by rw [hc]; rfl) (by simp only [Expect.next, hc]; rfl) (by rw [hc]; rfl)
    · exact hmode .programWord (by rw [hc]; rfl) (by simp only [Expect.next, hc]; rfl) (by rw [hc]; rfl)
    · exact hmode .programWord (by rw [hc]; rfl) (by simp only [Expect.next, hc]; rfl) (by rw [hc]; rfl)
    · exact hmode .awaitBufferCount (by rw [hc]; rfl) (by simp only [Expect.next, hc]; rfl) (by rw [hc]; rfl)
    · exact absurd hc hconfirm
    · exact hmode (.eraseSetup (f.blockBase w.offset)) (by rw [hc]; rfl) (by simp only [Expect.next, hc]; rfl)
        (by rw [hc]; rfl)
    · exact hmode .lockSetup (by rw [hc]; rfl) (by simp only [Expect.next, hc]; rfl) (by rw [hc]; rfl)
  · cases hcmd

/-- What a write leaves while a command is expected. -/
theorem write_command (h : Follows f log) (hexpect : expect log = .command) :
    ∃ f', ((match commandByte w.value with
      | none => some f
      | some cmd => f.command w.offset cmd) = some f') ∧ Taken f log w f' := by
  rcases hcmd : commandByte w.value with _ | cmd
  · have hmem : w.low ∉ [cmdReadDeviceId, cmdReadStatusRegister, cmdClearStatusRegister, cmdReadArray,
      cmdReadCfiQuery,
        cmdWordProgramSetup, cmdAltWordProgramSetup, cmdBufferedProgramSetup, cmdConfirm, cmdBlockEraseSetup,
        cmdLockBlockSetup] := by
      intro hmem
      have hsome : commandByte w.value = some w.low := if_pos hmem
      rw [hcmd] at hsome
      cases hsome
    simp only [List.mem_cons, List.not_mem_nil, or_false, not_or] at hmem
    refine ⟨f, rfl, rfl, rfl, ?_, ?_, ?_⟩
    · simp [P30NorFlash.written, hexpect, hmem]
    · rw [h.expect, hexpect]
      simp [Expect.next, hmem]
    · rw [h.armed]
      simp [armed, hexpect, hmem, hcmd]
  · exact command_taken h hexpect hcmd

theorem write_taken (h : Follows f log) (hsize : w.size ≤ 8) : ∃ f', f.write w = some f' ∧ Taken f log w f' := by
  have hunarmed : expect log ≠ .command → armed (w :: log) = none := fun hne => if_pos hne
  have hprogram : f.program w =
      some { f with bytes := P30NorFlash.programBytes f.bytes w.offset w.size w.value } := if_neg (by omega)
  have hfollows := h.expect
  unfold P30NorFlash.write
  split
  · rename_i hmode
    have hexpect : expect log = .word := by rw [← hfollows, hmode]; rfl
    rw [hprogram]
    refine ⟨_, rfl, rfl, rfl, ?_, ?_, ?_⟩
    · simp [P30NorFlash.written, hexpect]
    · rw [hexpect]
      rfl
    · rw [hunarmed (by simp [hexpect])]
      rfl
  · rename_i hmode
    have hexpect : expect log = .count := by rw [← hfollows, hmode]; rfl
    refine ⟨_, rfl, rfl, rfl, ?_, ?_, ?_⟩
    · simp [P30NorFlash.written, hexpect]
    · rw [hexpect]
      rfl
    · rw [hunarmed (by simp [hexpect])]
      rfl
  · rename_i remaining hmode
    have hexpect : expect log = .data remaining := by rw [← hfollows, hmode]; rfl
    rw [hprogram]
    refine ⟨_, rfl, rfl, rfl, ?_, ?_, ?_⟩
    · simp [P30NorFlash.written, hexpect]
    · rw [hexpect]
      cases remaining <;> rfl
    · rw [hunarmed (by simp [hexpect])]
      rfl
  · rename_i hword hcount hdata
    have hexpect : expect log = .command := by
      rw [← hfollows]
      unfold Mode.expect
      split
      · exact absurd ‹_› hword
      · exact absurd ‹_› hcount
      · exact absurd ‹_› (hdata _)
      · rfl
    exact write_command h hexpect

theorem length_written (h : Follows f log) : (f.written log w).length = f.bytes.length := by
  have hprogram : ∀ size, (P30NorFlash.programBytes f.bytes w.offset size w.value).length = f.bytes.length := by
    intro size
    induction size with
    | zero => rfl
    | succ size ih =>
      unfold P30NorFlash.programBytes at ih ⊢
      rw [List.range_succ, List.foldl_append, List.foldl_cons, List.foldl_nil, List.length_modify, ih]
  unfold P30NorFlash.written
  split
  · exact hprogram _
  · exact hprogram _
  · rfl
  split
  · rcases harm : armed log with _ | e
    · rfl
    · have hle := blockBase_le h harm
      simp only [P30NorFlash.erased, Option.map_some, Option.getD_some, List.length_append, List.length_take,
        List.length_replicate, List.length_drop]
      omega
  · rfl

theorem Taken.follows (ht : Taken f log w f') (h : Follows f log) (hin : w.offset < f.bytes.length) :
    Follows f' (w :: log) := by
  have hlength : f'.bytes.length = f.bytes.length := by rw [ht.bytes, length_written h]
  refine ⟨ht.expect, ?_, ?_⟩
  · rw [ht.armed]
    unfold P30NorFlash.blockBase
    rw [ht.blockSize]
  · intro e he
    rw [hlength]
    rcases List.mem_cons.mp he with rfl | he
    · exact hin
    · exact h.inside e he

end Writes

/-! ## Safe accesses -/

/-- The write that an access makes to the bank. -/
def Session.written (s : Session) (a : Access) : Option Write :=
  match s.flash.offset a.gpa, a.op with
  | some offset, .write size value => some ⟨offset, size, value⟩
  | _, _ => none

def Access.size (a : Access) : Nat :=
  match a.op with
  | .read size => size
  | .write size _ => size

/-- `i` is in the block of `e`. -/
def P30NorFlash.InBlock (f : P30NorFlash) (e : Write) (i : Nat) : Prop :=
  f.blockBase e.offset ≤ i ∧ i < f.blockBase e.offset + f.blockSize

/-- A bit of the array rises only in the block of an erase setup whose very next write is the confirm, and falls only at
the bytes of a data write; no other write is stored; and a read in array mode gives the array. -/
structure SafeAccess (s : Session) (a : Access) (s' : Session) (outcome : MmioOutcome) : Prop where
  length : s'.flash.bytes.length = s.flash.bytes.length
  rises : ∀ i x y bit, s.flash.bytes[i]? = some x → s'.flash.bytes[i]? = some y → x.toNat.testBit bit = false →
    y.toNat.testBit bit = true →
      ∃ w e, s.written a = some w ∧ w.low = cmdConfirm ∧ setup s.log = some e ∧ s.flash.InBlock e i
  falls : ∀ i x y bit, s.flash.bytes[i]? = some x → s'.flash.bytes[i]? = some y → x.toNat.testBit bit = true →
    y.toNat.testBit bit = false →
      ∃ w, s.written a = some w ∧ DataNext s.log ∧ w.offset ≤ i ∧ i < w.offset + w.size
  stored : ¬DataNext s.log → ∀ (i : Nat) x y, s.flash.bytes[i]? = some x → s'.flash.bytes[i]? = some y →
    y ≠ x → y = 0xff
  array : ∀ size offset, a.op = .read size → s.flash.offset a.gpa = some offset → s.flash.mode = .readArray →
    outcome = .readValue (ofLeBytes ((List.range size).map fun i => (s.flash.bytes[offset + i]?).getD 0xff))

/-- A confirm that answers an erase setup comes right after it, or the block is erased already. -/
def Prompt (s : Session) (a : Access) : Prop :=
  ∀ w e, s.written a = some w → expect s.log = .command → w.low = cmdConfirm → armed s.log = some e →
    setup s.log = some e ∨ ∀ i x, s.flash.InBlock e i → s.flash.bytes[i]? = some x → x = 0xff

theorem testBit_ones {x : UInt8} {bit : Nat} (h : x.toNat.testBit bit = true) :
    (0xff : UInt8).toNat.testBit bit = true := by
  have hbit : bit < 8 := by
    by_contra hle
    have hpow : 2 ^ 8 ≤ 2 ^ bit := Nat.pow_le_pow_right (by decide) (by omega)
    have hlt : x.toNat < 2 ^ bit := Nat.lt_of_lt_of_le x.toNat_lt hpow
    rw [Nat.testBit_lt_two_pow hlt] at h
    cases h
  have hones : (0xff : UInt8).toNat = 2 ^ 8 - 1 := rfl
  rw [hones, Nat.testBit_two_pow_sub_one]
  exact decide_eq_true hbit

theorem exists_zero_bit {x : UInt8} (h : x ≠ 0xff) :
    ∃ bit, x.toNat.testBit bit = false ∧ (0xff : UInt8).toNat.testBit bit = true := by
  by_contra hnone
  push Not at hnone
  apply h
  rw [← UInt8.toNat_inj]
  apply Nat.eq_of_testBit_eq
  intro bit
  rcases hx : x.toNat.testBit bit with _ | _
  · rcases hones : (0xff : UInt8).toNat.testBit bit with _ | _
    · rfl
    · exact absurd hones (hnone bit hx)
  · exact (testBit_ones hx).symm

section Accesses

variable {s s' : Session} {a : Access} {outcome : MmioOutcome}

/-- An access writes, or leaves everything. -/
theorem access_cases (h : Follows s.flash s.log) (hsize : a.size ≤ 8) :
    ∃ s' outcome, s.access a = some (s', outcome) ∧
      ((∃ w, s.written a = some w ∧ w.offset < s.flash.bytes.length ∧ s'.log = w :: s.log ∧
          Taken s.flash s.log w s'.flash) ∨
        (s.written a = none ∧ s' = s ∧ ∀ size offset, a.op = .read size → s.flash.offset a.gpa = some offset →
          s.flash.mode = .readArray → outcome =
            .readValue (ofLeBytes ((List.range size).map fun i => (s.flash.bytes[offset + i]?).getD 0xff)))) := by
  rcases hoffset : s.flash.offset a.gpa with _ | offset
  · refine ⟨s,
      .unmapped, by simp [Session.access, hoffset], .inr ⟨by simp [Session.written, hoffset], rfl, ?_⟩⟩
    intro size offset _ hsome
    cases hsome
  have hin : offset < s.flash.bytes.length := by
    unfold P30NorFlash.offset at hoffset
    split at hoffset
    · cases hoffset
      exact (‹_ ∧ _›).2
    · cases hoffset
  rcases hop : a.op with size | ⟨size, value⟩
  · have hle : size ≤ 8 := by simpa [Access.size, hop] using hsize
    obtain ⟨value, hread⟩ : ∃ value, s.flash.read offset size = some value := by
      unfold P30NorFlash.read
      split
      · exact ⟨_, rfl⟩
      · exact ⟨_, rfl⟩
      · exact ⟨_, rfl⟩
      · exact ⟨_, rfl⟩
      · exact ⟨_, rfl⟩
      · exact ⟨_, if_neg (by omega)⟩
    refine ⟨s, .readValue value, by simp [Session.access, hoffset, hop, hread],
      .inr ⟨by simp [Session.written, hoffset, hop], rfl, ?_⟩⟩
    intro size' offset' hsize' hoffset' hmode
    cases hsize'
    cases hoffset'
    simp only [P30NorFlash.read, hmode, P30NorFlash.readArray, if_neg (show ¬8 < size by omega)] at hread
    exact congrArg _ (Option.some.inj hread).symm
  · have hle : size ≤ 8 := by simpa [Access.size, hop] using hsize
    obtain ⟨flash, hwrite, htaken⟩ := write_taken (w := ⟨offset, size, value⟩) h hle
    exact ⟨⟨flash, ⟨offset, size, value⟩ :: s.log⟩, .writeAck, by simp [Session.access, hoffset, hop, hwrite],
      .inl ⟨_, by simp [Session.written, hoffset, hop], hin, rfl, htaken⟩⟩

/-- What one byte becomes. -/
theorem written_get {f : P30NorFlash} {log : List Write} (h : Follows f log) (w : Write) {i : Nat} {x y : UInt8}
    (hx : f.bytes[i]? = some x) (hy : (f.written log w)[i]? = some y) :
    y = x ∨
      (DataNext log ∧ w.offset ≤ i ∧ i < w.offset + w.size ∧ ∃ v, y = x &&& v) ∨
        (expect log = .command ∧ w.low = cmdConfirm ∧ y = 0xff ∧ ∃ e, armed log = some e ∧
          f.InBlock e i) := by
  have hprogram : DataNext log → (P30NorFlash.programBytes f.bytes w.offset w.size w.value)[i]? = some y →
      y = x ∨ (DataNext log ∧ w.offset ≤ i ∧ i < w.offset + w.size ∧ ∃ v, y = x &&& v) := by
    intro hdata hget
    rw [P30NorFlash.programBytes_get, hx] at hget
    simp only [Option.map_some, Option.some.injEq] at hget
    split at hget
    · rename_i hin
      exact .inr ⟨hdata, hin.1, hin.2, _, hget.symm⟩
    · exact .inl hget.symm
  unfold P30NorFlash.written at hy
  split at hy
  · rename_i hword
    exact (hprogram (.inl hword) hy).imp_right .inl
  · rename_i n hdata
    exact (hprogram (.inr ⟨n, hdata⟩) hy).imp_right .inl
  · rw [hx] at hy
    exact .inl (Option.some.inj hy).symm
  rename_i hcommand
  split at hy
  · rename_i hconfirm
    rcases harm : armed log with _ | e
    · rw [harm] at hy
      exact .inl (Option.some.inj (hx.symm.trans hy)).symm
    · rw [harm] at hy
      simp only [Option.map_some, Option.getD_some] at hy
      rw [P30NorFlash.erased_get f (blockBase_le h harm), hx] at hy
      simp only [Option.map_some, Option.some.injEq] at hy
      split at hy
      · rename_i hin
        exact .inr (.inr ⟨hcommand, hconfirm, hy.symm, e, rfl, hin⟩)
      · exact .inl hy.symm
  · rw [hx] at hy
    exact .inl (Option.some.inj hy).symm

/-- A write is safe exactly when it is prompt. -/
theorem taken_safe (h : Follows s.flash s.log) {w : Write} (hw : s.written a = some w)
    (ht : Taken s.flash s.log w s'.flash) : SafeAccess s a s' outcome ↔ Prompt s a := by
  have hbytes := ht.bytes
  constructor
  · rintro hsafe w' e hw' hcommand hconfirm harm
    obtain rfl : w = w' := Option.some.inj (hw.symm.trans hw')
    by_contra hnot
    push Not at hnot
    obtain ⟨hsetup, i, x, hin, hx, hne⟩ := hnot
    obtain ⟨bit, hzero, hone⟩ := exists_zero_bit hne
    have hy : s'.flash.bytes[i]? = some 0xff := by
      have herased : s'.flash.bytes = s.flash.erased (s.flash.blockBase e.offset) := by
        rw [hbytes]
        simp [P30NorFlash.written, hcommand, hconfirm, harm]
      rw [herased, P30NorFlash.erased_get _ (blockBase_le h harm), hx]
      exact congrArg some (if_pos hin)
    obtain ⟨_, e', _, _, hsetup', _⟩ := hsafe.rises i x 0xff bit hx hy hzero hone
    rw [armed_of_setup hsetup'] at harm
    exact hsetup (hsetup'.trans harm)
  · intro hprompt
    have hget : ∀ {i : Nat} {x y : UInt8}, s.flash.bytes[i]? = some x → s'.flash.bytes[i]? = some y → _ :=
      fun hx hy => written_get h w hx (hbytes ▸ hy)
    refine ⟨?_, ?_, ?_, ?_, ?_⟩
    · rw [hbytes, length_written h]
    · intro i x y bit hx hy hzero hone
      rcases hget hx hy with rfl | ⟨_, _, _, v, rfl⟩ | ⟨hcommand, hconfirm, rfl, e, harm, hin⟩
      · rw [hzero] at hone
        cases hone
      · rw [UInt8.toNat_and, Nat.testBit_and, hzero] at hone
        cases hone
      · rcases hprompt w e hw hcommand hconfirm harm with hsetup | hones
        · exact ⟨w, e, hw, hconfirm, hsetup, hin⟩
        · rw [hones i x hin hx, hone] at hzero
          cases hzero
    · intro i x y bit hx hy hone hzero
      rcases hget hx hy with rfl | ⟨hdata, hlow, hhigh, _⟩ | ⟨_, _, rfl, _⟩
      · rw [hzero] at hone
        cases hone
      · exact ⟨w, hw, hdata, hlow, hhigh⟩
      · rw [testBit_ones hone] at hzero
        cases hzero
    · intro hdata i x y hx hy hne
      rcases hget hx hy with rfl | ⟨hdata', _⟩ | ⟨_, _, rfl, _⟩
      · exact absurd rfl hne
      · exact absurd hdata' hdata
      · rfl
    · intro size offset hop hoffset
      simp [Session.written, hop, hoffset] at hw

/-- **One access is safe exactly when it is prompt.** -/
theorem access_safe (h : Follows s.flash s.log) (hsize : a.size ≤ 8) (ha : s.access a = some (s', outcome)) :
    SafeAccess s a s' outcome ↔ Prompt s a := by
  obtain ⟨s₁, outcome₁, ha₁, hcases⟩ := access_cases (a := a) h hsize
  obtain ⟨rfl, rfl⟩ : s₁ = s' ∧ outcome₁ = outcome := by simpa using ha₁.symm.trans ha
  rcases hcases with ⟨w, hw, _, _, ht⟩ | ⟨hnone, rfl, hread⟩
  · exact taken_safe h hw ht
  · constructor
    · intro _ w e hw
      rw [hnone] at hw
      cases hw
    · have hsame : ∀ {i : Nat} {x y : UInt8}, s₁.flash.bytes[i]? = some x →
        s₁.flash.bytes[i]? = some y → x = y :=
        fun hx hy => Option.some.inj (hx.symm.trans hy)
      intro _
      refine ⟨rfl, ?_, ?_, ?_, hread⟩
      · intro i x y bit hx hy hzero hone
        rw [hsame hx hy, hone] at hzero
        cases hzero
      · intro i x y bit hx hy hone hzero
        rw [hsame hx hy, hzero] at hone
        cases hone
      · intro _ i x y hx hy hne
        exact absurd (hsame hx hy).symm hne

theorem step_follows (h : Follows s.flash s.log) (hsize : a.size ≤ 8) (hs : s.step a = some s') :
    Follows s'.flash s'.log := by
  obtain ⟨s₁, outcome, ha, hcases⟩ := access_cases (a := a) h hsize
  obtain rfl : s₁ = s' := by simpa [Session.step, ha] using hs
  rcases hcases with ⟨w, _, hin, hlog, ht⟩ | ⟨_, rfl, _⟩
  · rw [hlog]
    exact ht.follows h hin
  · exact h

theorem follows_start {f : P30NorFlash} (hmode : f.mode = .readArray) : Follows f [] := by
  refine ⟨?_, ?_, ?_⟩
  · rw [hmode]
    rfl
  · rw [hmode]
    rfl
  · intro w hw
    cases hw

theorem run_follows {f : P30NorFlash} (hmode : f.mode = .readArray) {accesses : List Access}
    (hsize : ∀ a ∈ accesses, a.size ≤ 8) :
    ∃ s, runs Session.step ⟨f, []⟩ accesses = some s ∧ Follows s.flash s.log := by
  induction accesses using List.reverseRecOn with
  | nil => exact ⟨_, rfl, follows_start hmode⟩
  | append_singleton accesses a ih =>
    obtain ⟨mid, hmid, hfollows⟩ := ih fun a' ha' => hsize a' (List.mem_append_left _ ha')
    have ha := hsize a (by simp)
    obtain ⟨s', outcome, haccess, _⟩ := access_cases hfollows ha
    have hstep : mid.step a = some s' := by simp [Session.step, haccess]
    exact ⟨s', by rw [runs_append, hmid]; simp [runs, hstep], step_follows hfollows ha hstep⟩

end Accesses

/-- **No access panics, and every access is safe** exactly when each confirm of an armed erase comes right after its
setup, or finds the block erased. -/
theorem array_safety (f : P30NorFlash) (hmode : f.mode = .readArray) (accesses : List Access)
    (hsize : ∀ a ∈ accesses, a.size ∈ [1, 2, 4, 8]) :
    (∃ s, runs Session.step ⟨f, []⟩ accesses = some s) ∧
      ((∀ before a s s' outcome, before ++ [a] <+: accesses → runs Session.step ⟨f, []⟩ before = some s →
          s.access a = some (s', outcome) → SafeAccess s a s' outcome) ↔
        ∀ before a s, before ++ [a] <+: accesses → runs Session.step ⟨f, []⟩ before = some s →
        Prompt s a) := by
  have hle : ∀ a ∈ accesses, a.size ≤ 8 := by
    intro a ha
    have hmem := hsize a ha
    simp only [List.mem_cons, List.not_mem_nil, or_false] at hmem
    omega
  have hfollows : ∀ {before a s}, before ++ [a] <+: accesses → runs Session.step ⟨f, []⟩ before = some s →
      Follows s.flash s.log ∧ a.size ≤ 8 := by
    intro before a s hbefore hrun
    have hmem : ∀ a' ∈ before ++ [a], a'.size ≤ 8 := fun a' ha' => hle a' (hbefore.subset ha')
    obtain ⟨s₁, hrun₁, h⟩ := run_follows hmode fun a' ha' => hmem a' (List.mem_append_left _ ha')
    obtain rfl : s₁ = s := Option.some.inj (hrun₁.symm.trans hrun)
    exact ⟨h, hmem a (by simp)⟩
  refine ⟨?_, ?_, ?_⟩
  · obtain ⟨s, hrun, _⟩ := run_follows hmode hle
    exact ⟨s, hrun⟩
  · intro hsafe before a s hbefore hrun
    obtain ⟨h, ha⟩ := hfollows hbefore hrun
    obtain ⟨s', outcome, haccess, _⟩ := access_cases h ha
    exact (access_safe h ha haccess).mp (hsafe before a s s' outcome hbefore hrun haccess)
  · intro hprompt before a s s' outcome hbefore hrun haccess
    obtain ⟨h, ha⟩ := hfollows hbefore hrun
    exact (access_safe h ha haccess).mpr (hprompt before a s hbefore hrun)

/-- A bank of one block, all zero. -/
def zeroBank : P30NorFlash := ⟨0x04000000, 4, Nat.zero_lt_succ _, List.replicate 4 0, .readArray⟩

/-- An erase setup and its confirm: every access is safe. -/
theorem array_safety_erase :
    (runs Session.step ⟨zeroBank, []⟩ [⟨0x04000000, .write 4 0x00200020⟩,
      ⟨0x04000000, .write 4 0x00d000d0⟩]).map
        (fun s => s.flash.bytes) = some (List.replicate 4 0xff) ∧
      ∀ before a s s' outcome,
        before ++ [a] <+: [⟨0x04000000, .write 4 0x00200020⟩, ⟨0x04000000, .write 4 0x00d000d0⟩] →
          runs Session.step ⟨zeroBank, []⟩ before = some s → s.access a = some (s', outcome) →
          SafeAccess s a s' outcome := by
  refine ⟨rfl, (array_safety zeroBank rfl _ (by decide)).2.mpr fun before a s hprefix hrun => ?_⟩
  obtain ⟨rest, hrest⟩ := hprefix
  match before, hrun with
  | [], hrun =>
    cases hrest
    cases hrun
    intro w e hw hexpect hlow harmed
    cases harmed
  | [setup], hrun =>
    cases hrest
    cases hrun
    intro w e hw hexpect hlow harmed
    exact .inl harmed
  | _ :: _ :: before, hrun => simp at hrest

/-- A write that is no command stands between the erase setup and the confirm, and the block is erased. -/
theorem unprompt_erase :
    ∃ s s' outcome, runs Session.step ⟨zeroBank, []⟩
        [⟨0x04000000, .write 4 0x00200020⟩, ⟨0x04000000, .write 4 0x12345678⟩] = some s ∧
      s.access ⟨0x04000000, .write 4 0x00d000d0⟩ = some (s', outcome) ∧ s'.flash.bytes = List.replicate 4 0xff ∧
        ¬SafeAccess s ⟨0x04000000, .write 4 0x00d000d0⟩ s' outcome := by
  refine ⟨_, _, _, rfl, rfl, rfl, fun hsafe => ?_⟩
  obtain ⟨_, e, _, _, hsetup, _⟩ := hsafe.rises 0 0 0xff 0 rfl rfl (by decide) (by decide)
  cases hsetup

end BridgeVm.Pflash
