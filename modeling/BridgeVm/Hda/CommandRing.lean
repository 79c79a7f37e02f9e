import BridgeVm.Hda.Interrupts
import BridgeVm.Lib.Bits
import BridgeVm.Lib.Ring
import BridgeVm.Lib.Transition

/-!
# The command and response rings (`hda/command_dma.rs`, `hda/hdapcmsink.rs`)

The commands between the pointers of CORB are executed in ring order, and each is answered in the next slot of RIRB
(`Commands`). A batch ends with CORB drained, at a command that cannot be read, or at a response that cannot be written
(`Ends`), with its registers as `answered` says. The pointers stay inside the rings, whatever the guest writes.
-/

namespace BridgeVm.Hda

open Lib

universe u v

namespace HdaController

variable {σ : Type u} {κ : Type v}

def corbEntries (c : HdaController σ κ) : Nat := (ringEntries c.corbSize).toNat

def rirbEntries (c : HdaController σ κ) : Nat := (ringEntries c.rirbSize).toNat

/-- The pointers are inside their rings, and the count of responses below its width. -/
structure PointersInside (c : HdaController σ κ) : Prop where
  corbRp : c.corbRp.toNat < c.corbEntries
  corbWp : c.corbWp.toNat < c.corbEntries
  rirbWp : c.rirbWp.toNat < c.rirbEntries
  responses : c.responsesSinceIrq.toNat < 65535

/-- How many commands lie between the pointers. -/
def pending (c : HdaController σ κ) : Nat := ringDist c.corbEntries c.corbRp.toNat c.corbWp.toNat

/-- The slots of the command that comes after `k` others, and of its response. -/
def corbSlot (c : HdaController σ κ) (k : Nat) : Nat := (c.corbRp.toNat + k + 1) % c.corbEntries

def rirbSlot (c : HdaController σ κ) (k : Nat) : Nat := (c.rirbWp.toNat + k + 1) % c.rirbEntries

/-- The command after `k` others. -/
def command (c : HdaController σ κ) (mem : GuestMemory) (k : Nat) : Option UInt32 :=
  ((checkedAdd c.corbBase.toNat (c.corbSlot k * 4)).bind fun address => mem.readBytes address 4).map fun raw =>
    UInt32.ofNat (ofLeBytes raw)

/-- Guest memory with the response to it. -/
def respond (c : HdaController σ κ) (mem : GuestMemory) (k : Nat) (verb response : UInt32) : Option GuestMemory :=
  (checkedAdd c.rirbBase.toNat (c.rirbSlot k * 8)).bind fun address =>
    let entry := toLeBytes 4 response.toNat ++ toLeBytes 4 ((verb >>> 28).toUInt8 &&& 0x0f).toNat
    if (mem.writeBytes address entry).2 then some (mem.writeBytes address entry).1 else none

/-- RINTCNT, where zero stands for 256. -/
def threshold (c : HdaController σ κ) : Nat := if c.rintcnt = 0 then 256 else c.rintcnt.toNat

end HdaController

/-- The count of responses after `k` more: one that reaches the threshold starts it anew. -/
def responseCount (threshold count : Nat) : Nat → Nat
  | 0 => count
  | k + 1 => if threshold ≤ responseCount threshold count k + 1 then 0 else responseCount threshold count k + 1

/-- The first `k` commands are executed, each once and in ring order, and each answered in the next slot. -/
inductive Commands {σ : Type u} {κ : Type v} [HdaCodec κ] (c : HdaController σ κ) (before : GuestMemory) :
    Nat → κ → GuestMemory → Prop
  | none : Commands c before 0 c.codec before
  | next {k : Nat} {codec : κ} {mem mem' : GuestMemory} {verb : UInt32} (h : Commands c before k codec mem)
      (hcommand : c.command mem k = some verb)
      (hrespond : c.respond mem k verb (HdaCodec.verb codec verb).1 = some mem') :
      Commands c before (k + 1) (HdaCodec.verb codec verb).2 mem'

/-- The registers after `k` commands. -/
def HdaController.answered {σ : Type u} {κ : Type v} (c : HdaController σ κ) (k : Nat) (codec : κ) :
    HdaController σ κ :=
  { c with
    codec
    corbRp := UInt16.ofNat ((c.corbRp.toNat + k) % c.corbEntries)
    rirbWp := UInt16.ofNat ((c.rirbWp.toNat + k) % c.rirbEntries)
    responsesSinceIrq := UInt16.ofNat (responseCount c.threshold c.responsesSinceIrq.toNat k)
    rirbSts :=
      if 0 < k ∧ c.threshold ≤ c.responsesSinceIrq.toNat + k then c.rirbSts ||| rirbstsRintfl else c.rirbSts }

/-- How a batch ends after `m` answered commands. -/
inductive Ends {σ : Type u} {κ : Type v} [HdaCodec κ] (c : HdaController σ κ) (before : GuestMemory) :
    Nat → HdaSystem σ κ → Prop
  | drained {codec : κ} {mem : GuestMemory} (h : Commands c before c.pending codec mem) :
    Ends c before c.pending ⟨c.answered c.pending codec, mem⟩
  /-- The command stays where it is. -/
  | unreadable {m : Nat} {codec : κ} {mem : GuestMemory} (hm : m < c.pending) (h : Commands c before m codec mem)
      (hcommand : c.command mem m = none) :
      Ends c before m ⟨{ c.answered m codec with corbSts := c.corbSts ||| corbstsCmei }, mem⟩
  /-- The command has been executed. -/
  | unwritable {m : Nat} {codec : κ} {mem : GuestMemory} {verb : UInt32} (hm : m < c.pending)
      (h : Commands c before m codec mem) (hcommand : c.command mem m = some verb)
      (hrespond : c.respond mem m verb (HdaCodec.verb codec verb).1 = none) :
      Ends c before m
        ⟨{ c.answered m (HdaCodec.verb codec verb).2 with
            corbRp := UInt16.ofNat (c.corbSlot m)
            rirbSts := (c.answered m codec).rirbSts ||| rirbstsOis }, mem⟩

/-! ## Positions -/

section Positions

variable {p : UInt16} {size : UInt8}

theorem ringEntries_cases (size : UInt8) : ringEntries size = 2 ∨ ringEntries size = 16 ∨
    ringEntries size = 256 := by
  unfold ringEntries
  split
  · exact .inl rfl
  split
  · exact .inr (.inl rfl)
  · exact .inr (.inr rfl)

theorem ringEntries_pos (size : UInt8) : 0 < (ringEntries size).toNat := by
  rcases ringEntries_cases size with h | h | h <;> rw [h] <;> decide

theorem ringEntries_le (size : UInt8) : (ringEntries size).toNat ≤ 256 := by
  rcases ringEntries_cases size with h | h | h <;> rw [h] <;> decide

theorem and_mask (p : UInt16) (size : UInt8) :
    (p &&& (ringEntries size - 1)).toNat = p.toNat % (ringEntries size).toNat := by
  rw [UInt16.toNat_and]
  rcases ringEntries_cases size with h | h | h <;> rw [h]
  · exact Nat.and_two_pow_sub_one_eq_mod p.toNat 1
  · exact Nat.and_two_pow_sub_one_eq_mod p.toNat 4
  · exact Nat.and_two_pow_sub_one_eq_mod p.toNat 8

theorem and_mask_lt (p : UInt16) (size : UInt8) : (p &&& (ringEntries size - 1)).toNat < (ringEntries size).toNat := by
  rw [and_mask]
  exact Nat.mod_lt _ (ringEntries_pos size)

theorem next_slot (h : p.toNat < (ringEntries size).toNat) :
    ((p + 1) &&& (ringEntries size - 1)).toNat = (p.toNat + 1) % (ringEntries size).toNat := by
  have hle := ringEntries_le size
  rw [and_mask, UInt16.toNat_add, show (1 : UInt16).toNat = 1 from rfl,
    Nat.mod_eq_of_lt (show p.toNat + 1 < 2 ^ 16 by omega)]

theorem toNat_ofNat_mod (n : Nat) (size : UInt8) :
    (UInt16.ofNat (n % (ringEntries size).toNat)).toNat = n % (ringEntries size).toNat := by
  have hlt := Nat.mod_lt n (ringEntries_pos size)
  have hle := ringEntries_le size
  rw [UInt16.toNat_ofNat']
  exact Nat.mod_eq_of_lt (by omega)

end Positions

/-! ## The count of responses -/

section Counts

variable {threshold count k : Nat}

theorem responseCount_eq (h : k = 0 ∨ count + k < threshold) : responseCount threshold count k = count + k := by
  induction k with
  | zero => rfl
  | succ k ih =>
    have hlt : count + (k + 1) < threshold := h.resolve_left (by omega)
    have hbefore := ih (.inr (by omega))
    rw [responseCount, hbefore, if_neg (by omega)]
    rfl

theorem responseCount_lt (hcount : count < 65535) (hthreshold : threshold ≤ 65535) :
    responseCount threshold count k < 65535 := by
  induction k with
  | zero => exact hcount
  | succ k ih =>
    rw [responseCount]
    split <;> omega

end Counts

theorem threshold_bounds {σ : Type u} {κ : Type v} (c : HdaController σ κ) : 0 < c.threshold ∧
    c.threshold ≤ 65535 := by
  unfold HdaController.threshold
  split
  · decide
  next hne =>
    have hlt := c.rintcnt.toNat_lt
    have hpos : c.rintcnt.toNat ≠ 0 := fun h => hne (UInt16.toNat_inj.mp h)
    omega

/-! ## One command -/

section Batch

variable {σ : Type u} {κ : Type v} {c : HdaController σ κ} {k m : Nat} {codec : κ} {before mem : GuestMemory}

theorem pending_lt (h : c.PointersInside) : c.pending < c.corbEntries :=
  ringDist_lt (Nat.lt_of_le_of_lt (Nat.zero_le _) h.corbRp)

theorem read_eq_write (h : c.PointersInside) (hk : k ≤ c.pending) :
    (c.answered k codec).corbRp = c.corbWp ↔ k = c.pending := by
  have hrp := h.corbRp
  have hwp := h.corbWp
  have hlt := pending_lt h
  have hdist : c.pending = _ := ringDist_eq hrp hwp
  rw [← UInt16.toNat_inj]
  show (UInt16.ofNat ((c.corbRp.toNat + k) % c.corbEntries)).toNat = c.corbWp.toNat ↔ _
  rw [HdaController.corbEntries, toNat_ofNat_mod, ← HdaController.corbEntries, add_mod_of_lt hrp (by omega)]
  split at hdist <;> split <;> omega

theorem answered_zero (h : c.PointersInside) : c.answered 0 c.codec = c := by
  have hrp : UInt16.ofNat ((c.corbRp.toNat + 0) % c.corbEntries) = c.corbRp := by
    rw [Nat.add_zero, Nat.mod_eq_of_lt h.corbRp, UInt16.ofNat_toNat]
  have hwp : UInt16.ofNat ((c.rirbWp.toNat + 0) % c.rirbEntries) = c.rirbWp := by
    rw [Nat.add_zero, Nat.mod_eq_of_lt h.rirbWp, UInt16.ofNat_toNat]
  have hcount : UInt16.ofNat (responseCount c.threshold c.responsesSinceIrq.toNat 0) = c.responsesSinceIrq := by
    rw [responseCount, UInt16.ofNat_toNat]
  have hsts : (if 0 < 0 ∧ c.threshold ≤ c.responsesSinceIrq.toNat + 0 then c.rirbSts ||| rirbstsRintfl
      else c.rirbSts) = c.rirbSts := if_neg (by omega)
  unfold HdaController.answered
  rw [hrp, hwp, hcount, hsts]

theorem next_corbSlot (c : HdaController σ κ) (k : Nat) (codec : κ) :
    (((c.answered k codec).corbRp + 1) &&& (c.answered k codec).corbPointerMask).toNat = c.corbSlot k := by
  have hrp : (c.answered k codec).corbRp.toNat = (c.corbRp.toNat + k) % c.corbEntries := toNat_ofNat_mod _ _
  have hlt : (c.answered k codec).corbRp.toNat < c.corbEntries := by
    rw [hrp]
    exact Nat.mod_lt _ (ringEntries_pos _)
  unfold HdaController.corbPointerMask
  rw [next_slot (show _ < (ringEntries (c.answered k codec).corbSize).toNat from hlt), hrp]
  exact Nat.mod_add_mod _ _ _

theorem next_rirbSlot (c : HdaController σ κ) (k : Nat) (codec : κ) :
    (((c.answered k codec).rirbWp + 1) &&& (c.answered k codec).rirbPointerMask).toNat = c.rirbSlot k := by
  have hwp : (c.answered k codec).rirbWp.toNat = (c.rirbWp.toNat + k) % c.rirbEntries := toNat_ofNat_mod _ _
  have hlt : (c.answered k codec).rirbWp.toNat < c.rirbEntries := by
    rw [hwp]
    exact Nat.mod_lt _ (ringEntries_pos _)
  unfold HdaController.rirbPointerMask
  rw [next_slot (show _ < (ringEntries (c.answered k codec).rirbSize).toNat from hlt), hwp]
  exact Nat.mod_add_mod _ _ _

/-- The count that a response brings, and what it raises. -/
theorem answered_succ (h : c.PointersInside) (k : Nat) (codec codec' : κ) :
    c.answered (k + 1) codec' =
      { c.answered k codec with
        codec := codec'
        corbRp := UInt16.ofNat (c.corbSlot k)
        rirbWp := UInt16.ofNat (c.rirbSlot k)
        responsesSinceIrq :=
          if c.threshold ≤ (c.answered k codec).responsesSinceIrq.toNat + 1 then 0
          else (c.answered k codec).responsesSinceIrq + 1
        rirbSts :=
          if c.threshold ≤ (c.answered k codec).responsesSinceIrq.toNat + 1 then
            (c.answered k codec).rirbSts ||| rirbstsRintfl
          else (c.answered k codec).rirbSts } := by
  obtain ⟨_, hthreshold⟩ := threshold_bounds c
  have hlt : responseCount c.threshold c.responsesSinceIrq.toNat k < 65535 :=
    responseCount_lt h.responses hthreshold
  have hcount : (UInt16.ofNat (responseCount c.threshold c.responsesSinceIrq.toNat k)).toNat =
      responseCount c.threshold c.responsesSinceIrq.toNat k := by
    rw [UInt16.toNat_ofNat']
    exact Nat.mod_eq_of_lt (by omega)
  have hresponses : UInt16.ofNat (responseCount c.threshold c.responsesSinceIrq.toNat (k + 1)) =
      if c.threshold ≤ responseCount c.threshold c.responsesSinceIrq.toNat k + 1 then 0
      else UInt16.ofNat (responseCount c.threshold c.responsesSinceIrq.toNat k) + 1 := by
    rw [responseCount]
    split
    · rfl
    · rw [UInt16.ofNat_add]
      rfl
  have hsts : (if 0 < k + 1 ∧ c.threshold ≤ c.responsesSinceIrq.toNat + (k + 1) then c.rirbSts ||| rirbstsRintfl
      else c.rirbSts) =
      if c.threshold ≤ responseCount c.threshold c.responsesSinceIrq.toNat k + 1 then
        (if 0 < k ∧ c.threshold ≤ c.responsesSinceIrq.toNat + k then c.rirbSts ||| rirbstsRintfl else c.rirbSts) |||
          rirbstsRintfl
      else if 0 < k ∧ c.threshold ≤ c.responsesSinceIrq.toNat + k then c.rirbSts ||| rirbstsRintfl
        else c.rirbSts := by
    by_cases hraised : 0 < k ∧ c.threshold ≤ c.responsesSinceIrq.toNat + k
    · -- raised before: once more changes nothing
      rw [if_pos (by omega), if_pos hraised, UInt8.or_assoc, UInt8.or_self, ite_self]
    · rw [responseCount_eq (by omega), if_neg hraised]
      by_cases hnow : c.threshold ≤ c.responsesSinceIrq.toNat + k + 1
      · rw [if_pos (by omega), if_pos hnow]
      · rw [if_neg (by omega), if_neg hnow]
  unfold HdaController.answered
  dsimp only
  rw [hcount, hresponses, hsts]
  rfl

/-- A response is stored in the next slot, or RIRB overruns. -/
theorem pushRirb_answered (h : c.PointersInside) (k : Nat) (codec codec' : κ) (mem : GuestMemory)
    (verb response : UInt32) {next : UInt16} (hnext : next = UInt16.ofNat (c.corbSlot k)) :
    HdaSystem.pushRirb ⟨{ c.answered k codec with codec := codec', corbRp := next }, mem⟩ response
        (verb >>> 28).toUInt8 =
      match c.respond mem k verb response with
      | some mem' => (⟨c.answered (k + 1) codec', mem'⟩, true)
      | none =>
        (⟨{ c.answered k codec' with
            corbRp := next
            rirbSts := (c.answered k codec).rirbSts ||| rirbstsOis }, mem⟩, false) := by
  have hslot : (((c.answered k codec).rirbWp + 1) &&& (c.answered k codec).rirbPointerMask).toNat = c.rirbSlot k :=
    next_rirbSlot c k codec
  have hwp : ((c.answered k codec).rirbWp + 1) &&& (c.answered k codec).rirbPointerMask =
      UInt16.ofNat (c.rirbSlot k) := by rw [← hslot, UInt16.ofNat_toNat]
  have hthreshold : ((if (c.answered k codec).rintcnt = 0 then (256 : UInt16) else (c.answered k codec).rintcnt) ≤
      (c.answered k codec).responsesSinceIrq + 1) ↔
      c.threshold ≤ (c.answered k codec).responsesSinceIrq.toNat + 1 := by
    have hlt : (c.answered k codec).responsesSinceIrq.toNat < 65535 := by
      have hcount : responseCount c.threshold c.responsesSinceIrq.toNat k < 65535 :=
        responseCount_lt h.responses (threshold_bounds c).2
      show (UInt16.ofNat (responseCount c.threshold c.responsesSinceIrq.toNat k)).toNat < 65535
      rw [UInt16.toNat_ofNat']
      exact Nat.lt_of_le_of_lt (Nat.mod_le _ _) hcount
    have hone : ((c.answered k codec).responsesSinceIrq + 1).toNat = (c.answered k codec).responsesSinceIrq.toNat +
      1 := by
      rw [UInt16.toNat_add, show (1 : UInt16).toNat = 1 from rfl, Nat.mod_eq_of_lt (by omega)]
    rw [UInt16.le_iff_toNat_le, hone]
    unfold HdaController.threshold
    show (if c.rintcnt = 0 then (256 : UInt16) else c.rintcnt).toNat ≤ _ ↔ _
    split <;> rfl
  unfold HdaSystem.pushRirb HdaController.respond
  dsimp only
  rw [show (HdaController.rirbPointerMask { c.answered k codec with codec := codec', corbRp := next }) =
    (c.answered k codec).rirbPointerMask from rfl, hslot]
  rw [show checkedAdd (c.answered k codec).rirbBase.toNat (c.rirbSlot k * 8) =
    checkedAdd c.rirbBase.toNat (c.rirbSlot k * 8) from rfl]
  cases hadd : checkedAdd c.rirbBase.toNat (c.rirbSlot k * 8) with
  | none => rfl
  | some address =>
    dsimp only
    rw [Option.bind_some]
    cases hwritten : (mem.writeBytes address (toLeBytes 4 response.toNat ++
        toLeBytes 4 ((verb >>> 28).toUInt8 &&& 0x0f).toNat)).2 with
    | false =>
      simp only [Bool.not_false, if_true, Bool.false_eq_true, if_false]
      rfl
    | true =>
      simp only [Bool.not_true, Bool.false_eq_true, if_false, if_true]
      rw [answered_succ h k codec codec', hwp, hnext]
      by_cases hraise : c.threshold ≤ (c.answered k codec).responsesSinceIrq.toNat + 1
      · rw [if_pos (hthreshold.mpr hraise), if_pos hraise, if_pos hraise]
      · rw [if_neg (mt hthreshold.mp hraise), if_neg hraise, if_neg hraise]

theorem zero_responses : (0 : UInt16).toNat < 65535 := by decide

theorem answered_inside (h : c.PointersInside) (m : Nat) (codec : κ) : (c.answered m codec).PointersInside where
  corbRp := by
    show (UInt16.ofNat ((c.corbRp.toNat + m) % c.corbEntries)).toNat < c.corbEntries
    rw [HdaController.corbEntries, toNat_ofNat_mod]
    exact Nat.mod_lt _ (ringEntries_pos _)
  corbWp := h.corbWp
  rirbWp := by
    show (UInt16.ofNat ((c.rirbWp.toNat + m) % c.rirbEntries)).toNat < c.rirbEntries
    rw [HdaController.rirbEntries, toNat_ofNat_mod]
    exact Nat.mod_lt _ (ringEntries_pos _)
  responses := by
    show (UInt16.ofNat (responseCount c.threshold c.responsesSinceIrq.toNat m)).toNat < 65535
    rw [UInt16.toNat_ofNat']
    exact Nat.lt_of_le_of_lt (Nat.mod_le _ _) (responseCount_lt h.responses (threshold_bounds c).2)

theorem new_inside (pcmSink : PcmSink) (pcmSource : Option σ) (microphone : Bool) (codec : κ) :
    (HdaController.new pcmSink pcmSource microphone codec).PointersInside :=
  ⟨ringEntries_pos _, ringEntries_pos _, ringEntries_pos _, zero_responses⟩

theorem writeGctl_inside (source : PcmSource σ) (codec : κ) (h : c.PointersInside) (next : UInt32) :
    (c.writeGctl source codec next).PointersInside := by
  unfold HdaController.writeGctl
  split
  · exact new_inside ..
  · dsimp only
    split <;> exact ⟨h.corbRp, h.corbWp, h.rirbWp, h.responses⟩

variable [HdaCodec κ]

/-- The loop from the state after `k` commands, with fuel for the rest. -/
theorem corbLoop_ends (h : c.PointersInside) {fuel : Nat} (hcommands : Commands c before k codec mem)
    (hk : k ≤ c.pending) (hfuel : c.pending ≤ k + fuel) :
    ∃ m, k ≤ m ∧ Ends c before m (HdaSystem.corbLoop fuel ⟨c.answered k codec, mem⟩).1 ∧
      (HdaSystem.corbLoop fuel ⟨c.answered k codec, mem⟩).2 = decide (k < m) := by
  induction fuel generalizing k codec mem with
  | zero =>
    obtain rfl : k = c.pending := by omega
    exact ⟨c.pending, Nat.le_refl _, .drained hcommands, by simp [HdaSystem.corbLoop]⟩
  | succ fuel ih =>
    unfold HdaSystem.corbLoop
    dsimp only
    by_cases hdrained : k = c.pending
    · have hmet : (c.answered k codec).corbRp = (c.answered k codec).corbWp := (read_eq_write h hk).mpr hdrained
      subst hdrained
      rw [if_pos hmet]
      exact ⟨c.pending, Nat.le_refl _, .drained hcommands, by simp⟩
    have hmet : ¬(c.answered k codec).corbRp = (c.answered k codec).corbWp := mt (read_eq_write h hk).mp hdrained
    have hslot := next_corbSlot c k codec
    have hnext : ((c.answered k codec).corbRp + 1) &&& (c.answered k codec).corbPointerMask =
        UInt16.ofNat (c.corbSlot k) := by rw [← hslot, UInt16.ofNat_toNat]
    rw [if_neg hmet, hslot, hnext]
    cases hraw : (checkedAdd (c.answered k codec).corbBase.toNat (c.corbSlot k * 4)).bind fun address =>
        mem.readBytes address 4 with
    | none =>
      have hcommand : c.command mem k = none := congrArg (Option.map fun raw => UInt32.ofNat (ofLeBytes raw)) hraw
      exact ⟨k, Nat.le_refl _, .unreadable (by omega) hcommands hcommand, by simp⟩
    | some raw =>
      have hcommand : c.command mem k = some (UInt32.ofNat (ofLeBytes raw)) :=
        congrArg (Option.map fun raw => UInt32.ofNat (ofLeBytes raw)) hraw
      dsimp only
      rw [show (c.answered k codec).codec = codec from rfl,
        pushRirb_answered h k codec (HdaCodec.verb codec (UInt32.ofNat (ofLeBytes raw))).2 mem
          (UInt32.ofNat (ofLeBytes raw)) (HdaCodec.verb codec (UInt32.ofNat (ofLeBytes raw))).1 rfl]
      cases hrespond : c.respond mem k (UInt32.ofNat (ofLeBytes raw))
          (HdaCodec.verb codec (UInt32.ofNat (ofLeBytes raw))).1 with
      | none => exact ⟨k, Nat.le_refl _, .unwritable (by omega) hcommands hcommand hrespond, by simp⟩
      | some mem' =>
        obtain ⟨m, hm, hends, _⟩ := ih (hcommands.next hcommand hrespond) (by omega) (by omega)
        exact ⟨m, by omega, hends, (decide_eq_true (show k < m by omega)).symm⟩

/-- The interrupt of a ring that drains, when it was answered anything. -/
def drainInterrupt (m : Nat) (h : HdaSystem σ κ) : HdaSystem σ κ :=
  if 0 < m ∧ h.ctrl.corbRp = h.ctrl.corbWp ∧ h.ctrl.rirbCtl &&& rirbctlRintctl ≠ 0 then
    { h with ctrl := { h.ctrl with rirbSts := h.ctrl.rirbSts ||| rirbstsRintfl, responsesSinceIrq := 0 } }
  else h

/-- `process_corb` leaves everything while a ring does not run; otherwise the batch ends after `m` answered commands,
and a ring that drains raises its interrupt. -/
inductive Processed (h : HdaSystem σ κ) : Nat → HdaSystem σ κ → Prop
  | idle (hstopped : h.ctrl.gctl &&& gctlCrst = 0 ∨ h.ctrl.corbCtl &&& corbctlRun = 0 ∨
    h.ctrl.rirbCtl &&& rirbctlDma = 0) :
    Processed h 0 h
  | batch {m : Nat} {h' : HdaSystem σ κ}
      (hrunning : ¬(h.ctrl.gctl &&& gctlCrst = 0 ∨ h.ctrl.corbCtl &&& corbctlRun = 0 ∨
        h.ctrl.rirbCtl &&& rirbctlDma = 0))
      (hends : Ends h.ctrl h.mem m h') : Processed h m (drainInterrupt m h')

theorem processCorb_processed (h : HdaSystem σ κ) (hinside : h.ctrl.PointersInside) :
    ∃ m, Processed h m h.processCorb := by
  unfold HdaSystem.processCorb
  dsimp only
  split
  next hstopped => exact ⟨0, .idle hstopped⟩
  next hrunning =>
    have hmask : h.ctrl.corbPointerMask.toNat + 1 = h.ctrl.corbEntries := by
      unfold HdaController.corbPointerMask HdaController.corbEntries
      rcases ringEntries_cases h.ctrl.corbSize with heq | heq | heq <;> rw [heq] <;> rfl
    have hlt := pending_lt hinside
    have hfuel : h.ctrl.pending ≤ 0 + (h.ctrl.corbPointerMask.toNat + 1) := by omega
    obtain ⟨m, _, hends, hproduced⟩ := corbLoop_ends hinside
      (show Commands h.ctrl h.mem 0 h.ctrl.codec h.mem from .none) (Nat.zero_le _) hfuel
    rw [answered_zero hinside] at hends hproduced
    rw [show (⟨h.ctrl, h.mem⟩ : HdaSystem σ κ) = h from rfl] at hends hproduced
    have hbatch := Processed.batch hrunning hends
    unfold drainInterrupt at hbatch
    refine ⟨m, ?_⟩
    rw [hproduced]
    simpa only [decide_eq_true_eq] using hbatch

theorem Ends.inside {h' : HdaSystem σ κ} (hends : Ends c before m h') (h : c.PointersInside) :
    h'.ctrl.PointersInside := by
  cases hends with
  | drained hcommands => exact answered_inside h _ _
  | unreadable hm hcommands hcommand =>
    have hanswered := answered_inside h m c.codec
    exact ⟨hanswered.corbRp, h.corbWp, hanswered.rirbWp, hanswered.responses⟩
  | unwritable hm hcommands hcommand hrespond =>
    have hanswered := answered_inside h m c.codec
    refine ⟨?_, h.corbWp, hanswered.rirbWp, hanswered.responses⟩
    show (UInt16.ofNat ((c.corbRp.toNat + m + 1) % c.corbEntries)).toNat < c.corbEntries
    rw [HdaController.corbEntries, toNat_ofNat_mod]
    exact Nat.mod_lt _ (ringEntries_pos _)

theorem Processed.inside {h h' : HdaSystem σ κ} (hprocessed : Processed h m h') (hinside : h.ctrl.PointersInside) :
    h'.ctrl.PointersInside := by
  cases hprocessed with
  | idle _ => exact hinside
  | batch hrunning hends =>
    have hinside' := hends.inside hinside
    unfold drainInterrupt
    split
    · exact ⟨hinside'.corbRp, hinside'.corbWp, hinside'.rirbWp, zero_responses⟩
    · exact hinside'

/-! ## Runs -/

/-- A write of a controller register keeps the pointers inside, also when it changes a size. -/
theorem controllerRegisters_inside (source : PcmSource σ) (codec : κ) :
    ∀ r ∈ controllerRegisters source codec, ∀ c next, c.PointersInside → (r.write c next).PointersInside := by
  intro r hr c next h
  simp only [controllerRegisters, List.mem_cons, List.not_mem_nil, or_false] at hr
  have hsame : ∀ c' : HdaController σ κ, c'.corbSize = c.corbSize → c'.rirbSize = c.rirbSize →
    c'.corbRp = c.corbRp →
      c'.corbWp = c.corbWp → c'.rirbWp = c.rirbWp → c'.responsesSinceIrq = c.responsesSinceIrq →
      c'.PointersInside := by
    intro c' hcorb hrirb hrp hwp hrirbWp hresponses
    refine ⟨?_, ?_, ?_, hresponses ▸ h.responses⟩
    · rw [HdaController.corbEntries, hrp, hcorb]
      exact h.corbRp
    · rw [HdaController.corbEntries, hwp, hcorb]
      exact h.corbWp
    · rw [HdaController.rirbEntries, hrirbWp, hrirb]
      exact h.rirbWp
  rcases hr with rfl | rfl | rfl | rfl | rfl | rfl | rfl | rfl | rfl | rfl | rfl | rfl | rfl | rfl | rfl | rfl | rfl |
    rfl | rfl | rfl | rfl | rfl
  · exact writeGctl_inside source codec h next.toUInt32
  · exact hsame _ rfl rfl rfl rfl rfl rfl
  · exact hsame _ rfl rfl rfl rfl rfl rfl
  · exact hsame _ rfl rfl rfl rfl rfl rfl
  · exact hsame _ rfl rfl rfl rfl rfl rfl
  · exact hsame _ rfl rfl rfl rfl rfl rfl
  · -- CORBWP
    exact ⟨h.corbRp, and_mask_lt _ _, h.rirbWp, h.responses⟩
  · -- CORBRP
    dsimp only
    split
    · exact ⟨ringEntries_pos _, h.corbWp, h.rirbWp, h.responses⟩
    · exact hsame _ rfl rfl rfl rfl rfl rfl
  · exact hsame _ rfl rfl rfl rfl rfl rfl
  · exact hsame _ rfl rfl rfl rfl rfl rfl
  · -- CORBSIZE
    dsimp only
    split
    · exact ⟨and_mask_lt _ _, and_mask_lt _ _, h.rirbWp, h.responses⟩
    · exact h
  · exact hsame _ rfl rfl rfl rfl rfl rfl
  · exact hsame _ rfl rfl rfl rfl rfl rfl
  · -- RIRBWP
    dsimp only
    split
    · exact ⟨h.corbRp, h.corbWp, ringEntries_pos _, zero_responses⟩
    · exact h
  · exact hsame _ rfl rfl rfl rfl rfl rfl
  · exact hsame _ rfl rfl rfl rfl rfl rfl
  · exact hsame _ rfl rfl rfl rfl rfl rfl
  · -- RIRBSIZE
    dsimp only
    split
    · exact ⟨h.corbRp, h.corbWp, and_mask_lt _ _, h.responses⟩
    · exact h
  · exact hsame _ rfl rfl rfl rfl rfl rfl
  · -- ICIS
    dsimp only
    split <;> split <;> exact hsame _ rfl rfl rfl rfl rfl rfl
  · exact hsame _ rfl rfl rfl rfl rfl rfl
  · exact hsame _ rfl rfl rfl rfl rfl rfl

theorem hdaRegisters_inside (source : PcmSource σ) (codec : κ) :
    ∀ r ∈ hdaRegisters source codec, ∀ c next, c.PointersInside → (r.write c next).PointersInside := by
  intro r hr c next h
  have hstream : ∀ s : StreamDescriptor, HdaController.PointersInside { c with stream := s } :=
    fun _ => ⟨h.corbRp, h.corbWp, h.rirbWp, h.responses⟩
  have hcapture : ∀ s : StreamDescriptor, HdaController.PointersInside { c with capture := s } :=
    fun _ => ⟨h.corbRp, h.corbWp, h.rirbWp, h.responses⟩
  unfold hdaRegisters at hr
  rw [List.mem_append, List.mem_append] at hr
  rcases hr with (hr | hr) | hr
  · exact controllerRegisters_inside source codec r hr c next h
  · simp only [streamRegisters, List.mem_cons, List.not_mem_nil, or_false] at hr
    rcases hr with rfl | rfl | rfl | rfl | rfl | rfl | rfl
    · exact ⟨h.corbRp, h.corbWp, h.rirbWp, h.responses⟩
    · exact hcapture _
    all_goals
      dsimp only
      split
      · exact hcapture _
      · exact h
  · simp only [streamRegisters, List.mem_cons, List.not_mem_nil, or_false] at hr
    rcases hr with rfl | rfl | rfl | rfl | rfl | rfl | rfl
    · dsimp only
      unfold HdaController.writeStreamCtl
      split <;> exact hstream _
    · exact hstream _
    all_goals
      dsimp only
      split
      · exact hstream _
      · exact h

omit [HdaCodec κ] in
theorem foldl_inside {rs : List (HdaRegister σ κ)} {written : Nat → Option UInt8}
    (hrs : ∀ r ∈ rs, ∀ c next, c.PointersInside → (r.write c next).PointersInside) (h : c.PointersInside) :
    (rs.foldl (HdaRegister.apply written) c).PointersInside := by
  induction rs generalizing c with
  | nil => exact h
  | cons r rs ih =>
    obtain ⟨hr, hrs⟩ := List.forall_mem_cons.mp hrs
    apply ih hrs
    unfold HdaRegister.apply
    split
    · exact h
    · exact hr _ _ h

omit [HdaCodec κ] in
theorem pollCapture_inside {source : PcmSource σ} {h h' : HdaSystem σ κ} {budget : Option Nat}
    (hpoll : h.pollCapture source budget = some h') (hinside : h.ctrl.PointersInside) : h'.ctrl.PointersInside := by
  have hsame : ∀ (capture : StreamDescriptor) (pcmSource : Option σ),
      HdaController.PointersInside { h.ctrl with capture := capture, pcmSource := pcmSource } :=
    fun _ _ => ⟨hinside.corbRp, hinside.corbWp, hinside.rirbWp, hinside.responses⟩
  unfold HdaSystem.pollCapture at hpoll
  dsimp only at hpoll
  split at hpoll
  · obtain rfl := Option.some.inj hpoll
    exact hinside
  split at hpoll
  · obtain rfl := Option.some.inj hpoll
    exact hinside
  split at hpoll
  · obtain rfl := Option.some.inj hpoll
    exact hsame _ _
  · obtain ⟨p, -, rfl⟩ := Option.map_eq_some_iff.mp hpoll
    exact hsame _ _

omit [HdaCodec κ] in
theorem pollPlayback_inside {h h' : HdaSystem σ κ} {budget : Option Nat} (hpoll : h.pollPlayback budget = some h')
    (hinside : h.ctrl.PointersInside) : h'.ctrl.PointersInside := by
  have hsame : ∀ stream pcmSink, HdaController.PointersInside { h.ctrl with stream := stream, pcmSink := pcmSink } :=
    fun _ _ => ⟨hinside.corbRp, hinside.corbWp, hinside.rirbWp, hinside.responses⟩
  unfold HdaSystem.pollPlayback at hpoll
  dsimp only at hpoll
  split at hpoll
  · obtain rfl := Option.some.inj hpoll
    exact hinside
  split at hpoll
  · obtain rfl := Option.some.inj hpoll
    exact hinside
  split at hpoll
  · obtain rfl := Option.some.inj hpoll
    exact hsame _ _
  · obtain ⟨p, -, rfl⟩ := Option.map_eq_some_iff.mp hpoll
    exact hsame _ _

/-- The registers after a write, before the rings are looked at. -/
def HdaSystem.afterRegisters (source : PcmSource σ) (codec : κ) (h : HdaSystem σ κ) (offset size : Nat)
    (value : UInt64) :
    HdaSystem σ κ :=
  { h with ctrl := (hdaRegisters source codec).foldl (HdaRegister.apply
    (h.ctrl.writtenBytes offset size value)) h.ctrl }

theorem afterRegisters_inside {h : HdaSystem σ κ} (hinside : h.ctrl.PointersInside)
    (source : PcmSource σ) (codec : κ)
    (offset size : Nat) (value : UInt64) : (h.afterRegisters source codec offset size value).ctrl.PointersInside :=
  foldl_inside (hdaRegisters_inside source codec) hinside

theorem mmioWrite_processed {h : HdaSystem σ κ} (hinside : h.ctrl.PointersInside) (source : PcmSource σ) (codec : κ)
    (offset size : Nat) (value : UInt64) :
    ∃ m, Processed (h.afterRegisters source codec offset size value) m (h.mmioWrite source codec offset size value) :=
  processCorb_processed _ (afterRegisters_inside hinside source codec offset size value)

theorem step_inside {source : PcmSource σ} {codec : κ} {h h' : HdaSystem σ κ} {op : HdaOp}
    (hstep : h.step source codec op = some h') (hinside : h.ctrl.PointersInside) : h'.ctrl.PointersInside := by
  cases op with
  | mmioWrite offset size value =>
    obtain rfl := Option.some.inj hstep
    obtain ⟨m, hprocessed⟩ := mmioWrite_processed hinside source codec offset size value
    exact hprocessed.inside (afterRegisters_inside hinside source codec offset size value)
  | poll capture playback =>
    obtain ⟨between, hcapture, hplayback⟩ := Option.bind_eq_some_iff.mp hstep
    exact pollPlayback_inside hplayback (pollCapture_inside hcapture hinside)
  | memory mem =>
    obtain rfl := Option.some.inj hstep
    exact hinside

/-! ## Backed rings -/

/-- Every slot of the rings is backed. -/
structure Backed (c : HdaController σ κ) (mem : GuestMemory) : Prop where
  corb : ∀ k, ∃ address, checkedAdd c.corbBase.toNat (c.corbSlot k * 4) = some address ∧
    mem.readable address 4 = true
  rirb : ∀ k, ∃ address, checkedAdd c.rirbBase.toNat (c.rirbSlot k * 8) = some address ∧
    mem.writable address 8 = true

theorem Commands.backing (h : Commands c before m codec mem) :
    mem.readable = before.readable ∧ mem.writable = before.writable := by
  induction h with
  | none => exact ⟨rfl, rfl⟩
  | next h hcommand hrespond ih =>
    unfold HdaController.respond at hrespond
    obtain ⟨address, _, hstore⟩ := Option.bind_eq_some_iff.mp hrespond
    dsimp only at hstore
    unfold GuestMemory.writeBytes at hstore
    split at hstore
    · obtain rfl := Option.some.inj hstore
      exact ih
    · cases hstore

theorem Ends.drains {h' : HdaSystem σ κ} (hends : Ends c before m h') (hbacked : Backed c before) :
    ∃ codec mem, Commands c before c.pending codec mem ∧ m = c.pending ∧
    h' = ⟨c.answered c.pending codec, mem⟩ := by
  cases hends with
  | drained hcommands => exact ⟨_, _, hcommands, rfl, rfl⟩
  | unreadable hm hcommands hcommand =>
    obtain ⟨address, haddress, hreadable⟩ := hbacked.corb m
    rw [← hcommands.backing.1] at hreadable
    simp [HdaController.command, haddress, GuestMemory.readBytes, hreadable] at hcommand
  | unwritable hm hcommands hcommand hrespond =>
    obtain ⟨address, haddress, hwritable⟩ := hbacked.rirb m
    rw [← hcommands.backing.2] at hwritable
    simp [HdaController.respond, haddress, GuestMemory.writeBytes, hwritable] at hrespond

/-- Backed rings that run drain, and every pending command is executed. -/
theorem Processed.drains {h h' : HdaSystem σ κ} (hprocessed : Processed h m h') (hinside : h.ctrl.PointersInside)
    (hbacked : Backed h.ctrl h.mem) (hcrst : h.ctrl.gctl &&& gctlCrst ≠ 0)
      (hrun : h.ctrl.corbCtl &&& corbctlRun ≠ 0)
    (hdma : h.ctrl.rirbCtl &&& rirbctlDma ≠ 0) :
    m = h.ctrl.pending ∧ h'.ctrl.corbRp = h'.ctrl.corbWp ∧ Commands h.ctrl h.mem m h'.ctrl.codec h'.mem := by
  cases hprocessed with
  | idle hstopped =>
    rcases hstopped with hstopped | hstopped | hstopped
    · exact absurd hstopped hcrst
    · exact absurd hstopped hrun
    · exact absurd hstopped hdma
  | batch hrunning hends =>
    obtain ⟨codec, mem, hcommands, hm, rfl⟩ := hends.drains hbacked
    have hmet : (h.ctrl.answered h.ctrl.pending codec).corbRp = h.ctrl.corbWp :=
      (read_eq_write hinside (Nat.le_refl _)).mpr rfl
    refine ⟨hm, ?_, ?_⟩
    · unfold drainInterrupt
      split <;> exact hmet
    · rw [hm]
      unfold drainInterrupt
      split <;> exact hcommands

/-! ## The response interrupt -/

theorem or_ois_and_rintfl (sts : UInt8) : (sts ||| rirbstsRintfl ||| rirbstsOis) &&& rirbstsRintfl = rirbstsRintfl := by
  rw [UInt8.or_assoc, UInt8.or_comm rirbstsRintfl, ← UInt8.or_assoc]
  exact or_and_self _ _

/-- RINTFL is up after a batch with a response that reached RINTCNT, and after one that drained CORB with the interrupt
enabled. -/
theorem Processed.raises {h h' : HdaSystem σ κ} (hprocessed : Processed h m h') (hpos : 0 < m)
    (hreason : h.ctrl.threshold ≤ h.ctrl.responsesSinceIrq.toNat + m ∨
      (h'.ctrl.corbRp = h'.ctrl.corbWp ∧ h'.ctrl.rirbCtl &&& rirbctlRintctl ≠ 0)) :
    h'.ctrl.rirbSts &&& rirbstsRintfl = rirbstsRintfl := by
  cases hprocessed with
  | idle _ => cases hpos
  | @batch _ h₁ hrunning hends =>
    unfold drainInterrupt at hreason ⊢
    split at hreason
    next hdrains =>
      rw [if_pos hdrains]
      exact or_and_self _ _
    next hdrains =>
      rw [if_neg hdrains]
      have hreached : h.ctrl.threshold ≤ h.ctrl.responsesSinceIrq.toNat + m := by
        refine hreason.resolve_right ?_
        rintro ⟨hmet, hctl⟩
        exact hdrains ⟨hpos, hmet, hctl⟩
      have hanswered : ∀ codec, (h.ctrl.answered m codec).rirbSts = h.ctrl.rirbSts ||| rirbstsRintfl :=
        fun _ => if_pos ⟨hpos, hreached⟩
      cases hends with
      | drained hcommands =>
        show (h.ctrl.answered _ _).rirbSts &&& _ = _
        rw [hanswered]
        exact or_and_self _ _
      | @unreadable _ codec _ hm hcommands hcommand =>
        show (h.ctrl.answered m codec).rirbSts &&& _ = _
        rw [hanswered]
        exact or_and_self _ _
      | @unwritable _ codec _ _ hm hcommands hcommand hrespond =>
        show ((h.ctrl.answered m codec).rirbSts ||| rirbstsOis) &&& _ = _
        rw [hanswered]
        exact or_ois_and_rintfl _

end Batch

/-- **CORB and RIRB execute each verb once.** In every reachable state the pointers are inside the rings. A register
write leaves them inside before the rings are looked at; then the batch is as `Processed` says, RINTFL is up when a
response reached RINTCNT or CORB drained with the interrupt enabled, and backed rings that run drain. -/
theorem command_rings {σ : Type u} {κ : Type v} [HdaCodec κ] (source : PcmSource σ) (codec : κ) (pcmSink : PcmSink)
    (pcmSource : Option σ) (microphone : Bool) (mem : GuestMemory) {h : HdaSystem σ κ}
    (hreach : Reaches (HdaSystem.step source codec) (fun _ _ => True)
      ⟨.new pcmSink pcmSource microphone codec, mem⟩ h) :
    h.ctrl.PointersInside ∧ ∀ offset size value before after,
      before = h.afterRegisters source codec offset size value →
      after = h.mmioWrite source codec offset size value →
        before.ctrl.PointersInside ∧ ∃ m, Processed before m after ∧
          (0 < m → before.ctrl.threshold ≤ before.ctrl.responsesSinceIrq.toNat + m ∨
            (after.ctrl.corbRp = after.ctrl.corbWp ∧ after.ctrl.rirbCtl &&& rirbctlRintctl ≠ 0) →
            after.ctrl.rirbSts &&& rirbstsRintfl = rirbstsRintfl) ∧
          (Backed before.ctrl before.mem → before.ctrl.gctl &&& gctlCrst ≠ 0 →
            before.ctrl.corbCtl &&& corbctlRun ≠ 0 → before.ctrl.rirbCtl &&& rirbctlDma ≠ 0 →
            m = before.ctrl.pending ∧ after.ctrl.corbRp = after.ctrl.corbWp ∧
              Commands before.ctrl before.mem m after.ctrl.codec after.mem) := by
  have hinside : h.ctrl.PointersInside :=
    hreach.invariant (P := fun h => h.ctrl.PointersInside) (new_inside pcmSink pcmSource microphone codec)
      fun _ _ _ hinside _ hstep => step_inside hstep hinside
  refine ⟨hinside, ?_⟩
  rintro offset size value before after rfl rfl
  have hbefore := afterRegisters_inside hinside source codec offset size value
  obtain ⟨m, hprocessed⟩ := mmioWrite_processed hinside source codec offset size value
  refine ⟨hbefore, m, hprocessed, fun hpos hreason => hprocessed.raises hpos hreason, ?_⟩
  exact fun hbacked hcrst hrun hdma => hprocessed.drains hbefore hbacked hcrst hrun hdma

/-- RAM without an end. -/
def ram : GuestMemory := ⟨fun _ => 0, fun _ _ => true, fun _ _ => true⟩

/-- Three commands behind the start of the rings. -/
theorem command_rings_three :
    ∃ h : HdaSystem Unit Unit,
      runs (guarded (HdaSystem.step silence ()) fun _ _ => True) ⟨.new none none false (), ram⟩
        [.mmioWrite 0x08 4 1, .mmioWrite 0x50 4 0x1000, .mmioWrite 0x5c 1 3, .mmioWrite 0x4c 1 2] = some h ∧
      h.ctrl.PointersInside ∧
      ∃ m, Processed (h.afterRegisters silence () 0x48 2 3) m (h.mmioWrite silence () 0x48 2 3) ∧
        (h.mmioWrite silence () 0x48 2 3).ctrl.corbRp = 3 ∧ (h.mmioWrite silence () 0x48 2 3).ctrl.rirbWp = 3 ∧
        (h.mmioWrite silence () 0x48 2 3).ctrl.rirbSts = rirbstsRintfl := by
  have hrun : runs (guarded (HdaSystem.step silence ()) fun _ _ => True) ⟨.new none none false (), ram⟩
      [.mmioWrite 0x08 4 1, .mmioWrite 0x50 4 0x1000, .mmioWrite 0x5c 1 3, .mmioWrite 0x4c 1 2] = some _ := rfl
  obtain ⟨hinside, hwrites⟩ := command_rings silence () none none false ram (Reaches.start.of_runs hrun)
  obtain ⟨_, m, hprocessed, _⟩ := hwrites 0x48 2 3 _ _ rfl rfl
  exact ⟨_, hrun, hinside, m, hprocessed, by decide +kernel, by decide +kernel, by decide +kernel⟩

end BridgeVm.Hda
