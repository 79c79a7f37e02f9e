import BridgeVm.Hda.Stream

/-!
# The rounds of the HDA DMA loop (`hda/playback_dma.rs`, `hda/capture_dma.rs`)

`RoundOutcome` is what one round of the loop can do. No round overflows (`dmaRound_outcome`), each one that leaves the
stream running takes one of the rounds left (`roundsLeft_lt`), and so the loop ends with what its rounds keep
(`dmaLoop_induct`).
-/

namespace BridgeVm.Hda

open Lib

universe u

variable {ε : Type u}

/-- A chunk that is moved has the bytes that were asked for. -/
def Direction.Exact (d : Direction ε) : Prop :=
  ∀ format host mem address len host' mem' bytes,
    d.transfer format host mem address len = (host', some (mem', bytes)) → bytes.length = len

/-! ## Arithmetic -/

theorem add32_ofNat {a : UInt32} {n : Nat} (h : a.toNat + n < 2 ^ 32) :
    add32 a (UInt32.ofNat n) = some (a + UInt32.ofNat n) ∧ (a + UInt32.ofNat n).toNat = a.toNat + n := by
  have hlt : n < UInt32.size := by
    show n < 2 ^ 32
    omega
  have hn : (UInt32.ofNat n).toNat = n := UInt32.toNat_ofNat_of_lt' hlt
  constructor
  · rw [add32, hn, if_pos h]
  · rw [UInt32.toNat_add, hn, Nat.mod_eq_of_lt h]

/-- The entry after an entry. -/
def nextIndex (lvi index : UInt16) : UInt16 := if lvi ≤ index then 0 else index + 1

theorem nextIndex_eq (lvi index : UInt16) :
    (if lvi ≤ index then some 0 else add16 index 1) = some (nextIndex lvi index) := by
  unfold nextIndex add16
  split
  · rfl
  · rename_i hlt
    have hle := UInt16.toNat_lt lvi
    rw [UInt16.le_iff_toNat_le, Nat.not_le] at hlt
    have hone : (1 : UInt16).toNat = 1 := rfl
    rw [if_pos (by omega)]

theorem nextIndex_toNat (lvi index : UInt16) :
    (nextIndex lvi index).toNat = if lvi.toNat ≤ index.toNat then 0 else index.toNat + 1 := by
  unfold nextIndex
  simp only [UInt16.le_iff_toNat_le]
  split
  · rfl
  · rename_i hlt
    have hle := UInt16.toNat_lt lvi
    have hone : (1 : UInt16).toNat = 1 := rfl
    rw [UInt16.toNat_add, hone, Nat.mod_eq_of_lt (by omega)]

namespace Dma

variable {d : Direction ε} {format : PcmFormat} {s : Dma ε} {budget : Nat}

/-! ## What a round does -/

/-- An entry was left. -/
def completed (s : Dma ε) (flags : UInt32) : Dma ε :=
  { s with
    stream :=
      { s.stream with
        sts := if flags &&& bdlIoc != 0 then s.stream.sts ||| sdstsBcis else s.stream.sts
        bdlOffset := 0
        bdlIndex := nextIndex s.stream.lvi s.stream.bdlIndex } }

theorem completeBdlEntry_eq (s : Dma ε) (flags : UInt32) : s.completeBdlEntry flags = some (s.completed flags) := by
  unfold completeBdlEntry
  rw [nextIndex_eq]
  rfl

/-- The cursor and LPIB after `n` bytes of an entry, before its end and the end of the buffer are looked at. -/
def into (s : Dma ε) (n : Nat) : Dma ε :=
  { s with
    stream :=
      { s.stream with
        bdlOffset := s.stream.bdlOffset + UInt32.ofNat n
        lpib := s.stream.lpib + UInt32.ofNat n } }

/-- The entry is left when its last byte was moved. -/
def leave (s : Dma ε) (entry : BdlEntry) : Dma ε :=
  if s.stream.bdlOffset = entry.length then s.completed entry.flags else s

/-- The buffer starts over at its end. -/
def restart (d : Direction ε) (s : Dma ε) : Dma ε :=
  if s.stream.cbl ≤ s.stream.lpib then s.wrapCyclicBuffer.writePositionBuffer d else s

theorem advance_eq {entry : BdlEntry} {n : Nat} (hoffset : s.stream.bdlOffset.toNat + n < 2 ^ 32)
    (hlpib : s.stream.lpib.toNat + n < 2 ^ 32) :
    s.advance d entry n = some ((((s.into n).writePositionBuffer d).leave entry).restart d) := by
  unfold advance
  rw [(add32_ofNat hoffset).1, Option.bind_some, (add32_ofNat hlpib).1, Option.bind_some]
  have hstream : ∀ s : Dma ε, (s.writePositionBuffer d).stream = s.stream := by
    intro s
    unfold writePositionBuffer
    split
    · rfl
    · rfl
  have hleave : (if (s.into n).stream.bdlOffset = entry.length then
        ((s.into n).writePositionBuffer d).completeBdlEntry entry.flags
      else some ((s.into n).writePositionBuffer d)) = some (((s.into n).writePositionBuffer d).leave entry) := by
    unfold leave
    rw [hstream]
    split
    · exact completeBdlEntry_eq _ _
    · rfl
  exact congrArg (Option.map (restart d)) hleave

/-- The stream cannot go on: its descriptor is not readable, is of no length, or some of its bytes are not
accessible. -/
def Faulty (d : Direction ε) (bdl : UInt64) (index offset : Nat) (mem : GuestMemory) : Prop :=
  readDescriptor mem bdl index = none ∨
    ∃ entry, readDescriptor mem bdl index = some entry ∧ (entry.length = 0 ∨
      ∃ format host len, 0 < len ∧ offset + len ≤ entry.length.toNat ∧
        (d.transfer format host mem (checkedAdd entry.address.toNat offset) len).2 = none)

/-- The chunk of an entry at the cursor. -/
def chunkOf (s : Dma ε) (entry : BdlEntry) (mem : GuestMemory) (bytes : List UInt8) : Moved ε :=
  ⟨s.stream.bdlIndex.toNat, s.stream.bdlOffset.toNat, entry, s.mem, s.host, mem, bytes⟩

/-- A chunk was moved. -/
def taken (s : Dma ε) (entry : BdlEntry) (host : ε) (mem : GuestMemory) (bytes : List UInt8) : Dma ε :=
  { s with mem, host, log := .moved (s.chunkOf entry mem bytes) :: s.log }

/-- The stream after a chunk was moved. -/
def afterChunk (d : Direction ε) (s : Dma ε) (entry : BdlEntry) (host : ε) (mem : GuestMemory) (bytes : List UInt8) :
    Dma ε :=
  (((((s.taken entry host mem bytes).into bytes.length).writePositionBuffer d).leave entry).restart d)

/-- What a round can do. -/
inductive RoundOutcome (d : Direction ε) (format : PcmFormat) (s : Dma ε) (budget : Nat) : Dma ε × Nat → Prop
  | halted (host : ε) (hfault : Faulty d s.stream.bdl s.stream.bdlIndex.toNat s.stream.bdlOffset.toNat s.mem)
      (hhost : host = s.host ∨ ∃ address len, d.transfer format s.host s.mem address len = (host, none)) :
      RoundOutcome d format s budget ({ s with host }.haltDma d, budget)
  | skipped (entry : BdlEntry) (hentry : s.descriptor = some entry) (hlen : entry.length ≠ 0)
      (hend : entry.length ≤ s.stream.bdlOffset) :
      RoundOutcome d format s budget
        ({ s with log := .skipped s.stream.bdlIndex.toNat entry s.mem :: s.log }.completed entry.flags, budget)
  | wrapped (hcbl : s.stream.cbl ≤ s.stream.lpib) :
      RoundOutcome d format s budget (s.wrapCyclicBuffer.writePositionBuffer d, budget)
  | moved (entry : BdlEntry) (host : ε) (mem : GuestMemory) (bytes : List UInt8) (hentry : s.descriptor = some entry)
      (hpos : 0 < bytes.length) (hbudget : bytes.length ≤ budget)
      (hinside : s.stream.bdlOffset.toNat + bytes.length ≤ entry.length.toNat)
      (hcbl : s.stream.lpib.toNat + bytes.length ≤ s.stream.cbl.toNat)
      (htransfer : d.transfer format s.host s.mem (checkedAdd entry.address.toNat s.stream.bdlOffset.toNat)
        bytes.length = (host, some (mem, bytes))) :
      RoundOutcome d format s budget (s.afterChunk d entry host mem bytes, budget - bytes.length)

theorem moveChunk_outcome (hd : d.Exact) {entry : BdlEntry} {n : Nat} (hentry : s.descriptor = some entry)
    (hpos : 0 < n) (hbudget : n ≤ budget) (hinside : s.stream.bdlOffset.toNat + n ≤ entry.length.toNat)
    (hcbl : s.stream.lpib.toNat + n ≤ s.stream.cbl.toNat) :
    ∃ r, s.moveChunk d format entry n budget = some r ∧ RoundOutcome d format s budget r := by
  have hlength := UInt32.toNat_lt entry.length
  have hsize := UInt32.toNat_lt s.stream.cbl
  unfold moveChunk
  dsimp only
  rcases htransfer : d.transfer format s.host s.mem (checkedAdd entry.address.toNat s.stream.bdlOffset.toNat) n with
    ⟨host, _ | ⟨mem, bytes⟩⟩
  · refine ⟨_, rfl, .halted host (Or.inr ⟨entry, hentry, Or.inr ⟨format, s.host, n, hpos, hinside, ?_⟩⟩)
      (Or.inr ⟨_, n, htransfer⟩)⟩
    rw [htransfer]
  · obtain rfl := hd _ _ _ _ _ _ _ _ htransfer
    dsimp only
    rw [advance_eq (by dsimp only; omega) (by dsimp only; omega)]
    exact ⟨_, rfl, .moved entry host mem bytes hentry hpos hbudget hinside hcbl htransfer⟩

/-- No round overflows, and it does one of what a round can do. -/
theorem dmaRound_outcome (format : PcmFormat) (s : Dma ε) (hd : d.Exact) (hpos : 0 < budget) :
    ∃ r, s.dmaRound d format budget = some r ∧ RoundOutcome d format s budget r := by
  unfold dmaRound
  cases hentry : s.descriptor with
  | none => exact ⟨_, rfl, .halted s.host (Or.inl hentry) (Or.inl rfl)⟩
  | some entry =>
    dsimp only
    split
    · rename_i hzero
      exact ⟨_, rfl, .halted s.host (Or.inr ⟨entry, hentry, Or.inl hzero⟩) (Or.inl rfl)⟩
    · rename_i hlen
      split
      · rename_i hend
        unfold skipEntry
        rw [completeBdlEntry_eq]
        exact ⟨_, rfl, .skipped entry hentry hlen hend⟩
      · rename_i hinside
        rw [UInt32.le_iff_toNat_le, Nat.not_le] at hinside
        split
        · rename_i hchunk
          refine ⟨_, rfl, .wrapped ?_⟩
          rw [UInt32.le_iff_toNat_le]
          unfold chunkLen at hchunk
          dsimp only at hchunk
          omega
        · rename_i hchunk
          have hle : s.chunkLen entry budget ≤ budget ∧
              s.stream.bdlOffset.toNat + s.chunkLen entry budget ≤ entry.length.toNat ∧
              s.stream.lpib.toNat + s.chunkLen entry budget ≤ s.stream.cbl.toNat := by
            unfold chunkLen at hchunk ⊢
            dsimp only at hchunk ⊢
            omega
          exact moveChunk_outcome hd hentry (Nat.pos_of_ne_zero hchunk) hle.1 hle.2.1 hle.2.2

/-! ## A call ends -/

@[simp] theorem stream_writePositionBuffer (s : Dma ε) : (s.writePositionBuffer d).stream = s.stream := by
  unfold writePositionBuffer
  split
  · rfl
  · rfl

/-- The rounds that may be left: three for each byte of the budget, one to leave an entry that was shortened and one to
start over in a buffer that was. -/
def roundsLeft (s : Dma ε) (budget : Nat) : Nat :=
  3 * budget + (if s.stream.bdlOffset = 0 then 0 else 1) + (if s.stream.cbl ≤ s.stream.lpib then 1 else 0)

theorem roundsLeft_le (s : Dma ε) (budget : Nat) : s.roundsLeft budget ≤ 3 * budget + 2 := by
  unfold roundsLeft
  split <;> split <;> omega

theorem stream_restart (s : Dma ε) : (s.restart d).stream =
    if s.stream.cbl ≤ s.stream.lpib then s.wrapCyclicBuffer.stream else s.stream := by
  unfold restart
  split
  · exact stream_writePositionBuffer _
  · rfl

/-- A round that leaves the stream running takes one of the rounds left, when CBL is not zero. -/
theorem roundsLeft_lt {r : Dma ε × Nat} (h : RoundOutcome d format s budget r) (hcbl : s.stream.cbl ≠ 0)
    (hrunning : r.1.running = true) : r.1.roundsLeft r.2 < s.roundsLeft budget := by
  have hempty : ¬s.stream.cbl ≤ 0 := by
    rw [UInt32.le_iff_toNat_le, Nat.not_le]
    exact Nat.pos_of_ne_zero fun h => hcbl (UInt32.toNat_inj.mp h)
  cases h with
  | halted host hfault hhost =>
    exfalso
    simp only [running, haltDma] at hrunning
    have hclear : s.stream.ctl &&& ~~~sdctlRun &&& sdctlRun = 0 := by
      rw [UInt32.and_assoc]
      simp [sdctlRun]
    rw [hclear] at hrunning
    simp at hrunning
  | skipped entry hentry hlen hend =>
    have hoffset : s.stream.bdlOffset ≠ 0 := by
      intro hzero
      rw [hzero, UInt32.le_iff_toNat_le] at hend
      exact hlen (UInt32.toNat_inj.mp (Nat.le_zero.mp hend))
    simp only [roundsLeft, completed]
    rw [if_neg hoffset, if_true]
    omega
  | wrapped hle =>
    simp only [roundsLeft, stream_writePositionBuffer, wrapCyclicBuffer]
    rw [if_pos hle, if_neg hempty, if_true]
    omega
  | moved entry host mem bytes hentry hpos hbudget hinside hle htransfer =>
    have hbound : ∀ s : Dma ε, s.roundsLeft (budget - bytes.length) ≤
        3 * (budget - bytes.length) + 1 + (if s.stream.cbl ≤ s.stream.lpib then 1 else 0) := by
      intro s
      unfold roundsLeft
      split <;> omega
    have hrestarted : ∀ s : Dma ε, s.stream.cbl ≠ 0 →
      ¬(s.restart d).stream.cbl ≤ (s.restart d).stream.lpib := by
      intro s hne
      rw [stream_restart]
      split
      · simp only [wrapCyclicBuffer, UInt32.le_iff_toNat_le, Nat.not_le]
        exact Nat.pos_of_ne_zero fun h => hne (UInt32.toNat_inj.mp h)
      · assumption
    have hleft : ((((s.taken entry host mem bytes).into bytes.length).writePositionBuffer d).leave entry).stream.cbl ≠
      0 := by
      unfold leave
      split
      · simpa [completed, into, taken] using hcbl
      · simpa [into, taken] using hcbl
    have hfinal := hbound (s.afterChunk d entry host mem bytes)
    unfold afterChunk at hfinal ⊢
    rw [if_neg (hrestarted _ hleft)] at hfinal
    refine Nat.lt_of_le_of_lt hfinal ?_
    unfold roundsLeft
    omega

/-- What the guest programmed. -/
structure Programmed (s s' : Dma ε) : Prop where
  cbl : s'.stream.cbl = s.stream.cbl
  lvi : s'.stream.lvi = s.stream.lvi
  fmt : s'.stream.fmt = s.stream.fmt
  bdl : s'.stream.bdl = s.stream.bdl
  dpBase : s'.dpBase = s.dpBase

theorem Programmed.refl (s : Dma ε) : s.Programmed s := ⟨rfl, rfl, rfl, rfl, rfl⟩

theorem Programmed.trans {s₁ s₂ s₃ : Dma ε} (h₁ : s₁.Programmed s₂) (h₂ : s₂.Programmed s₃) :
    s₁.Programmed s₃ :=
  ⟨h₂.cbl.trans h₁.cbl, h₂.lvi.trans h₁.lvi, h₂.fmt.trans h₁.fmt, h₂.bdl.trans h₁.bdl,
    h₂.dpBase.trans h₁.dpBase⟩

theorem writePositionBuffer_programmed (s : Dma ε) : s.Programmed (s.writePositionBuffer d) := by
  unfold writePositionBuffer
  split
  · exact .refl s
  · exact ⟨rfl, rfl, rfl, rfl, rfl⟩

theorem wrapCyclicBuffer_programmed (s : Dma ε) : s.Programmed s.wrapCyclicBuffer := ⟨rfl, rfl, rfl, rfl, rfl⟩

theorem leave_programmed (s : Dma ε) (entry : BdlEntry) : s.Programmed (s.leave entry) := by
  unfold leave
  split
  · exact ⟨rfl, rfl, rfl, rfl, rfl⟩
  · exact .refl s

theorem restart_programmed (s : Dma ε) : s.Programmed (s.restart d) := by
  unfold restart
  split
  · exact (wrapCyclicBuffer_programmed s).trans (writePositionBuffer_programmed _)
  · exact .refl s

theorem RoundOutcome.programmed {r : Dma ε × Nat} (h : RoundOutcome d format s budget r) : s.Programmed r.1 := by
  cases h with
  | halted host hfault hhost => exact ⟨rfl, rfl, rfl, rfl, rfl⟩
  | skipped entry hentry hlen hend => exact ⟨rfl, rfl, rfl, rfl, rfl⟩
  | wrapped hcbl => exact (wrapCyclicBuffer_programmed s).trans (writePositionBuffer_programmed _)
  | moved entry host mem bytes hentry hpos hbudget hinside hcbl htransfer =>
    have hinto : s.Programmed ((s.taken entry host mem bytes).into bytes.length) := ⟨rfl, rfl, rfl, rfl, rfl⟩
    exact ((hinto.trans (writePositionBuffer_programmed _)).trans (leave_programmed _ entry)).trans
      (restart_programmed _)

/-- What each round keeps, the loop keeps; with the rounds that may be left it ends. -/
theorem dmaLoop_induct (hd : d.Exact) {P : Dma ε × Nat → Prop}
    (hround : ∀ s budget r, P (s, budget) → 0 < budget → s.running = true →
      RoundOutcome d format s budget r → P r)
    (rounds : Nat) : ∀ {s : Dma ε} {budget : Nat}, s.stream.cbl ≠ 0 → s.roundsLeft budget ≤ rounds →
    P (s, budget) →
      ∃ r, s.dmaLoop d format rounds budget = some r ∧ P r ∧ (r.2 = 0 ∨ r.1.running = false) := by
  induction rounds with
  | zero =>
    intro s budget _ hleft hP
    refine ⟨_, rfl, hP, Or.inl ?_⟩
    unfold roundsLeft at hleft
    omega
  | succ rounds ih =>
    intro s budget hcbl hleft hP
    unfold dmaLoop
    split
    · rename_i hgo
      obtain ⟨r, hr, houtcome⟩ := dmaRound_outcome format s hd hgo.1
      rw [hr, Option.bind_some]
      have hP' := hround s budget r hP hgo.1 hgo.2 houtcome
      by_cases hrunning : r.1.running = true
      · have hlt := roundsLeft_lt houtcome hcbl hrunning
        exact ih (houtcome.programmed.cbl ▸ hcbl) (by omega) hP'
      · refine ⟨r, ?_, hP', Or.inr (by simpa using hrunning)⟩
        cases rounds with
        | zero => rfl
        | succ rounds =>
          unfold dmaLoop
          rw [if_neg fun h => hrunning h.2]
    · rename_i hstop
      refine ⟨_, rfl, hP, ?_⟩
      rcases Nat.eq_zero_or_pos budget with hzero | hpos
      · exact Or.inl hzero
      · exact Or.inr (by simpa [hpos] using hstop)

end Dma

end BridgeVm.Hda
