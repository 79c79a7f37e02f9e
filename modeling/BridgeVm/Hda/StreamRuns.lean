import BridgeVm.Hda.CyclicCopy
import BridgeVm.Lib.Bits

/-!
# Calls and runs of HDA DMA (`hda/playback_dma.rs`, `hda/capture_dma.rs`)

A call ends with its budget moved or the stream stopped by a fault (`Call`), whatever the registers hold. From a stream
reset on, polls and what the guest does between them keep the walk (`run_walking`), so the log of a run is the cyclic
sequence of the entries.
-/

namespace BridgeVm.Hda

open Lib

universe u

variable {ε : Type u}

theorem delivered_append (later earlier : List (StreamEvent ε)) :
    delivered (later ++ earlier) = delivered earlier ++ delivered later := by
  induction later with
  | nil => simp [delivered]
  | cons e later ih =>
    cases e with
    | moved chunk => simp [delivered, ih]
    | skipped index entry mem => exact ih
    | position lpib => exact ih
    | halted index offset mem => exact ih

namespace Dma

variable {d : Direction ε} {format : PcmFormat} {s : Dma ε} {budget : Nat}

/-- BCIS. -/
def completion (s : Dma ε) : Bool := s.stream.sts &&& sdstsBcis != 0

/-- DESE. -/
def descriptorError (s : Dma ε) : Bool := s.stream.sts &&& sdstsDese != 0

/-- The stream can run: there is a buffer and a format. -/
def ready (s : Dma ε) : Prop := s.stream.cbl ≠ 0 ∧ s.stream.bdl ≠ 0 ∧
    (streamPcmFormat s.stream.fmt).isSome = true

/-- What a call did, for the events it logged: every byte of the budget that is not left was moved; BCIS is set by an
entry that completes with IOC and by nothing else; and a stream that is stopped was stopped by a fault, after which
nothing was moved. -/
structure Call (d : Direction ε) (s : Dma ε) (budget : Nat) (r : Dma ε × Nat)
    (new : List (StreamEvent ε)) : Prop where
  programmed : s.Programmed r.1
  log : r.1.log = new ++ s.log
  moved : (delivered new).length + r.2 = budget
  completion : r.1.completion = (s.completion || new.any StreamEvent.interrupts)
  running : r.1.running = s.running ∨
    (r.1.running = false ∧ r.1.descriptorError = true ∧
      ∃ index offset mem rest, new = .halted index offset mem :: rest ∧ Faulty d s.stream.bdl index offset mem)

theorem Call.refl (s : Dma ε) (budget : Nat) : Call d s budget (s, budget) [] :=
  ⟨.refl s, rfl, by simp [delivered], by simp, Or.inl rfl⟩

/-! ## One round -/

theorem completion_completed (s : Dma ε) (flags : UInt32) :
    (s.completed flags).completion = (s.completion || flags &&& bdlIoc != 0) := by
  unfold completion completed
  dsimp only
  split
  · rename_i h
    rw [or_and_self, h]
    simp [sdstsBcis]
  · rename_i h
    simp only [Bool.not_eq_true] at h
    rw [h, Bool.or_false]

theorem completion_haltDma (s : Dma ε) : (s.haltDma d).completion = s.completion ∧
    (s.haltDma d).descriptorError = true ∧ (s.haltDma d).running = false := by
  refine ⟨?_, ?_, ?_⟩
  · have hkeep : (s.stream.sts ||| sdstsDese) &&& sdstsBcis = s.stream.sts &&& sdstsBcis := by
      apply UInt8.toBitVec_inj.mp
      rw [UInt8.toBitVec_and, UInt8.toBitVec_or, UInt8.toBitVec_and, BitVec.and_comm, BitVec.and_or_distrib_left,
        BitVec.and_comm sdstsBcis.toBitVec s.stream.sts.toBitVec]
      exact BitVec.or_zero
    unfold completion haltDma
    rw [hkeep]
  · unfold descriptorError haltDma
    rw [or_and_self]
    rfl
  · have hclear : s.stream.ctl &&& ~~~sdctlRun &&& sdctlRun = 0 := by
      rw [UInt32.and_assoc]
      simp [sdctlRun]
    unfold running haltDma
    rw [hclear]
    rfl

theorem writePositionBuffer_call (d : Direction ε) (s : Dma ε) (budget : Nat) :
    ∃ new, Call d s budget (s.writePositionBuffer d, budget) new ∧ new.any StreamEvent.interrupts = false := by
  unfold writePositionBuffer
  split
  · exact ⟨[], .refl s budget, rfl⟩
  · refine ⟨[.position s.stream.lpib.toNat], ⟨⟨rfl, rfl, rfl, rfl, rfl⟩, rfl, ?_, ?_, Or.inl rfl⟩, rfl⟩
    · simp [delivered]
    · simp [completion, StreamEvent.interrupts]

theorem Call.trans {r₁ r₂ : Dma ε × Nat} {new₁ new₂ : List (StreamEvent ε)}
    (h₁ : Call d s budget r₁ new₁)
    (hrunning : r₁.1.running = s.running) (h₂ : Call d r₁.1 r₁.2 r₂ new₂) : Call d s budget r₂
      (new₂ ++ new₁) where
  programmed := h₁.programmed.trans h₂.programmed
  log := by rw [h₂.log, h₁.log, List.append_assoc]
  moved := by
    have hfirst := h₁.moved
    have hsecond := h₂.moved
    rw [delivered_append, List.length_append]
    omega
  completion := by rw [h₂.completion, h₁.completion, List.any_append, Bool.or_assoc, Bool.or_comm (new₁.any _)]
  running := by
    rcases h₂.running with h | ⟨hstopped, hdese, index, offset, mem, rest, hnew, hfault⟩
    · exact Or.inl (h.trans hrunning)
    · refine Or.inr ⟨hstopped, hdese, index, offset, mem, rest ++ new₁, by rw [hnew, List.cons_append], ?_⟩
      rw [← h₁.programmed.bdl]
      exact hfault

theorem wrapCyclicBuffer_call (d : Direction ε) (s : Dma ε) (budget : Nat) :
    ∃ new, Call d s budget (s.wrapCyclicBuffer.writePositionBuffer d, budget) new := by
  obtain ⟨new, hcall, -⟩ := writePositionBuffer_call d s.wrapCyclicBuffer budget
  have hwrap : Call d s budget (s.wrapCyclicBuffer, budget) [] :=
    ⟨wrapCyclicBuffer_programmed s, rfl, by simp [delivered], by simp [completion, wrapCyclicBuffer], Or.inl rfl⟩
  exact ⟨_, hwrap.trans rfl hcall⟩

theorem completion_leave (s : Dma ε) (entry : BdlEntry) : (s.leave entry).completion =
    (s.completion || (decide (s.stream.bdlOffset = entry.length) && entry.flags &&& bdlIoc != 0)) := by
  unfold leave
  split
  · rename_i h
    rw [completion_completed]
    simp [h]
  · rename_i h
    simp [h]

theorem running_leave (s : Dma ε) (entry : BdlEntry) : (s.leave entry).running = s.running := by
  unfold leave
  split
  · rfl
  · rfl

/-- A chunk and its entry, up to the end of the buffer. -/
theorem leave_call (d : Direction ε) {entry : BdlEntry} (host : ε) (mem : GuestMemory) {bytes : List UInt8}
    (hbudget : bytes.length ≤ budget) (hinside : s.stream.bdlOffset.toNat + bytes.length ≤ entry.length.toNat) :
    ∃ new, Call d s budget
      ((((s.taken entry host mem bytes).into bytes.length).writePositionBuffer d).leave entry,
        budget - bytes.length) new ∧
      ((((s.taken entry host mem bytes).into bytes.length).writePositionBuffer d).leave entry).running = s.running := by
  have hlength := UInt32.toNat_lt entry.length
  obtain ⟨first, hfirst⟩ : ∃ first, first = (s.taken entry host mem bytes).into bytes.length := ⟨_, rfl⟩
  obtain ⟨new, hcall, hquiet⟩ := writePositionBuffer_call d first (budget - bytes.length)
  have hoffset : first.stream.bdlOffset.toNat = s.stream.bdlOffset.toNat + bytes.length := by
    have hlt : (s.taken entry host mem bytes).stream.bdlOffset.toNat + bytes.length < 2 ^ 32 := by
      show s.stream.bdlOffset.toNat + _ < _
      omega
    rw [hfirst]
    exact (add32_ofNat hlt).2
  have hprogrammed : s.Programmed first := by
    rw [hfirst]
    exact ⟨rfl, rfl, rfl, rfl, rfl⟩
  have hlog : first.log = .moved (s.chunkOf entry mem bytes) :: s.log := by rw [hfirst]; rfl
  have hcompletion : first.completion = s.completion := by rw [hfirst]; rfl
  have hrunning : (first.writePositionBuffer d).running = s.running := by
    unfold running
    rw [stream_writePositionBuffer, hfirst]
    rfl
  rw [← hfirst]
  refine ⟨new ++ [.moved (s.chunkOf entry mem bytes)],
    ⟨(hprogrammed.trans hcall.programmed).trans (leave_programmed _ entry), ?_, ?_, ?_, Or.inl ?_⟩, ?_⟩
  · show ((first.writePositionBuffer d).leave entry).log = _
    rw [(leave_keeps _ _).2.2.1, hcall.log, hlog, List.append_assoc]
    rfl
  · have hnone := hcall.moved
    rw [delivered_append, List.length_append]
    show (s.chunkOf entry mem bytes).bytes.length + _ + (budget - bytes.length) = budget
    have hbytes : (s.chunkOf entry mem bytes).bytes = bytes := rfl
    rw [hbytes]
    omega
  · have hevent : (StreamEvent.moved (s.chunkOf entry mem bytes)).interrupts =
        (decide (first.stream.bdlOffset = entry.length) && entry.flags &&& bdlIoc != 0) := by
      have hiff : s.stream.bdlOffset.toNat + bytes.length = entry.length.toNat ↔
        first.stream.bdlOffset = entry.length := by
        rw [← hoffset, UInt32.toNat_inj]
      exact congrArg (· && entry.flags &&& bdlIoc != 0) (decide_eq_decide.mpr hiff)
    show ((first.writePositionBuffer d).leave entry).completion = _
    rw [completion_leave, hcall.completion, hcompletion, hquiet, stream_writePositionBuffer, List.any_append, hquiet,
      List.any_cons, List.any_nil, hevent]
    simp
  · rw [running_leave, hrunning]
  · rw [running_leave, hrunning]

/-- The part of a call that a round is. -/
theorem RoundOutcome.call {r : Dma ε × Nat} (h : RoundOutcome d format s budget r) : ∃ new,
    Call d s budget r new := by
  cases h with
  | halted host hfault hhost =>
    obtain ⟨hcompletion, hdese, hstopped⟩ := completion_haltDma (d := d) { s with host }
    refine ⟨[.halted s.stream.bdlIndex.toNat s.stream.bdlOffset.toNat s.mem], ⟨rfl, rfl, rfl, rfl, rfl⟩, rfl,
      ?_, ?_, ?_⟩
    · simp [delivered]
    · rw [hcompletion]
      simp [completion, StreamEvent.interrupts]
    · exact Or.inr ⟨hstopped, hdese, _, _, _, [], rfl, hfault⟩
  | skipped entry hentry hlen hend =>
    refine ⟨[.skipped s.stream.bdlIndex.toNat entry s.mem], ⟨rfl, rfl, rfl, rfl, rfl⟩, rfl, ?_, ?_, Or.inl rfl⟩
    · simp [delivered]
    · rw [completion_completed]
      simp [completion, StreamEvent.interrupts]
  | wrapped hcbl => exact wrapCyclicBuffer_call d s budget
  | moved entry host mem bytes hentry hpos hbudget hinside hcbl htransfer =>
    obtain ⟨new, hcall, hrunning⟩ := leave_call d host mem hbudget hinside
    unfold afterChunk restart
    split
    · obtain ⟨last, hlast⟩ := wrapCyclicBuffer_call d
        ((((s.taken entry host mem bytes).into bytes.length).writePositionBuffer d).leave entry) (budget - bytes.length)
      exact ⟨_, hcall.trans hrunning hlast⟩
    · exact ⟨new, hcall⟩

/-! ## Calls -/

theorem dma_ready (hready : s.ready) (hpos : budget ≠ 0) : ∃ format, streamPcmFormat s.stream.fmt = some format ∧
    s.dma d budget = s.dmaLoop d format (3 * budget + 2) budget := by
  obtain ⟨format, hformat⟩ := Option.isSome_iff_exists.mp hready.2.2
  have hgo : ¬(budget = 0 ∨ s.stream.cbl = 0 ∨ s.stream.bdl = 0) := by
    rintro (h | h | h)
    · exact hpos h
    · exact hready.1 h
    · exact hready.2.1 h
  refine ⟨format, hformat, ?_⟩
  rw [dma, if_neg hgo, hformat]

theorem dma_call (hd : d.Exact) (hready : s.ready) (budget : Nat) : ∃ r new, s.dma d budget = some r ∧
    Call d s budget r new ∧ (r.2 = 0 ∨ r.1.running = false) := by
  by_cases hzero : budget = 0
  · refine ⟨(s, budget), [], ?_, .refl s budget, Or.inl hzero⟩
    rw [dma, if_pos (Or.inl hzero)]
  · obtain ⟨format, -, hloop⟩ := dma_ready (d := d) hready hzero
    have hround : ∀ (s' : Dma ε) (left : Nat) (r : Dma ε × Nat),
        (∃ new, Call d s budget (s', left) new ∧ (s'.running = true → s.running = true)) → 0 < left →
        s'.running = true → RoundOutcome d format s' left r →
        ∃ new, Call d s budget r new ∧ (r.1.running = true → s.running = true) := by
      rintro s' left r ⟨new, hcall, hwas⟩ _ hrunning hr
      obtain ⟨more, hmore⟩ := hr.call
      exact ⟨_, hcall.trans (hrunning.trans (hwas hrunning).symm) hmore, fun _ => hwas hrunning⟩
    obtain ⟨r, hr, ⟨new, hcall, -⟩, hend⟩ := dmaLoop_induct hd
      (P := fun r => ∃ new, Call d s budget r new ∧ (r.1.running = true → s.running = true)) hround
        (3 * budget + 2)
      hready.1 (roundsLeft_le s budget) ⟨[], .refl s budget, fun h => h⟩
    exact ⟨r, new, hloop.trans hr, hcall, hend⟩

theorem dma_not_ready (hready : ¬s.ready) (budget : Nat) : ∃ s', s.dma d budget = some (s', budget) ∧
    s'.log = s.log ∧ s'.cursor = s.cursor ∧ s.Programmed s' ∧ s'.host = s.host := by
  unfold dma
  split
  · exact ⟨s, rfl, rfl, rfl, .refl s, rfl⟩
  · rename_i hgo
    simp only [not_or] at hgo
    split
    · exact ⟨_, rfl, rfl, rfl, ⟨rfl, rfl, rfl, rfl, rfl⟩, rfl⟩
    · rename_i format hformat
      exact absurd ⟨hgo.2.1, hgo.2.2, by rw [hformat]; rfl⟩ hready

/-- An entry that is not readable or of no length stops the stream before any byte is moved. -/
theorem dma_faulty (hready : s.ready) (hpos : budget ≠ 0) (hrunning : s.running = true)
    (hbad : ∀ entry, s.descriptor = some entry → entry.length = 0) :
    s.dma d budget = some (s.haltDma d, budget) := by
  obtain ⟨format, -, hloop⟩ := dma_ready (d := d) hready hpos
  have hround : s.dmaRound d format budget = some (s.haltDma d, budget) := by
    unfold dmaRound
    cases hentry : s.descriptor with
    | none => rfl
    | some entry =>
      dsimp only
      rw [if_pos (hbad entry hentry)]
  have hstopped := (completion_haltDma (d := d) s).2.2
  rw [hloop]
  unfold dmaLoop
  rw [if_pos ⟨Nat.pos_of_ne_zero hpos, hrunning⟩, hround, Option.bind_some]
  unfold dmaLoop
  split
  · rename_i hgo
    rw [hstopped] at hgo
    exact absurd hgo.2 (by decide)
  · rfl

/-! ## Runs -/

variable {regs : StreamDescriptor}

theorem walking_dma (hd : d.Exact) (h : s.Walking d regs) (budget : Nat) :
    ∃ r, s.dma d budget = some r ∧ r.1.Walking d regs := by
  by_cases hready : s.ready
  · by_cases hzero : budget = 0
    · refine ⟨(s, budget), ?_, h⟩
      rw [dma, if_pos (Or.inl hzero)]
    · obtain ⟨format, hformat, hloop⟩ := dma_ready (d := d) hready hzero
      rw [h.fmt] at hformat
      obtain ⟨r, hr, hwalking, -⟩ := dmaLoop_induct hd (P := fun r => r.1.Walking d regs)
        (fun s' left r hs _ _ hr => walking_round hs hformat (h.cbl ▸ hready.1) hr) (3 * budget + 2) hready.1
        (roundsLeft_le s budget) h
      exact ⟨r, hloop.trans hr, hwalking⟩
  · obtain ⟨s', hs', hlog, hcursor, hprogrammed, -⟩ := dma_not_ready (d := d) hready budget
    refine ⟨(s', budget), hs', hprogrammed.cbl.trans h.cbl, hprogrammed.lvi.trans h.lvi, hprogrammed.fmt.trans h.fmt,
      hprogrammed.bdl.trans h.bdl, ?_, ?_, ?_⟩
    · rw [hcursor, hlog]
      exact h.cursor
    · have hposition := congrArg Cursor.position hcursor
      rw [hlog, ← h.lpib]
      exact hposition
    · rw [hlog]
      exact h.events

theorem walking_step (hd : d.Exact) (h : s.Walking d regs) (op : DmaOp) : ∃ s', s.step d op = some s' ∧
    s'.Walking d regs := by
  cases op with
  | poll budget =>
    obtain ⟨r, hr, hwalking⟩ := walking_dma hd h budget
    refine ⟨r.1, ?_, hwalking⟩
    simp only [step, hr, Option.map_some]
  | memory mem => exact ⟨_, rfl, h.cbl, h.lvi, h.fmt, h.bdl, h.cursor, h.lpib, h.events⟩
  | control next => exact ⟨_, rfl, h.cbl, h.lvi, h.fmt, h.bdl, h.cursor, h.lpib, h.events⟩
  | acknowledge bits => exact ⟨_, rfl, h.cbl, h.lvi, h.fmt, h.bdl, h.cursor, h.lpib, h.events⟩
  | positionBase base => exact ⟨_, rfl, h.cbl, h.lvi, h.fmt, h.bdl, h.cursor, h.lpib, h.events⟩

theorem walking_run (hd : d.Exact) (ops : List DmaOp) : ∀ {s : Dma ε}, s.Walking d regs →
    ∃ s', s.run d ops = some s' ∧ s'.Walking d regs := by
  induction ops with
  | nil => exact fun h => ⟨_, rfl, h⟩
  | cons op ops ih =>
    intro s h
    obtain ⟨next, hstep, hnext⟩ := walking_step hd h op
    obtain ⟨s', hrun, hs'⟩ := ih hnext
    refine ⟨s', ?_, hs'⟩
    rw [run, List.foldlM_cons, hstep]
    exact hrun

theorem walking_reset (d : Direction ε) (s : Dma ε) : (s.streamReset d).Walking d s.stream :=
  ⟨rfl, rfl, rfl, rfl, rfl, by simp [streamReset, StreamDescriptor.reset, delivered], trivial⟩

/-- What a run from a stream reset has copied: every chunk is the next of the walk around the entries and lies inside
what was moved before any position that names it; LPIB is the bytes moved, around the buffer; and while the entries stay
as they are, the addresses are those of the circle of the entries, started over at each end of the buffer. -/
structure Copied (d : Direction ε) (regs : StreamDescriptor) (s : Dma ε) : Prop where
  events : ∀ later e earlier, s.log = later ++ e :: earlier → EventOk d regs e earlier
  lpib : s.stream.lpib.toNat = (delivered s.log).length % regs.cbl.toNat
  addresses : ∀ entries : Nat → BdlEntry, (∀ i ≤ regs.lvi.toNat, 0 < entryLengths entries i) →
    (∀ e ∈ s.log, e.From entries) →
    addresses s.log = (List.range (delivered s.log).length).map (cyclicAddress regs entries) ∧
      ∀ n < (delivered s.log).length, Cursor.OnCircle regs.lvi.toNat regs.cbl.toNat (entryLengths entries) n
        (Cursor.walk regs.lvi.toNat regs.cbl.toNat (entryLengths entries) n)

theorem Walking.copied (h : s.Walking d regs) : s.Copied d regs where
  events := fun later e earlier hlog => by
    have hevents := h.events
    rw [hlog] at hevents
    exact hevents.at
  lpib := h.lpib
  addresses := fun entries hpos hfrom => by
    refine ⟨addresses_eq h.events hfrom hpos, fun n hn => ?_⟩
    have hcbl : 0 < regs.cbl.toNat := by
      by_contra hzero
      rw [(delivered_of_no_buffer (by omega) h.events).1] at hn
      exact Nat.not_lt_zero _ hn
    exact Cursor.walk_onCircle hpos hcbl n

/-- What every call does, whatever the registers hold: it does not overflow and ends, with its budget moved or the
stream stopped; and a descriptor that is not readable or of no length stops it at once. -/
structure CallsEnd (d : Direction ε) (call : Dma ε → Nat → Option (Dma ε × Nat)) (s : Dma ε) : Prop where
  ends : s.ready → ∀ budget, ∃ r new, call s budget = some r ∧ Call d s budget r new ∧
    (r.2 = 0 ∨ r.1.running = false)
  idle : ¬s.ready → ∀ budget, ∃ s', call s budget = some (s', budget) ∧ s'.log = s.log ∧ s'.cursor = s.cursor
  fault : s.ready → s.running = true → (∀ entry, s.descriptor = some entry → entry.length = 0) →
    ∀ budget, budget ≠ 0 → call s budget = some (s.haltDma d, budget)

theorem callsEnd (hd : d.Exact) (s : Dma ε) : CallsEnd d (dma d) s where
  ends := fun hready budget => dma_call hd hready budget
  idle := fun hready budget => by
    obtain ⟨s', hs', hlog, hcursor, -⟩ := dma_not_ready (d := d) hready budget
    exact ⟨s', hs', hlog, hcursor⟩
  fault := fun hready hrunning hbad _ hpos => dma_faulty hready hpos hrunning hbad

end Dma

/-! ## Playback -/

/-- The bytes the sink was handed. -/
def received (sink : PcmSink) : Option (List UInt8) := sink.map fun chunks => chunks.flatMap Prod.snd

theorem playback_transfer {microphone : Bool} {format : PcmFormat} {sink sink' : PcmSink} {mem mem' : GuestMemory}
    {len : Nat} {offset : Option Nat} {bytes : List UInt8} (address : Nat)
    (h : (playback microphone).transfer format sink mem offset len = (sink', some (mem', bytes)))
    (haddress : ∀ a, offset = some a → a = address) :
    mem' = mem ∧ bytes = mem.span address len ∧ received sink' = (received sink).map (· ++ bytes) := by
  unfold playback emitPcmChunk at h
  dsimp only at h
  cases hread : offset.bind fun address => mem.readBytes address len with
  | none =>
    rw [hread] at h
    cases h
  | some read =>
    rw [hread] at h
    cases h
    obtain ⟨a, ha, hbytes⟩ := Option.bind_eq_some_iff.mp hread
    rw [haddress a ha] at hbytes
    unfold GuestMemory.readBytes at hbytes
    split at hbytes
    · refine ⟨rfl, (Option.some.inj hbytes).symm, ?_⟩
      unfold received
      cases sink with
      | none => rfl
      | some chunks => simp
    · cases hbytes

theorem playback_exact (microphone : Bool) : (playback microphone).Exact := by
  intro format host mem address len host' mem' bytes h
  obtain ⟨-, hbytes, -⟩ := playback_transfer (address.getD 0) h fun a ha => by rw [ha]; rfl
  rw [hbytes, length_span]

theorem playback_fault {microphone : Bool} {format : PcmFormat} {sink sink' : PcmSink} {mem : GuestMemory} {len : Nat}
    {offset : Option Nat} (h : (playback microphone).transfer format sink mem offset len = (sink', none)) : sink' =
      sink := by
  unfold playback emitPcmChunk at h
  dsimp only at h
  split at h
  · cases h
    rfl
  · cases h

namespace Dma

variable {microphone : Bool} {format : PcmFormat} {s : Dma PcmSink} {sink : PcmSink}

/-- The sink was handed what was moved. -/
def Heard (sink : PcmSink) (s : Dma PcmSink) : Prop := received s.host = (received sink).map (· ++ delivered s.log)

theorem host_writePositionBuffer (d : Direction ε) (s : Dma ε) : (s.writePositionBuffer d).host = s.host := by
  unfold writePositionBuffer
  split
  · rfl
  · rfl

theorem host_afterChunk (d : Direction ε) (s : Dma ε) (entry : BdlEntry) (host : ε) (mem : GuestMemory)
    (bytes : List UInt8) : (s.afterChunk d entry host mem bytes).host = host := by
  unfold afterChunk restart
  split
  · rw [host_writePositionBuffer]
    show (leave _ entry).host = host
    rw [(leave_keeps _ _).2.2.2, host_writePositionBuffer]
    rfl
  · rw [(leave_keeps _ _).2.2.2, host_writePositionBuffer]
    rfl

theorem heard_round {budget : Nat} (h : s.Heard sink) {r : Dma PcmSink × Nat}
    (hr : RoundOutcome (playback microphone) format s budget r) : r.1.Heard sink := by
  cases hr with
  | halted host hfault hhost =>
    have heq : host = s.host := by
      rcases hhost with rfl | ⟨address, len, htransfer⟩
      · rfl
      · exact playback_fault htransfer
    rw [heq]
    exact h
  | skipped entry hentry hlen hend => exact h
  | wrapped hcbl =>
    show received (s.wrapCyclicBuffer.writePositionBuffer _).host = _
    rw [host_writePositionBuffer, (writePositionBuffer_log _ s.stream _).2.1]
    exact h
  | moved entry host mem bytes hentry hpos hbudget hinside hcbl htransfer =>
    obtain ⟨-, -, hhost⟩ := playback_transfer _ htransfer fun a ha => checkedAdd_some ha
    show received (s.afterChunk _ entry host mem bytes).host = _
    rw [host_afterChunk, (afterChunk_log _ s.stream s entry host mem bytes).1, hhost, h, Option.map_map]
    congr 1
    funext before
    simp

theorem heard_dma (h : s.Heard sink) {budget : Nat} {r : Dma PcmSink × Nat}
    (hr : s.dma (playback microphone) budget = some r) : r.1.Heard sink := by
  by_cases hready : s.ready
  · by_cases hzero : budget = 0
    · rw [dma, if_pos (Or.inl hzero)] at hr
      cases hr
      exact h
    · obtain ⟨format, -, hloop⟩ := dma_ready (d := playback microphone) hready hzero
      obtain ⟨r', hr', hheard, -⟩ := dmaLoop_induct (playback_exact microphone) (P := fun r => r.1.Heard sink)
        (fun s' left r hs _ _ hr => heard_round hs hr) (3 * budget + 2) hready.1 (roundsLeft_le s budget) h
      obtain rfl := Option.some.inj ((hloop.trans hr').symm.trans hr)
      exact hheard
  · obtain ⟨s', hs', hlog, -, -, hhost⟩ := dma_not_ready (d := playback microphone) hready budget
    obtain rfl := Option.some.inj (hs'.symm.trans hr)
    show received s'.host = _
    rw [hhost, hlog]
    exact h

theorem heard_step (h : s.Heard sink) {op : DmaOp} {s' : Dma PcmSink} (hs : s.step (playback microphone) op = some s') :
    s'.Heard sink := by
  cases op with
  | poll budget =>
    obtain ⟨r, hr, rfl⟩ := Option.map_eq_some_iff.mp hs
    exact heard_dma h hr
  | memory mem =>
    cases hs
    exact h
  | control next =>
    obtain rfl := Option.some.inj hs
    have hhost : (s.writeCtl (playback microphone) next).host = s.host := by
      unfold writeCtl playback
      dsimp only
      split
      · rfl
      · rfl
      · rfl
    show received (s.writeCtl (playback microphone) next).host = _
    rw [hhost]
    exact h
  | acknowledge bits =>
    cases hs
    exact h
  | positionBase base =>
    cases hs
    exact h

theorem heard_run (ops : List DmaOp) : ∀ {s s' : Dma PcmSink}, s.Heard sink →
    s.run (playback microphone) ops = some s' → s'.Heard sink := by
  induction ops with
  | nil =>
    intro s s' h hs
    cases hs
    exact h
  | cons op ops ih =>
    intro s s' h hs
    rw [run, List.foldlM_cons] at hs
    obtain ⟨next, hnext, hrest⟩ := Option.bind_eq_some_iff.mp hs
    exact ih (heard_step h hnext) hrest

end Dma

/-! ## Capture -/

theorem capture_transfer {σ : Type u} {source : PcmSource σ} {format : PcmFormat} {host host' : Option σ}
    {mem mem' : GuestMemory} {len : Nat} {offset : Option Nat} {bytes : List UInt8} (address : Nat)
    (h : (capture source).transfer format host mem offset len = (host', some (mem', bytes)))
    (haddress : ∀ a, offset = some a → a = address) :
    mem' = mem.store address bytes ∧
      bytes = capturedChunk len ((host.map fun state => (source.readPcm format len state).1).getD []) := by
  unfold capture captureChunk at h
  dsimp only at h
  split at h
  · cases h
  · rename_i a
    obtain ⟨-, hwritten⟩ := Prod.mk.inj h
    split at hwritten
    · rename_i hok
      obtain ⟨hmem, hbytes⟩ := Prod.mk.inj (Option.some.inj hwritten)
      rw [← hmem, ← hbytes, writeBytes_store hok, haddress a rfl]
      exact ⟨rfl, rfl⟩
    · cases hwritten

theorem capture_exact {σ : Type u} (source : PcmSource σ) : (capture source).Exact := by
  intro format host mem address len host' mem' bytes h
  obtain ⟨-, hbytes⟩ := capture_transfer (address.getD 0) h fun a ha => by rw [ha]; rfl
  rw [hbytes, capturedChunk, List.length_append, List.length_take, List.length_replicate]
  omega

/-! ## Both streams -/

/-- **HDA DMA is an exact cyclic copy.** From a stream reset on, whatever is polled, rewritten in guest memory, stopped
and resumed: playback hands the sink the bytes it moved and nothing else, each chunk as guest memory has it at the
address of its entry; capture stores what the source filled, and silence, at that address; both walk the entries as
`Copied` says. And every call ends as `CallsEnd` says. -/
theorem cyclic_copy :
    (∀ (microphone : Bool) (s : Dma PcmSink) (ops : List Dma.DmaOp), ∃ s',
      (s.streamReset (playback microphone)).run (playback microphone) ops = some s' ∧
        s'.Copied (playback microphone) s.stream ∧
        received s'.host = (received s.host).map (· ++ delivered s'.log) ∧
        ∀ chunk, .moved chunk ∈ s'.log →
          chunk.bytes = chunk.mem.span (chunk.entry.address.toNat + chunk.offset) chunk.bytes.length) ∧
    (∀ (σ : Type) (source : PcmSource σ) (s : Dma (Option σ)) (ops : List Dma.DmaOp), ∃ s',
      (s.streamReset (capture source)).run (capture source) ops = some s' ∧
        s'.Copied (capture source) s.stream ∧
        ∀ chunk, .moved chunk ∈ s'.log →
          chunk.after = chunk.mem.store (chunk.entry.address.toNat + chunk.offset) chunk.bytes ∧
            ∃ format, streamPcmFormat s.stream.fmt = some format ∧
              chunk.bytes = capturedChunk chunk.bytes.length
                ((chunk.host.map fun state => (source.readPcm format chunk.bytes.length state).1).getD [])) ∧
    (∀ microphone s, Dma.CallsEnd (playback microphone) (consumeStream microphone) s) ∧
    (∀ (σ : Type) (source : PcmSource σ) s, Dma.CallsEnd (capture source) (fillCapture source) s) := by
  refine ⟨fun microphone s ops => ?_, fun σ source s ops => ?_, fun microphone s => ?_, fun σ source s => ?_⟩
  · obtain ⟨s', hrun, hwalking⟩ :=
      Dma.walking_run (playback_exact microphone) ops (Dma.walking_reset (playback microphone) s)
    have hstart : (s.streamReset (playback microphone)).Heard s.host := by
      have hhost : (s.streamReset (playback microphone)).host = s.host := by
        unfold Dma.streamReset playback
        dsimp only
        split
        · rfl
        · rfl
      unfold Dma.Heard
      rw [hhost]
      cases hsink : received s.host with
      | none => rfl
      | some before => simp [Dma.streamReset, delivered]
    refine ⟨s', hrun, hwalking.copied, Dma.heard_run ops hstart hrun, fun chunk hchunk => ?_⟩
    obtain ⟨later, earlier, hlog⟩ := List.append_of_mem hchunk
    obtain ⟨format, host, -, htransfer⟩ := (hwalking.copied.events later _ earlier hlog).transfer
    exact (playback_transfer _ htransfer fun a ha => checkedAdd_some ha).2.1
  · obtain ⟨s', hrun, hwalking⟩ :=
      Dma.walking_run (capture_exact source) ops (Dma.walking_reset (capture source) s)
    refine ⟨s', hrun, hwalking.copied, fun chunk hchunk => ?_⟩
    obtain ⟨later, earlier, hlog⟩ := List.append_of_mem hchunk
    obtain ⟨format, host, hformat, htransfer⟩ := (hwalking.copied.events later _ earlier hlog).transfer
    obtain ⟨hafter, hbytes⟩ := capture_transfer _ htransfer fun a ha => checkedAdd_some ha
    exact ⟨hafter, format, hformat, hbytes⟩
  · exact Dma.callsEnd (playback_exact microphone) s
  · exact Dma.callsEnd (capture_exact source) s

end BridgeVm.Hda
