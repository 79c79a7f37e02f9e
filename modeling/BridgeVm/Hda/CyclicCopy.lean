import BridgeVm.Hda.Rounds
import BridgeVm.Lib.EventLog
import BridgeVm.Lib.SegmentWalk

/-!
# HDA DMA is a cyclic copy (`hda/playback_dma.rs`, `hda/capture_dma.rs`)

The log of a stream is a walk around its entries (`cursorOf`), and the cursor of the stream is where the walk stands
(`Walking`): every chunk is the next of the cyclic sequence, however the bytes were split into polls. While the guest
leaves the entries as they are, the `n`-th byte has the `n`-th address of the circle (`addresses_eq`).
-/

namespace BridgeVm.Hda

open Lib

universe u

variable {ε : Type u}

/-! ## What a log says -/

/-- The bytes that were moved, oldest first. -/
def delivered : List (StreamEvent ε) → List UInt8
  | [] => []
  | .moved chunk :: earlier => delivered earlier ++ chunk.bytes
  | _ :: earlier => delivered earlier

/-- The guest addresses of the bytes that were moved. -/
def addresses : List (StreamEvent ε) → List Nat
  | [] => []
  | .moved chunk :: earlier =>
    addresses earlier ++ (List.range chunk.bytes.length).map fun k => chunk.entry.address.toNat + chunk.offset + k
  | _ :: earlier => addresses earlier

/-- Where the walk around the entries stands: a byte at a time, each of the entry that was read for it. -/
def cursorOf (regs : StreamDescriptor) : List (StreamEvent ε) → Cursor
  | [] => .start
  | .moved chunk :: earlier =>
    (Cursor.next regs.lvi.toNat regs.cbl.toNat chunk.entry.length.toNat)^[chunk.bytes.length] (cursorOf regs earlier)
  | .skipped .. :: earlier => (cursorOf regs earlier).nextSegment regs.lvi.toNat
  | _ :: earlier => cursorOf regs earlier

/-- An entry was completed that asks for an interrupt. -/
def StreamEvent.interrupts : StreamEvent ε → Bool
  | .moved chunk =>
    decide (chunk.offset + chunk.bytes.length = chunk.entry.length.toNat) && chunk.entry.flags &&& bdlIoc != 0
  | .skipped _ entry _ => entry.flags &&& bdlIoc != 0
  | _ => false

/-- A chunk is the next of the walk: of the entry at the cursor, as the list in guest memory had it, and no longer than
the rest of the entry and of the buffer. -/
structure ChunkOk (d : Direction ε) (regs : StreamDescriptor) (c : Cursor) (chunk : Moved ε) : Prop where
  index : chunk.index = c.index
  offset : chunk.offset = c.offset
  entry : readDescriptor chunk.mem regs.bdl chunk.index = some chunk.entry
  pos : 0 < chunk.bytes.length
  inside : c.offset + chunk.bytes.length ≤ chunk.entry.length.toNat
  period : c.position + chunk.bytes.length ≤ regs.cbl.toNat
  transfer : ∃ format host, streamPcmFormat regs.fmt = some format ∧
    d.transfer format chunk.host chunk.mem (checkedAdd chunk.entry.address.toNat chunk.offset) chunk.bytes.length =
      (host, some (chunk.after, chunk.bytes))

/-- What each event meets of the log before it. -/
def EventOk (d : Direction ε) (regs : StreamDescriptor) : StreamEvent ε → List (StreamEvent ε) → Prop
  | .moved chunk, earlier => ChunkOk d regs (cursorOf regs earlier) chunk
  | .skipped index entry mem, earlier =>
    index = (cursorOf regs earlier).index ∧ readDescriptor mem regs.bdl index = some entry ∧ entry.length ≠ 0 ∧
      entry.length.toNat ≤ (cursorOf regs earlier).offset
  | .position lpib, earlier =>
    lpib ≤ (delivered earlier).length ∧ lpib % regs.cbl.toNat = (delivered earlier).length % regs.cbl.toNat
  | .halted index offset mem, earlier =>
    index = (cursorOf regs earlier).index ∧ offset = (cursorOf regs earlier).offset ∧
      Dma.Faulty d regs.bdl index offset mem

namespace Dma

variable {d : Direction ε} {regs : StreamDescriptor} {format : PcmFormat} {s : Dma ε} {budget : Nat}

/-- The cursor of a stream. -/
def cursor (s : Dma ε) : Cursor := ⟨s.stream.bdlIndex.toNat, s.stream.bdlOffset.toNat, s.stream.lpib.toNat⟩

/-- The stream is where its log says, and every event was the next of the walk. -/
structure Walking (d : Direction ε) (regs : StreamDescriptor) (s : Dma ε) : Prop where
  cbl : s.stream.cbl = regs.cbl
  lvi : s.stream.lvi = regs.lvi
  fmt : s.stream.fmt = regs.fmt
  bdl : s.stream.bdl = regs.bdl
  cursor : s.cursor = cursorOf regs s.log
  lpib : s.stream.lpib.toNat = (delivered s.log).length % regs.cbl.toNat
  events : Traced (EventOk d regs) s.log

/-! ## Cursors -/

theorem cursor_completed (s : Dma ε) (flags : UInt32) :
    (s.completed flags).cursor = s.cursor.nextSegment s.stream.lvi.toNat := by
  simp only [cursor, completed, Cursor.nextSegment, nextIndex_toNat]
  rfl

theorem cursor_into {n : Nat} (hoffset : s.stream.bdlOffset.toNat + n < 2 ^ 32)
    (hlpib : s.stream.lpib.toNat + n < 2 ^ 32) : (s.into n).cursor = s.cursor.into n := by
  simp only [cursor, into, Cursor.into, (add32_ofNat hoffset).2, (add32_ofNat hlpib).2]

@[simp] theorem cursor_writePositionBuffer (s : Dma ε) : (s.writePositionBuffer d).cursor = s.cursor := by
  simp only [cursor, stream_writePositionBuffer]

theorem cursor_leave {entry : BdlEntry} (hle : s.cursor.offset ≤ entry.length.toNat) :
    (s.leave entry).cursor =
      if entry.length.toNat ≤ s.cursor.offset then s.cursor.nextSegment s.stream.lvi.toNat else s.cursor := by
  unfold leave
  have hiff : s.stream.bdlOffset = entry.length ↔ entry.length.toNat ≤ s.cursor.offset := by
    rw [← UInt32.toNat_inj]
    exact ⟨fun h => h.ge, fun h => Nat.le_antisymm hle h⟩
  simp only [hiff]
  split
  · exact cursor_completed s _
  · rfl

theorem cursor_restart (s : Dma ε) :
    (s.restart d).cursor = if s.stream.cbl.toNat ≤ s.cursor.position then .start else s.cursor := by
  have hposition : s.cursor.position = s.stream.lpib.toNat := rfl
  unfold restart
  simp only [UInt32.le_iff_toNat_le, hposition]
  split
  · rw [cursor_writePositionBuffer]
    rfl
  · rfl

theorem leave_keeps (s : Dma ε) (entry : BdlEntry) : (s.leave entry).stream.cbl = s.stream.cbl ∧
    (s.leave entry).stream.lpib = s.stream.lpib ∧ (s.leave entry).log = s.log ∧ (s.leave entry).host = s.host := by
  unfold leave
  split
  · exact ⟨rfl, rfl, rfl, rfl⟩
  · exact ⟨rfl, rfl, rfl, rfl⟩

theorem cursor_afterChunk (d : Direction ε) (host : ε) (mem : GuestMemory) {entry : BdlEntry} {bytes : List UInt8}
    (hpos : 0 < bytes.length)
    (hinside : s.stream.bdlOffset.toNat + bytes.length ≤ entry.length.toNat)
    (hcbl : s.stream.lpib.toNat + bytes.length ≤ s.stream.cbl.toNat) :
    (s.afterChunk d entry host mem bytes).cursor =
      (Cursor.next s.stream.lvi.toNat s.stream.cbl.toNat entry.length.toNat)^[bytes.length] s.cursor := by
  have hlength := UInt32.toNat_lt entry.length
  have hsize := UInt32.toNat_lt s.stream.cbl
  have hinto : ((s.taken entry host mem bytes).into bytes.length).cursor = s.cursor.into bytes.length :=
    cursor_into (s := s.taken entry host mem bytes) (by show s.stream.bdlOffset.toNat + _ < _; omega)
      (by show s.stream.lpib.toNat + _ < _; omega)
  rw [Cursor.iterate_next hpos hinside hcbl]
  unfold afterChunk
  rw [cursor_restart, cursor_leave (by rw [cursor_writePositionBuffer, hinto]; exact hinside), (leave_keeps _ _).1]
  rw [cursor_writePositionBuffer, stream_writePositionBuffer, hinto]
  have hposition : ∀ c : Cursor, (c.nextSegment s.stream.lvi.toNat).position = c.position := fun _ => rfl
  have hlvi : ((s.taken entry host mem bytes).into bytes.length).stream.lvi = s.stream.lvi := rfl
  have hcbl' : ((s.taken entry host mem bytes).into bytes.length).stream.cbl = s.stream.cbl := rfl
  rw [hlvi, hcbl', apply_ite Cursor.position, hposition, ite_self]
  rfl

/-! ## One round -/

theorem writePositionBuffer_log (d : Direction ε) (regs : StreamDescriptor) (s : Dma ε) :
    ((s.writePositionBuffer d).log = s.log ∨
      (s.writePositionBuffer d).log = .position s.stream.lpib.toNat :: s.log) ∧
    delivered (s.writePositionBuffer d).log = delivered s.log ∧
    cursorOf regs (s.writePositionBuffer d).log = cursorOf regs s.log := by
  unfold writePositionBuffer
  split
  · exact ⟨Or.inl rfl, rfl, rfl⟩
  · exact ⟨Or.inr rfl, rfl, rfl⟩

theorem traced_writePositionBuffer (h : Traced (EventOk d regs) s.log)
    (hle : s.stream.lpib.toNat ≤ (delivered s.log).length)
    (hmod : s.stream.lpib.toNat % regs.cbl.toNat = (delivered s.log).length % regs.cbl.toNat) :
    Traced (EventOk d regs) (s.writePositionBuffer d).log := by
  rcases (writePositionBuffer_log d regs s).1 with hlog | hlog
  · rwa [hlog]
  · rw [hlog]
    exact ⟨⟨hle, hmod⟩, h⟩

theorem restart_log (d : Direction ε) (regs : StreamDescriptor) (s : Dma ε) :
    delivered (s.restart d).log = delivered s.log ∧
    cursorOf regs (s.restart d).log = cursorOf regs s.log := by
  unfold restart
  split
  · exact (writePositionBuffer_log d regs s.wrapCyclicBuffer).2
  · exact ⟨rfl, rfl⟩

theorem afterChunk_log (d : Direction ε) (regs : StreamDescriptor) (s : Dma ε) (entry : BdlEntry) (host : ε)
    (mem : GuestMemory) (bytes : List UInt8) :
    delivered (s.afterChunk d entry host mem bytes).log = delivered s.log ++ bytes ∧
      cursorOf regs (s.afterChunk d entry host mem bytes).log =
        cursorOf regs (.moved (s.chunkOf entry mem bytes) :: s.log) := by
  obtain ⟨-, hwrittenMoved, hwrittenCursor⟩ :=
    writePositionBuffer_log d regs ((s.taken entry host mem bytes).into bytes.length)
  obtain ⟨hrestartMoved, hrestartCursor⟩ := restart_log d regs
    ((((s.taken entry host mem bytes).into bytes.length).writePositionBuffer d).leave entry)
  unfold afterChunk
  rw [hrestartMoved, hrestartCursor, (leave_keeps _ _).2.2.1, hwrittenMoved, hwrittenCursor]
  exact ⟨rfl, rfl⟩

/-- One chunk more: LPIB is the bytes moved, and what is written to the position buffer was moved. -/
theorem traced_afterChunk {entry : BdlEntry} (host : ε) {mem : GuestMemory} {bytes : List UInt8} (h : s.Walking d regs)
    (hcbl : s.stream.lpib.toNat + bytes.length ≤ s.stream.cbl.toNat)
    (hchunk : ChunkOk d regs (cursorOf regs s.log) (s.chunkOf entry mem bytes)) :
    Traced (EventOk d regs) (s.afterChunk d entry host mem bytes).log := by
  have hsize := UInt32.toNat_lt s.stream.cbl
  have hcount := h.lpib
  rw [h.cbl] at hcbl
  obtain ⟨first, hfirst⟩ : ∃ first, first = (s.taken entry host mem bytes).into bytes.length := ⟨_, rfl⟩
  have hlog : first.log = .moved (s.chunkOf entry mem bytes) :: s.log := by rw [hfirst]; rfl
  have hlpib : first.stream.lpib.toNat = s.stream.lpib.toNat + bytes.length := by
    rw [hfirst]
    have hlt : (s.taken entry host mem bytes).stream.lpib.toNat + bytes.length < 2 ^ 32 := by
      show s.stream.lpib.toNat + _ < _
      rw [← h.cbl] at hcbl
      omega
    exact (add32_ofNat hlt).2
  have hregs : first.stream.cbl = regs.cbl := by rw [hfirst]; exact h.cbl
  have hmoved : delivered first.log = delivered s.log ++ bytes := by rw [hlog]; rfl
  have hle : first.stream.lpib.toNat ≤ (delivered first.log).length := by
    have hmod := Nat.mod_le (delivered s.log).length regs.cbl.toNat
    rw [hmoved, List.length_append, hlpib]
    omega
  have hmod : first.stream.lpib.toNat % regs.cbl.toNat = (delivered first.log).length % regs.cbl.toNat := by
    rw [hmoved, List.length_append, hlpib, hcount, Nat.mod_add_mod]
  have htraced : Traced (EventOk d regs) first.log := hlog ▸ ⟨hchunk, h.events⟩
  have hwritten := traced_writePositionBuffer htraced hle hmod
  obtain ⟨-, hwrittenMoved, -⟩ := writePositionBuffer_log d regs first
  obtain ⟨hkeepCbl, hkeepLpib, hkeepLog, -⟩ := leave_keeps (first.writePositionBuffer d) entry
  unfold afterChunk
  rw [← hfirst]
  unfold restart
  split
  · rename_i hend
    rw [hkeepCbl, hkeepLpib, stream_writePositionBuffer, UInt32.le_iff_toNat_le, hregs, hlpib] at hend
    refine traced_writePositionBuffer ?_ (Nat.zero_le _) ?_
    · show Traced _ ((first.writePositionBuffer d).leave entry).log
      rw [hkeepLog]
      exact hwritten
    · show (0 : UInt32).toNat % _ = (delivered ((first.writePositionBuffer d).leave entry).log).length % _
      rw [hkeepLog, hwrittenMoved, ← hmod, hlpib, Nat.le_antisymm hcbl hend, Nat.mod_self]
      rfl
  · rw [hkeepLog]
    exact hwritten

/-- One round keeps the walk. -/
theorem walking_round (h : s.Walking d regs) (hformat : streamPcmFormat regs.fmt = some format) (hcbl : regs.cbl ≠ 0)
    {r : Dma ε × Nat} (hr : RoundOutcome d format s budget r) : r.1.Walking d regs := by
  have hprogrammed := hr.programmed
  have hperiod : 0 < regs.cbl.toNat := Nat.pos_of_ne_zero fun h => hcbl (UInt32.toNat_inj.mp h)
  have hindex : s.stream.bdlIndex.toNat = (cursorOf regs s.log).index := congrArg Cursor.index h.cursor
  have hoffset : s.stream.bdlOffset.toNat = (cursorOf regs s.log).offset := congrArg Cursor.offset h.cursor
  have hposition : s.stream.lpib.toNat = (cursorOf regs s.log).position := congrArg Cursor.position h.cursor
  have hinsideCbl : s.stream.lpib.toNat < regs.cbl.toNat := by
    rw [h.lpib]
    exact Nat.mod_lt _ hperiod
  have hwalk : r.1.cursor = cursorOf regs r.1.log ∧
    r.1.stream.lpib.toNat = (delivered r.1.log).length % regs.cbl.toNat ∧
      Traced (EventOk d regs) r.1.log := by
    cases hr with
    | halted host hfault hhost =>
      refine ⟨h.cursor, h.lpib, ⟨hindex, hoffset, ?_⟩, h.events⟩
      rw [← h.bdl]
      exact hfault
    | skipped entry hentry hlen hend =>
      refine ⟨?_, h.lpib, ⟨hindex, ?_, hlen, ?_⟩, h.events⟩
      · rw [cursor_completed]
        show (s.cursor).nextSegment s.stream.lvi.toNat = (cursorOf regs s.log).nextSegment regs.lvi.toNat
        rw [h.cursor, h.lvi]
      · rw [← h.bdl]
        exact hentry
      · rw [← hoffset]
        exact UInt32.le_iff_toNat_le.mp hend
    | wrapped hle =>
      rw [UInt32.le_iff_toNat_le, h.cbl] at hle
      omega
    | moved entry host mem bytes hentry hpos hbudget hinside hcbl' htransfer =>
      have hchunk : ChunkOk d regs (cursorOf regs s.log) (s.chunkOf entry mem bytes) := by
        refine ⟨hindex, hoffset, ?_, hpos, ?_, ?_, format, host, hformat, htransfer⟩
        · rw [← h.bdl]
          exact hentry
        · rw [← hoffset]
          exact hinside
        · rw [← hposition, ← h.cbl]
          exact hcbl'
      have htraced := traced_afterChunk host h hcbl' hchunk
      obtain ⟨hmoved, hcursor⟩ := afterChunk_log d regs s entry host mem bytes
      have hafter := cursor_afterChunk d host mem hpos hinside hcbl'
      refine ⟨?_, ?_, htraced⟩
      · rw [hafter, hcursor, h.cursor, h.lvi, h.cbl]
        rfl
      · have hposition' := congrArg Cursor.position hafter
        rw [Cursor.position_iterate_next hpos hinside hcbl'] at hposition'
        show (s.afterChunk d entry host mem bytes).cursor.position = _
        rw [hposition', hmoved, List.length_append]
        show (s.stream.lpib.toNat + bytes.length) % s.stream.cbl.toNat = _
        rw [h.lpib, h.cbl, Nat.mod_add_mod]
  exact ⟨hprogrammed.cbl.trans h.cbl, hprogrammed.lvi.trans h.lvi, hprogrammed.fmt.trans h.fmt,
    hprogrammed.bdl.trans h.bdl, hwalk.1, hwalk.2.1, hwalk.2.2⟩

end Dma

/-! ## Entries that stay as they are -/

/-- The entry an event read is the one of a table. -/
def StreamEvent.From (entries : Nat → BdlEntry) : StreamEvent ε → Prop
  | .moved chunk => chunk.entry = entries chunk.index
  | .skipped index entry _ => entry = entries index
  | _ => True

/-- The lengths of the entries of a table. -/
def entryLengths (entries : Nat → BdlEntry) (i : Nat) : Nat := (entries i).length.toNat

/-- The address of the `n`-th byte of the circle. -/
def cyclicAddress (regs : StreamDescriptor) (entries : Nat → BdlEntry) (n : Nat) : Nat :=
  let c := Cursor.walk regs.lvi.toNat regs.cbl.toNat (entryLengths entries) n
  (entries c.index).address.toNat + c.offset

variable {d : Direction ε} {regs : StreamDescriptor} {entries : Nat → BdlEntry}

theorem delivered_of_no_buffer (hcbl : regs.cbl.toNat = 0) : ∀ {log : List (StreamEvent ε)},
    Traced (EventOk d regs) log →
    delivered log = [] ∧ addresses log = []
  | [], _ => ⟨rfl, rfl⟩
  | .moved chunk :: earlier, h => by
    have hperiod := h.1.period
    have hpos := h.1.pos
    omega
  | .skipped .. :: earlier, h => by
    have hearlier : delivered earlier = [] ∧ addresses earlier = [] := delivered_of_no_buffer hcbl h.2
    exact hearlier
  | .position _ :: earlier, h => by
    have hearlier : delivered earlier = [] ∧ addresses earlier = [] := delivered_of_no_buffer hcbl h.2
    exact hearlier
  | .halted .. :: earlier, h => by
    have hearlier : delivered earlier = [] ∧ addresses earlier = [] := delivered_of_no_buffer hcbl h.2
    exact hearlier

/-- While the entries stay as they are, the log is the walk of a byte at a time, and its addresses are those of the
circle. -/
theorem walk_of_log (hcbl : 0 < regs.cbl.toNat) (hpos : ∀ i ≤ regs.lvi.toNat, 0 < entryLengths entries i) :
    ∀ {log : List (StreamEvent ε)}, Traced (EventOk d regs) log → (∀ e ∈ log, e.From entries) →
      cursorOf regs log = Cursor.walk regs.lvi.toNat regs.cbl.toNat (entryLengths entries) (delivered log).length ∧
        addresses log = (List.range (delivered log).length).map (cyclicAddress regs entries)
  | [], _, _ => ⟨rfl, rfl⟩
  | .moved chunk :: earlier, h, hfrom => by
    obtain ⟨hcursor, haddresses⟩ := walk_of_log hcbl hpos h.2 fun e he => hfrom e (List.mem_cons_of_mem _ he)
    obtain ⟨hindex, hoffset, -, hsome, hinside, hperiod, -⟩ := h.1
    have hentry : chunk.entry = entries chunk.index := hfrom _ (List.mem_cons_self ..)
    obtain ⟨n, hn⟩ : ∃ n, n = (delivered earlier).length := ⟨_, rfl⟩
    have hlength : (delivered (.moved chunk :: earlier)).length = n + chunk.bytes.length := by
      rw [delivered, List.length_append, hn]
    rw [← hn] at hcursor haddresses
    have hentryLength : chunk.entry.length.toNat = entryLengths entries (cursorOf regs earlier).index := by
      rw [hentry, hindex]
      rfl
    rw [hentryLength, hcursor] at hinside
    rw [hcursor] at hperiod
    constructor
    · rw [hlength, Cursor.walk_add hsome hinside hperiod, cursorOf, hentryLength, hcursor]
    · rw [hlength, addresses, haddresses, List.range_add, List.map_append, List.map_map]
      congr 1
      refine List.map_congr_left fun k hk => ?_
      have hk := List.mem_range.mp hk
      show _ = cyclicAddress regs entries (n + k)
      unfold cyclicAddress
      rw [Cursor.walk_add_inner (by omega) (by omega)]
      show _ = (entries (Cursor.walk _ _ _ n).index).address.toNat + ((Cursor.walk _ _ _ n).offset + k)
      rw [hentry, hindex, hoffset, hcursor, Nat.add_assoc]
  | .skipped index entry mem :: earlier, h, hfrom => by
    obtain ⟨hcursor, -⟩ := walk_of_log hcbl hpos h.2 fun e he => hfrom e (List.mem_cons_of_mem _ he)
    obtain ⟨hindex, -, -, hend⟩ := h.1
    have hentry : entry = entries index := hfrom _ (List.mem_cons_self ..)
    have hinside := (Cursor.walk_onCircle hpos hcbl (delivered earlier).length).offset
    rw [← hcursor] at hinside
    rw [hentry, hindex] at hend
    exact absurd hinside (Nat.not_lt.mpr hend)
  | .position _ :: earlier, h, hfrom => by
    have hearlier := walk_of_log hcbl hpos h.2 fun e he => hfrom e (List.mem_cons_of_mem _ he)
    exact hearlier
  | .halted .. :: earlier, h, hfrom => by
    have hearlier := walk_of_log hcbl hpos h.2 fun e he => hfrom e (List.mem_cons_of_mem _ he)
    exact hearlier

/-- **The addresses of a log**, while the entries stay as they are: those of the circle, in order. -/
theorem addresses_eq {log : List (StreamEvent ε)} (h : Traced (EventOk d regs) log)
    (hfrom : ∀ e ∈ log, e.From entries)
    (hpos : ∀ i ≤ regs.lvi.toNat, 0 < entryLengths entries i) :
    addresses log = (List.range (delivered log).length).map (cyclicAddress regs entries) := by
  rcases Nat.eq_zero_or_pos regs.cbl.toNat with hzero | hcbl
  · obtain ⟨hdelivered, haddresses⟩ := delivered_of_no_buffer hzero h
    rw [hdelivered, haddresses]
    rfl
  · exact (walk_of_log hcbl hpos h hfrom).2

end BridgeVm.Hda
