import BridgeVm.Nvme.PrpList
import BridgeVm.Nvme.DiskContents
import Mathlib.Data.List.TakeWhile

/-!
# Direct DMA against the buffered path (`nvme/io.rs`, `nvme/io_write.rs`)

- READ: both paths fill the segments in order, up to the first that is not backed (`ioReadSegments_eq`,
  `ioReadBuffered_eq`);
- WRITE: the direct path stores the backed segments before the first that is not (`ioWriteSegments_accepted`), the
  buffered path stores all of them or none (`ioWriteBuffered_gathered`);
- `direct_dma_agrees_iff`: when the two paths give the same result.
-/

namespace BridgeVm.Nvme

open Lib DataPath

/-! ## Segments -/

section Segments

variable {spans segments : List (Nat × Nat)} {mem : GuestMemory}

theorem spansLen_coalesce (segments : List (Nat × Nat)) (span : Nat × Nat) :
    spansLen (coalesce segments span) = spansLen segments + span.2 := by
  unfold coalesce
  split
  · omega
  · split
    · rename_i last hlast
      have hsegments : segments = segments.dropLast ++ [last] := (List.dropLast_append_getLast? last hlast).symm
      have hlen : spansLen segments = spansLen segments.dropLast + last.2 := by
        rw [hsegments, spansLen_append]
        simp [spansLen]
      split
      · rw [spansLen_append, hlen]
        simp [spansLen]
        omega
      · rw [spansLen_append]
        simp [spansLen]
    · rename_i hnil
      rw [List.getLast?_eq_none_iff.1 hnil]
      simp [spansLen]

theorem spansLen_coalesceSpans (spans : List (Nat × Nat)) : spansLen (coalesceSpans spans) = spansLen spans := by
  have hrun : ∀ segments, spansLen (spans.foldl coalesce segments) = spansLen segments + spansLen spans := by
    induction spans with
    | nil => exact fun _ => rfl
    | cons span spans ih =>
      intro segments
      rw [List.foldl_cons, ih, spansLen_coalesce]
      simp [spansLen]
      omega
  exact (hrun []).trans (Nat.zero_add _)

/-- The bytes of the segments, one after the other. -/
def segmentBytes (mem : GuestMemory) (segments : List (Nat × Nat)) : List UInt8 :=
  (segments.map fun segment => mem.span segment.1 segment.2).flatten

theorem length_segmentBytes : (segmentBytes mem segments).length = spansLen segments := by
  simp [segmentBytes, spansLen, List.length_flatten, Function.comp_def]

/-- The segments before the first that is not backed. -/
def backedPrefix (mem : GuestMemory) (segments : List (Nat × Nat)) : List (Nat × Nat) :=
  segments.takeWhile fun segment => mem.readable segment.1 segment.2

theorem backedPrefix_eq_iff : backedPrefix mem segments = segments ↔ ∀ segment ∈ segments,
    mem.readable segment.1 segment.2 = true :=
  List.takeWhile_eq_self_iff

theorem gatherSegments_eq : gatherSegments mem segments =
    if backedPrefix mem segments = segments then some (segmentBytes mem segments) else none := by
  have hmap := mapM_ite (fun segment : Nat × Nat => mem.readable segment.1 segment.2 = true)
    (fun segment => mem.span segment.1 segment.2) segments
  unfold gatherSegments GuestMemory.readBytes
  rw [hmap]
  by_cases hall : ∀ segment ∈ segments, mem.readable segment.1 segment.2 = true
  · rw [if_pos hall, if_pos (backedPrefix_eq_iff.2 hall)]
    rfl
  · rw [if_neg hall, if_neg fun h => hall (backedPrefix_eq_iff.1 h)]
    rfl

end Segments

namespace DataPath

variable {d d' : DataPath} {backend b b' : DiskBackend} {cmd : SubmissionEntry} {nsid off start len k k' : Nat}
  {segments : List (Nat × Nat)} {data data' : List UInt8}

/-- What the two paths are compared on: host calls that succeed, host pointers for exactly the backed ranges, and stores
as they are made and kept. -/
structure Comparable (d : DataPath) : Prop where
  fine : ∀ i, (d.host i).ok = true ∧ (d.host i).io = HostIo.fine
  hostPtr : d.hostPtr = d.mem.readable
  writable : d.mem.writable = d.mem.readable
  sound : ∀ nsid backend, d.backendForNsid nsid = some backend → backend.Sound

/-- The same status, guest memory and disk contents. -/
structure SameOutcome (r r' : Nat × DataPath) : Prop where
  status : r.1 = r'.1
  mem : r.2.mem = r'.2.mem
  disk : ∀ nsid i, r.2.diskByte nsid i = r'.2.diskByte nsid i

theorem SameOutcome.symm {r r' : Nat × DataPath} (h : SameOutcome r r') : SameOutcome r' r :=
  ⟨h.status.symm, h.mem.symm, fun nsid i => (h.disk nsid i).symm⟩

theorem SameOutcome.trans {r₁ r₂ r₃ : Nat × DataPath} (h : SameOutcome r₁ r₂) (h' : SameOutcome r₂ r₃) :
    SameOutcome r₁ r₃ :=
  ⟨h.status.trans h'.status, h.mem.trans h'.mem, fun nsid i => (h.disk nsid i).trans (h'.disk nsid i)⟩

/-! ## READ -/

/-- Storing `data` in the segments, up to the first that is not backed, and nothing else. -/
structure Scattered (d : DataPath) (segments : List (Nat × Nat)) (data : List UInt8) (r : Nat × DataPath) : Prop where
  status : r.1 = if (writeSpans d.mem segments data).2 then scSuccess else scInvalidField
  mem : r.2.mem = (writeSpans d.mem segments data).1
  disk : ∀ nsid, r.2.backendForNsid nsid = d.backendForNsid nsid

theorem ioReadSegments_eq (hbackend : d.backendForNsid nsid = some backend) (hs : backend.Sound)
    (hfine : ∀ i, (d.host i).io = HostIo.fine) (hptr : d.hostPtr = d.mem.writable)
      (hlen : data.length = spansLen segments)
    (hin : off + data.length ≤ backend.byteLen) (hdata : ∀ j < data.length, data[j]? = backend.byteAt (off + j)) :
    d.Scattered segments data (ioReadSegments nsid d off segments) := by
  induction segments generalizing d off data with
  | nil => exact ⟨rfl, rfl, fun _ => rfl⟩
  | cons segment segments ih =>
    obtain ⟨gpa, n⟩ := segment
    have htotal : spansLen ((gpa, n) :: segments) = n + spansLen segments := by simp [spansLen]
    have htake : (data.take n).length = n := by rw [List.length_take]; omega
    have hdrop : (data.drop n).length = data.length - n := List.length_drop
    unfold ioReadSegments
    rw [hptr]
    cases hw : d.mem.writable gpa n with
    | false =>
      have hspans : writeSpans d.mem ((gpa, n) :: segments) data = (d.mem, false) := by
        unfold writeSpans GuestMemory.writeBytes
        rw [htake, hw]
        rfl
      rw [Bool.not_false, if_pos rfl]
      exact ⟨by rw [hspans]; rfl, by rw [hspans], fun _ => rfl⟩
    | true =>
      have hread : backend.readAtInto HostIo.fine off n = some (data.take n) :=
        readAtInto_of_bytes hs (by omega) htake fun j hj => by rw [List.getElem?_take_of_lt hj, hdata j (by omega)]
      have hspans : writeSpans d.mem ((gpa, n) :: segments) data =
          writeSpans (d.mem.store gpa (data.take n)) segments (data.drop n) := by
        rw [writeSpans]
        unfold GuestMemory.writeBytes
        rw [htake, hw]
        rfl
      rw [Bool.not_true, if_neg Bool.false_ne_true, hbackend]
      dsimp only [hostCall]
      rw [hfine, hread]
      obtain ⟨d', hd'⟩ : ∃ d', d' = { d with calls := d.calls + 1, mem := d.mem.store gpa (data.take n) } :=
        ⟨_, rfl⟩
      have hrest : d'.Scattered segments (data.drop n) (ioReadSegments nsid d' (off + n) segments) := by
        subst hd'
        refine ih hbackend hfine hptr (by omega) (by omega) fun j hj => ?_
        rw [List.getElem?_drop, hdata _ (by omega), Nat.add_assoc]
      subst hd'
      exact ⟨by rw [hspans]; exact hrest.status, by rw [hspans]; exact hrest.mem, hrest.disk⟩

theorem ioReadBuffered_eq (hbackend : d.backendForNsid nsid = some backend) (hs : backend.Sound)
    (hfine : ∀ i, (d.host i).io = HostIo.fine) (hpos : 0 < len) (hlen : data.length = len)
    (hin : off + len ≤ backend.byteLen) (hdata : ∀ j < len, data[j]? = backend.byteAt (off + j)) :
    d.Scattered segments data (d.ioReadBuffered nsid off len segments) := by
  unfold ioReadBuffered
  rw [if_neg hpos.ne', hbackend]
  dsimp only [hostCall]
  rw [hfine, readAtInto_of_bytes hs hin hlen hdata]
  exact ⟨rfl, rfl, fun _ => rfl⟩

/-! ## WRITE -/

/-- What a path stores of `data` at `off`: the longest prefix there is room for, and nothing but the store of its
namespace changes. -/
structure Stored (d : DataPath) (nsid off : Nat) (backend : DiskBackend) (data : List UInt8) (k : Nat)
    (r : DataPath) : Prop where
  le : k ≤ data.length
  room : backend.Room off k
  longest : k < data.length → ¬backend.Room off (k + 1)
  mem : r.mem = d.mem
  host : r.host = d.host
  hostPtr : r.hostPtr = d.hostPtr
  disk : ∃ b', backend.Accepted b' off data k ∧
    ∀ nsid', r.backendForNsid nsid' = if nsid' = nsid then some b' else d.backendForNsid nsid'

theorem stored_nothing (hbackend : d.backendForNsid nsid = some backend) (hs : backend.Sound) (off : Nat) :
    d.Stored nsid off backend [] 0 d := by
  refine ⟨le_rfl, DiskBackend.room_zero hs off, nofun, rfl, rfl, rfl, backend, .refl hs off _, fun nsid' => ?_⟩
  split
  · rename_i h
    rw [h, hbackend]
  · rfl

theorem stored_write (hbackend : d.backendForNsid nsid = some backend) (hs : backend.Sound)
    (hin : off + data.length ≤ backend.byteLen) :
    ∃ k, d.Stored nsid off backend data k (d.hostCall.2.setBackend nsid (backend.writeAt HostIo.fine off data).1) ∧
      ((backend.writeAt HostIo.fine off data).2 = true ↔ k = data.length) := by
  have hactive : (d.hostCall.2.backendForNsid nsid).isSome := by
    rw [backendForNsid_hostCall, hbackend]
    rfl
  obtain ⟨k, hk, hroom, hmax, hacc, hok⟩ := writeAt_accepted hs hin
  exact ⟨k, ⟨hk, hroom, hmax, mem_setBackend _ _ _, host_setBackend _ _ _, hostPtr_setBackend _ _ _, _, hacc,
    fun _ => backendForNsid_setBackend hactive _⟩, hok⟩

theorem Stored.append (h : d.Stored nsid off backend data k d') (hlt : k < data.length) (more : List UInt8) :
    d.Stored nsid off backend (data ++ more) k d' := by
  obtain ⟨b', hacc, hdisk⟩ := h.disk
  refine ⟨by rw [List.length_append]; omega, h.room, fun _ => h.longest hlt, h.mem, h.host, h.hostPtr, b',
    hacc.congr fun i hi => ?_, hdisk⟩
  rw [List.getElem?_append_left (by omega)]

theorem Stored.trans {d₁ d₂ : DataPath} (h : d.Stored nsid off backend data data.length d₁)
    (hb : d₁.backendForNsid nsid = some b)
    (h' : d₁.Stored nsid (off + data.length) b data' k d₂) : d.Stored nsid off backend (data ++ data')
      (data.length + k) d₂ := by
  obtain ⟨b₁, hacc, hdisk⟩ := h.disk
  obtain ⟨b₂, hacc', hdisk'⟩ := h'.disk
  obtain rfl : b₁ = b := by
    rw [hdisk nsid, if_pos rfl] at hb
    exact Option.some.inj hb
  have hdata : (data ++ data').drop data.length = data' := List.drop_left
  refine ⟨by rw [List.length_append]; have := h'.le; omega, (hacc.room k).2 h'.room, fun hlt => ?_,
    h'.mem.trans h.mem,
    h'.host.trans h.host,
    h'.hostPtr.trans h.hostPtr, b₂, .trans (hacc.congr fun i hi => (List.getElem?_append_left hi).symm)
      (by rw [hdata]; exact hacc'), fun nsid' => ?_⟩
  · rw [List.length_append] at hlt
    rw [Nat.add_assoc, hacc.room]
    exact h'.longest (by omega)
  · rw [hdisk', hdisk]
    split <;> rfl

theorem Stored.diskByte_eq (h : d.Stored nsid off backend data k d') (nsid' i : Nat) : d'.diskByte nsid' i =
    if nsid' = nsid then if off ≤ i ∧ i < off + k then data[i - off]? else backend.byteAt i
      else d.diskByte nsid' i := by
  obtain ⟨b', hacc, hdisk⟩ := h.disk
  unfold diskByte
  rw [hdisk]
  split
  · exact hacc.bytes i
  · rfl

/-- The direct path stores the segments before the first that is not backed. -/
theorem ioWriteSegments_stored (hbackend : d.backendForNsid nsid = some backend) (hs : backend.Sound)
    (hfine : ∀ i, (d.host i).io = HostIo.fine) (hptr : d.hostPtr = d.mem.readable)
    (hin : off + spansLen segments ≤ backend.byteLen) :
    ∃ k, d.Stored nsid off backend (segmentBytes d.mem (backedPrefix d.mem segments)) k
      (ioWriteSegments nsid d off segments).2 ∧
      ((ioWriteSegments nsid d off segments).1 = scSuccess ↔
        backedPrefix d.mem segments = segments ∧ k = spansLen segments) ∧
      ((ioWriteSegments nsid d off segments).1 = scSuccess ∨
        (ioWriteSegments nsid d off segments).1 = scInvalidField) := by
  induction segments generalizing d off backend with
  | nil => exact ⟨0, stored_nothing hbackend hs off, ⟨fun _ => ⟨rfl, rfl⟩, fun _ => rfl⟩, .inl rfl⟩
  | cons segment segments ih =>
    obtain ⟨gpa, n⟩ := segment
    have htotal : spansLen ((gpa, n) :: segments) = n + spansLen segments := by simp [spansLen]
    unfold ioWriteSegments
    rw [hptr]
    cases hr : d.mem.readable gpa n with
    | false =>
      have hnone : backedPrefix d.mem ((gpa, n) :: segments) = [] := List.takeWhile_cons_of_neg (by simp [hr])
      rw [Bool.not_false, if_pos rfl, hnone]
      exact ⟨0, stored_nothing hbackend hs off, ⟨(by rintro ⟨⟩), fun h => by cases h.1⟩, .inr rfl⟩
    | true =>
      have hbacked : backedPrefix d.mem ((gpa, n) :: segments) = (gpa, n) :: backedPrefix d.mem segments :=
        List.takeWhile_cons_of_pos hr
      have hbytes : segmentBytes d.mem ((gpa, n) :: backedPrefix d.mem segments) =
          d.mem.span gpa n ++ segmentBytes d.mem (backedPrefix d.mem segments) := by simp [segmentBytes]
      have hspan : (d.mem.span gpa n).length = n := length_span
      have hin' : off + (d.mem.span gpa n).length ≤ backend.byteLen := by omega
      obtain ⟨k, hstored, hok⟩ := stored_write hbackend hs hin'
      rw [Bool.not_true, if_neg Bool.false_ne_true, hbackend, hbacked, hbytes]
      dsimp only [hostCall] at hstored ⊢
      rw [hfine]
      generalize backend.writeAt HostIo.fine off (d.mem.span gpa n) = w at hstored hok ⊢
      obtain ⟨b, ok⟩ := w
      cases ok with
      | false =>
        have hlt : k < (d.mem.span gpa n).length := lt_of_le_of_ne hstored.le fun h => Bool.noConfusion (hok.2 h)
        exact ⟨k, hstored.append hlt _, ⟨(by rintro ⟨⟩), fun h => absurd h.2 (by omega)⟩, .inr rfl⟩
      | true =>
        obtain rfl := hok.1 rfl
        dsimp only at hstored ⊢
        generalize ({ d with calls := d.calls + 1 } : DataPath).setBackend nsid b = d₁ at hstored ⊢
        obtain ⟨b₁, hacc, hdisk⟩ := hstored.disk
        have hb₁ : d₁.backendForNsid nsid = some b₁ := by rw [hdisk, if_pos rfl]
        have hin₁ : off + n + spansLen segments ≤ b₁.byteLen := by rw [hacc.length]; omega
        obtain ⟨k, hrest, hall, hstatus⟩ := ih hb₁ hacc.sound (fun i => by rw [hstored.host]; exact hfine i)
          (by rw [hstored.hostPtr, hstored.mem]; exact hptr) hin₁
        rw [hstored.mem] at hrest hall
        refine ⟨_, hstored.trans hb₁ (by rw [hspan]; exact hrest), hall.trans ?_, hstatus⟩
        rw [List.cons.injEq, htotal, hspan]
        refine and_congr (by simp) (by omega)

theorem ioWriteBuffered_stored (hbackend : d.backendForNsid nsid = some backend) (hs : backend.Sound)
    (hfine : ∀ i, (d.host i).io = HostIo.fine) (hpos : 0 < len) (hlen : spansLen segments = len)
    (hin : off + len ≤ backend.byteLen) (hall : backedPrefix d.mem segments = segments) :
    ∃ k, d.Stored nsid off backend (segmentBytes d.mem (backedPrefix d.mem segments)) k
      (d.ioWriteBuffered nsid off len segments).2 ∧
      (d.ioWriteBuffered nsid off len segments).1 = if k = len then scSuccess else scInvalidField := by
  have hbytes : (segmentBytes d.mem segments).length = len := length_segmentBytes.trans hlen
  have hin' : off + (segmentBytes d.mem segments).length ≤ backend.byteLen := by omega
  obtain ⟨k, hstored, hok⟩ := stored_write hbackend hs hin'
  unfold ioWriteBuffered
  rw [if_neg hpos.ne', gatherSegments_eq, if_pos hall, hbackend, hall]
  dsimp only [hostCall] at hstored ⊢
  rw [hfine]
  refine ⟨k, hstored, if_congr ?_ rfl rfl⟩
  rw [hok, hbytes]

theorem ioWriteBuffered_refused (hpos : 0 < len) (hall : backedPrefix d.mem segments ≠ segments) :
    d.ioWriteBuffered nsid off len segments = (scInvalidField, d) := by
  unfold ioWriteBuffered
  rw [if_neg hpos.ne', gatherSegments_eq, if_neg hall]

theorem transferRange_some {range : Nat × Nat} (h : transferRange cmd len = some range) :
    0 < range.2 ∧ range.1 + range.2 ≤ len := by
  unfold transferRange at h
  dsimp only at h
  split at h
  · rename_i hin
    cases h
    exact ⟨Nat.mul_pos (Nat.succ_pos _) (by decide), hin.2⟩
  · cases h

theorem ioTarget_some (h : d.ioTarget cmd = some (start, len, segments)) :
    ∃ backend, d.backendForNsid cmd.nsid = some backend ∧ 0 < len ∧ spansLen segments = len ∧
    start + len ≤ backend.byteLen := by
  unfold ioTarget at h
  obtain ⟨backend, hbackend, h⟩ := Option.bind_eq_some_iff.1 h
  obtain ⟨range, hrange, h⟩ := Option.bind_eq_some_iff.1 h
  obtain ⟨spans, hspans, h⟩ := Option.map_eq_some_iff.1 h
  cases h
  obtain ⟨hpos, hin⟩ := transferRange_some hrange
  exact ⟨backend, hbackend, hpos, (spansLen_coalesceSpans spans).trans (prpSpansInto_iff.1 hspans).covers.total,
    hin⟩

theorem backedPrefix_of_not_direct (hptr : d.hostPtr = d.mem.readable) (hdma : d.directDmaEnabled = true)
    (h : d.direct segments = false) : backedPrefix d.mem segments = [] := by
  unfold direct at h
  rw [hdma, Bool.true_and, hptr] at h
  cases segments with
  | nil => rfl
  | cons segment segments => exact List.takeWhile_cons_of_neg (by simpa using h)

/-! ## Both paths of a command -/

/-- The controller with direct DMA on, and with it off. -/
def withDma (d : DataPath) (enabled : Bool) : DataPath := { d with directDmaEnabled := enabled }

/-- What the direct path stores of a WRITE is what the disk holds there: all segments are backed, or the bytes of those
before the first that is not, as far as the store has room for them, are on the disk already. -/
def WriteAgrees (d : DataPath) (cmd : SubmissionEntry) : Prop :=
  ∀ backend start len segments, d.backendForNsid cmd.nsid = some backend →
  d.ioTarget cmd = some (start, len, segments) →
    backedPrefix d.mem segments = segments ∨
      ∀ k ≤ (segmentBytes d.mem (backedPrefix d.mem segments)).length, backend.Room start k →
        ∀ i < k, (segmentBytes d.mem (backedPrefix d.mem segments))[i]? = backend.byteAt (start + i)

theorem Comparable.withDma (hc : d.Comparable) (enabled : Bool) : (d.withDma enabled).Comparable :=
  ⟨hc.fine, hc.hostPtr, hc.writable, hc.sound⟩

theorem ioRead_scattered (hc : d.Comparable) (ht : d.ioTarget cmd = some (start, len, segments))
    (hbackend : d.backendForNsid cmd.nsid = some backend) (hlen : data.length = len)
    (hdata : ∀ j < len, data[j]? = backend.byteAt (start + j)) : d.Scattered segments data (d.ioRead cmd) := by
  obtain ⟨backend', hbackend', hpos, htotal, hin⟩ := ioTarget_some ht
  rw [hbackend] at hbackend'
  cases hbackend'
  have hs := hc.sound _ _ hbackend
  unfold ioRead
  rw [ht]
  dsimp only
  split
  · exact ioReadSegments_eq hbackend hs (fun i => (hc.fine i).2) (hc.hostPtr.trans hc.writable.symm)
      (hlen.trans htotal.symm)
      (hlen ▸ hin) (hlen ▸ hdata)
  · exact ioReadBuffered_eq hbackend hs (fun i => (hc.fine i).2) hpos hlen hin hdata

theorem ioRead_same (hc : d.Comparable) (cmd : SubmissionEntry) :
    SameOutcome ((d.withDma true).ioRead cmd) ((d.withDma false).ioRead cmd) := by
  have htarget : ∀ enabled, (d.withDma enabled).ioTarget cmd = d.ioTarget cmd := fun _ => rfl
  cases ht : d.ioTarget cmd with
  | none =>
    unfold ioRead
    rw [htarget, htarget, ht]
    exact ⟨rfl, rfl, fun _ _ => rfl⟩
  | some target =>
    obtain ⟨start, len, segments⟩ := target
    obtain ⟨backend, hbackend, hpos, htotal, hin⟩ := ioTarget_some ht
    obtain ⟨data, -, hlen, hdata⟩ := readAtInto_eq (hc.sound _ _ hbackend) hin
    have hon := ioRead_scattered (hc.withDma true) ((htarget true).trans ht) hbackend hlen hdata
    have hoff := ioRead_scattered (hc.withDma false) ((htarget false).trans ht) hbackend hlen hdata
    refine ⟨hon.status.trans hoff.status.symm, hon.mem.trans hoff.mem.symm, fun nsid i => ?_⟩
    unfold diskByte
    rw [hon.disk, hoff.disk]
    rfl

/-- A WRITE with a target and direct DMA on stores what the segments before the first that is not backed hold. -/
theorem ioWriteData_direct (hc : d.Comparable) (hdma : d.directDmaEnabled = true)
    (ht : d.ioTarget cmd = some (start, len, segments)) (hbackend : d.backendForNsid cmd.nsid = some backend) :
    ∃ k, d.Stored cmd.nsid start backend (segmentBytes d.mem (backedPrefix d.mem segments)) k
      (d.ioWriteData cmd).2 ∧
      (d.ioWriteData cmd).1 = if backedPrefix d.mem segments = segments ∧ k = len then scSuccess
        else scInvalidField := by
  obtain ⟨backend', hbackend', hpos, htotal, hin⟩ := ioTarget_some ht
  rw [hbackend] at hbackend'
  cases hbackend'
  have hs := hc.sound _ _ hbackend
  unfold ioWriteData
  rw [ht]
  dsimp only
  cases hdirect : d.direct segments with
  | true =>
    obtain ⟨k, hstored, hok, hstatus⟩ :=
      ioWriteSegments_stored hbackend hs (fun i => (hc.fine i).2) hc.hostPtr (htotal.symm ▸ hin)
    rw [htotal] at hok
    rw [if_pos rfl]
    refine ⟨k, hstored, ?_⟩
    split
    · rename_i hall
      exact hok.2 hall
    · rename_i hnot
      exact hstatus.resolve_left fun h => hnot (hok.1 h)
  | false =>
    have hnone := backedPrefix_of_not_direct hc.hostPtr hdma hdirect
    have hne : backedPrefix d.mem segments ≠ segments := fun h => by
      rw [← h, hnone] at htotal
      exact hpos.ne htotal
    rw [if_neg Bool.false_ne_true, ioWriteBuffered_refused hpos hne]
    exact ⟨0, by rw [hnone]; exact stored_nothing hbackend hs start, (if_neg fun h => hne h.1).symm⟩

/-- With direct DMA off it stores what all segments hold, when they are backed. -/
theorem ioWriteData_buffered (hc : d.Comparable) (hdma : d.directDmaEnabled = false)
    (ht : d.ioTarget cmd = some (start, len, segments)) (hbackend : d.backendForNsid cmd.nsid = some backend) :
    if backedPrefix d.mem segments = segments then
      ∃ k, d.Stored cmd.nsid start backend (segmentBytes d.mem (backedPrefix d.mem segments)) k
        (d.ioWriteData cmd).2 ∧
        (d.ioWriteData cmd).1 = if k = len then scSuccess else scInvalidField
    else d.ioWriteData cmd = (scInvalidField, d) := by
  obtain ⟨backend', hbackend', hpos, htotal, hin⟩ := ioTarget_some ht
  rw [hbackend] at hbackend'
  cases hbackend'
  have hdirect : d.direct segments = false := by
    unfold direct
    rw [hdma, Bool.false_and]
  unfold ioWriteData
  rw [ht]
  dsimp only
  rw [hdirect, if_neg Bool.false_ne_true]
  split
  · rename_i hall
    exact ioWriteBuffered_stored hbackend (hc.sound _ _ hbackend) (fun i => (hc.fine i).2) hpos htotal hin hall
  · rename_i hne
    exact ioWriteBuffered_refused hpos hne

/-- A partial store shows on the disk unless its bytes were there. -/
theorem Stored.diskByte_same_iff (h : d.Stored nsid off backend data k d')
    (hbackend : d.backendForNsid nsid = some backend) :
    (∀ nsid' i, d'.diskByte nsid' i = d.diskByte nsid' i) ↔
      ∀ j ≤ data.length, backend.Room off j → ∀ i < j, data[i]? = backend.byteAt (off + i) := by
  have hself : ∀ i, d.diskByte nsid i = backend.byteAt i := fun i => by
    unfold diskByte
    rw [hbackend]
    rfl
  constructor
  · intro hsame j hj hroom i hi
    have hle : j ≤ k := Nat.not_lt.1 fun hlt => h.longest (by omega) (hroom.of_le hlt)
    have hbyte := hsame nsid (off + i)
    rw [h.diskByte_eq, if_pos rfl, if_pos ⟨by omega, by omega⟩, Nat.add_sub_cancel_left, hself] at hbyte
    exact hbyte
  · intro hpresent nsid' i
    rw [h.diskByte_eq]
    split
    · rename_i hnsid
      rw [hnsid, hself]
      split
      · rename_i hi
        rw [hpresent k h.le h.room (i - off) (by omega), Nat.add_sub_cancel' hi.1]
      · rfl
    · rfl

/-- The data part of a WRITE has the same outcome on both paths when what the direct path stores is there already, or
all segments are backed. -/
theorem ioWriteData_same_iff (hc : d.Comparable) (cmd : SubmissionEntry) :
    SameOutcome ((d.withDma true).ioWriteData cmd) ((d.withDma false).ioWriteData cmd) ↔ d.WriteAgrees cmd := by
  have htarget : ∀ enabled, (d.withDma enabled).ioTarget cmd = d.ioTarget cmd := fun _ => rfl
  cases ht : d.ioTarget cmd with
  | none =>
    unfold ioWriteData
    rw [htarget, htarget, ht]
    refine ⟨fun _ backend start len segments _ hsome => ?_, fun _ => ⟨rfl, rfl, fun _ _ => rfl⟩⟩
    rw [ht] at hsome
    cases hsome
  | some target =>
    obtain ⟨start, len, segments⟩ := target
    obtain ⟨backend, hbackend, hpos, htotal, hin⟩ := ioTarget_some ht
    obtain ⟨k, hstored, hstatus⟩ := ioWriteData_direct (hc.withDma true) rfl ((htarget true).trans ht) hbackend
    have hoff := ioWriteData_buffered (hc.withDma false) rfl ((htarget false).trans ht) hbackend
    have hmem : ∀ enabled, (d.withDma enabled).mem = d.mem := fun _ => rfl
    rw [hmem] at hstored hstatus hoff
    have hagrees : d.WriteAgrees cmd ↔ backedPrefix d.mem segments = segments ∨
        ∀ k ≤ (segmentBytes d.mem (backedPrefix d.mem segments)).length, backend.Room start k →
          ∀ i < k, (segmentBytes d.mem (backedPrefix d.mem segments))[i]? = backend.byteAt (start + i) := by
      refine ⟨fun h => h _ _ _ _ hbackend ht, fun h backend' start' len' segments' hb hsome => ?_⟩
      rw [hbackend] at hb
      rw [ht] at hsome
      cases hb
      cases hsome
      exact h
    rw [hagrees]
    by_cases hall : backedPrefix d.mem segments = segments
    · rw [if_pos hall] at hoff
      obtain ⟨k', hstored', hstatus'⟩ := hoff
      obtain rfl : k = k' :=
        DiskBackend.Room.longest_unique hstored.le hstored'.le hstored.room hstored'.room hstored.longest
          hstored'.longest
      refine ⟨fun _ => .inl hall, fun _ => ⟨?_, hstored.mem.trans hstored'.mem.symm, fun nsid i => ?_⟩⟩
      · rw [hstatus, hstatus']
        exact if_congr (and_iff_right hall) rfl rfl
      · rw [hstored.diskByte_eq, hstored'.diskByte_eq]
        rfl
    · rw [if_neg hall] at hoff
      have hfail : ((d.withDma true).ioWriteData cmd).1 = scInvalidField := by
        rw [hstatus, if_neg fun h => hall h.1]
      have hshows := hstored.diskByte_same_iff hbackend
      rw [or_iff_right hall, hoff]
      exact ⟨fun hsame => hshows.1 hsame.disk, fun hpresent => ⟨hfail, hstored.mem, hshows.2 hpresent⟩⟩

/-- A WRITE leaves the host to its calls, and its namespace active. -/
theorem ioWriteData_host (hc : d.Comparable) (cmd : SubmissionEntry) : (d.ioWriteData cmd).2.host = d.host ∧
    ((d.ioWriteData cmd).1 = scSuccess → ((d.ioWriteData cmd).2.backendForNsid cmd.nsid).isSome) := by
  cases ht : d.ioTarget cmd with
  | none =>
    unfold ioWriteData
    rw [ht]
    exact ⟨rfl, nofun⟩
  | some target =>
    obtain ⟨start, len, segments⟩ := target
    obtain ⟨backend, hbackend, -⟩ := ioTarget_some ht
    have hactive : ∀ {data k r}, d.Stored cmd.nsid start backend data k r → r.host = d.host ∧
        (((d.ioWriteData cmd).1 = scSuccess → (r.backendForNsid cmd.nsid).isSome)) := by
      intro data k r h
      obtain ⟨b', -, hdisk⟩ := h.disk
      exact ⟨h.host, fun _ => by rw [hdisk, if_pos rfl]; rfl⟩
    cases hdma : d.directDmaEnabled with
    | true =>
      obtain ⟨k, hstored, -⟩ := ioWriteData_direct hc hdma ht hbackend
      exact hactive hstored
    | false =>
      have hoff := ioWriteData_buffered hc hdma ht hbackend
      split at hoff
      · obtain ⟨k, hstored, -⟩ := hoff
        exact hactive hstored
      · rw [hoff]
        exact ⟨rfl, nofun⟩

/-- A sync after a WRITE changes none of this. -/
theorem ioWrite_outcome (hfine : ∀ i, ((d.ioWriteData cmd).2.host i).ok = true)
    (hactive : (d.ioWriteData cmd).1 = scSuccess → ((d.ioWriteData cmd).2.backendForNsid cmd.nsid).isSome)
      (needsSync : Bool) :
    SameOutcome (d.ioWrite needsSync cmd) (d.ioWriteData cmd) := by
  unfold ioWrite
  generalize d.ioWriteData cmd = r at hfine hactive ⊢
  obtain ⟨status, d'⟩ := r
  dsimp only
  split
  · rename_i hsync
    obtain ⟨backend, hbackend⟩ := Option.isSome_iff_exists.1 (hactive hsync.1)
    have hflush : ∀ b : DiskBackend, b.flush true = true := fun b => Bool.or_true _
    unfold ioFlush
    split
    · unfold flushAllNamespaces
      dsimp only [hostCall]
      have hall : (d'.disk2.all fun b => b.flush true) = true := by
        cases d'.disk2 with
        | none => rfl
        | some b => exact hflush b
      rw [hfine, hfine, hflush, hall]
      exact ⟨hsync.1.symm, rfl, fun _ _ => rfl⟩
    · rw [hbackend]
      dsimp only [hostCall]
      rw [hfine, hflush, if_pos rfl]
      exact ⟨hsync.1.symm, rfl, fun _ _ => rfl⟩
  · exact ⟨rfl, rfl, fun _ _ => rfl⟩

/-- **Direct DMA against the buffered path**: every READ has the same outcome on both, and a WRITE has exactly when what
the direct path stores of it is on the disk already, or all its segments are backed. -/
theorem direct_dma_agrees_iff (hc : d.Comparable) (needsSync : Bool) (cmd : SubmissionEntry) :
    SameOutcome ((d.withDma true).ioRead cmd) ((d.withDma false).ioRead cmd) ∧
      (SameOutcome ((d.withDma true).ioWrite needsSync cmd) ((d.withDma false).ioWrite needsSync cmd) ↔
        d.WriteAgrees cmd) := by
  refine ⟨ioRead_same hc cmd, ?_⟩
  rw [← ioWriteData_same_iff hc cmd]
  have hsync : ∀ enabled, SameOutcome ((d.withDma enabled).ioWrite needsSync cmd)
    ((d.withDma enabled).ioWriteData cmd) := by
    intro enabled
    obtain ⟨hhost, hactive⟩ := ioWriteData_host (hc.withDma enabled) cmd
    exact ioWrite_outcome (fun i => by rw [hhost]; exact (hc.fine i).1) hactive needsSync
  exact ⟨fun h => ((hsync true).symm.trans h).trans (hsync false),
    fun h => ((hsync true).trans h).trans (hsync false).symm⟩

/-- A memory disk of two blocks of zeros, and 8 KiB of guest memory full of ones. -/
def twoBlocks : DataPath where
  disk := .memory (List.replicate 1024 0)
  disk2 := none
  directDmaEnabled := false
  mem := ⟨fun _ => 1, fun gpa len => gpa + len ≤ 8192, fun gpa len => gpa + len ≤ 8192⟩
  hostPtr := fun gpa len => gpa + len ≤ 8192
  host := fun _ => ⟨true, HostIo.fine, none, none, 0, []⟩
  calls := 0

theorem twoBlocks_comparable : twoBlocks.Comparable := by
  refine ⟨fun _ => ⟨rfl, rfl⟩, rfl, rfl, fun nsid backend h => ?_⟩
  unfold backendForNsid at h
  split_ifs at h
  · cases h
    trivial
  · cases h

/-- A WRITE of `blocks + 1` blocks to the start of the disk. -/
def writeAtStart (prp1 prp2 blocks : Nat) : SubmissionEntry := ⟨1, 0, nsid1, prp1, prp2, 0, 0, blocks, 0, 0, 0⟩

/-- Two blocks from one page and the next: both paths write them. -/
theorem direct_dma_agrees_iff_backed :
    SameOutcome ((twoBlocks.withDma true).ioWrite false (writeAtStart 3584 4096 1))
      ((twoBlocks.withDma false).ioWrite false (writeAtStart 3584 4096 1)) := by
  refine (direct_dma_agrees_iff twoBlocks_comparable false
    (writeAtStart 3584 4096 1)).2.2 fun backend start len segments _ ht => .inl ?_
  have htarget : twoBlocks.ioTarget (writeAtStart 3584 4096 1) = some (0, 1024, [(3584, 1024)]) := by decide +kernel
  rw [htarget] at ht
  cases ht
  decide +kernel

/-- The first block is backed and the second is not: the direct path fails with the first on the disk, the buffered path
with neither. -/
theorem direct_write_tears :
    ¬SameOutcome ((twoBlocks.withDma true).ioWrite false (writeAtStart 3584 8192 1))
      ((twoBlocks.withDma false).ioWrite false (writeAtStart 3584 8192 1)) := by
  intro h
  exact absurd (h.disk nsid1 0) (by decide +kernel)

end DataPath

end BridgeVm.Nvme
