import BridgeVm.Nvme.DiskContents

/-!
# Deallocation is confined to what the guest asked for (`nvme/dataset_management.rs`)

- `punchRanges_eq`: the holes of a command are the whole blocks inside its ranges, in order, up to the first punch that
  fails;
- `ioDatasetManagement_cases`: the command punches when its whole request is valid, and otherwise does nothing;
- `deallocate_confined`: no byte outside the requested ranges changes, and a request that is not valid changes none.
-/

namespace BridgeVm.Nvme

open Lib DataPath

/-! ## Holes -/

section Holes

variable {file : List UInt8} {block i : Nat} {hole : Nat × Nat} {ranges holes : List (Nat × Nat)}

/-- `punch_hole`: the bytes from `hole.1` up to `hole.2` read zeros, and the file keeps its length. -/
def punchHole (file : List UInt8) (hole : Nat × Nat) : List UInt8 :=
  splice file hole.1 (List.replicate (min (hole.2 - hole.1) (file.length - hole.1)) 0)

/-- The whole blocks inside each range that has some. -/
def wholeBlocks (block : Nat) (ranges : List (Nat × Nat)) : List (Nat × Nat) :=
  (ranges.map (punchRange block)).filter fun hole => hole.1 < hole.2

theorem getElem?_punchHole (hi : ¬(hole.1 ≤ i ∧ i < hole.2)) : (punchHole file hole)[i]? = file[i]? := by
  unfold punchHole
  by_cases hpast : file.length ≤ hole.1
  · rw [Nat.sub_eq_zero_of_le hpast, Nat.min_zero, List.replicate_zero, splice_nil]
  · rw [getElem?_splice (by rw [List.length_replicate]; omega), List.length_replicate, if_neg (by omega)]

theorem getElem?_punchHoles (hi : ∀ hole ∈ holes, ¬(hole.1 ≤ i ∧ i < hole.2)) :
    (holes.foldl punchHole file)[i]? = file[i]? := by
  induction holes generalizing file with
  | nil => rfl
  | cons hole holes ih =>
    obtain ⟨hhole, hrest⟩ := List.forall_mem_cons.1 hi
    rw [List.foldl_cons, ih hrest, getElem?_punchHole hhole]

theorem punchRanges_eq (punches : Nat) (file : List UInt8) :
    punchRanges block punches file ranges = ((wholeBlocks block ranges).take punches).foldl punchHole file := by
  induction ranges generalizing punches file with
  | nil => simp [punchRanges, wholeBlocks]
  | cons range ranges ih =>
    rw [punchRanges]
    unfold wholeBlocks at ih ⊢
    rw [List.map_cons]
    dsimp only
    by_cases hnone : (punchRange block range).2 ≤ (punchRange block range).1
    · rw [if_pos hnone, ih, List.filter_cons_of_neg (by simpa using hnone)]
    · rw [if_neg hnone, List.filter_cons_of_pos (by simpa using hnone)]
      cases punches with
      | zero => rfl
      | succ punches =>
        rw [List.take_succ_cons, List.foldl_cons]
        exact ih punches _

theorem punchRange_inside (hblock : 0 < block) (range : Nat × Nat) :
    block ∣ (punchRange block range).1 ∧ block ∣ (punchRange block range).2 ∧
    range.1 ≤ (punchRange block range).1 ∧
      (punchRange block range).2 ≤ range.2 := by
  refine ⟨Nat.dvd_mul_left .., Nat.dvd_mul_left .., ?_, Nat.div_mul_le_self ..⟩
  have hup : range.1 + block - 1 < (range.1 + block - 1) / block * block + block := Nat.lt_div_mul_add hblock
  show range.1 ≤ (range.1 + block - 1) / block * block
  omega

end Holes

/-- The holes in the file of a store. -/
def DiskBackend.punch (b : DiskBackend) (holes : List (Nat × Nat)) : DiskBackend :=
  match b with
  | .memory disk => .memory disk
  | .rawFile disk => .rawFile { disk with file := holes.foldl punchHole disk.file }

theorem DiskBackend.punch_nil (b : DiskBackend) : b.punch [] = b := by
  cases b <;> rfl

theorem DiskBackend.byteAt_punch {b : DiskBackend} {holes : List (Nat × Nat)} {i : Nat}
    (hi : ∀ hole ∈ holes, ¬(hole.1 ≤ i ∧ i < hole.2)) : (b.punch holes).byteAt i = b.byteAt i := by
  cases b with
  | memory disk => rfl
  | rawFile disk =>
    show ChunkMap.elemAt fileOverlayChunkSize (holes.foldl punchHole disk.file) disk.overlay i =
      ChunkMap.elemAt fileOverlayChunkSize disk.file disk.overlay i
    unfold ChunkMap.elemAt
    rw [getElem?_punchHoles hi]

namespace DataPath

variable {d : DataPath} {cmd : SubmissionEntry} {list : List UInt8}
  {count byteLen : Nat}

/-! ## The request -/

/-- The range list of a command, when its guest memory can be read. -/
def requestedList (d : DataPath) (cmd : SubmissionEntry) : Option (List UInt8) :=
  (prpSpansInto cmd ((cmd.cdw10 + 1) * 16) d.mem).bind fun spans => gatherSegments d.mem spans

/-- The bytes of the blocks that an entry of the list asks for: from its starting LBA, as many blocks as it says. -/
def requestedRange (list : List UInt8) (i : Nat) : Nat × Nat :=
  let blocks := leField list (16 * i + 4) 4
  let slba := leField list (16 * i + 8) 8
  (slba * lbaSize, (slba + blocks) * lbaSize)

def requestedRanges (list : List UInt8) (count : Nat) : List (Nat × Nat) :=
  (List.range count).map (requestedRange list)

/-- The range ends inside the namespace, at a 64-bit position. -/
def RangeIn (byteLen : Nat) (range : Nat × Nat) : Prop := range.2 < 2 ^ 64 ∧ range.2 ≤ byteLen

instance (byteLen : Nat) : DecidablePred (RangeIn byteLen) := fun range =>
  inferInstanceAs (Decidable (range.2 < 2 ^ 64 ∧ range.2 ≤ byteLen))

/-- A valid request: an active namespace, a count of at most 256, a list that can be read, and only ranges inside the
namespace. -/
structure Requested (d : DataPath) (cmd : SubmissionEntry) (backend : DiskBackend)
    (ranges : List (Nat × Nat)) : Prop where
  active : d.backendForNsid cmd.nsid = some backend
  count : cmd.cdw10 ≤ 0xff
  readable : (d.requestedList cmd).map (fun list => requestedRanges list (cmd.cdw10 + 1)) = some ranges
  inside : ∀ range ∈ ranges, RangeIn backend.byteLen range

theorem parseRanges_eq : parseRanges list byteLen count =
    if ∀ range ∈ requestedRanges list count, RangeIn byteLen range then some (requestedRanges list count)
      else none := by
  have hentry : ∀ i, (if leField list (16 * i + 8) 8 + leField list (16 * i + 4) 4 < 2 ^ 64 ∧
        (leField list (16 * i + 8) 8 + leField list (16 * i + 4) 4) * lbaSize < 2 ^ 64 ∧
        (leField list (16 * i + 8) 8 + leField list (16 * i + 4) 4) * lbaSize ≤ byteLen then
      some (requestedRange list i) else none) = if RangeIn byteLen (requestedRange list i) then
        some (requestedRange list i) else none := by
    intro i
    refine if_congr ?_ rfl rfl
    unfold RangeIn requestedRange lbaSize
    dsimp only
    omega
  unfold parseRanges requestedRanges
  simp only [List.forall_mem_map]
  exact (congrArg (fun f => List.mapM f (List.range count)) (funext hentry)).trans (mapM_ite _ _ _)

/-- The punched blocks of a command. -/
theorem deallocate_eq (backend : DiskBackend) (call : HostCall) (ranges : List (Nat × Nat)) : ∃ holes,
    deallocate backend call ranges = backend.punch holes ∧
    ∀ hole ∈ holes, ∃ block, call.fsBlock = some block ∧ block ∣ hole.1 ∧ block ∣ hole.2 ∧
    hole.1 < hole.2 ∧
      ∃ range ∈ ranges, range.1 ≤ hole.1 ∧ hole.2 ≤ range.2 := by
  unfold deallocate
  split
  · exact ⟨[], rfl, nofun⟩
  · rename_i disk
    split
    · split
      · exact ⟨[], (DiskBackend.punch_nil _).symm, nofun⟩
      · rename_i block hfs
        split
        · rename_i hblock
          refine ⟨(wholeBlocks block ranges).take call.punches, by rw [punchRanges_eq]; rfl, fun hole hmem => ?_⟩
          obtain ⟨hhole, hsome⟩ := List.mem_filter.1 (List.mem_of_mem_take hmem)
          obtain ⟨range, hrange, rfl⟩ := List.mem_map.1 hhole
          obtain ⟨hstart, hstop, hup, hdown⟩ := punchRange_inside (Nat.pos_of_ne_zero hblock.1) range
          exact ⟨block, hfs, hstart, hstop, of_decide_eq_true hsome, range, hrange, hup, hdown⟩
        · exact ⟨[], (DiskBackend.punch_nil _).symm, nofun⟩
    · exact ⟨[], (DiskBackend.punch_nil _).symm, nofun⟩

/-! ## The command -/

/-- The command punches when its request is valid; otherwise it fails and does nothing. -/
theorem ioDatasetManagement_cases (hdsm : cmd.cdw11 &&& 4 ≠ 0) :
    (∃ backend ranges, d.Requested cmd backend ranges ∧ d.ioDatasetManagement cmd =
        (scSuccess, d.hostCall.2.setBackend cmd.nsid (deallocate backend d.hostCall.1 ranges))) ∨
      (¬∃ backend ranges, d.Requested cmd backend ranges) ∧ ∃ status, status ≠ scSuccess ∧
      d.ioDatasetManagement cmd = (status, d) := by
  unfold ioDatasetManagement
  cases hbackend : d.backendForNsid cmd.nsid with
  | none =>
    refine .inr ⟨?_, _, by decide, rfl⟩
    rintro ⟨backend, ranges, hreq⟩
    rw [hreq.active] at hbackend
    cases hbackend
  | some backend =>
    dsimp only
    by_cases hcount : cmd.cdw10 > 0xff
    · rw [if_pos hcount]
      refine .inr ⟨?_, _, by decide, rfl⟩
      rintro ⟨backend, ranges, hreq⟩
      exact absurd hreq.count (by omega)
    · rw [if_neg hcount, if_neg hdsm]
      have hread : ((prpSpansInto cmd ((cmd.cdw10 + 1) * 16) d.mem).bind fun spans => gatherSegments d.mem spans) =
          d.requestedList cmd := rfl
      rw [hread]
      cases hlist : d.requestedList cmd with
      | none =>
        refine .inr ⟨?_, _, by decide, rfl⟩
        rintro ⟨backend, ranges, hreq⟩
        have hread := hreq.readable
        rw [hlist] at hread
        cases hread
      | some list =>
        dsimp only
        rw [parseRanges_eq]
        by_cases hinside : ∀ range ∈ requestedRanges list (cmd.cdw10 + 1), RangeIn backend.byteLen range
        · rw [if_pos hinside]
          exact .inl ⟨backend, _, ⟨hbackend, by omega, by rw [hlist]; rfl, hinside⟩, rfl⟩
        · rw [if_neg hinside]
          refine .inr ⟨?_, _, by decide, rfl⟩
          rintro ⟨backend', ranges, hreq⟩
          have hread := hreq.readable
          have hsame := hreq.active
          rw [hlist] at hread
          rw [hbackend] at hsame
          cases hsame
          cases hread
          exact hinside hreq.inside

theorem ioDatasetManagement_hint (hdsm : cmd.cdw11 &&& 4 = 0) : (d.ioDatasetManagement cmd).2 = d := by
  unfold ioDatasetManagement
  split
  · rfl
  · split
    · rfl
    · rfl

/-- A position inside the ranges of a valid request. -/
def Asked (d : DataPath) (cmd : SubmissionEntry) (i : Nat) : Prop :=
  ∃ backend ranges, d.Requested cmd backend ranges ∧ ∃ range ∈ ranges, range.1 ≤ i ∧ i < range.2

/-- A hole of whole punch blocks, inside one range of a valid request. -/
def AskedHole (d : DataPath) (cmd : SubmissionEntry) (hole : Nat × Nat) : Prop :=
  (∃ block, d.hostCall.1.fsBlock = some block ∧ block ∣ hole.1 ∧ block ∣ hole.2) ∧
    ∃ backend ranges, d.Requested cmd backend ranges ∧ ∃ range ∈ ranges, range.1 ≤ hole.1 ∧
    hole.2 ≤ range.2

theorem AskedHole.asked {hole : Nat × Nat} {i : Nat} (h : d.AskedHole cmd hole) (hi : hole.1 ≤ i ∧ i < hole.2) :
    d.Asked cmd i := by
  obtain ⟨-, backend, ranges, hreq, range, hrange, hstart, hstop⟩ := h
  exact ⟨backend, ranges, hreq, range, hrange, hstart.trans hi.1, hi.2.trans_le hstop⟩

/-- What the command does: holes in the store of its namespace. -/
theorem ioDatasetManagement_punch (d : DataPath) (cmd : SubmissionEntry) :
    (d.ioDatasetManagement cmd).2.mem = d.mem ∧ ∃ holes, (∀ hole ∈ holes, d.AskedHole cmd hole) ∧
      ∀ nsid, (d.ioDatasetManagement cmd).2.backendForNsid nsid =
        if nsid = cmd.nsid then (d.backendForNsid nsid).map fun b => b.punch holes else d.backendForNsid nsid := by
  have hnone : ∀ nsid, d.backendForNsid nsid =
      if nsid = cmd.nsid then (d.backendForNsid nsid).map fun b => b.punch [] else d.backendForNsid nsid := by
    intro nsid
    simp only [DiskBackend.punch_nil, Option.map_id', ite_self]
  by_cases hdsm : cmd.cdw11 &&& 4 = 0
  · rw [ioDatasetManagement_hint hdsm]
    exact ⟨rfl, [], nofun, hnone⟩
  · obtain ⟨backend, ranges, hreq, heq⟩ | ⟨-, status, -, heq⟩ := ioDatasetManagement_cases (d := d) hdsm
    · obtain ⟨holes, hpunch, hholes⟩ := deallocate_eq backend d.hostCall.1 ranges
      rw [heq, hpunch]
      refine ⟨mem_setBackend _ _ _, holes, fun hole hmem => ?_, fun nsid => ?_⟩
      · obtain ⟨block, hfs, hstart, hstop, -, hrange⟩ := hholes hole hmem
        exact ⟨⟨block, hfs, hstart, hstop⟩, backend, ranges, hreq, hrange⟩
      · have hactive : (d.hostCall.2.backendForNsid cmd.nsid).isSome := by
          rw [backendForNsid_hostCall, hreq.active]
          rfl
        rw [backendForNsid_setBackend hactive]
        split
        · rename_i hnsid
          rw [hnsid, hreq.active]
          rfl
        · rfl
    · rw [heq]
      exact ⟨rfl, [], nofun, hnone⟩

/-- **Deallocation is confined**: the command punches holes in the store of its namespace, each of whole punch blocks
and inside one requested range, and leaves guest memory alone; so a byte that changes lies in a requested range. A
command with the deallocate attribute succeeds exactly when its whole request is valid, and when it is not, nothing
changes. -/
theorem deallocate_confined (d : DataPath) (cmd : SubmissionEntry) :
    (∃ holes, (∀ hole ∈ holes, d.AskedHole cmd hole) ∧
      ∀ nsid, (d.ioDatasetManagement cmd).2.backendForNsid nsid =
        if nsid = cmd.nsid then (d.backendForNsid nsid).map fun b => b.punch holes else d.backendForNsid nsid) ∧
    (∀ nsid i, (d.ioDatasetManagement cmd).2.diskByte nsid i ≠ d.diskByte nsid i → nsid = cmd.nsid ∧
      d.Asked cmd i) ∧
    (d.ioDatasetManagement cmd).2.mem = d.mem ∧
    (cmd.cdw11 &&& 4 ≠ 0 → ((d.ioDatasetManagement cmd).1 = scSuccess ↔
      ∃ backend ranges, d.Requested cmd backend ranges)) ∧
    ((¬∃ backend ranges, d.Requested cmd backend ranges) → (d.ioDatasetManagement cmd).2 = d) := by
  obtain ⟨hmem, holes, hholes, hstores⟩ := ioDatasetManagement_punch d cmd
  refine ⟨⟨holes, hholes, hstores⟩, fun nsid i hne => ?_, hmem, fun hdsm => ?_, fun hinvalid => ?_⟩
  · unfold diskByte at hne
    rw [hstores nsid] at hne
    by_cases hnsid : nsid = cmd.nsid
    · refine ⟨hnsid, by_contra fun hout => hne ?_⟩
      rw [if_pos hnsid]
      cases d.backendForNsid nsid with
      | none => rfl
      | some b => exact DiskBackend.byteAt_punch fun hole hmem hi => hout ((hholes hole hmem).asked hi)
    · rw [if_neg hnsid] at hne
      exact absurd rfl hne
  · obtain ⟨backend, ranges, hreq, heq⟩ | ⟨hinvalid, status, hstatus, heq⟩ :=
      ioDatasetManagement_cases (d := d) hdsm
    · rw [heq]
      exact ⟨fun _ => ⟨backend, ranges, hreq⟩, fun _ => rfl⟩
    · rw [heq]
      exact ⟨fun h => absurd h hstatus, fun h => absurd h hinvalid⟩
  · by_cases hdsm : cmd.cdw11 &&& 4 = 0
    · exact ioDatasetManagement_hint hdsm
    · obtain ⟨backend, ranges, hreq, -⟩ | ⟨-, status, -, heq⟩ := ioDatasetManagement_cases (d := d) hdsm
      · exact absurd ⟨backend, ranges, hreq⟩ hinvalid
      · rw [heq]

end DataPath

end BridgeVm.Nvme
