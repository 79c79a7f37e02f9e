import BridgeVm.Nvme.Disk
import BridgeVm.Nvme.Protocol

/-!
# The NVMe data path (`nvme/prp.rs`, `disk.rs`, `io.rs`, `io_write.rs`, `dataset_management.rs`, `admin_data.rs`)

PRP decoding, and the transfers between the namespaces' backing stores and guest memory. What the host does at each call
that can fail is an input (`HostCall`).
-/

namespace BridgeVm.Nvme

open Lib

/-! ## Backing stores -/

inductive DiskBackend
  | memory (disk : List UInt8)
  | rawFile (disk : RawFileDisk)

namespace DiskBackend

def byteLen : DiskBackend → Nat
  | memory disk => disk.length
  | rawFile disk => disk.len

/-- A write-back raw file, the only store with something to sync or to punch. -/
def writeBackFile : DiskBackend → Option RawFileDisk
  | memory _ => none
  | rawFile disk => if disk.writeBack then some disk else none

/-- `read_at_into`. -/
def readAtInto (b : DiskBackend) (io : HostIo) (offset n : Nat) : Option (List UInt8) :=
  if b.byteLen < offset + n then none
  else
    match b with
    | memory disk => some (slice disk offset n)
    | rawFile disk => (disk.readAt io offset n).toOption

/-- `write_at`, and whether it succeeded. -/
def writeAt (b : DiskBackend) (io : HostIo) (offset : Nat) (data : List UInt8) : DiskBackend × Bool :=
  if b.byteLen < offset + data.length then (b, false)
  else
    match b with
    | memory disk => (memory (splice disk offset data), true)
    | rawFile disk =>
      let (disk, result) := disk.writeAt io offset data
      (rawFile disk, result = .done)

/-- `flush`, `flush_durable`: only a write-back raw file calls the host. -/
def flush (b : DiskBackend) (ok : Bool) : Bool := b.writeBackFile.isNone || ok

end DiskBackend

/-! ## Host calls -/

/-- Another thread's turn: the flush thread takes a batch, a batch of transfers is run or dropped, or a vCPU stores to
guest memory. -/
inductive ThreadAction
  | flushBatch (n : Nat)
  | runIo (i : Nat)
  | dropIo (i : Nat)
  | guestStore (gpa : Nat) (data : List UInt8)
deriving DecidableEq, Repr

/-- The host's part in one call. -/
structure HostCall where
  /-- A sync, a thread start or another call without data succeeds. -/
  ok : Bool
  /-- The positional reads and writes of a disk operation. -/
  io : HostIo
  /-- After how many bytes a transfer outside the lock fails. -/
  stops : Option Nat
  /-- The block size of the disk's file system, when it can be had. -/
  fsBlock : Option Nat
  /-- How many holes can be punched before a punch fails. -/
  punches : Nat
  /-- What the other threads do meanwhile. -/
  others : List ThreadAction

/-- What a command works on: the namespaces, the controller's data-path settings, guest memory with the host pointers
its view exposes, and the host. -/
structure DataPath where
  disk : DiskBackend
  disk2 : Option DiskBackend
  directDmaEnabled : Bool
  mem : GuestMemory
  hostPtr : Nat → Nat → Bool
  host : Nat → HostCall
  calls : Nat

namespace DataPath

/-- The next host call. -/
def hostCall (d : DataPath) : HostCall × DataPath := (d.host d.calls, { d with calls := d.calls + 1 })

/-- `backend_for_nsid`. -/
def backendForNsid (d : DataPath) (nsid : Nat) : Option DiskBackend :=
  if nsid = nsid1 then some d.disk else if nsid = nsid2 then d.disk2 else none

/-- Put the store of an active namespace back. -/
def setBackend (d : DataPath) (nsid : Nat) (b : DiskBackend) : DataPath :=
  if nsid = nsid1 then { d with disk := b } else { d with disk2 := some b }

/-- `flush_all_namespaces`, `flush_all_namespaces_durable`. -/
def flushAllNamespaces (d : DataPath) : Nat × DataPath :=
  let (first, d) := d.hostCall
  let (second, d) := d.hostCall
  let ok := d.disk.flush first.ok && d.disk2.all fun b => b.flush second.ok
  (if ok then scSuccess else scInternalDeviceError, d)

/-- `io_flush`. -/
def ioFlush (d : DataPath) (cmd : SubmissionEntry) : Nat × DataPath :=
  if cmd.nsid = nsidAll then d.flushAllNamespaces
  else
    match d.backendForNsid cmd.nsid with
    | none => (scInvalidField, d)
    | some backend =>
      let (call, d) := d.hostCall
      (if backend.flush call.ok then scSuccess else scInternalDeviceError, d)

end DataPath

/-! ## PRP lists and ranges -/

/-- One page of a PRP list read through. -/
inductive PrpPage
  | fail
  | done (spans : List (Nat × Nat))
  | chain (gpa : Nat) (spans : List (Nat × Nat)) (remaining : Nat)
deriving DecidableEq

/-- The entries of a list page from `idx` on, of the `entriesInPage` the page has room for. -/
def prpEntries (entriesInPage : Nat) : Nat → List Nat → Nat → List (Nat × Nat) → PrpPage
  | _, [], _, _ => .fail
  | idx, entry :: entries, remaining, spans =>
    if entry = 0 then .fail
    else if idx + 1 = entriesInPage ∧ pageSize < remaining then
      if entry % pageSize ≠ 0 then .fail else .chain entry spans remaining
    else if entry % pageSize ≠ 0 then .fail
    else
      let len := min remaining pageSize
      if remaining - len = 0 then .done (spans ++ [(entry, len)])
      else prpEntries entriesInPage (idx + 1) entries (remaining - len) (spans ++ [(entry, len)])

/-- Whole pages needed for `n` bytes. -/
def pagesFor (n : Nat) : Nat := (n + pageSize - 1) / pageSize

/-- The list walk, over at most `pages` list pages. -/
def prpList (mem : GuestMemory) : Nat → Nat → Nat → List (Nat × Nat) → Option (List (Nat × Nat))
  | 0, _, _, _ => none
  | pages + 1, listGpa, remaining, spans =>
    if listGpa % pageSize % 8 ≠ 0 then none
    else
      let entriesInPage := (pageSize - listGpa % pageSize) / 8
      let count := min (pagesFor remaining) entriesInPage
      match mem.readBytes listGpa (count * 8) with
      | none => none
      | some raw =>
        match prpEntries entriesInPage 0 ((List.range count).map fun i => leField raw (8 * i) 8) remaining spans with
        | .fail => none
        | .done spans => some spans
        | .chain gpa spans remaining => prpList mem pages gpa remaining spans

/-- `prp_spans_into`: the guest spans of `len` bytes. -/
def prpSpansInto (cmd : SubmissionEntry) (len : Nat) (mem : GuestMemory) : Option (List (Nat × Nat)) :=
  if len = 0 then some []
  else if cmd.prp1 = 0 then none
  else
    let firstLen := min len (pageSize - cmd.prp1 % pageSize)
    let remaining := len - firstLen
    if remaining = 0 then some [(cmd.prp1, firstLen)]
    else if cmd.prp2 = 0 then none
    else if remaining ≤ pageSize then
      if cmd.prp2 % pageSize ≠ 0 then none else some [(cmd.prp1, firstLen), (cmd.prp2, remaining)]
    else prpList mem (pagesFor remaining + 1) cmd.prp2 remaining [(cmd.prp1, firstLen)]

/-- A span after the segments before it: merged with the last one when it continues it. -/
def coalesce (segments : List (Nat × Nat)) (span : Nat × Nat) : List (Nat × Nat) :=
  if span.2 = 0 then segments
  else
    match segments.getLast? with
    | some last =>
      if checkedAdd last.1 last.2 = some span.1 then segments.dropLast ++ [(last.1, last.2 + span.2)]
      else segments ++ [span]
    | none => [span]

/-- `coalesce_spans_into`. -/
def coalesceSpans (spans : List (Nat × Nat)) : List (Nat × Nat) := spans.foldl coalesce []

/-- `transfer_range`: start and length of a command's blocks, inside a namespace of `byteLen` bytes. -/
def transferRange (cmd : SubmissionEntry) (byteLen : Nat) : Option (Nat × Nat) :=
  let slba := cmd.cdw10 + cmd.cdw11 * 2 ^ 32
  let len := ((cmd.cdw12 &&& 0xffff) + 1) * lbaSize
  let start := slba * lbaSize
  if start + len < 2 ^ 64 ∧ start + len ≤ byteLen then some (start, len) else none

namespace DataPath

/-! ## Admin data -/

/-- Store the spans' parts of `data`; the first span that is not backed ends it. -/
def writeSpans (mem : GuestMemory) : List (Nat × Nat) → List UInt8 → GuestMemory × Bool
  | [], _ => (mem, true)
  | (gpa, len) :: spans, data =>
    match mem.writeBytes gpa (data.take len) with
    | (mem, false) => (mem, false)
    | (mem, true) => writeSpans mem spans (data.drop len)

/-- `write_admin_data`. -/
def writeAdminData (d : DataPath) (cmd : SubmissionEntry) (data : List UInt8) : Nat × DataPath :=
  match prpSpansInto cmd data.length d.mem with
  | none => (scInvalidField, d)
  | some spans =>
    let (mem, ok) := writeSpans d.mem spans data
    (if ok then scSuccess else scInvalidField, { d with mem := mem })

/-! ## READ -/

/-- `io_read_direct`, past its probe: the disk straight into the segments. -/
def ioReadSegments (nsid : Nat) : DataPath → Nat → List (Nat × Nat) → Nat × DataPath
  | d, _, [] => (scSuccess, d)
  | d, diskOff, (gpa, len) :: segments =>
    if !d.hostPtr gpa len then (scInvalidField, d)
    else
      match d.backendForNsid nsid with
      | none => (scInvalidField, d)
      | some backend =>
        let (call, d) := d.hostCall
        match backend.readAtInto call.io diskOff len with
        | none => (scInvalidField, d)
        | some bytes => ioReadSegments nsid { d with mem := d.mem.store gpa bytes } (diskOff + len) segments

/-- `io_read_buffered`. -/
def ioReadBuffered (d : DataPath) (nsid start len : Nat) (segments : List (Nat × Nat)) : Nat × DataPath :=
  if len = 0 then (scSuccess, d)
  else
    match d.backendForNsid nsid with
    | none => (scInvalidField, d)
    | some backend =>
      let (call, d) := d.hostCall
      match backend.readAtInto call.io start len with
      | none => (scInvalidField, d)
      | some bytes =>
        let (mem, ok) := writeSpans d.mem segments bytes
        (if ok then scSuccess else scInvalidField, { d with mem := mem })

/-- The first segment has a host pointer, and direct DMA is on. -/
def direct (d : DataPath) (segments : List (Nat × Nat)) : Bool :=
  d.directDmaEnabled && segments.head?.any fun segment => d.hostPtr segment.1 segment.2

/-- Start, length and guest segments of a READ or WRITE, when its namespace, range and PRPs are valid. -/
def ioTarget (d : DataPath) (cmd : SubmissionEntry) : Option (Nat × Nat × List (Nat × Nat)) :=
  (d.backendForNsid cmd.nsid).bind fun backend =>
    (transferRange cmd backend.byteLen).bind fun range =>
      (prpSpansInto cmd range.2 d.mem).map fun spans => (range.1, range.2, coalesceSpans spans)

/-- `io_read`. -/
def ioRead (d : DataPath) (cmd : SubmissionEntry) : Nat × DataPath :=
  match d.ioTarget cmd with
  | none => (scInvalidField, d)
  | some (start, len, segments) =>
    if d.direct segments then d.ioReadSegments cmd.nsid start segments
    else d.ioReadBuffered cmd.nsid start len segments

/-! ## WRITE -/

/-- `io_write_direct`, past its probe: the segments straight to the disk. -/
def ioWriteSegments (nsid : Nat) : DataPath → Nat → List (Nat × Nat) → Nat × DataPath
  | d, _, [] => (scSuccess, d)
  | d, diskOff, (gpa, len) :: segments =>
    if !d.hostPtr gpa len then (scInvalidField, d)
    else
      match d.backendForNsid nsid with
      | none => (scInvalidField, d)
      | some backend =>
        let (call, d) := d.hostCall
        match backend.writeAt call.io diskOff (d.mem.span gpa len) with
        | (backend, false) => (scInvalidField, d.setBackend nsid backend)
        | (backend, true) => ioWriteSegments nsid (d.setBackend nsid backend) (diskOff + len) segments

/-- The segments' bytes, when all are backed. -/
def gatherSegments (mem : GuestMemory) (segments : List (Nat × Nat)) : Option (List UInt8) :=
  (segments.mapM fun segment => mem.readBytes segment.1 segment.2).map List.flatten

/-- `io_write_buffered`. -/
def ioWriteBuffered (d : DataPath) (nsid start len : Nat) (segments : List (Nat × Nat)) : Nat × DataPath :=
  if len = 0 then (scSuccess, d)
  else
    match gatherSegments d.mem segments with
    | none => (scInvalidField, d)
    | some data =>
      match d.backendForNsid nsid with
      | none => (scInvalidField, d)
      | some backend =>
        let (call, d) := d.hostCall
        let (backend, ok) := backend.writeAt call.io start data
        (if ok then scSuccess else scInvalidField, d.setBackend nsid backend)

/-- `io_write_data`: the data part of WRITE, no sync. -/
def ioWriteData (d : DataPath) (cmd : SubmissionEntry) : Nat × DataPath :=
  match d.ioTarget cmd with
  | none => (scInvalidField, d)
  | some (start, len, segments) =>
    if d.direct segments then d.ioWriteSegments cmd.nsid start segments
    else d.ioWriteBuffered cmd.nsid start len segments

/-- `io_write`. -/
def ioWrite (d : DataPath) (needsSync : Bool) (cmd : SubmissionEntry) : Nat × DataPath :=
  let (status, d) := d.ioWriteData cmd
  if status = scSuccess ∧ needsSync then d.ioFlush cmd else (status, d)

/-! ## Transfers outside the lock -/

/-- `copy_all`: between the file of a namespace and guest memory, until the host or the file's end stops it. -/
def copyAll (d : DataPath) (nsid : Nat) (write : Bool) (gpa len offset : Nat) : Bool × DataPath :=
  let (call, d) := d.hostCall
  match d.backendForNsid nsid with
  | some (.rawFile disk) =>
    let n := min len (call.stops.getD len)
    if write then
      (n = len, d.setBackend nsid (.rawFile { disk with file := splice disk.file offset (d.mem.span gpa n) }))
    else
      let bytes := slice disk.file offset n
      (bytes.length = len, { d with mem := d.mem.store gpa bytes })
  | _ => (false, d)

/-- `transfer`: the segments in order, up to the first that fails. -/
def transfer (nsid : Nat) (write : Bool) : DataPath → Nat → List (Nat × Nat) → Nat × DataPath
  | d, _, [] => (scSuccess, d)
  | d, offset, (gpa, len) :: segments =>
    if !d.hostPtr gpa len then (scInvalidField, d)
    else
      match d.copyAll nsid write gpa len offset with
      | (false, d) => (scInvalidField, d)
      | (true, d) => transfer nsid write d (offset + len) segments

/-! ## Dataset Management -/

/-- `parse_ranges`: the byte ranges of a range list, when all lie in the namespace. -/
def parseRanges (list : List UInt8) (byteLen count : Nat) : Option (List (Nat × Nat)) :=
  (List.range count).mapM fun i =>
    let blocks := leField list (16 * i + 4) 4
    let slba := leField list (16 * i + 8) 8
    if slba + blocks < 2 ^ 64 ∧ (slba + blocks) * lbaSize < 2 ^ 64 ∧ (slba + blocks) * lbaSize ≤ byteLen then
      some (slba * lbaSize, (slba + blocks) * lbaSize)
    else none

/-- The whole blocks inside a range. -/
def punchRange (block : Nat) (range : Nat × Nat) : Nat × Nat :=
  ((range.1 + block - 1) / block * block, range.2 / block * block)

/-- Punch each range's blocks until a punch fails. -/
def punchRanges (block : Nat) : Nat → List UInt8 → List (Nat × Nat) → List UInt8
  | _, file, [] => file
  | punches, file, range :: ranges =>
    let (start, stop) := punchRange block range
    if stop ≤ start then punchRanges block punches file ranges
    else
      match punches with
      | 0 => file
      | punches + 1 =>
        let hole := List.replicate (min (stop - start) (file.length - start)) 0
        punchRanges block punches (splice file start hole) ranges

/-- `DiskBackend::deallocate`. -/
def deallocate (b : DiskBackend) (call : HostCall) (ranges : List (Nat × Nat)) : DiskBackend :=
  match b with
  | .memory disk => .memory disk
  | .rawFile disk =>
    if disk.writeBack then
      match call.fsBlock with
      | none => .rawFile disk
      | some block =>
        if block ≠ 0 ∧ block &&& (block - 1) = 0 then
          .rawFile { disk with file := punchRanges block call.punches disk.file ranges }
        else .rawFile disk
    else .rawFile disk

/-- `io_dataset_management`. -/
def ioDatasetManagement (d : DataPath) (cmd : SubmissionEntry) : Nat × DataPath :=
  match d.backendForNsid cmd.nsid with
  | none => (scInvalidField, d)
  | some backend =>
    if cmd.cdw10 > 0xff then (scInvalidFieldDnr, d)
    else if cmd.cdw11 &&& 4 = 0 then (scSuccess, d)
    else
      let count := cmd.cdw10 + 1
      match (prpSpansInto cmd (count * 16) d.mem).bind fun spans => gatherSegments d.mem spans with
      | none => (scInvalidField, d)
      | some list =>
        match parseRanges list backend.byteLen count with
        | none => (scLbaOutOfRange ||| scDnr, d)
        | some ranges =>
          let (call, d) := d.hostCall
          (scSuccess, d.setBackend cmd.nsid (deallocate backend call ranges))

/-! ## What is backed stays -/

section SameBacking

variable {d d' : DataPath} {mem : GuestMemory} {cmd : SubmissionEntry} {nsid start len diskOff : Nat}
  {segments : List (Nat × Nat)}

/-- The same guest memory is backed. -/
def SameBacking (d d' : DataPath) : Prop := d.mem.SameBacking d'.mem

theorem SameBacking.refl (d : DataPath) : d.SameBacking d := GuestMemory.SameBacking.refl d.mem

theorem SameBacking.trans {d₁ d₂ d₃ : DataPath} (h₁ : d₁.SameBacking d₂) (h₂ : d₂.SameBacking d₃) :
    d₁.SameBacking d₃ :=
  GuestMemory.SameBacking.trans h₁ h₂

theorem hostCall_backing (d : DataPath) : d.SameBacking d.hostCall.2 := SameBacking.refl d

theorem setBackend_backing (d : DataPath) (nsid : Nat) (b : DiskBackend) : d.SameBacking (d.setBackend nsid b) := by
  unfold setBackend
  split
  · exact SameBacking.refl d
  · exact SameBacking.refl d

theorem flushAllNamespaces_backing (d : DataPath) : d.SameBacking d.flushAllNamespaces.2 := SameBacking.refl d

theorem ioFlush_backing (d : DataPath) (cmd : SubmissionEntry) : d.SameBacking (d.ioFlush cmd).2 := by
  unfold ioFlush
  split
  · exact flushAllNamespaces_backing d
  · split
    · exact SameBacking.refl d
    · exact hostCall_backing d

theorem writeSpans_backing (spans : List (Nat × Nat)) (data : List UInt8) :
    mem.SameBacking (writeSpans mem spans data).1 := by
  induction spans generalizing mem data with
  | nil => exact GuestMemory.SameBacking.refl mem
  | cons span spans ih =>
    have hw : mem.SameBacking (mem.writeBytes span.1 (data.take span.2)).1 := writeBytes_backing
    rw [writeSpans]
    split
    · rename_i h
      rw [h] at hw
      exact hw
    · rename_i h
      rw [h] at hw
      exact hw.trans (ih _)

theorem writeAdminData_backing (d : DataPath) (cmd : SubmissionEntry) (data : List UInt8) :
    d.SameBacking (d.writeAdminData cmd data).2 := by
  unfold writeAdminData
  split
  · exact SameBacking.refl d
  · exact writeSpans_backing _ data

theorem ioReadSegments_backing : d.SameBacking (ioReadSegments nsid d diskOff segments).2 := by
  induction segments generalizing d diskOff with
  | nil => exact SameBacking.refl d
  | cons segment segments ih =>
    rw [ioReadSegments]
    split
    · exact SameBacking.refl d
    · split
      · exact SameBacking.refl d
      · dsimp only
        split
        · exact hostCall_backing d
        · exact SameBacking.trans (hostCall_backing d) (SameBacking.trans ⟨rfl, rfl⟩ ih)

theorem ioReadBuffered_backing : d.SameBacking (d.ioReadBuffered nsid start len segments).2 := by
  unfold ioReadBuffered
  split
  · exact SameBacking.refl d
  · split
    · exact SameBacking.refl d
    · dsimp only
      split
      · exact hostCall_backing d
      · exact SameBacking.trans (hostCall_backing d) (writeSpans_backing segments _)

theorem ioRead_backing (d : DataPath) (cmd : SubmissionEntry) : d.SameBacking (d.ioRead cmd).2 := by
  unfold ioRead
  generalize d.ioTarget cmd = target
  cases target with
  | none => exact SameBacking.refl d
  | some target =>
    dsimp only
    split
    · exact ioReadSegments_backing
    · exact ioReadBuffered_backing

theorem ioWriteSegments_backing : d.SameBacking (ioWriteSegments nsid d diskOff segments).2 := by
  induction segments generalizing d diskOff with
  | nil => exact SameBacking.refl d
  | cons segment segments ih =>
    rw [ioWriteSegments]
    split
    · exact SameBacking.refl d
    · split
      · exact SameBacking.refl d
      · dsimp only
        split
        · exact SameBacking.trans (hostCall_backing d) (setBackend_backing _ nsid _)
        · exact SameBacking.trans (hostCall_backing d) (SameBacking.trans (setBackend_backing _ nsid _) ih)

theorem ioWriteBuffered_backing : d.SameBacking (d.ioWriteBuffered nsid start len segments).2 := by
  unfold ioWriteBuffered
  split
  · exact SameBacking.refl d
  · split
    · exact SameBacking.refl d
    · split
      · exact SameBacking.refl d
      · exact SameBacking.trans (hostCall_backing d) (setBackend_backing _ nsid _)

theorem ioWriteData_backing (d : DataPath) (cmd : SubmissionEntry) : d.SameBacking (d.ioWriteData cmd).2 := by
  unfold ioWriteData
  generalize d.ioTarget cmd = target
  cases target with
  | none => exact SameBacking.refl d
  | some target =>
    dsimp only
    split
    · exact ioWriteSegments_backing
    · exact ioWriteBuffered_backing

theorem ioWrite_backing (d : DataPath) (needsSync : Bool) (cmd : SubmissionEntry) :
    d.SameBacking (d.ioWrite needsSync cmd).2 := by
  unfold ioWrite
  dsimp only
  split
  · exact SameBacking.trans (ioWriteData_backing d cmd) (ioFlush_backing _ cmd)
  · exact ioWriteData_backing d cmd

theorem copyAll_backing (d : DataPath) (nsid : Nat) (write : Bool) (gpa len offset : Nat) :
    d.SameBacking (d.copyAll nsid write gpa len offset).2 := by
  unfold copyAll
  dsimp only
  split
  · split
    · exact SameBacking.trans (hostCall_backing d) (setBackend_backing _ nsid _)
    · exact SameBacking.trans (hostCall_backing d) ⟨rfl, rfl⟩
  · exact hostCall_backing d

theorem transfer_backing {write : Bool} {offset : Nat} : d.SameBacking (transfer nsid write d offset segments).2 := by
  induction segments generalizing d offset with
  | nil => exact SameBacking.refl d
  | cons segment segments ih =>
    have hcopy := copyAll_backing d nsid write segment.1 segment.2 offset
    rw [transfer]
    split
    · exact SameBacking.refl d
    · split
      · rename_i h
        rw [h] at hcopy
        exact hcopy
      · rename_i h
        rw [h] at hcopy
        exact SameBacking.trans hcopy ih

theorem ioDatasetManagement_backing (d : DataPath) (cmd : SubmissionEntry) :
    d.SameBacking (d.ioDatasetManagement cmd).2 := by
  unfold ioDatasetManagement
  split
  · exact SameBacking.refl d
  · split
    · exact SameBacking.refl d
    · split
      · exact SameBacking.refl d
      · dsimp only
        split
        · exact SameBacking.refl d
        · split
          · exact SameBacking.refl d
          · exact SameBacking.trans (hostCall_backing d) (setBackend_backing _ cmd.nsid _)

end SameBacking

end DataPath

end BridgeVm.Nvme
