import BridgeVm.VirtioGpu.Device
import BridgeVm.MappedRam

/-!
# RESOURCE_COPY_REGION between guest-backed resources (`virtio_gpu_3d/local_resource_copy.rs`)

A command buffer of copies is validated as a whole and then executed, region by region, row by row, over the backing
entries of both resources. `copyRegion` is the copy as the command states it, pixel by pixel; `localCopies_exact` says
that a buffer that is reported copied did that, and one that is refused by the first pass nothing.
-/

namespace BridgeVm.VirtioGpu

open Lib

def virglCcmdResourceCopyRegion : Nat := 17

def virglResourceCopyRegionPayloadDwords : Nat := 13

def virglResourceCopyRegionDwords : Nat := 14

def virglResourceCopyRegionBytes : Nat := virglResourceCopyRegionDwords * 4

structure LocalResourceCopyRegion where
  dstResourceId : Nat
  dstX : Nat
  dstY : Nat
  srcResourceId : Nat
  srcX : Nat
  srcY : Nat
  width : Nat
  height : Nat
deriving DecidableEq, Repr

inductive LocalResourceCopyResult where
  | notApplicable
  | invalid
  | copied (regions : Nat)
deriving DecidableEq, Repr

/-- `parse_local_resource_copy_region`. -/
def parseLocalResourceCopyRegion (command : List UInt8) : Option LocalResourceCopyRegion :=
  if command.length ≠ virglResourceCopyRegionBytes then none
  else do
    let header ← readLeU32 command 0
    if header % 256 ≠ virglCcmdResourceCopyRegion ∨ (header / 256) % 256 ≠ 0 ∨
        header / 65536 ≠ virglResourceCopyRegionPayloadDwords ∨ (← readLeU32 command 8) ≠ 0 ∨
        (← readLeU32 command 20) ≠ 0 ∨ (← readLeU32 command 28) ≠ 0 ∨ (← readLeU32 command 40) ≠ 0 ∨
        (← readLeU32 command 52) ≠ 1 then
      none
    else
      some {
        dstResourceId := ← readLeU32 command 4
        dstX := ← readLeU32 command 12
        dstY := ← readLeU32 command 16
        srcResourceId := ← readLeU32 command 24
        srcX := ← readLeU32 command 32
        srcY := ← readLeU32 command 36
        width := ← readLeU32 command 44
        height := ← readLeU32 command 48 }

/-- `checked_add` on 32 bits. -/
def checkedAdd32 (a b : Nat) : Option Nat := if a + b < 2 ^ 32 then some (a + b) else none

/-- `backing_covers_32bpp_resource`. -/
def backingCovers32bppResource (backing : List BlobMemEntry) (info : Create3dArgs) : Bool :=
  match (checkedMul info.width info.height).bind fun pixels => checkedMul pixels 4 with
  | none => false
  | some required =>
    let available := backing.foldl (fun total entry => VirtioGpu3d.saturatingAdd total entry.len) 0
    available ≥ required

/-- `resource_32bpp_offset`. -/
def resource32bppOffset (width x y : Nat) : Option Nat :=
  (checkedMul y width).bind fun row => (checkedAdd row x).bind fun pixels => checkedMul pixels 4

/-- `read_scattered_backing_into`: the bytes still needed, `none` where it fails. -/
def readScatteredBackingInto (mem : GuestMemory) : List BlobMemEntry → Nat → Nat → Option (List UInt8)
  | [], _, need => if need = 0 then some [] else none
  | entry :: backing, offset, need =>
    if offset ≥ entry.len then readScatteredBackingInto mem backing (offset - entry.len) need
    else
      let count := min (entry.len - offset) need
      (checkedAdd entry.addr offset).bind fun gpa =>
        (mem.readBytes gpa count).bind fun bytes =>
          if count = need then some bytes
          else (readScatteredBackingInto mem backing 0 (need - count)).map fun rest => bytes ++ rest

/-- `write_scattered_backing`, through the host pointers of guest RAM. -/
def writeScatteredBacking (hostPtr : Nat → Nat → Bool) : GuestMemory → List BlobMemEntry → Nat →
    List UInt8 → GuestMemory × Bool
  | mem, [], _, src => (mem, decide (src.length = 0))
  | mem, entry :: backing, offset, src =>
    if offset ≥ entry.len then writeScatteredBacking hostPtr mem backing (offset - entry.len) src
    else
      let count := min (entry.len - offset) src.length
      match checkedAdd entry.addr offset with
      | none => (mem, false)
      | some gpa =>
        if !hostPtr gpa count then (mem, false)
        else
          let mem' := mem.store gpa (src.take count)
          if count = src.length then (mem', true) else writeScatteredBacking hostPtr mem' backing 0 (src.drop count)

/-- One region of the first pass: `Except.ok` when it is valid. -/
def validateRegion (g : VirtioGpu3d) (command : List UInt8) : Except LocalResourceCopyResult Unit :=
  match parseLocalResourceCopyRegion command with
  | none => .error .notApplicable
  | some region =>
    match g.resource3dInfo.get region.dstResourceId, g.resource3dInfo.get region.srcResourceId,
      g.local3dBacking.get region.dstResourceId, g.local3dBacking.get region.srcResourceId with
    | some dstInfo, some srcInfo, some dstBacking, some srcBacking =>
      let compatible := region.dstResourceId ≠ region.srcResourceId ∧ dstInfo.format = srcInfo.format ∧
        (1 ≤ dstInfo.format ∧ dstInfo.format ≤ 4) ∧ dstInfo.depth = 1 ∧ srcInfo.depth = 1 ∧
        region.width ≠ 0 ∧
        region.height ≠ 0 ∧
        (checkedAdd32 region.dstX region.width).any (fun right => right ≤ dstInfo.width) ∧
        (checkedAdd32 region.dstY region.height).any (fun bottom => bottom ≤ dstInfo.height) ∧
        (checkedAdd32 region.srcX region.width).any (fun right => right ≤ srcInfo.width) ∧
        (checkedAdd32 region.srcY region.height).any (fun bottom => bottom ≤ srcInfo.height) ∧
        backingCovers32bppResource dstBacking dstInfo ∧ backingCovers32bppResource srcBacking srcInfo
      if compatible then .ok () else .error .invalid
    | _, _, _, _ => .error .notApplicable

/-- The first pass. -/
def validateRegions (g : VirtioGpu3d) : List (List UInt8) → Except LocalResourceCopyResult Nat
  | [] => .ok 0
  | command :: commands =>
    match validateRegion g command with
    | .error result => .error result
    | .ok () => (validateRegions g commands).map (· + 1)

/-- The loop of `copy_local_resource_region`. -/
def copyLocalRows (hostPtr : Nat → Nat → Bool) (region : LocalResourceCopyRegion) (srcWidth dstWidth : Nat)
    (srcBacking dstBacking : List BlobMemEntry) : List Nat → GuestMemory → GuestMemory × Bool
  | [], mem => (mem, true)
  | row :: rows, mem =>
    match resource32bppOffset srcWidth region.srcX (saturatingAdd32 region.srcY row),
      resource32bppOffset dstWidth region.dstX (saturatingAdd32 region.dstY row) with
    | some srcOffset, some dstOffset =>
      match readScatteredBackingInto mem srcBacking srcOffset (region.width * 4) with
      | none => (mem, false)
      | some data =>
        match writeScatteredBacking hostPtr mem dstBacking dstOffset data with
        | (mem', false) => (mem', false)
        | (mem', true) => copyLocalRows hostPtr region srcWidth dstWidth srcBacking dstBacking rows mem'
    | _, _ => (mem, false)

/-- `copy_local_resource_region`. -/
def copyLocalResourceRegion (g : VirtioGpu3d) (hostPtr : Nat → Nat → Bool) (mem : GuestMemory)
    (region : LocalResourceCopyRegion) : GuestMemory × Bool :=
  match g.resource3dInfo.get region.dstResourceId, g.resource3dInfo.get region.srcResourceId,
    g.local3dBacking.get region.dstResourceId, g.local3dBacking.get region.srcResourceId with
  | some dstInfo, some srcInfo, some dstBacking, some srcBacking =>
    copyLocalRows hostPtr region srcInfo.width dstInfo.width srcBacking dstBacking (List.range region.height) mem
  | _, _, _, _ => (mem, false)

/-- The second pass; a command was parsed in the first. -/
def copyRegions (g : VirtioGpu3d) (hostPtr : Nat → Nat → Bool) : List (List UInt8) → GuestMemory →
    GuestMemory × Bool
  | [], mem => (mem, true)
  | command :: commands, mem =>
    match parseLocalResourceCopyRegion command with
    | none => (mem, false)
    | some region =>
      match copyLocalResourceRegion g hostPtr mem region with
      | (mem', false) => (mem', false)
      | (mem', true) => copyRegions g hostPtr commands mem'

/-- The commands of a buffer, `chunks_exact`. -/
def copyCommands (cmdbuf : List UInt8) : List (List UInt8) :=
  (List.range (cmdbuf.length / virglResourceCopyRegionBytes)).map fun i =>
    slice cmdbuf (i * virglResourceCopyRegionBytes) virglResourceCopyRegionBytes

/-- `try_local_resource_copies`: guest RAM and the result. -/
def tryLocalResourceCopies (g : VirtioGpu3d) (hostPtr : Nat → Nat → Bool) (mem : GuestMemory)
    (cmdbuf : List UInt8) :
    GuestMemory × LocalResourceCopyResult :=
  if cmdbuf.isEmpty ∨ cmdbuf.length % virglResourceCopyRegionBytes ≠ 0 then (mem, .notApplicable)
  else
    match validateRegions g (copyCommands cmdbuf) with
    | .error result => (mem, result)
    | .ok regions =>
      match copyRegions g hostPtr (copyCommands cmdbuf) mem with
      | (mem', false) => (mem', .invalid)
      | (mem', true) => (mem', .copied regions)

/-! ## The copy as the command states it -/

/-- The addresses of a pixel of a resource. -/
def pixelCells (backing : List BlobMemEntry) (width x y : Nat) : List Nat :=
  ((addresses (backingRuns backing)).drop ((y * width + x) * 4)).take 4

/-- Guest RAM after the bytes of a pixel were copied. -/
def copyPixel (mem : GuestMemory) (src dst : List Nat) : GuestMemory :=
  { mem with bytes := copyCells mem.bytes src dst }

/-- **Each source pixel to its destination pixel**, row by row. -/
def copyRegion (g : VirtioGpu3d) (mem : GuestMemory) (region : LocalResourceCopyRegion) : GuestMemory :=
  match g.resource3dInfo.get region.dstResourceId, g.resource3dInfo.get region.srcResourceId,
    g.local3dBacking.get region.dstResourceId, g.local3dBacking.get region.srcResourceId with
  | some dstInfo, some srcInfo, some dstBacking, some srcBacking =>
    (List.range region.height).foldl (fun mem row =>
      (List.range region.width).foldl (fun mem column =>
        copyPixel mem (pixelCells srcBacking srcInfo.width (region.srcX + column) (region.srcY + row))
          (pixelCells dstBacking dstInfo.width (region.dstX + column) (region.dstY + row))) mem) mem
  | _, _, _, _ => mem

/-- No byte is shared between different resources. -/
def VirtioGpu3d.Unshared (g : VirtioGpu3d) : Prop :=
  ∀ id id' backing backing', id ≠ id' → g.local3dBacking.get id = some backing →
  g.local3dBacking.get id' = some backing' →
    ∀ a ∈ addresses (backingRuns backing), a ∉ addresses (backingRuns backing')

/-- The bytes of guest RAM that a region is copied to. -/
def writtenCells (g : VirtioGpu3d) (region : LocalResourceCopyRegion) : List Nat :=
  match g.resource3dInfo.get region.dstResourceId, g.local3dBacking.get region.dstResourceId with
  | some dstInfo, some dstBacking =>
    (List.range region.height).flatMap fun row => (List.range region.width).flatMap fun column =>
      pixelCells dstBacking dstInfo.width (region.dstX + column) (region.dstY + row)
  | _, _ => []

section Copies

variable {g : VirtioGpu3d} {hostPtr : Nat → Nat → Bool} {mem mem' : GuestMemory}
  {backing srcBacking dstBacking : List BlobMemEntry}
  {offset need srcWidth dstWidth : Nat} {src data : List UInt8} {region : LocalResourceCopyRegion}

theorem drop_entry {e : BlobMemEntry} (h : e.len ≤ offset) :
    (addresses (backingRuns (e :: backing))).drop offset = (addresses (backingRuns backing)).drop (offset - e.len) := by
  rw [backingRuns_cons, addresses_cons, List.drop_append, List.length_range', List.drop_range', Nat.sub_eq_zero_of_le h,
    List.range'_zero, List.nil_append]

theorem take_entry {e : BlobMemEntry} (h : offset < e.len) (need : Nat) :
    ((addresses (backingRuns (e :: backing))).drop offset).take need =
      List.range' (e.addr + offset) (min (e.len - offset) need) ++
        (addresses (backingRuns backing)).take (need - min (e.len - offset) need) := by
  have hrest : need - min (e.len - offset) need = need - (e.len - offset) := by omega
  rw [backingRuns_cons, addresses_cons, List.drop_append, List.length_range', List.drop_range', Nat.mul_one,
    List.take_append,
    List.length_range', take_range', Nat.sub_eq_zero_of_le (Nat.le_of_lt h), List.drop_zero, Nat.min_comm need, hrest]

/-- **What is read from a scattered backing** are the bytes at its addresses. -/
theorem readScattered_eq (h : readScatteredBackingInto mem backing offset need = some data) :
    data = (((addresses (backingRuns backing)).drop offset).take need).map mem.bytes ∧ data.length = need := by
  induction backing generalizing offset need data with
  | nil =>
    rw [readScatteredBackingInto] at h
    split at h
    · rename_i hneed
      cases h
      simp [hneed, backingRuns]
    · cases h
  | cons e backing ih =>
    rw [readScatteredBackingInto] at h
    by_cases hskip : offset ≥ e.len
    · rw [if_pos hskip] at h
      rw [drop_entry hskip]
      exact ih h
    · rw [if_neg hskip] at h
      dsimp only at h
      obtain ⟨gpa, hgpa, hpiece⟩ := Option.bind_eq_some_iff.mp h
      obtain ⟨bytes, hbytes, htail⟩ := Option.bind_eq_some_iff.mp hpiece
      obtain rfl := checkedAdd_some hgpa
      have hread : bytes = (List.range' (e.addr + offset) (min (e.len - offset) need)).map mem.bytes := by
        unfold GuestMemory.readBytes at hbytes
        split at hbytes
        · rw [← Option.some.inj hbytes, span_eq_map]
        · cases hbytes
      have hlen : bytes.length = min (e.len - offset) need := by rw [hread, List.length_map, List.length_range']
      rw [take_entry (by omega), List.map_append, ← hread]
      by_cases hall : min (e.len - offset) need = need
      · rw [if_pos hall] at htail
        rw [← Option.some.inj htail, hlen, hall, Nat.sub_self, List.take_zero, List.map_nil, List.append_nil]
        exact ⟨rfl, rfl⟩
      · rw [if_neg hall] at htail
        obtain ⟨rest, hrest, rfl⟩ := Option.map_eq_some_iff.mp htail
        obtain ⟨hdata, hcount⟩ := ih hrest
        rw [List.drop_zero] at hdata
        rw [List.length_append, hlen, hcount, ← hdata]
        exact ⟨rfl, by omega⟩

/-- **What is written to a scattered backing** is stored at its addresses. -/
theorem writeScattered_eq (h : writeScatteredBacking hostPtr mem backing offset src = (mem', true)) :
    mem' = mem.poke ((((addresses (backingRuns backing)).drop offset).take src.length).zip src) ∧
      (((addresses (backingRuns backing)).drop offset).take src.length).length = src.length := by
  induction backing generalizing mem offset src with
  | nil =>
    rw [writeScatteredBacking, Prod.mk.injEq, decide_eq_true_eq] at h
    rw [List.length_eq_zero_iff.mp h.2, ← h.1]
    simp
  | cons e backing ih =>
    rw [writeScatteredBacking] at h
    by_cases hskip : offset ≥ e.len
    · rw [if_pos hskip] at h
      rw [drop_entry hskip]
      exact ih h
    · rw [if_neg hskip] at h
      dsimp only at h
      split at h
      · cases h
      · rename_i gpa hgpa
        obtain rfl := checkedAdd_some hgpa
        split at h
        · cases h
        · obtain ⟨count, hcount⟩ : ∃ count, count = min (e.len - offset) src.length := ⟨_, rfl⟩
          have hstore : mem.store (e.addr + offset) (src.take count) =
              mem.poke ((List.range' (e.addr + offset) count).zip (src.take count)) := by
            rw [store_eq_poke, List.length_take, Nat.min_eq_left (by omega)]
          rw [take_entry (by omega), ← hcount, append_zip, List.length_range', poke_append, ← hstore,
            List.length_append,
            List.length_range']
          rw [← hcount] at h
          split at h
          · rename_i hall
            cases h
            simp [hall]
          · obtain ⟨hmem, hlen⟩ := ih h
            rw [List.drop_zero, List.length_drop] at hmem hlen
            rw [hlen]
            exact ⟨hmem, by omega⟩

theorem foldl_copyPixel (cells : List Nat) (srcCells dstCells : Nat → List Nat) :
    cells.foldl (fun mem i => copyPixel mem (srcCells i) (dstCells i)) mem =
      { mem with bytes := cells.foldl (fun f i => copyCells f (srcCells i) (dstCells i)) mem.bytes } := by
  induction cells generalizing mem with
  | nil => rfl
  | cons i cells ih => rw [List.foldl_cons, List.foldl_cons, ih, copyPixel]

theorem resource32bppOffset_eq {width x y offset : Nat} (h : resource32bppOffset width x y = some offset) :
    offset = (y * width + x) * 4 := by
  unfold resource32bppOffset at h
  obtain ⟨row, hrow, h⟩ := Option.bind_eq_some_iff.mp h
  obtain ⟨pixels, hpixels, h⟩ := Option.bind_eq_some_iff.mp h
  unfold checkedMul at hrow h
  obtain rfl := checkedAdd_some hpixels
  split at hrow
  · split at h
    · rw [← Option.some.inj h, ← Option.some.inj hrow]
    · cases h
  · cases hrow

/-- **One row**: read as a whole and written as a whole, it is copied pixel by pixel. -/
theorem copyRow_eq {x x' y y' width : Nat}
    (hread : readScatteredBackingInto mem srcBacking ((y * srcWidth + x) * 4) (width * 4) = some data)
    (hwrite : writeScatteredBacking hostPtr mem dstBacking ((y' * dstWidth + x') * 4) data = (mem', true))
    (hapart : ∀ a ∈ addresses (backingRuns srcBacking), a ∉ addresses (backingRuns dstBacking)) :
    mem' = (List.range width).foldl (fun mem column =>
      copyPixel mem (pixelCells srcBacking srcWidth (x + column) y)
        (pixelCells dstBacking dstWidth (x' + column) y')) mem := by
  obtain ⟨hdata, hneed⟩ := readScattered_eq hread
  obtain ⟨hmem', hroom⟩ := writeScattered_eq hwrite
  rw [hneed] at hmem' hroom
  obtain ⟨src, hsrc⟩ : ∃ src, src = (addresses (backingRuns srcBacking)).drop ((y * srcWidth + x) * 4) :=
    ⟨_, rfl⟩
  obtain ⟨dst, hdst⟩ : ∃ dst, dst = (addresses (backingRuns dstBacking)).drop ((y' * dstWidth + x') * 4) :=
    ⟨_, rfl⟩
  rw [← hsrc] at hdata
  rw [← hdst] at hmem' hroom
  have hlen : (src.take (width * 4)).length = width * 4 := by
    rw [hdata, List.length_map] at hneed
    exact hneed
  rw [List.length_take] at hlen hroom
  have hcells : ∀ (backing : List BlobMemEntry) (w x y column : Nat), pixelCells backing w (x + column) y =
      (((addresses (backingRuns backing)).drop ((y * w + x) * 4)).drop (4 * column)).take 4 := by
    intro backing w x y column
    have hplace : (y * w + (x + column)) * 4 = (y * w + x) * 4 + 4 * column := by omega
    rw [pixelCells, List.drop_drop, hplace]
  have hcopy := @foldl_copyCells UInt8 mem.bytes src dst 4 width (by omega) (by omega) (by
    intro a ha hmem
    rw [hsrc] at ha
    rw [hdst] at hmem
    exact hapart a (List.mem_of_mem_drop ha) (List.mem_of_mem_drop hmem))
  rw [foldl_copyPixel]
  simp only [hcells, ← hsrc, ← hdst]
  rw [hcopy, hmem', hdata, Nat.mul_comm 4]
  rfl

/-- **The rows of a region.** -/
theorem copyLocalRows_eq {rows : List Nat}
    (h : copyLocalRows hostPtr region srcWidth dstWidth srcBacking dstBacking rows mem = (mem', true))
    (hsrc : ∀ row ∈ rows, region.srcY + row < 2 ^ 32) (hdst : ∀ row ∈ rows, region.dstY + row < 2 ^ 32)
    (hapart : ∀ a ∈ addresses (backingRuns srcBacking), a ∉ addresses (backingRuns dstBacking)) :
    mem' = rows.foldl (fun mem row => (List.range region.width).foldl (fun mem column =>
      copyPixel mem (pixelCells srcBacking srcWidth (region.srcX + column) (region.srcY + row))
        (pixelCells dstBacking dstWidth (region.dstX + column) (region.dstY + row))) mem) mem := by
  induction rows generalizing mem with
  | nil =>
    cases h
    rfl
  | cons row rows ih =>
    obtain ⟨hsrcRow, hsrcRest⟩ := List.forall_mem_cons.mp hsrc
    obtain ⟨hdstRow, hdstRest⟩ := List.forall_mem_cons.mp hdst
    have hsrcSum : saturatingAdd32 region.srcY row = region.srcY + row := Nat.min_eq_left (by omega)
    have hdstSum : saturatingAdd32 region.dstY row = region.dstY + row := Nat.min_eq_left (by omega)
    rw [copyLocalRows, hsrcSum, hdstSum] at h
    split at h
    · rename_i srcOffset dstOffset hsrcOffset hdstOffset
      obtain rfl := resource32bppOffset_eq hsrcOffset
      obtain rfl := resource32bppOffset_eq hdstOffset
      split at h
      · cases h
      · rename_i data hread
        split at h
        · cases h
        · rename_i mem₁ hwrite
          rw [List.foldl_cons, ← copyRow_eq hread hwrite hapart]
          exact ih h hsrcRest hdstRest
    · cases h

/-- What the first pass checks of a region, as far as the copy needs it. -/
structure RegionFits (g : VirtioGpu3d) (region : LocalResourceCopyRegion) : Prop where
  ids : region.dstResourceId ≠ region.srcResourceId
  srcRows : region.srcY + region.height < 2 ^ 32
  dstRows : region.dstY + region.height < 2 ^ 32

theorem any_checkedAdd32 {a b : Nat} {p : Nat → Bool} (h : (checkedAdd32 a b).any p = true) : a + b < 2 ^ 32 := by
  unfold checkedAdd32 at h
  split at h
  · assumption
  · cases h

theorem validateRegion_ok {command : List UInt8} (h : validateRegion g command = .ok ()) :
    ∃ region, parseLocalResourceCopyRegion command = some region ∧ RegionFits g region := by
  unfold validateRegion at h
  split at h
  · cases h
  · rename_i region hparse
    split at h
    · dsimp only at h
      split at h
      · rename_i hcompatible
        obtain ⟨hids, -, -, -, -, -, -, -, hdstRows, -, hsrcRows, -⟩ := hcompatible
        exact ⟨region, hparse, hids, any_checkedAdd32 hsrcRows, any_checkedAdd32 hdstRows⟩
      · cases h
    · cases h

/-- The first pass accepts a buffer when it accepts each region. -/
theorem validateRegions_ok {commands : List (List UInt8)} {regions : Nat}
    (h : validateRegions g commands = .ok regions) :
    regions = commands.length ∧ ∀ command ∈ commands, validateRegion g command = .ok () := by
  induction commands generalizing regions with
  | nil =>
    cases h
    simp
  | cons command commands ih =>
    rw [validateRegions] at h
    split at h
    · cases h
    · rename_i hfirst
      cases hrest : validateRegions g commands with
      | error result =>
        rw [hrest] at h
        cases h
      | ok count =>
        rw [hrest] at h
        cases h
        obtain ⟨hcount, hall⟩ := ih hrest
        exact ⟨by rw [hcount, List.length_cons], List.forall_mem_cons.mpr ⟨hfirst, hall⟩⟩

/-- The first pass never reports a copy. -/
theorem validateRegions_error {commands : List (List UInt8)} {result : LocalResourceCopyResult}
    (h : validateRegions g commands = .error result) (regions : Nat) : result ≠ .copied regions := by
  induction commands with
  | nil => cases h
  | cons command commands ih =>
    rw [validateRegions] at h
    split at h
    · rename_i hfirst
      cases h
      unfold validateRegion at hfirst
      split at hfirst
      · cases hfirst
        simp
      · split at hfirst
        · dsimp only at hfirst
          split at hfirst
          · cases hfirst
          · cases hfirst
            simp
        · cases hfirst
          simp
    · cases hrest : validateRegions g commands with
      | error result' =>
        rw [hrest] at h
        cases h
        exact ih hrest
      | ok count =>
        rw [hrest] at h
        cases h

/-- **A region** that fits is copied pixel by pixel. -/
theorem copyLocalResourceRegion_eq (hg : g.Unshared) (hfits : RegionFits g region)
    (h : copyLocalResourceRegion g hostPtr mem region = (mem', true)) : mem' = copyRegion g mem region := by
  unfold copyLocalResourceRegion at h
  unfold copyRegion
  split at h
  · rename_i dstInfo srcInfo dstBacking srcBacking hdstInfo hsrcInfo hdstBacking hsrcBacking
    have hrows := hfits.srcRows
    have hrows' := hfits.dstRows
    refine copyLocalRows_eq h (fun row hrow => ?_) (fun row hrow => ?_)
      (hg _ _ _ _ hfits.ids.symm hsrcBacking hdstBacking)
    · have := List.mem_range.mp hrow
      omega
    · have := List.mem_range.mp hrow
      omega
  · cases h

/-- **The second pass** copies region by region. -/
theorem copyRegions_eq {commands : List (List UInt8)} (hg : g.Unshared)
    (hvalid : ∀ command ∈ commands, validateRegion g command = .ok ())
    (h : copyRegions g hostPtr commands mem = (mem', true)) :
    ∃ regions, commands.mapM parseLocalResourceCopyRegion = some regions ∧ regions.length = commands.length ∧
      mem' = regions.foldl (copyRegion g) mem := by
  induction commands generalizing mem with
  | nil =>
    cases h
    exact ⟨[], rfl, rfl, rfl⟩
  | cons command commands ih =>
    obtain ⟨hfirst, hrest⟩ := List.forall_mem_cons.mp hvalid
    obtain ⟨region, hparse, hfits⟩ := validateRegion_ok hfirst
    rw [copyRegions, hparse] at h
    dsimp only at h
    split at h
    · cases h
    · rename_i mem₁ hregion
      obtain ⟨regions, hregions, hlen, rfl⟩ := ih hrest h
      refine ⟨region :: regions, ?_, by rw [List.length_cons, hlen, List.length_cons], ?_⟩
      · rw [List.mapM_cons, hparse, hregions]
        rfl
      · rw [List.foldl_cons, copyLocalResourceRegion_eq hg hfits hregion]

/-- A byte that no pixel is copied to is kept. -/
theorem copyRegion_kept {a : Nat} (h : a ∉ writtenCells g region) :
    (copyRegion g mem region).bytes a = mem.bytes a := by
  unfold copyRegion
  split
  · rename_i dstInfo srcInfo dstBacking srcBacking hdstInfo hsrcInfo hdstBacking hsrcBacking
    unfold writtenCells at h
    rw [hdstInfo, hdstBacking] at h
    dsimp only at h
    simp only [List.mem_flatMap, not_exists, not_and] at h
    have hcolumns : ∀ row, (∀ column ∈ List.range region.width,
        a ∉ pixelCells dstBacking dstInfo.width (region.dstX + column) (region.dstY + row)) → ∀ m : GuestMemory,
        ((List.range region.width).foldl (fun mem column =>
          copyPixel mem (pixelCells srcBacking srcInfo.width (region.srcX + column) (region.srcY + row))
            (pixelCells dstBacking dstInfo.width (region.dstX + column) (region.dstY + row))) m).bytes a =
              m.bytes a := by
      intro row
      generalize List.range region.width = columns
      intro hout m
      induction columns generalizing m with
      | nil => rfl
      | cons column columns ih =>
        obtain ⟨hcolumn, hcolumns⟩ := List.forall_mem_cons.mp hout
        rw [List.foldl_cons, ih hcolumns]
        exact copyCells_of_not_mem hcolumn
    revert h
    generalize List.range region.height = rows
    intro h
    induction rows generalizing mem with
    | nil => rfl
    | cons row rows ih =>
      obtain ⟨hrow, hrows⟩ := List.forall_mem_cons.mp h
      rw [List.foldl_cons, ih hrows, hcolumns row hrow]
  · rfl

theorem copyRegions_kept {regions : List LocalResourceCopyRegion} {a : Nat}
    (h : ∀ region ∈ regions, a ∉ writtenCells g region) :
    (regions.foldl (copyRegion g) mem).bytes a = mem.bytes a := by
  induction regions generalizing mem with
  | nil => rfl
  | cons region regions ih =>
    obtain ⟨hregion, hregions⟩ := List.forall_mem_cons.mp h
    rw [List.foldl_cons, ih hregions, copyRegion_kept hregion]

end Copies

/-- **RESOURCE_COPY_REGION between guest-backed resources is exact.** A buffer that is reported copied left guest RAM as
copying region by region, each source pixel to its destination pixel, would; one that is not applicable, or has a region
that fails validation, left it unchanged. -/
theorem localCopies_exact (g : VirtioGpu3d) (hostPtr : Nat → Nat → Bool) (mem mem' : GuestMemory)
    (cmdbuf : List UInt8)
    (result : LocalResourceCopyResult) (hg : g.Unshared)
      (h : tryLocalResourceCopies g hostPtr mem cmdbuf = (mem', result)) :
    (∀ count, result = .copied count → ∃ regions,
      (copyCommands cmdbuf).mapM parseLocalResourceCopyRegion = some regions ∧ regions.length = count ∧
        mem' = regions.foldl (copyRegion g) mem ∧
        ∀ a, (∀ region ∈ regions, a ∉ writtenCells g region) → mem'.bytes a = mem.bytes a) ∧
    (result = .notApplicable → mem' = mem) ∧
    ((∃ command ∈ copyCommands cmdbuf, validateRegion g command ≠ .ok ()) → mem' = mem ∧
      ∀ count, result ≠ .copied count) := by
  unfold tryLocalResourceCopies at h
  split at h
  · cases h
    exact ⟨fun _ hcopied => (nomatch hcopied), fun _ => rfl, fun _ => ⟨rfl, fun _ hcopied => nomatch hcopied⟩⟩
  · cases hvalidate : validateRegions g (copyCommands cmdbuf) with
    | error result' =>
      rw [hvalidate] at h
      cases h
      have hnever := validateRegions_error hvalidate
      exact ⟨fun count hcopied => absurd hcopied (hnever count), fun _ => rfl, fun _ => ⟨rfl, hnever⟩⟩
    | ok regions =>
      rw [hvalidate] at h
      obtain ⟨hcount, hvalid⟩ := validateRegions_ok hvalidate
      have hno : (∃ command ∈ copyCommands cmdbuf, validateRegion g command ≠ .ok ()) → mem' = mem ∧
        ∀ count, result ≠ .copied count := by
        rintro ⟨command, hcommand, hinvalid⟩
        exact absurd (hvalid command hcommand) hinvalid
      cases hcopy : copyRegions g hostPtr (copyCommands cmdbuf) mem with
      | mk mem₁ done =>
        rw [hcopy] at h
        cases done with
        | false =>
          cases h
          exact ⟨fun _ hcopied => (nomatch hcopied), fun hna => (nomatch hna), hno⟩
        | true =>
          cases h
          obtain ⟨rs, hparse, hlen, hmem'⟩ := copyRegions_eq hg hvalid hcopy
          refine ⟨fun count hcopied => ⟨rs, hparse, ?_, hmem', fun a ha => ?_⟩, fun hna => (nomatch hna), hno⟩
          · rw [hlen, ← hcount]
            exact LocalResourceCopyResult.copied.inj hcopied
          · rw [hmem']
            exact copyRegions_kept ha

/-- Two resources of one pixel, the first in two fragments. -/
def pixelPair : VirtioGpu3d :=
  let info : Create3dArgs := ⟨1, 2, 1, 0, 1, 1, 1, 1, 0, 0, 0⟩
  { VirtioGpu3d.new true false 0 with
    resource3dInfo := (AssocMap.empty.insert 1 info).insert 2 info
    local3dBacking := (AssocMap.empty.insert 1 [⟨0, 2⟩, ⟨8, 2⟩]).insert 2 [⟨4, 4⟩] }

/-- Copy the pixel of resource 1 to resource 2. -/
def pixelPairBuffer : List UInt8 :=
  [17 + 13 * 65536, 2, 0, 0, 0, 0, 1, 0, 0, 0, 0, 1, 1, 1].flatMap (toLeBytes 4)

theorem pixelPair_unshared : pixelPair.Unshared := by
  have hbacking : ∀ {id backing}, pixelPair.local3dBacking.get id = some backing →
      (id = 1 ∧ backing = [⟨0, 2⟩, ⟨8, 2⟩]) ∨ (id = 2 ∧ backing = [⟨4, 4⟩]) := by
    intro id backing h
    simp only [pixelPair, AssocMap.get_insert, AssocMap.get_empty] at h
    split at h
    · exact .inr ⟨by assumption, (Option.some.inj h).symm⟩
    · split at h
      · exact .inl ⟨by assumption, (Option.some.inj h).symm⟩
      · cases h
  intro id id' backing backing' hne h h'
  rcases hbacking h with ⟨rfl, rfl⟩ | ⟨rfl, rfl⟩ <;> rcases hbacking h' with ⟨rfl, rfl⟩ | ⟨rfl, rfl⟩
  · exact absurd rfl hne
  · decide
  · decide
  · exact absurd rfl hne

theorem localCopies_exact_pixel : ∃ regions,
    (copyCommands pixelPairBuffer).mapM parseLocalResourceCopyRegion = some regions ∧ regions.length = 1 ∧
      (tryLocalResourceCopies pixelPair (fun _ _ => true)
        (mappedRam 0 [1, 2, 0, 0, 9, 9, 9, 9, 3, 4]) pixelPairBuffer).1 =
        regions.foldl (copyRegion pixelPair) (mappedRam 0 [1, 2, 0, 0, 9, 9, 9, 9, 3, 4]) ∧
      (tryLocalResourceCopies pixelPair (fun _ _ => true)
        (mappedRam 0 [1, 2, 0, 0, 9, 9, 9, 9, 3, 4]) pixelPairBuffer).1.span 4 4 =
        [1, 2, 3, 4] := by
  have hresult : (tryLocalResourceCopies pixelPair (fun _ _ => true) (mappedRam 0 [1, 2, 0, 0, 9, 9, 9, 9, 3, 4])
      pixelPairBuffer).2 = .copied 1 := by decide +kernel
  obtain ⟨regions, hparse, hlen, hmem, -⟩ := (localCopies_exact pixelPair (fun _ _ => true)
    (mappedRam 0 [1, 2, 0, 0, 9, 9, 9, 9, 3, 4]) _ pixelPairBuffer _ pixelPair_unshared rfl).1 1 hresult
  exact ⟨regions, hparse, hlen, hmem, by decide +kernel⟩

end BridgeVm.VirtioGpu
