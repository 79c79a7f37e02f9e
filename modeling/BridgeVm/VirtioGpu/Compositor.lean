import BridgeVm.MappedRam
import BridgeVm.Lib.Painted
import BridgeVm.VirtioGpu.Device

/-!
# Compositing guest-backed surfaces (`virtio_gpu/compositor.rs`)

A row of a blob or of a local 3D resource is read from one backing entry, or pixel by pixel, each from one entry. A
pixel that lies across two entries is not shown. `composited_agree_iff` says that this is what stands between the
scanout and its independence of the fragmentation: it holds exactly for backings in which no pixel with another colour
does.
-/

namespace BridgeVm.VirtioGpu.Compositor

open Lib

def formatB8g8r8a8Unorm : Nat := 1

def formatB8g8r8x8Unorm : Nat := 2

def formatX8r8g8b8Unorm : Nat := 3

def formatR8g8b8x8Unorm : Nat := 4

/-- `to_xrgb8888`. -/
def toXrgb8888 (pixel : List UInt8) (format : Nat) : List UInt8 :=
  if format = formatB8g8r8a8Unorm ∨ format = formatB8g8r8x8Unorm then
    [pixel.getD 0 0, pixel.getD 1 0, pixel.getD 2 0, 0]
  else if format = formatX8r8g8b8Unorm then [pixel.getD 3 0, pixel.getD 2 0, pixel.getD 1 0, 0]
  else if format = formatR8g8b8x8Unorm then [pixel.getD 2 0, pixel.getD 1 0, pixel.getD 0 0, 0]
  else [0, 0, 0, 0]

/-- The scanout: four bytes for each pixel. -/
structure Scanout where
  width : Nat
  height : Nat
  pixels : List UInt8
  width_lt : width < 2 ^ 32
  height_lt : height < 2 ^ 32
  pixels_length : pixels.length = width * height * 4

/-- The loop of `read_from_blob_backing_into`: only an entry that holds the whole range serves it. -/
def readEntries (mem : GuestMemory) (offset len : Nat) : List BlobMemEntry → Nat → Option (List UInt8)
  | [], _ => none
  | entry :: backing, base =>
    match checkedAdd base entry.len with
    | none => none
    | some entryEnd =>
      if base ≤ offset ∧ (checkedAdd offset len).any fun rangeEnd => rangeEnd ≤ entryEnd then
        mem.readBytes (entry.addr + (offset - base)) len
      else readEntries mem offset len backing entryEnd

/-- `read_from_blob_backing_into`. -/
def readFromBlobBackingInto (mem : GuestMemory) (backing : List BlobMemEntry) (offset len : Nat) :
    Option (List UInt8) :=
  readEntries mem offset len backing 0

/-- A surface: where it has its pixels in the backing, and in which format. -/
structure Surface where
  width : Nat
  height : Nat
  format : Nat
  stride : Nat
  offset : Nat

/-- The surface that `composite_local_3d_to_scanout` reads. -/
def localSurface (info : Create3dArgs) : Surface := ⟨info.width, info.height, info.format, info.width * 4, 0⟩

/-- The surface that `composite_guest_blob_to_scanout` reads. -/
def blobSurface (blob : BlobScanout) : Surface := ⟨blob.width, blob.height, blob.format, blob.stride, blob.offset⟩

/-- The place of a pixel in the backing. -/
def Surface.place (s : Surface) (x y : Nat) : Nat := s.offset + y * s.stride + x * 4

/-- The place as the code computes it, `none` where the 64-bit arithmetic panics. -/
def Surface.source (s : Surface) (x y : Nat) : Option Nat :=
  (checkedMul y s.stride).bind fun row => (checkedAdd s.offset row).bind fun start => checkedAdd start (x * 4)

/-- The loop over the pixels of a row, with `copied_any`. -/
def compositePixels (mem : GuestMemory) (backing : List BlobMemEntry) (s : Surface) (scanoutWidth y : Nat) :
    List Nat → List UInt8 × Bool → Option (List UInt8 × Bool)
  | [], acc => some acc
  | x :: xs, (scanout, copiedAny) =>
    (s.source x y).bind fun src =>
      match readFromBlobBackingInto mem backing src 4 with
      | none => compositePixels mem backing s scanoutWidth y xs (scanout, copiedAny)
      | some pixel =>
        compositePixels mem backing s scanoutWidth y xs
          (splice scanout ((y * scanoutWidth + x) * 4) (toXrgb8888 pixel s.format), true)

/-- The loop over a row that was read as a whole. -/
def compositeRow (row : List UInt8) (s : Surface) (scanoutWidth rectX y : Nat) : List Nat → List UInt8 → List UInt8
  | [], scanout => scanout
  | x :: xs, scanout =>
    compositeRow row s scanoutWidth rectX y xs
      (splice scanout ((y * scanoutWidth + x) * 4) (toXrgb8888 (slice row ((x - rectX) * 4) 4) s.format))

/-- The loop over the rows, which both functions have: the scanout and whether anything was copied. -/
def compositeRows (mem : GuestMemory) (backing : List BlobMemEntry) (s : Surface) (scanoutWidth rectX xEnd : Nat) :
    List Nat → List UInt8 × Bool → Option (List UInt8 × Bool)
  | [], acc => some acc
  | y :: ys, (scanout, copiedAny) =>
    (s.source rectX y).bind fun rowSrc =>
      match readFromBlobBackingInto mem backing rowSrc ((xEnd - rectX) * 4) with
      | some row =>
        compositeRows mem backing s scanoutWidth rectX xEnd ys
          (compositeRow row s scanoutWidth rectX y (List.range' rectX (xEnd - rectX)) scanout, true)
      | none =>
        (compositePixels mem backing s scanoutWidth y (List.range' rectX (xEnd - rectX)) (scanout, copiedAny)).bind
          (compositeRows mem backing s scanoutWidth rectX xEnd ys)

/-- `composite_local_3d_to_scanout`: `none` where it panics. -/
def compositeLocal3dToScanout (mem : GuestMemory) (backing : List BlobMemEntry) (info : Create3dArgs)
    (scanout : Scanout)
    (rect : Rect) : Option (List UInt8 × Bool) :=
  if backing.isEmpty || !formatSupported info.format then some (scanout.pixels, false)
  else
    let xEnd := min (min (saturatingAdd32 rect.x rect.width) info.width) scanout.width
    let yEnd := min (min (saturatingAdd32 rect.y rect.height) info.height) scanout.height
    if xEnd ≤ rect.x ∨ yEnd ≤ rect.y then some (scanout.pixels, false)
    else
      compositeRows mem backing (localSurface info) scanout.width rect.x xEnd (List.range' rect.y (yEnd - rect.y))
        (scanout.pixels, false)

/-- `composite_guest_blob_to_scanout`. -/
def compositeGuestBlobToScanout (mem : GuestMemory) (backing : List BlobMemEntry) (blob : BlobScanout)
    (scanout : Scanout)
    (rect : Rect) (xEnd yEnd : Nat) : Option (List UInt8) :=
  if xEnd ≤ rect.x ∨ yEnd ≤ rect.y then some scanout.pixels
  else
    (compositeRows mem backing (blobSurface blob) scanout.width rect.x xEnd (List.range' rect.y (yEnd - rect.y))
      (scanout.pixels, false)).map Prod.fst

/-- `composite_blob_scanout` for a guest blob: the rectangle is clipped to the display and the surface. -/
def compositeBlobScanout (mem : GuestMemory) (backing : List BlobMemEntry) (blob : BlobScanout) (scanout : Scanout)
    (rect : Rect) : Option (List UInt8) :=
  compositeGuestBlobToScanout mem backing blob scanout rect
    (min (min (saturatingAdd32 rect.x rect.width) scanout.width) blob.width)
    (min (min (saturatingAdd32 rect.y rect.height) scanout.height) blob.height)

/-! ## Reading a range of the backing -/

/-- A range lies in one of the runs. -/
def within : List (Nat × Nat) → Nat → Nat → Bool
  | [], _, _ => false
  | r :: runs, offset, len =>
    if offset + len ≤ r.2 then true else if r.2 ≤ offset then within runs (offset - r.2) len else false

/-- A backing of at most 2³² entries of 32-bit lengths, with guest memory behind every byte. -/
structure FullyMapped (mem : GuestMemory) (backing : List BlobMemEntry) : Prop where
  count : backing.length < 2 ^ 32
  len : ∀ e ∈ backing, e.len < 2 ^ 32
  mapped : ∀ a ∈ addresses (backingRuns backing), mem.readable a 1 = true

section Reads

variable {mem : GuestMemory} {backing : List BlobMemEntry} {r : Nat × Nat} {runs : List (Nat × Nat)}
  {entry : BlobMemEntry}
  {offset base len j n : Nat} {row : List UInt8}

theorem within_sub (h : within runs offset len = true) (hfit : j + n ≤ len) : within runs (offset + j) n = true := by
  induction runs generalizing offset with
  | nil => cases h
  | cons r runs ih =>
    rw [within] at h ⊢
    by_cases hin : offset + len ≤ r.2
    · rw [if_pos (by omega)]
    · rw [if_neg hin] at h
      by_cases hskip : r.2 ≤ offset
      · rw [if_pos hskip] at h
        by_cases hpart : offset + j + n ≤ r.2
        · rw [if_pos hpart]
        · have hplace : offset + j - r.2 = offset - r.2 + j := by omega
          rw [if_neg hpart, if_pos (by omega), hplace]
          exact ih h
      · rw [if_neg hskip] at h
        cases h

theorem logicalBytes_skip (hlen : 0 < len) (h : r.2 ≤ offset) :
    logicalBytes mem (r :: runs) offset len = logicalBytes mem runs (offset - r.2) len := by
  by_cases hin : offset + len ≤ runsLength (r :: runs)
  · have hin' := hin
    rw [runsLength_cons] at hin'
    have hdrop : (addresses (r :: runs)).drop offset = (addresses runs).drop (offset - r.2) := by
      rw [addresses_cons, List.drop_append, List.length_range',
        List.drop_of_length_le (by rw [List.length_range']; omega),
        List.nil_append]
    rw [logicalBytes_inside hin, logicalBytes_inside (by omega), hdrop]
  · have hout := hin
    rw [runsLength_cons] at hout
    rw [logicalBytes_past hlen hin, logicalBytes_past hlen (by omega)]

theorem logicalBytes_head (hmem : mem.Bytewise) (hlen : 0 < len) (h : offset + len ≤ r.2) :
    logicalBytes mem (r :: runs) offset len = mem.readBytes (r.1 + offset) len := by
  have hin : offset + len ≤ runsLength (r :: runs) := by
    rw [runsLength_cons]
    omega
  rw [logicalBytes_inside hin, readBytes_eq_mapM hmem hlen, addresses_cons,
    List.drop_append_of_le_length (by simp; omega),
    List.drop_range', Nat.mul_one, List.take_append_of_le_length (by simp; omega), take_range',
    Nat.min_eq_left (by omega)]

theorem FullyMapped.tail (h : FullyMapped mem (entry :: backing)) : FullyMapped mem backing where
  count := by
    have hcount := h.count
    rw [List.length_cons] at hcount
    omega
  len e he := h.len e (List.mem_cons_of_mem _ he)
  mapped a ha := by
    refine h.mapped a ?_
    rw [backingRuns_cons, addresses_cons]
    exact List.mem_append_right _ ha

theorem FullyMapped.short (h : FullyMapped mem backing) :
    runsLength (backingRuns backing) ≤ backing.length * 2 ^ 32 := by
  induction backing with
  | nil => simp
  | cons e backing ih =>
    have hrest := ih h.tail
    have hlen := h.len e List.mem_cons_self
    rw [backingRuns_cons, runsLength_cons, List.length_cons, Nat.add_mul]
    dsimp only
    omega

theorem readEntries_past (h : offset < base) : readEntries mem offset len backing base = none := by
  induction backing generalizing base with
  | nil => rfl
  | cons e backing ih =>
    rw [readEntries]
    cases hend : checkedAdd base e.len with
    | none => rfl
    | some entryEnd =>
      obtain rfl := checkedAdd_some hend
      dsimp only
      rw [if_neg (by omega)]
      exact ih (by omega)

/-- **The loop over the entries** serves the ranges that lie in one entry. -/
theorem readEntries_eq (hmem : mem.Bytewise) (h : FullyMapped mem backing) (hlen : 0 < len) (hbase : base ≤ offset)
    (hshort : base + runsLength (backingRuns backing) < 2 ^ 64) :
    readEntries mem offset len backing base =
      if within (backingRuns backing) (offset - base) len then
        logicalBytes mem (backingRuns backing) (offset - base) len
      else none := by
  induction backing generalizing base with
  | nil => rfl
  | cons e backing ih =>
    rw [backingRuns_cons, runsLength_cons] at hshort
    dsimp only at hshort
    rw [readEntries, checkedAdd_of_lt (by omega), backingRuns_cons, within]
    dsimp only
    by_cases hin : offset - base + len ≤ e.len
    · have hany : (checkedAdd offset len).any (fun rangeEnd => rangeEnd ≤ base + e.len) = true := by
        rw [checkedAdd_of_lt (by omega), Option.any_some]
        exact decide_eq_true (by omega)
      rw [if_pos ⟨hbase, hany⟩, if_pos hin, if_pos rfl, logicalBytes_head hmem hlen hin]
    · have hnot : ¬(base ≤ offset ∧
        (checkedAdd offset len).any (fun rangeEnd => rangeEnd ≤ base + e.len) = true) := by
        rintro ⟨-, hany⟩
        obtain ⟨rangeEnd, hend, hle⟩ := (Option.any_eq_true _ _).mp hany
        obtain rfl := checkedAdd_some hend
        have hle := of_decide_eq_true hle
        omega
      rw [if_neg hnot, if_neg hin]
      by_cases hskip : e.len ≤ offset - base
      · have hplace : offset - (base + e.len) = offset - base - e.len := by omega
        rw [if_pos hskip, ih h.tail (by omega) (by omega), hplace, logicalBytes_skip hlen hskip]
      · rw [if_neg hskip, readEntries_past (by omega)]
        rfl

/-- **What is read of a backing**: its bytes, for a range that lies in one entry. -/
theorem readFromBlobBackingInto_eq (hmem : mem.Bytewise) (h : FullyMapped mem backing) (hlen : 0 < len) :
    readFromBlobBackingInto mem backing offset len =
      if within (backingRuns backing) offset len then logicalBytes mem (backingRuns backing) offset len else none := by
  have hshort := h.short
  have hcount := h.count
  exact readEntries_eq hmem h hlen (Nat.zero_le offset) (by omega)

theorem readFromBlobBackingInto_lt (hmem : mem.Bytewise) (h : FullyMapped mem backing) (hlen : 0 < len)
    (hread : readFromBlobBackingInto mem backing offset len = some row) : offset + len < 2 ^ 64 := by
  have hshort := h.short
  have hcount := h.count
  rw [readFromBlobBackingInto_eq hmem h hlen] at hread
  split at hread
  · by_contra hpast
    rw [logicalBytes_past hlen (by omega)] at hread
    cases hread
  · cases hread

theorem readFromBlobBackingInto_part (hmem : mem.Bytewise) (h : FullyMapped mem backing) (hfit : j + n ≤ len)
    (hn : 0 < n)
    (hread : readFromBlobBackingInto mem backing offset len = some row) :
    readFromBlobBackingInto mem backing (offset + j) n = some (slice row j n) := by
  rw [readFromBlobBackingInto_eq hmem h (by omega)] at hread
  rw [readFromBlobBackingInto_eq hmem h hn]
  split at hread
  · rename_i hwithin
    rw [if_pos (within_sub hwithin hfit), logicalBytes_slice hread hfit hn]
  · cases hread

end Reads

/-! ## What the loops paint -/

/-- Where a pixel is in the scanout. -/
def pixelAt (scanoutWidth : Nat) (pixel : Nat × Nat) : Nat := (pixel.2 * scanoutWidth + pixel.1) * 4

/-- What is shown of a pixel: its conversion, where it was read. -/
def shown (data : Option (List UInt8)) (format k : Nat) (old : UInt8) : UInt8 :=
  match data with
  | some data => (toXrgb8888 data format).getD k 0
  | none => old

/-- What the loops do to a byte of a pixel. -/
def compositedByte (mem : GuestMemory) (backing : List BlobMemEntry) (s : Surface) (pixel : Nat × Nat) (k : Nat) :
    UInt8 → UInt8 :=
  shown (readFromBlobBackingInto mem backing (s.place pixel.1 pixel.2) 4) s.format k

section Loops

variable {mem : GuestMemory} {backing : List BlobMemEntry} {s : Surface} {width height rectX xEnd x y offset : Nat}
  {xs ys : List Nat} {pixels : List UInt8} {acc result : List UInt8 × Bool}

theorem source_some (h : s.source x y = some offset) : offset = s.place x y ∧ s.place x y < 2 ^ 64 := by
  unfold Surface.source at h
  obtain ⟨row, hrow, h⟩ := Option.bind_eq_some_iff.mp h
  obtain ⟨start, hstart, h⟩ := Option.bind_eq_some_iff.mp h
  unfold checkedMul at hrow
  split at hrow
  · cases hrow
    obtain rfl := checkedAdd_some hstart
    have hplace := checkedAdd_some h
    unfold checkedAdd at h
    split at h
    · exact ⟨hplace, by assumption⟩
    · cases h
  · cases hrow

theorem source_of_lt (h : s.place x y < 2 ^ 64) : s.source x y = some (s.place x y) := by
  unfold Surface.place at h ⊢
  unfold Surface.source
  rw [checkedMul_of_lt (by omega), Option.bind_some, checkedAdd_of_lt (by omega), Option.bind_some, checkedAdd_of_lt h]

@[simp] theorem length_toXrgb8888 (data : List UInt8) (format : Nat) : (toXrgb8888 data format).length = 4 := by
  unfold toXrgb8888
  split
  · rfl
  · split
    · rfl
    · split <;> rfl

theorem pixelAt_apart {p q : Nat × Nat} (hp : p.1 < width) (hq : q.1 < width) (hne : p ≠ q) :
    pixelAt width p + 4 ≤ pixelAt width q ∨ pixelAt width q + 4 ≤ pixelAt width p := by
  unfold pixelAt
  rcases Nat.lt_trichotomy p.2 q.2 with hlt | heq | hgt
  · have hrow : (p.2 + 1) * width ≤ q.2 * width := Nat.mul_le_mul_right _ hlt
    rw [Nat.add_mul] at hrow
    omega
  · have hne' : p.1 ≠ q.1 := fun h => hne (Prod.ext h heq)
    rw [heq]
    omega
  · have hrow : (q.2 + 1) * width ≤ p.2 * width := Nat.mul_le_mul_right _ hgt
    rw [Nat.add_mul] at hrow
    omega

theorem pixelAt_fits (hx : x < width) (hy : y < height) : pixelAt width (x, y) + 4 ≤ width * height * 4 := by
  have hrow : (y + 1) * width ≤ height * width := Nat.mul_le_mul_right _ hy
  rw [Nat.add_mul] at hrow
  rw [Nat.mul_comm width height]
  unfold pixelAt
  dsimp only
  omega

theorem pixel_painted {data : List UInt8} (hdata : readFromBlobBackingInto mem backing (s.place x y) 4 = some data)
    (hfit : pixelAt width (x, y) + 4 ≤ pixels.length) :
    Painted (pixelAt width) 4 (compositedByte mem backing s) [(x, y)] pixels
      (splice pixels (pixelAt width (x, y)) (toXrgb8888 data s.format)) := by
  refine .splice (length_toXrgb8888 data s.format) hfit fun k hk old => ?_
  unfold compositedByte
  rw [hdata, shown, List.getD_eq_getElem?_getD, List.getElem?_eq_getElem (by simpa using hk), Option.getD_some]

theorem pixel_apart_rest (hx : x < width) (hin : ∀ x' ∈ xs, x' < width) (hfirst : ∀ x' ∈ xs, x < x') :
    ∀ q ∈ xs.map fun x => (x, y),
      pixelAt width (x, y) + 4 ≤ pixelAt width q ∨ pixelAt width q + 4 ≤ pixelAt width (x, y) := by
  intro q hq
  obtain ⟨x', hx', rfl⟩ := List.mem_map.mp hq
  have hlt := hfirst x' hx'
  exact pixelAt_apart hx (hin x' hx') fun heq => absurd (congrArg Prod.fst heq) (Nat.ne_of_lt hlt)

/-- **The loop over the pixels of a row**: it shows those that can be read, unless their arithmetic overflows. -/
theorem compositePixels_painted (hxs : xs.Pairwise (· < ·)) (hin : ∀ x ∈ xs, x < width) (hy : y < height)
    (hlen : acc.1.length = width * height * 4) (h : compositePixels mem backing s width y xs acc = some result) :
    Painted (pixelAt width) 4 (compositedByte mem backing s) (xs.map fun x => (x, y)) acc.1 result.1 ∧
      ∀ x ∈ xs, s.place x y < 2 ^ 64 := by
  induction xs generalizing acc with
  | nil =>
    cases h
    exact ⟨.nil, by simp⟩
  | cons x xs ih =>
    obtain ⟨hfirst, hrest⟩ := List.pairwise_cons.mp hxs
    obtain ⟨hx, hinRest⟩ := List.forall_mem_cons.mp hin
    rw [compositePixels] at h
    obtain ⟨src, hsrc, h⟩ := Option.bind_eq_some_iff.mp h
    obtain ⟨rfl, hplace⟩ := source_some hsrc
    have hfit : pixelAt width (x, y) + 4 ≤ acc.1.length := by
      rw [hlen]
      exact pixelAt_fits hx hy
    have hapart : ∀ q ∈ xs.map fun x => (x, y), _ := pixel_apart_rest hx hinRest hfirst
    cases hdata : readFromBlobBackingInto mem backing (s.place x y) 4 with
    | none =>
      rw [hdata] at h
      obtain ⟨hpainted, hplaces⟩ := ih hrest hinRest hlen h
      refine ⟨.cons (.of_id fun q hq k _ old => ?_) hpainted hapart, List.forall_mem_cons.mpr ⟨hplace, hplaces⟩⟩
      rw [List.mem_singleton.mp hq, compositedByte, hdata, shown]
    | some data =>
      rw [hdata] at h
      have hone := pixel_painted hdata hfit
      obtain ⟨hpainted, hplaces⟩ := ih hrest hinRest (hone.length.trans hlen) h
      exact ⟨.cons hone hpainted hapart, List.forall_mem_cons.mpr ⟨hplace, hplaces⟩⟩

theorem compositePixels_isSome (h : ∀ x ∈ xs, s.place x y < 2 ^ 64) :
    (compositePixels mem backing s width y xs acc).isSome = true := by
  induction xs generalizing acc with
  | nil => rfl
  | cons x xs ih =>
    obtain ⟨hx, hxs⟩ := List.forall_mem_cons.mp h
    rw [compositePixels, source_of_lt hx, Option.bind_some]
    split
    · exact ih hxs
    · exact ih hxs

/-- **The loop over a row that was read as a whole** shows what the other loop does. -/
theorem compositeRow_painted {row : List UInt8} (hxs : xs.Pairwise (· < ·)) (hin : ∀ x ∈ xs, x < width)
    (hy : y < height)
    (hlen : pixels.length = width * height * 4)
    (hread : ∀ x ∈ xs, readFromBlobBackingInto mem backing (s.place x y) 4 = some (slice row ((x - rectX) * 4) 4)) :
    Painted (pixelAt width) 4 (compositedByte mem backing s) (xs.map fun x => (x, y)) pixels
      (compositeRow row s width rectX y xs pixels) := by
  induction xs generalizing pixels with
  | nil => exact .nil
  | cons x xs ih =>
    obtain ⟨hfirst, hrest⟩ := List.pairwise_cons.mp hxs
    obtain ⟨hx, hinRest⟩ := List.forall_mem_cons.mp hin
    obtain ⟨hdata, hreadRest⟩ := List.forall_mem_cons.mp hread
    have hfit : pixelAt width (x, y) + 4 ≤ pixels.length := by
      rw [hlen]
      exact pixelAt_fits hx hy
    have hone := pixel_painted hdata hfit
    exact .cons hone (ih hrest hinRest (hone.length.trans hlen) hreadRest) (pixel_apart_rest hx hinRest hfirst)

/-- The columns of a rectangle. -/
def columns (rectX xEnd : Nat) : List Nat := List.range' rectX (xEnd - rectX)

theorem mem_columns : x ∈ columns rectX xEnd ↔ rectX ≤ x ∧ x < xEnd := by
  unfold columns
  rw [List.mem_range'_1]
  omega

/-- The pixels of a rectangle, row by row. -/
def rectPixels (rectX xEnd : Nat) (ys : List Nat) : List (Nat × Nat) :=
  ys.flatMap fun y => (columns rectX xEnd).map fun x => (x, y)

theorem mem_rectPixels : (x, y) ∈ rectPixels rectX xEnd ys ↔ (rectX ≤ x ∧ x < xEnd) ∧ y ∈ ys := by
  simp only [rectPixels, List.mem_flatMap, List.mem_map, mem_columns, Prod.mk.injEq]
  constructor
  · rintro ⟨y', hy', x', hx', rfl, rfl⟩
    exact ⟨hx', hy'⟩
  · rintro ⟨hx, hy⟩
    exact ⟨y, hy, x, hx, rfl, rfl⟩

theorem place_column (h : rectX ≤ x) : s.place x y = s.place rectX y + (x - rectX) * 4 := by
  unfold Surface.place
  omega

/-- **The loop over the rows** shows the pixels that can be read, whichever way their row takes. -/
theorem compositeRows_painted (hmem : mem.Bytewise) (hbacking : FullyMapped mem backing) (hx : rectX < xEnd)
    (hxEnd : xEnd ≤ width)
    (hys : ys.Pairwise (· < ·)) (hin : ∀ y ∈ ys, y < height) (hlen : acc.1.length = width * height * 4)
    (h : compositeRows mem backing s width rectX xEnd ys acc = some result) :
    Painted (pixelAt width) 4 (compositedByte mem backing s) (rectPixels rectX xEnd ys) acc.1 result.1 ∧
      ∀ p ∈ rectPixels rectX xEnd ys, s.place p.1 p.2 < 2 ^ 64 := by
  induction ys generalizing acc with
  | nil =>
    cases h
    exact ⟨.nil, by simp [rectPixels]⟩
  | cons y ys ih =>
    obtain ⟨hfirst, hrest⟩ := List.pairwise_cons.mp hys
    obtain ⟨hy, hinRest⟩ := List.forall_mem_cons.mp hin
    have hcolumns : ∀ x ∈ columns rectX xEnd, x < width := fun x hx => by
      have := mem_columns.mp hx
      omega
    have hsorted : (columns rectX xEnd).Pairwise (· < ·) := List.pairwise_lt_range'
    have hapart : ∀ p ∈ (columns rectX xEnd).map (fun x => (x, y)), ∀ q ∈ rectPixels rectX xEnd ys,
        pixelAt width p + 4 ≤ pixelAt width q ∨ pixelAt width q + 4 ≤ pixelAt width p := by
      rintro p hp ⟨x', y'⟩ hq
      obtain ⟨x, hx, rfl⟩ := List.mem_map.mp hp
      obtain ⟨hx', hy'⟩ := mem_rectPixels.mp hq
      exact pixelAt_apart (hcolumns x hx) (by dsimp only; omega) fun heq =>
        absurd (congrArg Prod.snd heq) (Nat.ne_of_lt (hfirst y' hy'))
    -- one row, by either loop
    obtain ⟨acc', hrow, hplaces, h⟩ : ∃ acc' : List UInt8 × Bool,
        Painted (pixelAt width) 4 (compositedByte mem backing s)
          ((columns rectX xEnd).map fun x => (x, y)) acc.1 acc'.1 ∧
          (∀ x ∈ columns rectX xEnd, s.place x y < 2 ^ 64) ∧
            compositeRows mem backing s width rectX xEnd ys acc' = some result := by
      rw [compositeRows] at h
      obtain ⟨src, hsrc, h⟩ := Option.bind_eq_some_iff.mp h
      obtain ⟨rfl, -⟩ := source_some hsrc
      cases hread : readFromBlobBackingInto mem backing (s.place rectX y) ((xEnd - rectX) * 4) with
      | none =>
        rw [hread] at h
        obtain ⟨acc', hacc, h⟩ := Option.bind_eq_some_iff.mp h
        obtain ⟨hpainted, hplaces⟩ := compositePixels_painted hsorted hcolumns hy hlen hacc
        exact ⟨acc', hpainted, hplaces, h⟩
      | some row =>
        rw [hread] at h
        refine ⟨_, compositeRow_painted hsorted hcolumns hy hlen fun x hx => ?_, fun x hx => ?_, h⟩
        · obtain ⟨hlow, hhigh⟩ := mem_columns.mp hx
          rw [place_column hlow]
          exact readFromBlobBackingInto_part hmem hbacking (by omega) (by omega) hread
        · obtain ⟨hlow, hhigh⟩ := mem_columns.mp hx
          have hlt := readFromBlobBackingInto_lt hmem hbacking (by omega) hread
          rw [place_column hlow]
          omega
    obtain ⟨hpainted, hplacesRest⟩ := ih hrest hinRest (hrow.length.trans hlen) h
    refine ⟨hrow.append hpainted hapart, fun p hp => ?_⟩
    rcases List.mem_append.mp hp with hp | hp
    · obtain ⟨x, hx, rfl⟩ := List.mem_map.mp hp
      exact hplaces x hx
    · exact hplacesRest p hp

theorem compositeRows_isSome (hx : rectX < xEnd) (h : ∀ p ∈ rectPixels rectX xEnd ys, s.place p.1 p.2 < 2 ^ 64) :
    (compositeRows mem backing s width rectX xEnd ys acc).isSome = true := by
  induction ys generalizing acc with
  | nil => rfl
  | cons y ys ih =>
    have hplaces : ∀ x ∈ columns rectX xEnd, s.place x y < 2 ^ 64 := fun x hx =>
      h (x, y) (mem_rectPixels.mpr ⟨mem_columns.mp hx, List.mem_cons_self⟩)
    have hrest : ∀ p ∈ rectPixels rectX xEnd ys, s.place p.1 p.2 < 2 ^ 64 := fun p hp =>
      h p (List.mem_append_right _ hp)
    rw [compositeRows, source_of_lt (hplaces rectX (mem_columns.mpr ⟨Nat.le_refl _, hx⟩)), Option.bind_some]
    split
    · exact ih hrest
    · obtain ⟨acc', hacc⟩ : ∃ acc', compositePixels mem backing s width y (columns rectX xEnd) acc = some acc' :=
        Option.isSome_iff_exists.mp (compositePixels_isSome hplaces)
      rw [columns] at hacc
      rw [hacc, Option.bind_some]
      exact ih hrest

end Loops

/-! ## What the rectangle should show -/

/-- Both functions: `refused` where the backing is not read at all. -/
def compositeSurface (mem : GuestMemory) (backing : List BlobMemEntry) (s : Surface) (refused : Bool)
    (scanout : Scanout)
    (rect : Rect) : Option (List UInt8) :=
  if refused then some scanout.pixels
  else
    let xEnd := min (min (saturatingAdd32 rect.x rect.width) s.width) scanout.width
    let yEnd := min (min (saturatingAdd32 rect.y rect.height) s.height) scanout.height
    if xEnd ≤ rect.x ∨ yEnd ≤ rect.y then some scanout.pixels
    else
      (compositeRows mem backing s scanout.width rect.x xEnd (List.range' rect.y (yEnd - rect.y))
        (scanout.pixels, false)).map
        Prod.fst

/-- A local 3D resource is not read without a backing or with another format. -/
def localRefused (backing : List BlobMemEntry) (info : Create3dArgs) : Bool :=
  backing.isEmpty || !formatSupported info.format

/-- A pixel of the rectangle, clipped to the surface and the display. -/
def InClip (s : Surface) (scanout : Scanout) (rect : Rect) (x y : Nat) : Prop :=
  (rect.x ≤ x ∧ x < rect.x + rect.width ∧ x < s.width ∧ x < scanout.width) ∧
    rect.y ≤ y ∧ y < rect.y + rect.height ∧ y < s.height ∧ y < scanout.height

/-- **What compositing is for**: each pixel of the clipped rectangle that the backing covers is the conversion of its
four logical bytes, and every other byte of the scanout is unchanged. -/
structure Composited (mem : GuestMemory) (backing : List BlobMemEntry) (s : Surface) (scanout : Scanout) (rect : Rect)
    (pixels : List UInt8) : Prop where
  length : pixels.length = scanout.pixels.length
  inside : ∀ x y, InClip s scanout rect x y → ∀ k < 4, pixels[(y * scanout.width + x) * 4 + k]? =
    match logicalBytes mem (backingRuns backing) (s.place x y) 4 with
    | some data => (toXrgb8888 data s.format)[k]?
    | none => scanout.pixels[(y * scanout.width + x) * 4 + k]?
  outside : ∀ i, (∀ x y, InClip s scanout rect x y →
    ¬((y * scanout.width + x) * 4 ≤ i ∧ i < (y * scanout.width + x) * 4 + 4)) → pixels[i]? = scanout.pixels[i]?

/-- The pixels of the clipped rectangle have 64-bit places, and each that the backing covers lies in one of its entries,
or is shown already. -/
structure Whole (mem : GuestMemory) (backing : List BlobMemEntry) (s : Surface) (refused : Bool) (scanout : Scanout)
    (rect : Rect) : Prop where
  places : refused = false → ∀ x y, InClip s scanout rect x y → s.place x y < 2 ^ 64
  whole : ∀ x y, InClip s scanout rect x y → ∀ data, logicalBytes mem (backingRuns backing) (s.place x y) 4 =
    some data →
    (refused = false ∧ within (backingRuns backing) (s.place x y) 4 = true) ∨
      slice scanout.pixels ((y * scanout.width + x) * 4) 4 = toXrgb8888 data s.format

/-- The pixels of the clipped rectangle, row by row. -/
def clipPixels (s : Surface) (scanout : Scanout) (rect : Rect) : List (Nat × Nat) :=
  rectPixels rect.x (min (min (saturatingAdd32 rect.x rect.width) s.width) scanout.width)
    (List.range' rect.y (min (min (saturatingAdd32 rect.y rect.height) s.height) scanout.height - rect.y))

/-- What is read of a pixel. -/
def served (mem : GuestMemory) (backing : List BlobMemEntry) (s : Surface) (refused : Bool) (pixel : Nat × Nat) :
    Option (List UInt8) :=
  if refused then none else readFromBlobBackingInto mem backing (s.place pixel.1 pixel.2) 4

section Surfaces

variable {mem : GuestMemory} {backing : List BlobMemEntry} {s : Surface} {refused : Bool} {scanout : Scanout}
  {rect : Rect}
  {x y k : Nat} {pixels : List UInt8}

theorem lt_clipEnd {start len side total : Nat} (htotal : total < 2 ^ 32) :
    x < min (min (saturatingAdd32 start len) side) total ↔ x < start + len ∧ x < side ∧ x < total := by
  unfold saturatingAdd32
  rw [Nat.lt_min, Nat.lt_min, Nat.lt_min]
  omega

theorem mem_clipPixels : (x, y) ∈ clipPixels s scanout rect ↔ InClip s scanout rect x y := by
  unfold clipPixels InClip
  rw [mem_rectPixels, List.mem_range'_1, ← lt_clipEnd scanout.width_lt, ← lt_clipEnd scanout.height_lt]
  refine and_congr_right fun _ => and_congr_right fun hy => ?_
  omega

theorem compositeBlobScanout_eq (blob : BlobScanout) :
    compositeBlobScanout mem backing blob scanout rect = compositeSurface mem backing
      (blobSurface blob) false scanout rect := by
  unfold compositeBlobScanout compositeGuestBlobToScanout compositeSurface
  dsimp only
  rw [if_neg Bool.false_ne_true, Nat.min_assoc, Nat.min_comm scanout.width, ← Nat.min_assoc,
    Nat.min_assoc (saturatingAdd32 rect.y _),
    Nat.min_comm scanout.height, ← Nat.min_assoc]
  rfl

theorem compositeLocal3dToScanout_eq (info : Create3dArgs) :
    (compositeLocal3dToScanout mem backing info scanout rect).map Prod.fst =
      compositeSurface mem backing (localSurface info) (localRefused backing info) scanout rect := by
  unfold compositeLocal3dToScanout compositeSurface localRefused
  dsimp only
  split
  · rfl
  · rw [apply_ite (Option.map Prod.fst)]
    rfl

@[simp] theorem shown_none (format k : Nat) (old : UInt8) : shown none format k old = old := rfl

/-- **What compositing does**: it shows each pixel that is read, unless the arithmetic overflows. -/
theorem compositeSurface_painted (hmem : mem.Bytewise) (hbacking : FullyMapped mem backing)
    (h : compositeSurface mem backing s refused scanout rect = some pixels) :
    Painted (pixelAt scanout.width) 4 (fun p => shown (served mem backing s refused p) s.format)
      (clipPixels s scanout rect)
        scanout.pixels pixels ∧
      (refused = false → ∀ p ∈ clipPixels s scanout rect, s.place p.1 p.2 < 2 ^ 64) := by
  unfold compositeSurface at h
  cases refused with
  | true =>
    cases h
    exact ⟨.of_id fun _ _ _ _ _ => rfl, fun h => by cases h⟩
  | false =>
    rw [if_neg Bool.false_ne_true] at h
    dsimp only at h
    split at h
    · rename_i hempty
      cases h
      have hnone : ∀ p ∈ clipPixels s scanout rect, False := by
        rintro ⟨x, y⟩ hp
        unfold clipPixels at hp
        rw [mem_rectPixels, List.mem_range'_1] at hp
        omega
      exact ⟨.of_id fun p hp => (hnone p hp).elim, fun _ p hp => (hnone p hp).elim⟩
    · rename_i hclip
      rw [not_or, Nat.not_le, Nat.not_le] at hclip
      obtain ⟨result, hresult, rfl⟩ := Option.map_eq_some_iff.mp h
      have hys : ∀ y ∈ List.range' rect.y
        (min (min (saturatingAdd32 rect.y rect.height) s.height) scanout.height - rect.y),
          y < scanout.height := by
        intro y hy
        rw [List.mem_range'_1] at hy
        omega
      obtain ⟨hpainted, hplaces⟩ := compositeRows_painted hmem hbacking hclip.1 (Nat.min_le_right _ _)
        List.pairwise_lt_range' hys scanout.pixels_length hresult
      exact ⟨hpainted, fun _ => hplaces⟩

theorem compositeSurface_isSome
    (h : refused = false → ∀ p ∈ clipPixels s scanout rect, s.place p.1 p.2 < 2 ^ 64) :
    ∃ pixels, compositeSurface mem backing s refused scanout rect = some pixels := by
  unfold compositeSurface
  cases refused with
  | true => exact ⟨scanout.pixels, rfl⟩
  | false =>
    rw [if_neg Bool.false_ne_true]
    dsimp only
    split
    · exact ⟨scanout.pixels, rfl⟩
    · rename_i hclip
      rw [not_or, Nat.not_le, Nat.not_le] at hclip
      obtain ⟨result, hresult⟩ := Option.isSome_iff_exists.mp (compositeRows_isSome hclip.1 (h rfl))
      exact ⟨result.1, Option.map_eq_some_iff.mpr ⟨result, hresult, rfl⟩⟩

theorem map_shown {data : Option (List UInt8)} {format : Nat} {old : Option UInt8} (hold : old.isSome = true)
    (hk : k < 4) :
    old.map (shown data format k) =
      match data with
      | some data => (toXrgb8888 data format)[k]?
      | none => old := by
  obtain ⟨b, rfl⟩ := Option.isSome_iff_exists.mp hold
  cases data with
  | none => rfl
  | some data =>
    have hk' : k < (toXrgb8888 data format).length := by
      rw [length_toXrgb8888]
      exact hk
    dsimp only
    rw [Option.map_some, shown, List.getD_eq_getElem?_getD, List.getElem?_eq_getElem hk', Option.getD_some]

theorem scanout_byte (hclip : InClip s scanout rect x y) (hk : k < 4) :
    (scanout.pixels[(y * scanout.width + x) * 4 + k]?).isSome = true := by
  have hfit : (y * scanout.width + x) * 4 + 4 ≤ scanout.width * scanout.height * 4 :=
    pixelAt_fits hclip.1.2.2.2 hclip.2.2.2.2
  have hlen := scanout.pixels_length
  rw [List.getElem?_eq_getElem (by omega)]
  rfl

/-- **What compositing is for**, as a painting. -/
theorem composited_iff_painted : Composited mem backing s scanout rect pixels ↔
    Painted (pixelAt scanout.width) 4
      (fun p => shown (logicalBytes mem (backingRuns backing) (s.place p.1 p.2) 4) s.format)
      (clipPixels s scanout rect) scanout.pixels pixels := by
  constructor
  · intro h
    refine ⟨h.length, fun ⟨x, y⟩ hp k hk => ?_, fun i hi => h.outside i fun x y hclip =>
      hi (x, y) (mem_clipPixels.mpr hclip)⟩
    have hclip := mem_clipPixels.mp hp
    exact (h.inside x y hclip k hk).trans (map_shown (scanout_byte hclip hk) hk).symm
  · intro h
    refine ⟨h.length, fun x y hclip k hk => ?_, fun i hi => h.outside i fun ⟨x, y⟩ hp =>
      hi x y (mem_clipPixels.mp hp)⟩
    exact (h.inside (x, y) (mem_clipPixels.mpr hclip) k hk).trans (map_shown (scanout_byte hclip hk) hk)

/-- **Where a pixel is shown as it should be**: where it was read, or its colour is there already. -/
theorem served_agree_iff (hmem : mem.Bytewise) (hbacking : FullyMapped mem backing)
    (hclip : InClip s scanout rect x y) :
    (∀ k < 4, (scanout.pixels[(y * scanout.width + x) * 4 + k]?).map
      (shown (served mem backing s refused (x, y)) s.format k) =
      (scanout.pixels[(y * scanout.width + x) * 4 + k]?).map
        (shown (logicalBytes mem (backingRuns backing) (s.place x y) 4) s.format k)) ↔
      ∀ data, logicalBytes mem (backingRuns backing) (s.place x y) 4 = some data →
        (refused = false ∧ within (backingRuns backing) (s.place x y) 4 = true) ∨
          slice scanout.pixels ((y * scanout.width + x) * 4) 4 = toXrgb8888 data s.format := by
  have hserved : served mem backing s refused (x, y) =
      if refused = false ∧ within (backingRuns backing) (s.place x y) 4 = true then
        logicalBytes mem (backingRuns backing) (s.place x y) 4
      else none := by
    unfold served
    rw [readFromBlobBackingInto_eq hmem hbacking (by omega)]
    cases refused <;> simp
  rw [hserved]
  by_cases hread : refused = false ∧ within (backingRuns backing) (s.place x y) 4 = true
  · rw [if_pos hread]
    exact ⟨fun _ _ _ => .inl hread, fun _ _ _ => rfl⟩
  · rw [if_neg hread]
    cases hdata : logicalBytes mem (backingRuns backing) (s.place x y) 4 with
    | none =>
      constructor
      · intro _ data hnone
        cases hnone
      · intro _ k _
        rfl
    | some data =>
      have hshown : ∀ k < 4, ((scanout.pixels[(y * scanout.width + x) * 4 + k]?).map (shown none s.format k) =
          (scanout.pixels[(y * scanout.width + x) * 4 + k]?).map (shown (some data) s.format k)) ↔
          scanout.pixels[(y * scanout.width + x) * 4 + k]? = (toXrgb8888 data s.format)[k]? := by
        intro k hk
        rw [map_shown (scanout_byte hclip hk) hk, map_shown (scanout_byte hclip hk) hk]
      constructor
      · intro h data' hdata'
        cases hdata'
        refine .inr (eq_slice_of_getElem? (length_toXrgb8888 _ _) fun k hk => ?_).symm
        exact ((hshown k hk).mp (h k hk)).symm
      · intro h k hk
        have hslice := (h data rfl).resolve_left hread
        rw [hshown k hk, ← hslice, getElem?_slice, if_pos hk]

/-- **When compositing does what it is for**: exactly where every covered pixel of the rectangle lies in one entry, or
is shown already. -/
theorem compositeSurface_iff (hmem : mem.Bytewise) (hbacking : FullyMapped mem backing) :
    (∃ pixels, compositeSurface mem backing s refused scanout rect = some pixels ∧
      Composited mem backing s scanout rect pixels) ↔ Whole mem backing s refused scanout rect := by
  constructor
  · rintro ⟨pixels, hpixels, hcomposited⟩
    obtain ⟨hpainted, hplaces⟩ := compositeSurface_painted hmem hbacking hpixels
    have hagree := hpainted.agree_iff.mp (composited_iff_painted.mp hcomposited)
    refine ⟨fun hserves x y hclip => hplaces hserves (x, y) (mem_clipPixels.mpr hclip), fun x y hclip => ?_⟩
    exact (served_agree_iff hmem hbacking hclip).mp (hagree (x, y) (mem_clipPixels.mpr hclip))
  · intro h
    obtain ⟨pixels, hpixels⟩ : ∃ pixels, compositeSurface mem backing s refused scanout rect = some pixels :=
      compositeSurface_isSome fun hserves ⟨x, y⟩ hp => h.places hserves x y (mem_clipPixels.mp hp)
    obtain ⟨hpainted, -⟩ := compositeSurface_painted hmem hbacking hpixels
    refine ⟨pixels, hpixels, composited_iff_painted.mpr (hpainted.agree_iff.mpr fun ⟨x, y⟩ hp => ?_)⟩
    have hclip := mem_clipPixels.mp hp
    exact (served_agree_iff hmem hbacking hclip).mpr (h.whole x y hclip)

end Surfaces

section Agreement

variable {mem : GuestMemory} {backing backing₁ backing₂ : List BlobMemEntry} {s : Surface}
  {refused₁ refused₂ : Bool}
  {scanout : Scanout} {rect : Rect} {offset : Nat} {pixels : List UInt8}

/-- The bytes that the entries of a backing concatenate to. -/
def contents (mem : GuestMemory) (backing : List BlobMemEntry) : List UInt8 :=
  (addresses (backingRuns backing)).map mem.bytes

theorem FullyMapped.logicalByte (h : FullyMapped mem backing) :
    logicalByte mem (backingRuns backing) offset = (contents mem backing)[offset]? := by
  unfold BridgeVm.logicalByte contents
  rw [List.getElem?_map]
  cases ha : (addresses (backingRuns backing))[offset]? with
  | none => rfl
  | some a =>
    rw [Option.bind_some, Option.map_some, GuestMemory.byteAt, if_pos (h.mapped a (List.mem_of_getElem? ha))]

theorem logicalBytes_congr (h₁ : FullyMapped mem backing₁) (h₂ : FullyMapped mem backing₂)
    (hsame : contents mem backing₁ = contents mem backing₂) (offset len : Nat) :
    logicalBytes mem (backingRuns backing₁) offset len = logicalBytes mem (backingRuns backing₂) offset len := by
  have hbyte : logicalByte mem (backingRuns backing₁) = logicalByte mem (backingRuns backing₂) := by
    funext o
    rw [h₁.logicalByte, h₂.logicalByte, hsame]
  unfold logicalBytes
  rw [hbyte]

theorem Composited.congr (h₁ : FullyMapped mem backing₁) (h₂ : FullyMapped mem backing₂)
    (hsame : contents mem backing₁ = contents mem backing₂) (h : Composited mem backing₁ s scanout rect pixels) :
    Composited mem backing₂ s scanout rect pixels where
  length := h.length
  inside x y hclip k hk := by
    rw [h.inside x y hclip k hk, logicalBytes_congr h₁ h₂ hsame]
  outside := h.outside

theorem compositeSurface_agree_iff (hmem : mem.Bytewise) (h₁ : FullyMapped mem backing₁)
    (h₂ : FullyMapped mem backing₂)
    (hsame : contents mem backing₁ = contents mem backing₂) :
    (∃ pixels, compositeSurface mem backing₁ s refused₁ scanout rect = some pixels ∧
        compositeSurface mem backing₂ s refused₂ scanout rect = some pixels ∧
        Composited mem backing₁ s scanout rect pixels) ↔
      Whole mem backing₁ s refused₁ scanout rect ∧ Whole mem backing₂ s refused₂ scanout rect := by
  rw [← compositeSurface_iff hmem h₁, ← compositeSurface_iff hmem h₂]
  constructor
  · rintro ⟨pixels, hpixels₁, hpixels₂, h⟩
    exact ⟨⟨pixels, hpixels₁, h⟩, pixels, hpixels₂, h.congr h₁ h₂ hsame⟩
  · rintro ⟨⟨pixels₁, hpixels₁, hfirst⟩, pixels₂, hpixels₂, hsecond⟩
    have heq := (composited_iff_painted.mp (hfirst.congr h₁ h₂ hsame)).unique (composited_iff_painted.mp hsecond)
    subst heq
    exact ⟨pixels₁, hpixels₁, hpixels₂, hfirst⟩

end Agreement

/-- **Compositing and fragmentation**: two backings with the same contents are shown alike and with every covered pixel
converted, for a blob and for a local 3D resource, when and only when in both of them every covered pixel of the clipped
rectangle lies in one entry and has a format that is read, or is shown already. -/
theorem composited_agree_iff (mem : GuestMemory) (hmem : mem.Bytewise) (backing₁ backing₂ : List BlobMemEntry)
    (h₁ : FullyMapped mem backing₁) (h₂ : FullyMapped mem backing₂)
      (hsame : contents mem backing₁ = contents mem backing₂)
    (blob : BlobScanout) (info : Create3dArgs) (scanout : Scanout) (rect : Rect) :
    ((∃ pixels, compositeBlobScanout mem backing₁ blob scanout rect = some pixels ∧
        compositeBlobScanout mem backing₂ blob scanout rect = some pixels ∧
          Composited mem backing₁ (blobSurface blob) scanout rect pixels) ↔
      Whole mem backing₁ (blobSurface blob) false scanout rect ∧
      Whole mem backing₂ (blobSurface blob) false scanout rect) ∧
    ((∃ pixels, (compositeLocal3dToScanout mem backing₁ info scanout rect).map Prod.fst = some pixels ∧
        (compositeLocal3dToScanout mem backing₂ info scanout rect).map Prod.fst = some pixels ∧
          Composited mem backing₁ (localSurface info) scanout rect pixels) ↔
      Whole mem backing₁ (localSurface info) (localRefused backing₁ info) scanout rect ∧
        Whole mem backing₂ (localSurface info) (localRefused backing₂ info) scanout rect) := by
  constructor
  · rw [compositeBlobScanout_eq, compositeBlobScanout_eq]
    exact compositeSurface_agree_iff hmem h₁ h₂ hsame
  · rw [compositeLocal3dToScanout_eq, compositeLocal3dToScanout_eq]
    exact compositeSurface_agree_iff hmem h₁ h₂ hsame

/-- A display of one pixel. -/
def onePixel : Scanout := ⟨1, 1, [0, 0, 0, 0], by decide, by decide, by decide⟩

/-- A pixel in one entry. -/
def pixelEntry : List BlobMemEntry := [⟨0, 4⟩]

/-- The same pixel in two entries. -/
def splitPixel : List BlobMemEntry := [⟨0, 2⟩, ⟨2, 2⟩]

theorem pixelEntry_mapped : FullyMapped (mappedRam 0 [1, 2, 3, 4]) pixelEntry :=
  ⟨by decide, by decide, by decide⟩

theorem splitPixel_mapped : FullyMapped (mappedRam 0 [1, 2, 3, 4]) splitPixel :=
  ⟨by decide, by decide, by decide⟩

/-- Two pixels, in one entry and in one each. -/
def twoPixels : Scanout := ⟨2, 1, List.replicate 8 0, by decide, by decide, by decide⟩

theorem composited_agree_iff_apart : ∃ pixels,
    compositeBlobScanout (mappedRam 0 [1, 2, 3, 4, 5, 6, 7, 8]) [⟨0, 8⟩]
        ⟨1, 2, 1, 1, 8, 0, none⟩ twoPixels ⟨0, 0, 2, 1⟩ = some pixels ∧
      compositeBlobScanout (mappedRam 0 [1, 2, 3, 4, 5, 6, 7, 8]) [⟨0, 4⟩, ⟨4, 4⟩]
        ⟨1, 2, 1, 1, 8, 0, none⟩ twoPixels ⟨0, 0, 2, 1⟩ = some pixels ∧
      Composited (mappedRam 0 [1, 2, 3, 4, 5, 6, 7, 8]) [⟨0, 8⟩] (blobSurface ⟨1, 2, 1, 1, 8, 0, none⟩)
        twoPixels ⟨0, 0, 2, 1⟩ pixels := by
  have hwhole : ∀ backing ∈ [[⟨0, 8⟩], [⟨0, 4⟩, ⟨4, 4⟩]],
    Whole (mappedRam 0 [1, 2, 3, 4, 5, 6, 7, 8]) backing
      (blobSurface ⟨1, 2, 1, 1, 8, 0, none⟩) false twoPixels ⟨0, 0, 2, 1⟩ := by
    intro backing hbacking
    have hclip : ∀ x y, InClip (blobSurface ⟨1, 2, 1, 1, 8, 0, none⟩) twoPixels ⟨0, 0, 2, 1⟩ x y →
      (x = 0 ∨ x = 1) ∧ y = 0 := by
      rintro x y ⟨⟨-, hx, -⟩, -, hy, -⟩
      change x < 2 at hx
      change y < 1 at hy
      omega
    simp only [List.mem_cons, List.not_mem_nil, or_false] at hbacking
    refine ⟨fun _ x y h => ?_, fun x y h _ _ => .inl ⟨rfl, ?_⟩⟩
    · obtain ⟨rfl | rfl, rfl⟩ := hclip x y h <;> decide
    · obtain ⟨rfl | rfl, rfl⟩ := hclip x y h <;> obtain rfl | rfl := hbacking <;> decide
  exact (composited_agree_iff _ (mappedRam_bytewise (by decide)) [⟨0, 8⟩] [⟨0, 4⟩, ⟨4, 4⟩]
    ⟨by decide, by decide, by decide⟩
    ⟨by decide, by decide, by decide⟩ (by decide) ⟨1, 2, 1, 1, 8, 0, none⟩
      ⟨0, 0, 0, 0, 0, 0, 0, 0, 0, 0, 0⟩ twoPixels
    ⟨0, 0, 2, 1⟩).1.mpr ⟨hwhole _ (by simp), hwhole _ (by simp)⟩

/-- **A pixel across two entries** is not shown. -/
theorem split_pixel_missing : ¬∀ (mem : GuestMemory) (backing₁ backing₂ : List BlobMemEntry), mem.Bytewise →
    FullyMapped mem backing₁ → FullyMapped mem backing₂ → contents mem backing₁ = contents mem backing₂ →
      ∀ (blob : BlobScanout) (scanout : Scanout) (rect : Rect),
        ∃ pixels, compositeBlobScanout mem backing₁ blob scanout rect = some pixels ∧
          compositeBlobScanout mem backing₂ blob scanout rect = some pixels ∧
            Composited mem backing₁ (blobSurface blob) scanout rect pixels := by
  intro hall
  obtain ⟨pixels, hwhole, hsplit, -⟩ :=
    hall (mappedRam 0 [1, 2, 3, 4]) pixelEntry splitPixel (mappedRam_bytewise (by decide))
    pixelEntry_mapped splitPixel_mapped (by decide) ⟨1, 1, 1, 1, 4, 0, none⟩ onePixel ⟨0, 0, 1, 1⟩
  have hshown : compositeBlobScanout (mappedRam 0 [1, 2, 3, 4]) pixelEntry ⟨1, 1, 1, 1, 4, 0, none⟩ onePixel
    ⟨0, 0, 1, 1⟩ =
      some [1, 2, 3, 0] := by decide +kernel
  have hmissing : compositeBlobScanout (mappedRam 0 [1, 2, 3, 4]) splitPixel ⟨1, 1, 1, 1, 4, 0, none⟩ onePixel
    ⟨0, 0, 1, 1⟩ =
      some [0, 0, 0, 0] := by decide +kernel
  rw [hwhole, Option.some.injEq] at hshown
  rw [hsplit, Option.some.injEq, hshown] at hmissing
  exact absurd hmissing (by decide)

end BridgeVm.VirtioGpu.Compositor
