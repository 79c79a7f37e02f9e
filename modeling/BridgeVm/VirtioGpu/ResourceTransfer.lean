import BridgeVm.VirtioGpu.BackingCursor
import BridgeVm.VirtioGpu.Device
import BridgeVm.Lib.Painted

/-!
# TRANSFER_TO_HOST_2D (`virtio_gpu/resource.rs`)

A row is read straight into the pixels of the resource, with a cursor kept from row to row; where that fails, each of
its pixels is read on its own. A row that fails has its leading mapped pieces in place already, so a pixel that begins
in them and cannot be read is left torn. `transfer_exact_iff` says that this is all that can go wrong.
-/

namespace BridgeVm.VirtioGpu.Transfer

open Lib

/-- `GpuResource` as `resource_create_2d_into` and `attach_backing_into` make it: four bytes for each pixel, below the
limit of the host memory, and a list of 32-bit many entries of 32-bit lengths. -/
structure GpuResource where
  width : Nat
  height : Nat
  hostPixels : List UInt8
  backing : List BackingEntry
  width_lt : width < 2 ^ 32
  height_lt : height < 2 ^ 32
  pixels_length : hostPixels.length = width * height * 4
  pixels_small : hostPixels.length < max2dHostmem
  backing_count : backing.length < 2 ^ 32
  backing_len : ∀ e ∈ backing, e.len < 2 ^ 32

/-- Where a pixel begins in `host_pixels`, `none` where the arithmetic overflows. -/
def pixelStart (width x y : Nat) : Option Nat :=
  (checkedMul y width).bind fun row => (checkedAdd row x).bind fun pixel => checkedMul pixel 4

/-- `pixels[start..start + len]`, `none` where it panics. -/
def pixelRange (pixels : List UInt8) (start len : Nat) : Option (List UInt8) :=
  if start + len ≤ pixels.length then some (slice pixels start len) else none

/-- The loop over the pixels of a row that could not be read as a whole. -/
def copyPixels (mem : GuestMemory) (resource : GpuResource) (rect : Rect) (y guestRowOff : Nat) :
    List Nat → List UInt8 → Option (List UInt8)
  | [], pixels => some pixels
  | x :: xs, pixels =>
    match checkedAdd guestRowOff ((x - rect.x) * 4) with
    | none => some pixels
    | some guestOff =>
      match readFromBackingInto mem resource.backing guestOff (List.replicate 4 0) with
      | (_, false) => copyPixels mem resource rect y guestRowOff xs pixels
      | (pixel, true) =>
        (pixelStart resource.width x y).bind fun dst =>
          (pixelRange pixels dst 4).bind fun _ =>
            copyPixels mem resource rect y guestRowOff xs (splice pixels dst pixel)

/-- The loop over the rows. -/
def copyRows (mem : GuestMemory) (resource : GpuResource) (rect : Rect) (xEnd offset : Nat) :
    List Nat → BackingReadCursor → List UInt8 → Option (List UInt8)
  | [], _, pixels => some pixels
  | y :: ys, cursor, pixels =>
    (checkedMul (y - rect.y) (resource.width * 4)).bind fun rowStart =>
      match checkedAdd offset rowStart with
      | none => some pixels
      | some guestRowOff =>
        (pixelStart resource.width rect.x y).bind fun dstRow =>
          (pixelRange pixels dstRow ((xEnd - rect.x) * 4)).bind fun row =>
            match readFromBackingIntoFrom mem resource.backing guestRowOff row cursor with
            | ((row', true), cursor') => copyRows mem resource rect xEnd offset ys cursor' (splice pixels dstRow row')
            | ((row', false), cursor') =>
              (copyPixels mem resource rect y guestRowOff (List.range' rect.x (xEnd - rect.x))
                (splice pixels dstRow row')).bind (copyRows mem resource rect xEnd offset ys cursor')

/-- `x_end`. -/
def xEnd (resource : GpuResource) (rect : Rect) : Nat := min (saturatingAdd32 rect.x rect.width) resource.width

/-- `y_end`. -/
def yEnd (resource : GpuResource) (rect : Rect) : Nat := min (saturatingAdd32 rect.y rect.height) resource.height

/-- `copy_backing_to_resource`: the pixels afterwards, `none` where it panics. -/
def copyBackingToResource (mem : GuestMemory) (resource : GpuResource) (rect : Rect) (offset : Nat) :
    Option (List UInt8) :=
  if xEnd resource rect ≤ rect.x ∨ yEnd resource rect ≤ rect.y then some resource.hostPixels
  else
    copyRows mem resource rect (xEnd resource rect) offset (List.range' rect.y (yEnd resource rect - rect.y)) .default
      resource.hostPixels

/-- The same copy pixel by pixel, without the row path and its cursor. -/
def copyPixelwise (mem : GuestMemory) (resource : GpuResource) (rect : Rect) (offset : Nat) :
    List Nat → List UInt8 → Option (List UInt8)
  | [], pixels => some pixels
  | y :: ys, pixels =>
    (checkedMul (y - rect.y) (resource.width * 4)).bind fun rowStart =>
      match checkedAdd offset rowStart with
      | none => some pixels
      | some guestRowOff =>
        (copyPixels mem resource rect y guestRowOff (List.range' rect.x (xEnd resource rect - rect.x)) pixels).bind
          (copyPixelwise mem resource rect offset ys)

/-! ## What the rectangle should show -/

/-- A pixel of the rectangle, clipped to the resource. -/
def InClip (resource : GpuResource) (rect : Rect) (x y : Nat) : Prop :=
  rect.x ≤ x ∧ x < rect.x + rect.width ∧ x < resource.width ∧ rect.y ≤ y ∧ y < rect.y + rect.height ∧
  y < resource.height

/-- **Exactly the requested pixels**: each pixel of the clipped rectangle shows its four bytes of the backing where they
are mapped and is unchanged otherwise, and so is every other byte. -/
structure Transferred (mem : GuestMemory) (resource : GpuResource) (rect : Rect) (offset : Nat) (pixels : List UInt8) :
    Prop where
  length : pixels.length = resource.hostPixels.length
  inside : ∀ x y, InClip resource rect x y → ∀ k < 4, pixels[(y * resource.width + x) * 4 + k]? =
    match logicalBytes mem (runsOf resource.backing)
      (offset + (y - rect.y) * (4 * resource.width) + (x - rect.x) * 4) 4 with
    | some data => data[k]?
    | none => resource.hostPixels[(y * resource.width + x) * 4 + k]?
  outside : ∀ i, (∀ x y, InClip resource rect x y →
    ¬((y * resource.width + x) * 4 ≤ i ∧ i < (y * resource.width + x) * 4 + 4)) →
    pixels[i]? = resource.hostPixels[i]?

/-- Where a row of the rectangle begins in the backing. -/
def rowOffset (resource : GpuResource) (rect : Rect) (offset y : Nat) : Nat :=
  offset + (y - rect.y) * (resource.width * 4)

/-- The leading mapped pieces of a row end between two pixels, or in a pixel that can be read, or hold the bytes that
the pixel they end in has already. -/
def RowWhole (mem : GuestMemory) (resource : GpuResource) (rect : Rect) (offset y : Nat) : Prop :=
  let row := rowOffset resource rect offset y
  let read := readLead mem resource.backing row ((xEnd resource rect - rect.x) * 4)
  read % 4 = 0 ∨ (logicalBytes mem (runsOf resource.backing) (row + read / 4 * 4) 4).isSome = true ∨
    ∀ k < read % 4, logicalByte mem (runsOf resource.backing) (row + read / 4 * 4 + k) =
      resource.hostPixels[(y * resource.width + rect.x) * 4 + read / 4 * 4 + k]?

/-- What the pixel loop does to a byte of a pixel. -/
def pixelByte (mem : GuestMemory) (resource : GpuResource) (offset k : Nat) (old : UInt8) : UInt8 :=
  if (logicalBytes mem (runsOf resource.backing) offset 4).isSome then
    (logicalByte mem (runsOf resource.backing) (offset + k)).getD old else old

/-- What the code does to a byte of a row of `len` bytes. -/
def rowByte (mem : GuestMemory) (resource : GpuResource) (row len j : Nat) (old : UInt8) : UInt8 :=
  if (logicalBytes mem (runsOf resource.backing) (row + j / 4 * 4) 4).isSome = true ∨
  j < readLead mem resource.backing row len then
    (logicalByte mem (runsOf resource.backing) (row + j)).getD old
  else old

section Transfers

variable {mem : GuestMemory} {resource : GpuResource} {rect : Rect} {offset guestRowOff x y : Nat}
  {pixels pixels' : List UInt8}
  {xs ys : List Nat} {cursor : BackingReadCursor}

theorem xEnd_le (resource : GpuResource) (rect : Rect) : xEnd resource rect ≤ resource.width := Nat.min_le_right _ _

theorem yEnd_le (resource : GpuResource) (rect : Rect) : yEnd resource rect ≤ resource.height := Nat.min_le_right _ _

theorem runsLength_backing (resource : GpuResource) : runsLength (runsOf resource.backing) < 2 ^ 64 := by
  have hsum : ∀ es : List BackingEntry, (∀ e ∈ es, e.len < 2 ^ 32) →
    runsLength (runsOf es) ≤ es.length * 2 ^ 32 := by
    intro es hes
    induction es with
    | nil => simp
    | cons e es ih =>
      obtain ⟨he, hes⟩ := List.forall_mem_cons.mp hes
      have hrest := ih hes
      rw [runsOf_cons, runsLength_cons, List.length_cons, Nat.add_mul]
      dsimp only
      omega
  have hle := hsum resource.backing resource.backing_len
  have hcount := resource.backing_count
  omega

theorem row_fits {xStop : Nat} (hx : xStop ≤ resource.width) (hy : y < resource.height) :
    (y * resource.width + xStop) * 4 ≤ resource.hostPixels.length ∧ resource.hostPixels.length < 2 ^ 32 := by
  have hsmall := resource.pixels_small
  have hrow : (y + 1) * resource.width ≤ resource.height * resource.width := Nat.mul_le_mul_right _ hy
  have hlen := resource.pixels_length
  have hcomm : resource.width * resource.height = resource.height * resource.width := Nat.mul_comm _ _
  have hmax : max2dHostmem < 2 ^ 32 := by decide
  rw [Nat.add_mul] at hrow
  omega

theorem pixelStart_eq (hx : x < resource.width) (hy : y < resource.height) :
    pixelStart resource.width x y = some ((y * resource.width + x) * 4) := by
  obtain ⟨hfit, hsmall⟩ : (y * resource.width + x) * 4 ≤ resource.hostPixels.length ∧
    resource.hostPixels.length < 2 ^ 32 :=
    row_fits (Nat.le_of_lt hx) hy
  unfold pixelStart
  rw [checkedMul_of_lt (by omega), Option.bind_some, checkedAdd_of_lt (by omega), Option.bind_some,
    checkedMul_of_lt (by omega)]

theorem logicalBytes_overflow (h : ¬offset < 2 ^ 64) : logicalBytes mem (runsOf resource.backing) offset 4 = none := by
  have hbacking := runsLength_backing resource
  exact logicalBytes_past (by omega) (by omega)

theorem pixelByte_none (h : logicalBytes mem (runsOf resource.backing) offset 4 = none) (j : Nat) (old : UInt8) :
    pixelByte mem resource offset j old = old := by
  unfold pixelByte
  rw [h]
  rfl

theorem readPixel_eq (offset : Nat) (hmem : mem.Bytewise) :
    match logicalBytes mem (runsOf resource.backing) offset 4 with
    | some data => readFromBackingInto mem resource.backing offset (List.replicate 4 0) = (data, true)
    | none => (readFromBackingInto mem resource.backing offset (List.replicate 4 0)).2 = false := by
  have hne : List.replicate 4 (0 : UInt8) ≠ [] := by simp
  exact readFromBackingInto_eq hmem (runsLength_backing resource) hne

theorem pixel_apart (y : Nat) {x' : Nat} (h : x < x') :
    (y * resource.width + x) * 4 + 4 ≤ (y * resource.width + x') * 4 := by omega

/-- **The pixel loop** paints each pixel that is mapped and keeps the others. -/
theorem copyPixels_painted (hmem : mem.Bytewise) (hy : y < resource.height)
    (hlen : pixels.length = resource.hostPixels.length)
    (hxs : xs.Pairwise (· < ·)) (hin : ∀ x ∈ xs, rect.x ≤ x ∧ x < resource.width) :
    ∃ pixels', copyPixels mem resource rect y guestRowOff xs pixels = some pixels' ∧
      Painted (fun x => (y * resource.width + x) * 4) 4
        (fun x => pixelByte mem resource (guestRowOff + (x - rect.x) * 4)) xs pixels pixels' := by
  induction xs generalizing pixels with
  | nil => exact ⟨pixels, rfl, .nil⟩
  | cons x xs ih =>
    obtain ⟨hfirst, hrest⟩ := List.pairwise_cons.mp hxs
    obtain ⟨⟨hlow, hx⟩, hinRest⟩ := List.forall_mem_cons.mp hin
    rw [copyPixels]
    cases hchecked : checkedAdd guestRowOff ((x - rect.x) * 4) with
    | none =>
      -- the offset of this pixel overflows, and so do those of the rest
      have hover : ¬guestRowOff + (x - rect.x) * 4 < 2 ^ 64 := by
        intro h
        rw [checkedAdd_of_lt h] at hchecked
        cases hchecked
      refine ⟨pixels, rfl, .of_id fun x' hx' j _ old => pixelByte_none ?_ j old⟩
      have hle : x ≤ x' := by
        rcases List.mem_cons.mp hx' with rfl | hx'
        · exact Nat.le_refl _
        · exact Nat.le_of_lt (hfirst x' hx')
      exact logicalBytes_overflow (by omega)
    | some guestOff =>
      obtain rfl := checkedAdd_some hchecked
      dsimp only
      obtain ⟨hfit, -⟩ : (y * resource.width + (x + 1)) * 4 ≤ resource.hostPixels.length ∧ _ := row_fits hx hy
      have hpixel := @readPixel_eq mem resource (guestRowOff + (x - rect.x) * 4) hmem
      have hapart : ∀ x' ∈ xs, (y * resource.width + x) * 4 + 4 ≤ (y * resource.width + x') * 4 ∨
          (y * resource.width + x') * 4 + 4 ≤ (y * resource.width + x) * 4 :=
        fun x' hx' => .inl (pixel_apart y (hfirst x' hx'))
      cases hdata : logicalBytes mem (runsOf resource.backing) (guestRowOff + (x - rect.x) * 4) 4 with
      | none =>
        rw [hdata] at hpixel
        cases hresult : readFromBackingInto mem resource.backing (guestRowOff + (x - rect.x) * 4)
          (List.replicate 4 0) with
        | mk pixel ok =>
          rw [hresult] at hpixel
          obtain rfl : ok = false := hpixel
          obtain ⟨pixels', hcopy, hpainted⟩ := ih hlen hrest hinRest
          refine ⟨pixels', hcopy, .cons (.of_id fun x' hx' j _ old => ?_) hpainted hapart⟩
          rw [List.mem_singleton.mp hx']
          exact pixelByte_none hdata j old
      | some data =>
        rw [hdata] at hpixel
        obtain ⟨-, hcount⟩ := logicalBytes_eq (by omega) hdata
        have hspliced : (splice pixels ((y * resource.width + x) * 4) data).length = resource.hostPixels.length := by
          rw [length_splice (by omega), hlen]
        obtain ⟨pixels', hcopy, hpainted⟩ := ih hspliced hrest hinRest
        have hrange : pixelRange pixels ((y * resource.width + x) * 4) 4 =
            some (slice pixels ((y * resource.width + x) * 4) 4) := if_pos (by omega)
        rw [hpixel]
        dsimp only
        rw [pixelStart_eq hx hy, Option.bind_some, hrange, Option.bind_some]
        refine ⟨pixels', hcopy, .cons (.splice hcount (by omega) fun j hj old => ?_) hpainted hapart⟩
        have hbyte := getElem?_logicalBytes hdata hj
        unfold pixelByte
        rw [hdata, Option.isSome_some, if_pos rfl, ← hbyte, List.getElem?_eq_getElem (by omega), Option.getD_some]

/-- The window of a row. -/
def rowStart (resource : GpuResource) (rect : Rect) (y : Nat) : Nat := (y * resource.width + rect.x) * 4

/-- The length of a row. -/
def rowLen (resource : GpuResource) (rect : Rect) : Nat := (xEnd resource rect - rect.x) * 4

/-- The pixels after the row path read what it could. -/
def afterRowPath (mem : GuestMemory) (resource : GpuResource) (rect : Rect) (row y : Nat) (pixels : List UInt8) :
    List UInt8 :=
  splice pixels (rowStart resource rect y)
    (splice (slice pixels (rowStart resource rect y) (rowLen resource rect)) 0
      (backingBytes mem resource.backing row (readLead mem resource.backing row (rowLen resource rect))))

theorem length_lead (mem : GuestMemory) (backing : List BackingEntry) (row len : Nat) :
    (backingBytes mem backing row (readLead mem backing row len)).length = readLead mem backing row len := by
  have hle := readLead_le mem backing row len
  unfold backingBytes
  rw [List.length_map, List.length_take, List.length_drop, length_addresses]
  unfold readLead at hle ⊢
  split
  · rename_i hin
    rw [if_pos hin] at hle
    omega
  · omega

/-- What the row path leaves in the pixels. -/
theorem getElem?_afterRowPath (row : Nat) (hfit : rowStart resource rect y + rowLen resource rect ≤ pixels.length) :
    (afterRowPath mem resource rect row y pixels).length = pixels.length ∧
    ∀ i, (afterRowPath mem resource rect row y pixels)[i]? =
      if rowStart resource rect y ≤ i ∧
      i < rowStart resource rect y + readLead mem resource.backing row (rowLen resource rect) then
        (backingBytes mem resource.backing row
          (readLead mem resource.backing row (rowLen resource rect)))[i - rowStart resource rect y]?
      else pixels[i]? := by
  have hle := readLead_le mem resource.backing row (rowLen resource rect)
  have hlead := length_lead mem resource.backing row (rowLen resource rect)
  have hslice : (slice pixels (rowStart resource rect y) (rowLen resource rect)).length = rowLen resource rect :=
    length_slice hfit
  have hinner : (splice (slice pixels (rowStart resource rect y) (rowLen resource rect)) 0
      (backingBytes mem resource.backing row (readLead mem resource.backing row (rowLen resource rect)))).length =
        rowLen resource rect := by
    rw [length_splice (by omega), hslice]
  unfold afterRowPath
  refine ⟨length_splice (by omega), fun i => ?_⟩
  rw [getElem?_splice (by omega), hinner, getElem?_splice (by omega), hlead, getElem?_slice]
  by_cases hrow : rowStart resource rect y ≤ i ∧ i < rowStart resource rect y + rowLen resource rect
  · have hplace : rowStart resource rect y + (i - rowStart resource rect y) = i := by omega
    rw [if_pos hrow, hplace]
    by_cases hread : i - rowStart resource rect y < readLead mem resource.backing row (rowLen resource rect)
    · rw [if_pos (by omega), if_pos (by omega), Nat.sub_zero]
    · rw [if_neg (by omega), if_pos (by omega), if_neg (by omega)]
  · rw [if_neg hrow, if_neg (by omega)]

theorem rowByte_mapped {row len j : Nat} {b : UInt8} (hb : logicalByte mem (runsOf resource.backing) (row + j) = some b)
    (h : (logicalBytes mem (runsOf resource.backing) (row + j / 4 * 4) 4).isSome = true ∨
      j < readLead mem resource.backing row len)
    (old : UInt8) : rowByte mem resource row len j old = b := by
  unfold rowByte
  rw [if_pos h, hb, Option.getD_some]

theorem lead_mapped (hmem : mem.Bytewise) (resource : GpuResource) {row len j : Nat}
    (hj : j < readLead mem resource.backing row len) :
    ∃ b, logicalByte mem (runsOf resource.backing) (row + j) = some b ∧
      (backingBytes mem resource.backing row (readLead mem resource.backing row len))[j]? = some b := by
  have hbyte := logicalByte_lead hmem hj
  have hin : j < (backingBytes mem resource.backing row (readLead mem resource.backing row len)).length := by
    rw [length_lead]
    exact hj
  rw [List.getElem?_eq_getElem hin] at hbyte
  exact ⟨_, hbyte.symm, List.getElem?_eq_getElem hin⟩

/-- **A row that is read as a whole** shows the backing. -/
theorem rowPath_painted (hmem : mem.Bytewise) {row : Nat}
    (hfit : rowStart resource rect y + rowLen resource rect ≤ pixels.length)
    (hall : readLead mem resource.backing row (rowLen resource rect) = rowLen resource rect) :
    Painted (rowStart resource rect) (rowLen resource rect) (fun _ => rowByte mem resource row (rowLen resource rect))
      [y]
      pixels (afterRowPath mem resource rect row y pixels) := by
  obtain ⟨hlen, helem⟩ := @getElem?_afterRowPath mem resource rect y pixels row hfit
  refine ⟨hlen, fun y' hy' j hj => ?_, fun i hi => ?_⟩
  · rw [List.mem_singleton.mp hy']
    have hj' : j < readLead mem resource.backing row (rowLen resource rect) := by omega
    obtain ⟨b, hb, hread⟩ := lead_mapped hmem resource hj'
    have hin : rowStart resource rect y + j < pixels.length := by omega
    rw [helem, if_pos (by omega), Nat.add_sub_cancel_left, hread, List.getElem?_eq_getElem hin, Option.map_some,
      rowByte_mapped hb (.inr (by omega))]
  · have hout := hi y (List.mem_singleton.mpr rfl)
    rw [helem, if_neg (by omega)]

theorem row_of_pixels {row : Nat} (h : Painted (fun x => (y * resource.width + x) * 4) 4
    (fun x => pixelByte mem resource (row + (x - rect.x) * 4))
      (List.range' rect.x (xEnd resource rect - rect.x)) pixels pixels') :
    Painted (rowStart resource rect) (rowLen resource rect)
      (fun _ j => pixelByte mem resource (row + j / 4 * 4) (j % 4)) [y]
      pixels pixels' := by
  refine ⟨h.length, fun y' hy' j hj => ?_, fun i hi => h.outside i fun x hx hin => ?_⟩
  · rw [List.mem_singleton.mp hy']
    have hj' : j < (xEnd resource rect - rect.x) * 4 := hj
    have hplace : (y * resource.width + (rect.x + j / 4)) * 4 + j % 4 = rowStart resource rect y + j := by
      unfold rowStart
      omega
    have hpixel := h.inside (rect.x + j / 4) (List.mem_range'_1.mpr ⟨by omega, by omega⟩) (j % 4) (by omega)
    rw [hplace, Nat.add_sub_cancel_left rect.x] at hpixel
    exact hpixel
  · have hout := hi y (List.mem_singleton.mpr rfl)
    have hrange := List.mem_range'_1.mp hx
    unfold rowStart rowLen at hout
    omega

theorem copyPixels_row (hmem : mem.Bytewise) {row : Nat} (hy : y < resource.height)
    (hlen : pixels.length = resource.hostPixels.length) :
    ∃ pixels', copyPixels mem resource rect y row (List.range' rect.x (xEnd resource rect - rect.x)) pixels =
      some pixels' ∧
      Painted (rowStart resource rect) (rowLen resource rect)
        (fun _ j => pixelByte mem resource (row + j / 4 * 4) (j % 4)) [y]
        pixels pixels' := by
  have hle := xEnd_le resource rect
  have hxs : (List.range' rect.x (xEnd resource rect - rect.x)).Pairwise (· < ·) := List.pairwise_lt_range'
  have hin : ∀ x ∈ List.range' rect.x (xEnd resource rect - rect.x), rect.x ≤ x ∧ x < resource.width := by
    intro x hx
    have hrange := List.mem_range'_1.mp hx
    omega
  obtain ⟨pixels', hcopy, hpainted⟩ := copyPixels_painted hmem hy hlen hxs hin
  exact ⟨pixels', hcopy, row_of_pixels hpainted⟩

/-- **A row that is read in part, and then pixel by pixel.** -/
theorem rowPixels_painted (hmem : mem.Bytewise) {row : Nat} (hy : y < resource.height)
    (hlen : pixels.length = resource.hostPixels.length)
    (hfit : rowStart resource rect y + rowLen resource rect ≤ pixels.length) :
    ∃ pixels', copyPixels mem resource rect y row (List.range' rect.x (xEnd resource rect - rect.x))
        (afterRowPath mem resource rect row y pixels) = some pixels' ∧
      Painted (rowStart resource rect) (rowLen resource rect) (fun _ => rowByte mem resource row (rowLen resource rect))
        [y]
        pixels pixels' := by
  obtain ⟨hpath, helem⟩ := @getElem?_afterRowPath mem resource rect y pixels row hfit
  have hread := readLead_le mem resource.backing row (rowLen resource rect)
  obtain ⟨pixels', hcopy, hpainted⟩ : ∃ pixels', copyPixels mem resource rect y row _ _ = some pixels' ∧ _ :=
    copyPixels_row hmem hy (hpath.trans hlen)
  refine ⟨pixels', hcopy, hpainted.length.trans hpath, fun y' hy' j hj => ?_, fun i hi => ?_⟩
  · rw [List.mem_singleton.mp hy', hpainted.inside y (List.mem_singleton.mpr rfl) j hj, helem]
    have hin : rowStart resource rect y + j < pixels.length := by omega
    rw [List.getElem?_eq_getElem hin, Option.map_some]
    by_cases hmapped : (logicalBytes mem (runsOf resource.backing) (row + j / 4 * 4) 4).isSome = true
    · -- the pixel of this byte can be read: what the row path left does not count
      have hbyte := logicalBytes_isSome.mp hmapped (j % 4) (by omega)
      obtain ⟨b, hb⟩ := Option.isSome_iff_exists.mp hbyte
      have hoff : row + j / 4 * 4 + j % 4 = row + j := by omega
      have hshown : pixelByte mem resource (row + j / 4 * 4) (j % 4) = fun _ => b := by
        funext old
        unfold pixelByte
        rw [if_pos hmapped, hb, Option.getD_some]
      rw [hoff] at hb
      rw [hshown, rowByte_mapped hb (.inl hmapped)]
      split
      · have hlead : j < readLead mem resource.backing row (rowLen resource rect) := by omega
        obtain ⟨b', -, hb'⟩ := lead_mapped hmem resource hlead
        rw [Nat.add_sub_cancel_left, hb', Option.map_some]
      · rfl
    · have hnone : logicalBytes mem (runsOf resource.backing) (row + j / 4 * 4) 4 = none := by simpa using hmapped
      have hkept : pixelByte mem resource (row + j / 4 * 4) (j % 4) = id := funext fun old => pixelByte_none hnone _ old
      rw [hkept, Option.map_id]
      by_cases hlead : j < readLead mem resource.backing row (rowLen resource rect)
      · obtain ⟨b, hb, hb'⟩ := lead_mapped hmem resource hlead
        rw [if_pos (by omega), Nat.add_sub_cancel_left, hb', rowByte_mapped hb (.inr hlead)]
        rfl
      · rw [if_neg (by omega)]
        unfold rowByte
        rw [if_neg (by simp [hnone, hlead])]
        rfl
  · have hout := hi y (List.mem_singleton.mpr rfl)
    rw [hpainted.outside i hi, helem, if_neg (by omega)]

theorem row_apart (resource : GpuResource) (rect : Rect) {y' : Nat} (h : y < y') :
    rowStart resource rect y + rowLen resource rect ≤ rowStart resource rect y' := by
  have hle := xEnd_le resource rect
  have hrow : (y + 1) * resource.width ≤ y' * resource.width := Nat.mul_le_mul_right _ h
  unfold rowStart rowLen
  rw [Nat.add_mul] at hrow
  omega

theorem rowByte_overflow {row len : Nat} (h : ¬row < 2 ^ 64) (j : Nat) (old : UInt8) :
    rowByte mem resource row len j old = old := by
  have hbacking := runsLength_backing resource
  have hnone : logicalBytes mem (runsOf resource.backing) (row + j / 4 * 4) 4 = none := logicalBytes_overflow (by omega)
  have hlead : readLead mem resource.backing row len = 0 := if_neg (by omega)
  unfold rowByte
  rw [hnone, hlead]
  simp

theorem checkedMul_row (rect : Rect) (hy : y < resource.height) :
    checkedMul (y - rect.y) (resource.width * 4) = some ((y - rect.y) * (resource.width * 4)) := by
  obtain ⟨hfit, hsmall⟩ : (y * resource.width + 0) * 4 ≤ resource.hostPixels.length ∧ _ :=
    row_fits (Nat.zero_le _) hy
  have hle : (y - rect.y) * (resource.width * 4) ≤ y * (resource.width * 4) := Nat.mul_le_mul_right _ (Nat.sub_le _ _)
  have hassoc : y * (resource.width * 4) = (y * resource.width + 0) * 4 := by rw [Nat.add_zero, Nat.mul_assoc]
  exact checkedMul_of_lt (by omega)

/-- **The loop over the rows** paints each of them as `rowByte` says. -/
theorem copyRows_painted (hmem : mem.Bytewise) (hx : rect.x < xEnd resource rect) (hys : ys.Pairwise (· < ·))
    (hin : ∀ y ∈ ys, rect.y ≤ y ∧ y < resource.height) (hlen : pixels.length = resource.hostPixels.length)
    (hcursor : cursor.Valid resource.backing) :
    ∃ pixels', copyRows mem resource rect (xEnd resource rect) offset ys cursor pixels = some pixels' ∧
      Painted (rowStart resource rect) (rowLen resource rect)
        (fun y => rowByte mem resource (rowOffset resource rect offset y)
          (rowLen resource rect)) ys pixels pixels' := by
  induction ys generalizing pixels cursor with
  | nil => exact ⟨pixels, rfl, .nil⟩
  | cons y ys ih =>
    obtain ⟨hfirst, hrest⟩ := List.pairwise_cons.mp hys
    obtain ⟨⟨hlow, hy⟩, hinRest⟩ := List.forall_mem_cons.mp hin
    have hle := xEnd_le resource rect
    obtain ⟨hrow, -⟩ : (y * resource.width + xEnd resource rect) * 4 ≤ resource.hostPixels.length ∧ _ :=
      row_fits hle hy
    have hfit : rowStart resource rect y + rowLen resource rect ≤ pixels.length := by
      unfold rowStart rowLen
      omega
    have hapart : ∀ y' ∈ ys, rowStart resource rect y + rowLen resource rect ≤ rowStart resource rect y' ∨
        rowStart resource rect y' + rowLen resource rect ≤ rowStart resource rect y :=
      fun y' hy' => .inl (row_apart resource rect (hfirst y' hy'))
    rw [copyRows, checkedMul_row rect hy, Option.bind_some]
    cases hchecked : checkedAdd offset ((y - rect.y) * (resource.width * 4)) with
    | none =>
      -- this row is past the 64-bit offsets, and so are the rest
      have hover : ¬offset + (y - rect.y) * (resource.width * 4) < 2 ^ 64 := by
        intro h
        rw [checkedAdd_of_lt h] at hchecked
        cases hchecked
      refine ⟨pixels, rfl, .of_id fun y' hy' j _ old => rowByte_overflow ?_ j old⟩
      have hstep : (y - rect.y) * (resource.width * 4) ≤ (y' - rect.y) * (resource.width * 4) := by
        refine Nat.mul_le_mul_right _ (Nat.sub_le_sub_right ?_ _)
        rcases List.mem_cons.mp hy' with rfl | hy'
        · exact Nat.le_refl _
        · exact Nat.le_of_lt (hfirst y' hy')
      unfold rowOffset
      omega
    | some guestRowOff =>
      obtain rfl := checkedAdd_some hchecked
      dsimp only
      have hstart : pixelStart resource.width rect.x y = some (rowStart resource rect y) := pixelStart_eq (by omega) hy
      have hrange : pixelRange pixels (rowStart resource rect y) ((xEnd resource rect - rect.x) * 4) =
          some (slice pixels (rowStart resource rect y) (rowLen resource rect)) := if_pos hfit
      have hslice : (slice pixels (rowStart resource rect y) (rowLen resource rect)).length = rowLen resource rect :=
        length_slice hfit
      have hne : slice pixels (rowStart resource rect y) (rowLen resource rect) ≠ [] := by
        intro h
        rw [h, List.length_nil] at hslice
        unfold rowLen at hslice
        omega
      rw [hstart, Option.bind_some, hrange, Option.bind_some]
      obtain ⟨row, hoffset⟩ : ∃ row, row = rowOffset resource rect offset y := ⟨_, rfl⟩
      have hstep : offset + (y - rect.y) * (resource.width * 4) = row := hoffset.symm
      rw [hstep]
      obtain ⟨hread, hvalid⟩ : (readFromBackingIntoFrom mem resource.backing row _ cursor).1 = _ ∧ _ :=
        readFromBackingIntoFrom_eq hmem (runsLength_backing resource) hcursor hne
      rw [hslice] at hread
      cases hresult : readFromBackingIntoFrom mem resource.backing row
          (slice pixels (rowStart resource rect y) (rowLen resource rect)) cursor with
      | mk result cursor' =>
        rw [hresult] at hread hvalid
        dsimp only at hread hvalid
        subst hread
        have hsame : ∀ {pixels'}, Painted (rowStart resource rect) (rowLen resource rect)
            (fun _ => rowByte mem resource row (rowLen resource rect)) [y] pixels pixels' →
            Painted (rowStart resource rect) (rowLen resource rect)
              (fun y => rowByte mem resource (rowOffset resource rect offset y) (rowLen resource rect))
                [y] pixels pixels' := by
          intro pixels' h
          refine h.congr fun y' hy' j _ old _ => ?_
          rw [List.mem_singleton.mp hy', hoffset]
        by_cases hall : readLead mem resource.backing row (rowLen resource rect) = rowLen resource rect
        · have hpath : Painted _ _ _ [y] pixels _ := rowPath_painted hmem hfit hall
          have hone := hsame hpath
          obtain ⟨pixels', hcopy, hpainted⟩ := ih hrest hinRest (hone.length.trans hlen) hvalid
          refine ⟨pixels', ?_, .cons hone hpainted hapart⟩
          rw [decide_eq_true hall]
          exact hcopy
        · obtain ⟨after, hafter, hone⟩ : ∃ after, copyPixels mem resource rect y row _ _ = some after ∧ _ :=
            rowPixels_painted hmem hy hlen hfit
          have hone' := hsame hone
          obtain ⟨pixels', hcopy, hpainted⟩ := ih hrest hinRest (hone'.length.trans hlen) hvalid
          refine ⟨pixels', ?_, .cons hone' hpainted hapart⟩
          rw [decide_eq_false hall]
          exact Option.bind_eq_some_iff.mpr ⟨after, hafter, hcopy⟩

theorem pixelByte_overflow (h : ¬offset < 2 ^ 64) (k : Nat) (old : UInt8) :
    pixelByte mem resource offset k old = old :=
  pixelByte_none (logicalBytes_overflow h) k old

/-- **The copy pixel by pixel** paints each row as `pixelByte` says. -/
theorem copyPixelwise_painted (hmem : mem.Bytewise) (hys : ys.Pairwise (· < ·))
    (hin : ∀ y ∈ ys, rect.y ≤ y ∧ y < resource.height) (hlen : pixels.length = resource.hostPixels.length) :
    ∃ pixels', copyPixelwise mem resource rect offset ys pixels = some pixels' ∧
      Painted (rowStart resource rect) (rowLen resource rect)
        (fun y j => pixelByte mem resource (rowOffset resource rect offset y + j / 4 * 4)
          (j % 4)) ys pixels pixels' := by
  induction ys generalizing pixels with
  | nil => exact ⟨pixels, rfl, .nil⟩
  | cons y ys ih =>
    obtain ⟨hfirst, hrest⟩ := List.pairwise_cons.mp hys
    obtain ⟨⟨hlow, hy⟩, hinRest⟩ := List.forall_mem_cons.mp hin
    have hapart : ∀ y' ∈ ys, rowStart resource rect y + rowLen resource rect ≤ rowStart resource rect y' ∨
        rowStart resource rect y' + rowLen resource rect ≤ rowStart resource rect y :=
      fun y' hy' => .inl (row_apart resource rect (hfirst y' hy'))
    rw [copyPixelwise, checkedMul_row rect hy, Option.bind_some]
    cases hchecked : checkedAdd offset ((y - rect.y) * (resource.width * 4)) with
    | none =>
      have hover : ¬offset + (y - rect.y) * (resource.width * 4) < 2 ^ 64 := by
        intro h
        rw [checkedAdd_of_lt h] at hchecked
        cases hchecked
      refine ⟨pixels, rfl, .of_id fun y' hy' j _ old => pixelByte_overflow ?_ _ old⟩
      have hstep : (y - rect.y) * (resource.width * 4) ≤ (y' - rect.y) * (resource.width * 4) := by
        refine Nat.mul_le_mul_right _ (Nat.sub_le_sub_right ?_ _)
        rcases List.mem_cons.mp hy' with rfl | hy'
        · exact Nat.le_refl _
        · exact Nat.le_of_lt (hfirst y' hy')
      unfold rowOffset
      omega
    | some guestRowOff =>
      obtain rfl := checkedAdd_some hchecked
      obtain ⟨after, hafter, hone⟩ : ∃ after,
        copyPixels mem resource rect y (rowOffset resource rect offset y) _ pixels = some after ∧ _ :=
        copyPixels_row hmem hy hlen
      obtain ⟨pixels', hcopy, hpainted⟩ := ih hrest hinRest (hone.length.trans hlen)
      have hone' : Painted (rowStart resource rect) (rowLen resource rect)
          (fun y j => pixelByte mem resource (rowOffset resource rect offset y + j / 4 * 4) (j % 4))
            [y] pixels after := by
        refine hone.congr fun y' hy' j _ old _ => ?_
        rw [List.mem_singleton.mp hy']
      exact ⟨pixels', Option.bind_eq_some_iff.mpr ⟨after, hafter, hcopy⟩, .cons hone' hpainted hapart⟩

/-- The rows of the clipped rectangle. -/
def clipRows (resource : GpuResource) (rect : Rect) : List Nat := List.range' rect.y (yEnd resource rect - rect.y)

theorem mem_clipRows : y ∈ clipRows resource rect ↔ rect.y ≤ y ∧ y < yEnd resource rect := by
  unfold clipRows
  rw [List.mem_range'_1]
  omega

theorem inClip_iff : InClip resource rect x y ↔ rect.x ≤ x ∧ x < xEnd resource rect ∧ rect.y ≤ y ∧
    y < yEnd resource rect := by
  have hw := resource.width_lt
  have hh := resource.height_lt
  unfold InClip xEnd yEnd saturatingAdd32
  omega

theorem map_pixelByte {k : Nat} (hk : k < 4) (old : Option UInt8) (hold : old.isSome) :
    old.map (pixelByte mem resource offset k) =
      match logicalBytes mem (runsOf resource.backing) offset 4 with
      | some data => data[k]?
      | none => old := by
  obtain ⟨b, rfl⟩ := Option.isSome_iff_exists.mp hold
  cases hdata : logicalBytes mem (runsOf resource.backing) offset 4 with
  | none => rw [Option.map_some, pixelByte_none hdata]
  | some data =>
    have hlen := (logicalBytes_eq (by omega) hdata).2
    have hbyte := getElem?_logicalBytes hdata hk
    rw [Option.map_some, pixelByte, hdata, Option.isSome_some, if_pos rfl, ← hbyte,
      List.getElem?_eq_getElem (by omega),
      Option.getD_some]
    exact (List.getElem?_eq_getElem (by omega)).symm

/-- **Exactly the requested pixels** are what the pixel loop paints. -/
theorem transferred_iff : Transferred mem resource rect offset pixels ↔
    Painted (rowStart resource rect) (rowLen resource rect)
      (fun y j => pixelByte mem resource (rowOffset resource rect offset y + j / 4 * 4) (j % 4))
        (clipRows resource rect)
      resource.hostPixels pixels := by
  have hle := xEnd_le resource rect
  have hplaces : ∀ {x y}, rect.x ≤ x → offset + (y - rect.y) * (4 * resource.width) + (x - rect.x) * 4 =
      rowOffset resource rect offset y + (x - rect.x) * 4 := by
    intro x y _
    rw [rowOffset, Nat.mul_comm 4]
  have hbytes : ∀ {x y}, InClip resource rect x y → ∀ k < 4,
    (resource.hostPixels[(y * resource.width + x) * 4 + k]?).isSome := by
    intro x y hclip k hk
    obtain ⟨hfit, -⟩ : (y * resource.width + (x + 1)) * 4 ≤ resource.hostPixels.length ∧ _ :=
      row_fits hclip.2.2.1 hclip.2.2.2.2.2
    rw [List.getElem?_eq_getElem (by omega)]
    rfl
  constructor
  · intro h
    refine ⟨h.length, fun y hy j hj => ?_, fun i hi => h.outside i fun x y hclip hin => ?_⟩
    · have hj' : j < (xEnd resource rect - rect.x) * 4 := hj
      have hclip : InClip resource rect (rect.x + j / 4) y := by
        rw [inClip_iff]
        have := mem_clipRows.mp hy
        omega
      have hplace : (y * resource.width + (rect.x + j / 4)) * 4 + j % 4 = rowStart resource rect y + j := by
        unfold rowStart
        omega
      have hpixel := h.inside _ _ hclip (j % 4) (by omega)
      have hold := hbytes hclip (j % 4) (by omega)
      rw [hplace, hplaces (by omega), Nat.add_sub_cancel_left] at hpixel
      rw [hplace] at hold
      rw [hpixel, map_pixelByte (by omega) _ hold]
    · rw [inClip_iff] at hclip
      have hout := hi y (mem_clipRows.mpr ⟨hclip.2.2.1, hclip.2.2.2⟩)
      unfold rowStart rowLen at hout
      omega
  · intro h
    refine ⟨h.length, fun x y hclip k hk => ?_, fun i hi => h.outside i fun y hy hin => ?_⟩
    · have hold := hbytes hclip k hk
      obtain ⟨hlow, hx, hylow, hy⟩ := inClip_iff.mp hclip
      have hplace : (y * resource.width + x) * 4 + k = rowStart resource rect y + ((x - rect.x) * 4 + k) := by
        unfold rowStart
        omega
      have hj : (x - rect.x) * 4 + k < rowLen resource rect := by
        unfold rowLen
        omega
      have hrow := h.inside y (mem_clipRows.mpr ⟨hylow, hy⟩) _ hj
      have hdiv : ((x - rect.x) * 4 + k) / 4 = x - rect.x := by omega
      have hmod : ((x - rect.x) * 4 + k) % 4 = k := by omega
      rw [hdiv, hmod, ← hplace, map_pixelByte hk _ hold] at hrow
      rw [hrow, hplaces hlow]
    · have hrange := mem_clipRows.mp hy
      unfold rowStart rowLen at hin
      obtain ⟨x, hx⟩ : ∃ x, x = rect.x + (i - (y * resource.width + rect.x) * 4) / 4 := ⟨_, rfl⟩
      have hclip : InClip resource rect x y := inClip_iff.mpr ⟨by omega, by omega, hrange.1, hrange.2⟩
      have hout := hi x y hclip
      omega

/-- **Where the row path does no harm**: exactly in a row that is whole. -/
theorem rowWhole_iff (hmem : mem.Bytewise) (hy : y ∈ clipRows resource rect) :
    (∀ j < rowLen resource rect, (resource.hostPixels[rowStart resource rect y + j]?).map
        (rowByte mem resource (rowOffset resource rect offset y) (rowLen resource rect) j) =
      (resource.hostPixels[rowStart resource rect y + j]?).map
        (pixelByte mem resource (rowOffset resource rect offset y + j / 4 * 4) (j % 4))) ↔
      RowWhole mem resource rect offset y := by
  obtain ⟨row, hrow⟩ : ∃ row, row = rowOffset resource rect offset y := ⟨_, rfl⟩
  obtain ⟨read, hread⟩ : ∃ read, read = readLead mem resource.backing row (rowLen resource rect) := ⟨_, rfl⟩
  have hle := xEnd_le resource rect
  have hreadLe : read ≤ rowLen resource rect := by
    rw [hread]
    exact readLead_le _ _ _ _
  have hin : ∀ j < rowLen resource rect, rowStart resource rect y + j < resource.hostPixels.length := by
    intro j hj
    have hlast := mem_clipRows.mp hy
    have hheight := yEnd_le resource rect
    obtain ⟨hfit, -⟩ : (y * resource.width + xEnd resource rect) * 4 ≤ resource.hostPixels.length ∧ _ :=
      row_fits hle (by omega)
    unfold rowStart rowLen at *
    omega
  have hmapped : ∀ j < read, ∃ b, logicalByte mem (runsOf resource.backing) (row + j) = some b := by
    intro j hj
    obtain ⟨b, hb, -⟩ := @lead_mapped mem hmem resource row (rowLen resource rect) j (by omega)
    exact ⟨b, hb⟩
  have hwhole : RowWhole mem resource rect offset y ↔ (read % 4 = 0 ∨
      (logicalBytes mem (runsOf resource.backing) (row + read / 4 * 4) 4).isSome = true ∨
        ∀ k < read % 4, logicalByte mem (runsOf resource.backing) (row + read / 4 * 4 + k) =
          resource.hostPixels[rowStart resource rect y + read / 4 * 4 + k]?) := by
    rw [hread, hrow]
    rfl
  rw [hwhole, ← hrow]
  constructor
  · intro h
    by_cases haligned : read % 4 = 0
    · exact .inl haligned
    · by_cases hpixel : (logicalBytes mem (runsOf resource.backing) (row + read / 4 * 4) 4).isSome = true
      · exact .inr (.inl hpixel)
      · -- the bytes the row path left in the torn pixel
        refine .inr (.inr fun k hk => ?_)
        have hbyte := h (read / 4 * 4 + k) (by omega)
        obtain ⟨b, hb⟩ := hmapped (read / 4 * 4 + k) (by omega)
        have hdiv : (read / 4 * 4 + k) / 4 = read / 4 := by omega
        have hkept : pixelByte mem resource (row + read / 4 * 4) ((read / 4 * 4 + k) % 4) = id :=
          funext fun old => pixelByte_none (by simpa using hpixel) _ old
        rw [hdiv, hkept, Option.map_id, List.getElem?_eq_getElem (hin _ (by omega)), Option.map_some,
          rowByte_mapped hb (.inr (by omega))] at hbyte
        rw [Nat.add_assoc, Nat.add_assoc, hb, hbyte, List.getElem?_eq_getElem (hin _ (by omega))]
        rfl
  · intro h j hj
    obtain ⟨old, hold⟩ : ∃ old, resource.hostPixels[rowStart resource rect y + j]? = some old :=
      ⟨_, List.getElem?_eq_getElem (hin j hj)⟩
    rw [hold, Option.map_some, Option.map_some, Option.some.injEq]
    have hoff : row + j / 4 * 4 + j % 4 = row + j := by omega
    by_cases hpixel : (logicalBytes mem (runsOf resource.backing) (row + j / 4 * 4) 4).isSome = true
    · unfold rowByte pixelByte
      rw [if_pos (.inl hpixel), if_pos hpixel, hoff]
    · rw [pixelByte_none (by simpa using hpixel)]
      by_cases hlead : j < read
      · -- a byte of the pixel in which the mapped pieces end
        have hlast : j / 4 = read / 4 := by
          by_contra hne
          refine hpixel (logicalBytes_isSome.mpr fun k hk => ?_)
          obtain ⟨b, hb⟩ := hmapped (j / 4 * 4 + k) (by omega)
          rw [Nat.add_assoc, hb]
          rfl
        obtain ⟨b, hb⟩ := hmapped j hlead
        rw [rowByte_mapped hb (.inr (by omega))]
        rcases h with haligned | hread | hsame
        · omega
        · rw [← hlast] at hread
          exact absurd hread hpixel
        · have hbyte := hsame (j % 4) (by omega)
          have hplace : rowStart resource rect y + read / 4 * 4 + j % 4 = rowStart resource rect y + j := by omega
          rw [← hlast, hoff, hb, hlast, hplace, hold] at hbyte
          exact Option.some.inj hbyte
      · unfold rowByte
        rw [if_neg]
        intro hor
        rcases hor with hsome | hlt
        · exact hpixel hsome
        · omega

end Transfers

/-- **TRANSFER_TO_HOST_2D** does not overflow, and copies exactly the requested pixels, as without its row path, when
and only when the leading mapped pieces of no row end in a pixel that cannot be read and has other bytes. -/
theorem transfer_exact_iff (mem : GuestMemory) (hmem : mem.Bytewise) (resource : GpuResource) (rect : Rect)
    (offset : Nat) :
    ∃ pixels, copyBackingToResource mem resource rect offset = some pixels ∧
      (Transferred mem resource rect offset pixels ∧
          copyPixelwise mem resource rect offset (clipRows resource rect) resource.hostPixels = some pixels ↔
        ∀ y, rect.y ≤ y → y < yEnd resource rect → RowWhole mem resource rect offset y) := by
  have hheight := yEnd_le resource rect
  have hys : (clipRows resource rect).Pairwise (· < ·) := List.pairwise_lt_range'
  have hin : ∀ y ∈ clipRows resource rect, rect.y ≤ y ∧ y < resource.height := by
    intro y hy
    have hrange := mem_clipRows.mp hy
    exact ⟨hrange.1, by omega⟩
  obtain ⟨pixelwise, hpixelwise, hexact⟩ : ∃ pixels',
    copyPixelwise mem resource rect offset _ resource.hostPixels = some pixels' ∧ _ :=
    copyPixelwise_painted hmem hys hin rfl
  obtain ⟨pixels, hcopy, hpainted⟩ : ∃ pixels, copyBackingToResource mem resource rect offset = some pixels ∧
      Painted (rowStart resource rect) (rowLen resource rect)
        (fun y => rowByte mem resource (rowOffset resource rect offset y) (rowLen resource rect))
          (clipRows resource rect)
        resource.hostPixels pixels := by
    unfold copyBackingToResource
    by_cases hempty : xEnd resource rect ≤ rect.x ∨ yEnd resource rect ≤ rect.y
    · refine ⟨_, if_pos hempty, .of_id fun y hy j hj => ?_⟩
      have hrange := mem_clipRows.mp hy
      unfold rowLen at hj
      omega
    · rw [if_neg hempty]
      exact copyRows_painted hmem (by omega) hys hin rfl (default_valid _)
  refine ⟨pixels, hcopy, ?_⟩
  have hsame : Transferred mem resource rect offset pixels ↔ ∀ y ∈ clipRows resource rect,
    RowWhole mem resource rect offset y := by
    rw [transferred_iff, hpainted.agree_iff]
    exact ⟨fun h y hy => (rowWhole_iff hmem hy).mp (h y hy), fun h y hy => (rowWhole_iff hmem hy).mpr (h y hy)⟩
  constructor
  · rintro ⟨htransferred, -⟩ y hlow hhigh
    exact hsame.mp htransferred y (mem_clipRows.mpr ⟨hlow, hhigh⟩)
  · intro h
    have htransferred := hsame.mpr fun y hy => h y (mem_clipRows.mp hy).1 (mem_clipRows.mp hy).2
    refine ⟨htransferred, ?_⟩
    rw [hpixelwise, (transferred_iff.mp htransferred).unique hexact]

theorem one_lt_u32 : 1 < 2 ^ 32 := by decide

theorem length_onePixel : ([0, 0, 0, 0] : List UInt8).length = 1 * 1 * 4 := rfl

/-- One pixel, in two pieces. -/
def twoPieces (second : Nat) : GpuResource where
  width := 1
  height := 1
  hostPixels := [0, 0, 0, 0]
  backing := [⟨0, 2⟩, ⟨second, 2⟩]
  width_lt := one_lt_u32
  height_lt := one_lt_u32
  pixels_length := length_onePixel
  pixels_small := by decide
  backing_count := by simp
  backing_len := by simp

/-- The second half of the pixel is not mapped. -/
def tornResource : GpuResource := twoPieces 100

/-- A pixel in two mapped pieces is copied. -/
theorem transfer_exact_iff_pieces :
    copyBackingToResource (mappedRam 0 [1, 2, 3, 4]) (twoPieces 2) ⟨0, 0, 1, 1⟩ 0 = some [1, 2, 3, 4] ∧
      Transferred (mappedRam 0 [1, 2, 3, 4]) (twoPieces 2) ⟨0, 0, 1, 1⟩ 0 [1, 2, 3, 4] := by
  have hpixels : copyBackingToResource (mappedRam 0 [1, 2, 3, 4]) (twoPieces 2) ⟨0, 0, 1, 1⟩ 0 =
    some [1, 2, 3, 4] := by
    decide +kernel
  obtain ⟨pixels, hcopy, hiff⟩ := transfer_exact_iff (mappedRam 0 [1, 2, 3, 4]) (mappedRam_bytewise (by decide))
    (twoPieces 2) ⟨0, 0, 1, 1⟩ 0
  cases hpixels.symm.trans hcopy
  refine ⟨hpixels, (hiff.mpr fun y _ hy => .inl ?_).1⟩
  obtain rfl : y = 0 := Nat.lt_one_iff.mp hy
  decide +kernel

/-- **A torn pixel**: the pixel cannot be read, and half of it is overwritten. -/
theorem pixel_torn : ¬∀ (mem : GuestMemory) (resource : GpuResource) (rect : Rect) (offset : Nat), mem.Bytewise →
    ∃ pixels, copyBackingToResource mem resource rect offset = some pixels ∧
    Transferred mem resource rect offset pixels := by
  intro hall
  obtain ⟨pixels, hcopy, htransferred⟩ :=
    hall (mappedRam 0 [7, 7]) tornResource ⟨0, 0, 1, 1⟩ 0 (mappedRam_bytewise (by decide))
  have hpixels : copyBackingToResource (mappedRam 0 [7, 7]) tornResource ⟨0, 0, 1, 1⟩ 0 = some [7, 7, 0, 0] := by
    decide +kernel
  rw [hpixels, Option.some.injEq] at hcopy
  have hclip : InClip tornResource ⟨0, 0, 1, 1⟩ 0 0 := by
    unfold InClip
    decide
  have hbyte := htransferred.inside 0 0 hclip 0 (by decide)
  rw [← hcopy] at hbyte
  simp [tornResource] at hbyte
  cases hbyte

end BridgeVm.VirtioGpu.Transfer
