import ScorbitPlugin.Codec.Blocks
import ScorbitPlugin.Overlay.Cache
import ScorbitPlugin.Overlay.Chain
import ScorbitPlugin.Overlay.Placement
import ScorbitPlugin.Runs.Loop

set_option relaxedAutoImplicit false
set_option autoImplicit false

/-!
# Compositing

`DmdOverlay::Composite`: the published bitmap over the target's frame, into the entry's spare
buffer. A read or a write past a buffer makes the model fail, so that it succeeds says that every
index is in bounds.

Products of two sizes are natural numbers: the source takes them in 64 bits, where they fit. The
shades are given as tables, by the 128 values a pixel without the transparent bit may have.

## Main definitions

* `Overlay.stride`, `Overlay.ShadeTable` — the bytes of a dot, and the shades.
* `Overlay.composite` — `Composite`.
* `Overlay.shownDot` — the dot it is to show.

## Main results

* `Overlay.composite_shows` — it shows exactly these, and stays in bounds.
-/

namespace Overlay

open Codec

/-! ## Dots -/

/-- The bytes of a dot, as the switch of the inner loop writes it. -/
def stride : FrameFormat → ℕ
  | .lum32f => 4
  | .srgb888 => 3
  | _ => 2

/-- For the formats that are composited on it is `BytesPerPixel`. -/
theorem stride_eq {format : FrameFormat} (h : bytesPerPixel format ≠ 0) :
    stride format = bytesPerPixel format := by
  cases format with
  | lum32f | srgb888 | srgb565 => rfl
  | other => exact absurd rfl h

/-- The tables `lum`, `srgb8` and `srgb565`: a float, a byte and two bytes for each value. -/
structure ShadeTable where
  lum : List Bytes
  srgb8 : Bytes
  srgb565 : List Bytes
  length_lum : lum.length = 128
  length_srgb8 : srgb8.length = 128
  length_srgb565 : srgb565.length = 128
  length_float : ∀ shade ∈ lum, shade.length = 4
  length_word : ∀ shade ∈ srgb565, shade.length = 2

/-- The bytes of a dot of a shade, `none` past the tables. -/
def ShadeTable.dot (table : ShadeTable) (format : FrameFormat) (px : UInt8) : Option Bytes :=
  match format with
  | .lum32f => table.lum[px.toNat]?
  | .srgb888 => table.srgb8[px.toNat]?.map fun v => [v, v, v]
  | _ => table.srgb565[px.toNat]?

/-- `TRANSPARENT_BIT`. -/
def transparentBit : UInt8 := 0x80

/-- A pixel of the record, `none` past `width * height` of them. -/
def Record.pixel (r : Record) (i : ℕ) : Option UInt8 :=
  if i < r.width.toNat * r.height.toNat then r.pixels[i]? else none

/-! ## The loops -/

section Composite

variable (t : Target) (r : Record) (table : ShadeTable)

/-- `at`. -/
def placement : Placement := place t.baseWidth t.baseHeight r.width r.height

/-- `bx`: the base column that an output column covers. -/
def baseX (x : ℕ) : ℕ := x * t.baseWidth.toNat / t.source.width.toNat

/-- `by`: the base row that an output row covers. -/
def baseY (y : ℕ) : ℕ := y * t.baseHeight.toNat / t.source.height.toNat

/-- The body of the inner loop. -/
def compositeDot (y x : ℕ) (out : Bytes) : Option Bytes :=
  let p := placement t r
  let bx := baseX t x
  if bx < p.dstX.toNat ∨ bx ≥ p.dstX.toNat + p.width.toNat then some out
  else
    let row := (p.srcY.toNat + (baseY t y - p.dstY.toNat)) * r.width.toNat + p.srcX.toNat
    (r.pixel (row + (bx - p.dstX.toNat))).bind fun px =>
      if px &&& transparentBit ≠ 0 then some out
      else
        (table.dot t.source.frameFormat px).bind
          (setBlock (stride t.source.frameFormat) out (y * t.source.width.toNat + x))

/-- The body of the outer loop. -/
def compositeRow (y : ℕ) (out : Bytes) : Option Bytes :=
  let p := placement t r
  if baseY t y < p.dstY.toNat ∨ baseY t y ≥ p.dstY.toNat + p.height.toNat then some out
  else Runs.loop (compositeDot t r table y) t.source.width.toNat out

/-- `Composite`: what it leaves in the spare buffer, of the size given; `none` where it would read
or write past a buffer. -/
def composite (size : ℕ) (frame : Bytes) : Option Bytes :=
  if frame.length < size then none
  else if (placement t r).width = 0 ∨ (placement t r).height = 0 then some (frame.take size)
  else Runs.loop (compositeRow t r table) t.source.height.toNat (frame.take size)

/-! ## What is to be shown -/

/-- The overlay pixel that covers an output dot: the one that the firmware shows at the base dot
`(⌊x * baseWidth / W⌋, ⌊y * baseHeight / H⌋)`. -/
def coveringPixel (x y : ℕ) : Option UInt8 :=
  (firmwarePixel t.baseWidth t.baseHeight r.width r.height
      (x * t.baseWidth.toNat / t.source.width.toNat)
      (y * t.baseHeight.toNat / t.source.height.toNat)).bind fun p =>
    r.pixels[p.2 * r.width.toNat + p.1]?

/-- The dot that is to be shown: the shade of the overlay pixel that covers it, when there is one
with bit 7 clear, and otherwise the frame's. -/
def shownDot (frame : Bytes) (x y : ℕ) : Option Bytes :=
  ((coveringPixel t r x y).filter fun px => !px.toNat.testBit 7).elim
    (some (block (stride t.source.frameFormat) frame (y * t.source.width.toNat + x)))
    (table.dot t.source.frameFormat)

end Composite

/-! ## Tables and pixels -/

/-- The transparent bit is bit 7. -/
theorem solid_iff (px : UInt8) : px &&& transparentBit = 0 ↔ px.toNat.testBit 7 = false := by
  have hall : ∀ n : Fin 256, UInt8.ofNat n.val &&& transparentBit = 0 ↔
      n.val.testBit 7 = false := by
    decide +kernel
  have hpx := hall ⟨px.toNat, px.toNat_lt⟩
  rwa [UInt8.ofNat_toNat] at hpx

/-- A pixel with bit 7 clear is a value of the tables. -/
theorem toNat_lt_of_solid {px : UInt8} (h : px.toNat.testBit 7 = false) : px.toNat < 128 := by
  have hall : ∀ n : Fin 256, n.val.testBit 7 = false → n.val < 128 := by decide +kernel
  exact hall ⟨px.toNat, px.toNat_lt⟩ h

/-- The tables have every shade of a value, in as many bytes as a dot has.

**Proof sketch.** By the format: each table has 128 entries of its own length, and the value is
below that. -/
theorem ShadeTable.exists_dot (table : ShadeTable) (format : FrameFormat) {px : UInt8}
    (h : px.toNat < 128) :
    ∃ shade, table.dot format px = some shade ∧ shade.length = stride format := by
  cases format with
  | lum32f =>
    have hlt : px.toNat < table.lum.length := h.trans_eq table.length_lum.symm
    exact ⟨_, List.getElem?_eq_getElem hlt, table.length_float _ (List.getElem_mem hlt)⟩
  | srgb888 =>
    have hlt : px.toNat < table.srgb8.length := h.trans_eq table.length_srgb8.symm
    refine ⟨List.replicate 3 table.srgb8[px.toNat], ?_, List.length_replicate⟩
    rw [ShadeTable.dot, List.getElem?_eq_getElem hlt]
    rfl
  | srgb565 | other =>
    have hlt : px.toNat < table.srgb565.length := h.trans_eq table.length_srgb565.symm
    exact ⟨_, List.getElem?_eq_getElem hlt, table.length_word _ (List.getElem_mem hlt)⟩

/-- An index of a row is one of the whole. -/
theorem row_lt {a b m n : ℕ} (ha : a < m) (hb : b < n) : a * n + b < m * n := by
  have : (a + 1) * n ≤ m * n := Nat.mul_le_mul_right n ha
  rw [Nat.succ_mul] at this
  omega

/-! ## A dot -/

/-- What the callers of `Composite` keep to: sizes that are not zero, a record of accepted sides in
its fixed buffer, and a frame of the target's size. -/
structure Composable (t : Target) (r : Record) (frame : Bytes) : Prop where
  width : 0 < t.source.width.toNat
  height : 0 < t.source.height.toNat
  baseWidth : 0 < t.baseWidth.toNat
  baseHeight : 0 < t.baseHeight.toNat
  handled : bytesPerPixel t.source.frameFormat ≠ 0
  accepted : accepted r.width r.height = true
  buffer : r.pixels.length = maxPixels
  whole : frame.length =
    t.source.width.toNat * t.source.height.toNat * bytesPerPixel t.source.frameFormat

section Dots

variable {t : Target} {r : Record} {table : ShadeTable} {frame out : Bytes}

/-- The pixels of an accepted record are in its buffer. -/
theorem Composable.exists_pixel (h : Composable t r frame) {i : ℕ}
    (hi : i < r.width.toNat * r.height.toNat) :
    ∃ px, r.pixel i = some px ∧ r.pixels[i]? = some px := by
  have hbounds := h.accepted
  simp only [Overlay.accepted, Bool.and_eq_true, decide_eq_true_iff] at hbounds
  have hle : r.width.toNat * r.height.toNat ≤ maxPixels :=
    Nat.mul_le_mul (UInt32.le_iff_toNat_le.mp hbounds.1.2) (UInt32.le_iff_toNat_le.mp hbounds.2)
  have hlt : i < r.pixels.length := (hi.trans_le hle).trans_eq h.buffer.symm
  refine ⟨r.pixels[i], ?_, List.getElem?_eq_getElem hlt⟩
  rw [Record.pixel, if_pos hi, List.getElem?_eq_getElem hlt]

/-- The base dot of an output dot is on the base display. -/
theorem Composable.baseX_lt (h : Composable t r frame) {x : ℕ} (hx : x < t.source.width.toNat) :
    baseX t x < t.baseWidth.toNat :=
  Nat.div_lt_of_lt_mul (Nat.mul_lt_mul_of_pos_right hx h.baseWidth)

/-- And the base pixel's row is one of the base frame's. -/
theorem Composable.baseY_lt (h : Composable t r frame) {y : ℕ} (hy : y < t.source.height.toNat) :
    baseY t y < t.baseHeight.toNat :=
  Nat.div_lt_of_lt_mul (Nat.mul_lt_mul_of_pos_right hy h.baseHeight)

/-- The covering pixel, by the base dot and the placement of the source. -/
theorem Composable.coveringPixel_eq (h : Composable t r frame) {x y : ℕ}
    (hx : x < t.source.width.toNat) (hy : y < t.source.height.toNat) :
    coveringPixel t r x y = ((placement t r).pixel (baseX t x) (baseY t y)).bind fun p =>
      r.pixels[p.2 * r.width.toNat + p.1]? := by
  rw [placement, pixel_place _ _ _ _ (h.baseX_lt hx) (h.baseY_lt hy)]
  rfl

/-- A dot outside the placement is the frame's. -/
theorem Composable.shownDot_outside (hc : Composable t r frame) {x y : ℕ}
    (hx : x < t.source.width.toNat) (hy : y < t.source.height.toNat)
    (h : (placement t r).pixel (baseX t x) (baseY t y) = none) :
    shownDot t r table frame x y =
      some (block (stride t.source.frameFormat) frame (y * t.source.width.toNat + x)) := by
  rw [shownDot, hc.coveringPixel_eq hx hy, h]
  rfl

/-- The first dots of the output are what they are to be, and the others the frame's. -/
structure Painted (t : Target) (r : Record) (table : ShadeTable) (frame : Bytes) (n : ℕ)
    (out : Bytes) : Prop where
  length : out.length = frame.length
  dots : ∀ x < t.source.width.toNat, ∀ y < t.source.height.toNat,
    some (block (stride t.source.frameFormat) out (y * t.source.width.toNat + x)) =
      if y * t.source.width.toNat + x < n then shownDot t r table frame x y
      else some (block (stride t.source.frameFormat) frame (y * t.source.width.toNat + x))

/-- At first the output is the frame. -/
theorem painted_zero : Painted t r table frame 0 frame :=
  ⟨rfl, fun _ _ _ _ => (if_neg (Nat.not_lt_zero _)).symm⟩

/-- Dots that are to be the frame's are painted already.

**Proof sketch.** A dot between the two counts is the frame's in the buffer, and it is to be the
frame's. -/
theorem Painted.keep {n n' : ℕ} (h : Painted t r table frame n out)
    (hframe : ∀ x < t.source.width.toNat, ∀ y < t.source.height.toNat,
      n ≤ y * t.source.width.toNat + x → y * t.source.width.toNat + x < n' →
      shownDot t r table frame x y =
        some (block (stride t.source.frameFormat) frame (y * t.source.width.toNat + x)))
    (hle : n ≤ n') : Painted t r table frame n' out := by
  refine ⟨h.length, fun x hx y hy => ?_⟩
  rw [h.dots x hx y hy]
  by_cases hdone : y * t.source.width.toNat + x < n
  · rw [if_pos hdone, if_pos (by omega)]
  · rw [if_neg hdone]
    split
    · rename_i hnext
      exact (hframe x hx y hy (by omega) hnext).symm
    · rfl

/-- Two dots of one index are one. -/
theorem dot_index_inj {x x' y y' w : ℕ} (hx : x < w) (hx' : x' < w)
    (h : y * w + x = y' * w + x') : x = x' ∧ y = y' := by
  rcases Nat.lt_trichotomy y y' with hlt | rfl | hgt
  · have : (y + 1) * w ≤ y' * w := Nat.mul_le_mul_right w hlt
    rw [Nat.succ_mul] at this
    omega
  · exact ⟨by omega, rfl⟩
  · have : (y' + 1) * w ≤ y * w := Nat.mul_le_mul_right w hgt
    rw [Nat.succ_mul] at this
    omega

/-- A dot of the target lies in a frame of its size. -/
theorem Composable.dot_le (h : Composable t r frame) {x y : ℕ} (hx : x < t.source.width.toNat)
    (hy : y < t.source.height.toNat) :
    (y * t.source.width.toNat + x) * stride t.source.frameFormat + stride t.source.frameFormat ≤
      frame.length := by
  have hindex : y * t.source.width.toNat + x + 1 ≤
      t.source.height.toNat * t.source.width.toNat := row_lt hy hx
  have := Nat.mul_le_mul_right (stride t.source.frameFormat) hindex
  rw [h.whole, ← stride_eq h.handled, Nat.mul_comm t.source.width.toNat]
  rwa [Nat.succ_mul] at this

/-- A dot that is written is painted.

**Proof sketch.** The dot's block is written, and no other dot has its place, so those painted
before stay and those after are the frame's still. -/
theorem Painted.write (h : Composable t r frame) {x y : ℕ} (hx : x < t.source.width.toNat)
    (hy : y < t.source.height.toNat)
    (hpainted : Painted t r table frame (y * t.source.width.toNat + x) out) {shade : Bytes}
    (hshade : shownDot t r table frame x y = some shade)
    (hlength : shade.length = stride t.source.frameFormat) :
    ∃ out', setBlock (stride t.source.frameFormat) out (y * t.source.width.toNat + x) shade =
        some out' ∧
      Painted t r table frame (y * t.source.width.toNat + x + 1) out' := by
  obtain ⟨out', hout', hlen, hblock⟩ := exists_setBlock hlength
    (hpainted.length ▸ h.dot_le hx hy :
      (y * t.source.width.toNat + x) * _ + stride t.source.frameFormat ≤ out.length)
  refine ⟨out', hout', hlen.trans hpainted.length, fun x' hx' y' hy' => ?_⟩
  rw [hblock]
  by_cases hsame : y' * t.source.width.toNat + x' = y * t.source.width.toNat + x
  · obtain ⟨rfl, rfl⟩ := dot_index_inj hx' hx hsame
    rw [if_pos rfl, if_pos (Nat.lt_succ_self _), hshade]
  · rw [if_neg hsame, hpainted.dots x' hx' y' hy']
    by_cases hdone : y' * t.source.width.toNat + x' < y * t.source.width.toNat + x
    · rw [if_pos hdone, if_pos (by omega)]
    · rw [if_neg hdone, if_neg (by omega)]

/-- The pixel of a dot inside the placement is one of the record's.

**Proof sketch.** The place and the record's pixels are in bounds (`inBounds_place`), so the index
is one of the record's, and the pixel there is the one that the firmware puts on the dot. -/
theorem Composable.exists_covering (h : Composable t r frame) {x y : ℕ}
    (hxt : x < t.source.width.toNat) (hyt : y < t.source.height.toNat)
    (hx : (placement t r).dstX.toNat ≤ baseX t x)
    (hx' : baseX t x < (placement t r).dstX.toNat + (placement t r).width.toNat)
    (hy : (placement t r).dstY.toNat ≤ baseY t y)
    (hy' : baseY t y < (placement t r).dstY.toNat + (placement t r).height.toNat) :
    ∃ px, r.pixel (((placement t r).srcY.toNat + (baseY t y - (placement t r).dstY.toNat)) *
          r.width.toNat + (placement t r).srcX.toNat +
          (baseX t x - (placement t r).dstX.toNat)) = some px ∧
      coveringPixel t r x y = some px := by
  have hin := inBounds_place t.baseWidth t.baseHeight r.width r.height
  have hinX : (placement t r).srcX.toNat + (placement t r).width.toNat ≤ r.width.toNat :=
    hin.overlayX
  have hinY : (placement t r).srcY.toNat + (placement t r).height.toNat ≤ r.height.toNat :=
    hin.overlayY
  have hindex : ((placement t r).srcY.toNat + (baseY t y - (placement t r).dstY.toNat)) *
      r.width.toNat + ((placement t r).srcX.toNat + (baseX t x - (placement t r).dstX.toNat)) <
        r.height.toNat * r.width.toNat := row_lt (by omega) (by omega)
  rw [Nat.mul_comm r.height.toNat, ← Nat.add_assoc] at hindex
  obtain ⟨px, hpixel, hraw⟩ := h.exists_pixel hindex
  refine ⟨px, hpixel, ?_⟩
  rw [h.coveringPixel_eq hxt hyt, Placement.pixel, if_pos ⟨hx, hx', hy, hy'⟩, Option.bind_some,
    ← Nat.add_assoc]
  exact hraw

/-- **The inner loop's body** paints a dot of a row inside the placement.

**Proof sketch.** A dot outside the placement, or under a transparent pixel, is left as the frame
has it. One under an opaque pixel gets that pixel's shade; no other dot has its place in the buffer.
-/
theorem Painted.dot (h : Composable t r frame) {x y : ℕ} (hx : x < t.source.width.toNat)
    (hy : y < t.source.height.toNat) (hlo : (placement t r).dstY.toNat ≤ baseY t y)
    (hhi : baseY t y < (placement t r).dstY.toNat + (placement t r).height.toNat)
    (hpainted : Painted t r table frame (y * t.source.width.toNat + x) out) :
    ∃ out', compositeDot t r table y x out = some out' ∧
      Painted t r table frame (y * t.source.width.toNat + x + 1) out' := by
  -- the only dot in question
  have hone : ∀ x' < t.source.width.toNat, ∀ y' < t.source.height.toNat,
      y * t.source.width.toNat + x ≤ y' * t.source.width.toNat + x' →
      y' * t.source.width.toNat + x' < y * t.source.width.toNat + x + 1 → x' = x ∧ y' = y :=
    fun x' hx' y' _ hge hlt => dot_index_inj hx' hx (by omega)
  unfold compositeDot
  dsimp only
  by_cases hout : baseX t x < (placement t r).dstX.toNat ∨
      baseX t x ≥ (placement t r).dstX.toNat + (placement t r).width.toNat
  · rw [if_pos hout]
    refine ⟨out, rfl, hpainted.keep (fun x' hx' y' hy' hge hlt => ?_) (Nat.le_succ _)⟩
    obtain ⟨rfl, rfl⟩ := hone x' hx' y' hy' hge hlt
    refine h.shownDot_outside hx' hy' (if_neg ?_)
    rintro ⟨hge, hlt, -⟩
    omega
  · rw [if_neg hout]
    rw [not_or] at hout
    obtain ⟨px, hpixel, hcovering⟩ := h.exists_covering hx hy (by omega) (by omega) hlo hhi
    rw [hpixel, Option.bind_some]
    by_cases hopaque : px.toNat.testBit 7 = false
    · rw [if_neg (not_not.mpr ((solid_iff px).mpr hopaque))]
      obtain ⟨shade, hshade, hlength⟩ :=
        table.exists_dot t.source.frameFormat (toNat_lt_of_solid hopaque)
      rw [hshade, Option.bind_some]
      refine hpainted.write h hx hy ?_ hlength
      rw [shownDot, hcovering, Option.filter_some_pos (by simpa using hopaque)]
      exact hshade
    · rw [if_pos (mt (solid_iff px).mp hopaque)]
      refine ⟨out, rfl, hpainted.keep (fun x' hx' y' hy' hge hlt => ?_) (Nat.le_succ _)⟩
      obtain ⟨rfl, rfl⟩ := hone x' hx' y' hy' hge hlt
      rw [shownDot, hcovering, Option.filter_some_neg (by simpa using hopaque)]
      rfl

/-- **The outer loop's body** paints a row.

**Proof sketch.** A row outside the placement is left as the frame has it. One inside is painted dot
by dot (`Painted.dot`). -/
theorem Painted.row (h : Composable t r frame) {y : ℕ} (hy : y < t.source.height.toNat)
    (hpainted : Painted t r table frame (y * t.source.width.toNat) out) :
    ∃ out', compositeRow t r table y out = some out' ∧
      Painted t r table frame ((y + 1) * t.source.width.toNat) out' := by
  unfold compositeRow
  dsimp only
  rw [Nat.succ_mul]
  by_cases hout : baseY t y < (placement t r).dstY.toNat ∨
      baseY t y ≥ (placement t r).dstY.toNat + (placement t r).height.toNat
  · rw [if_pos hout]
    refine ⟨out, rfl, hpainted.keep (fun x' hx' y' hy' hge hlt => ?_) (Nat.le_add_right _ _)⟩
    have hsame : y' = y := by
      rcases Nat.lt_trichotomy y' y with hlt' | heq | hgt
      · have : (y' + 1) * t.source.width.toNat ≤ y * t.source.width.toNat :=
          Nat.mul_le_mul_right _ hlt'
        rw [Nat.succ_mul] at this
        omega
      · exact heq
      · have : (y + 1) * t.source.width.toNat ≤ y' * t.source.width.toNat :=
          Nat.mul_le_mul_right _ hgt
        rw [Nat.succ_mul] at this
        omega
    subst hsame
    refine h.shownDot_outside hx' hy' (if_neg ?_)
    rintro ⟨-, -, hge, hlt⟩
    omega
  · rw [if_neg hout]
    rw [not_or] at hout
    exact Runs.loop_invariant
      (I := fun x out => Painted t r table frame (y * t.source.width.toNat + x) out)
      hpainted fun x hx out' hpainted' =>
        hpainted'.dot h hx hy (by omega) (by omega)

/-- **The loops** paint the whole frame.

**Proof sketch.** With an empty placement nothing is painted, and no dot is to be. Otherwise each
row keeps the invariant (`Painted.row`), so all of them do (`Runs.loop_invariant`). -/
theorem Composable.exists_painted (h : Composable t r frame) (table : ShadeTable) :
    ∃ out, composite t r table frame.length frame = some out ∧
      Painted t r table frame (t.source.height.toNat * t.source.width.toNat) out := by
  unfold composite
  rw [if_neg (lt_irrefl _), List.take_length]
  split
  · rename_i hempty
    refine ⟨frame, rfl, painted_zero.keep (fun x hx y hy _ _ => ?_) (Nat.zero_le _)⟩
    refine h.shownDot_outside hx hy (if_neg ?_)
    rintro ⟨hge, hlt, hge', hlt'⟩
    rcases hempty with hwidth | hheight
    · rw [hwidth] at hlt
      exact absurd hlt (Nat.not_lt.mpr hge)
    · rw [hheight] at hlt'
      exact absurd hlt' (Nat.not_lt.mpr hge')
  · exact Runs.loop_invariant
      (I := fun y out => Painted t r table frame (y * t.source.width.toNat) out)
      (by rw [Nat.zero_mul]; exact painted_zero) fun y hy out hpainted => hpainted.row h hy

end Dots

/-- **Compositing is pointwise and in bounds**: for every target, base display, format, record of
accepted sides and frame of the target's size, `Composite` succeeds, with an output as large as the
frame whose every dot is the one that is to be shown.

**Proof sketch.** `Painted`: the dots before the loops' place are what they are to be, the others
the frame's. A round paints one dot (`Painted.dot`): the placement lies in the overlay, so the pixel
it reads is one of the record's, and an opaque one is a value of the tables. -/
theorem composite_shows (t : Target) (r : Record) (table : ShadeTable) (frame : Bytes)
    (h : Composable t r frame) :
    ∃ out, composite t r table frame.length frame = some out ∧ out.length = frame.length ∧
      ∀ x < t.source.width.toNat, ∀ y < t.source.height.toNat,
        shownDot t r table frame x y =
          some (block (stride t.source.frameFormat) out (y * t.source.width.toNat + x)) := by
  obtain ⟨out, hout, hpainted⟩ := h.exists_painted table
  refine ⟨out, hout, hpainted.length, fun x hx y hy => ?_⟩
  rw [hpainted.dots x hx y hy, if_pos (row_lt hy hx)]

/-- Tables that show every value alike. -/
def plainTable : ShadeTable where
  lum := List.replicate 128 [0, 0, 128, 63]
  srgb8 := List.replicate 128 255
  srgb565 := List.replicate 128 [255, 255]
  length_lum := List.length_replicate
  length_srgb8 := List.length_replicate
  length_srgb565 := List.length_replicate
  length_float shade hshade := by rw [List.eq_of_mem_replicate hshade]; rfl
  length_word shade hshade := by rw [List.eq_of_mem_replicate hshade]; rfl

/-- A display of two dots. -/
def twoDots : Target :=
  { source := { width := 2, height := 1, frameFormat := .srgb888, getRenderFrame := true }
    baseWidth := 4
    baseHeight := 1 }

/-- An overlay of ten by ten, larger than the base display: of the two pixels that cover the dots,
the first is transparent and the second is not. -/
def tenByTenRecord : Record where
  width := 10
  height := 10
  enabled := 1
  untilHidden := 1
  pixels := List.replicate 43 0 ++ [0x83, 0, 0x05] ++ List.replicate (maxPixels - 46) 0

/-- The first dot is the frame's, and the second a shade. -/
theorem composite_shows_twoDots :
    ∃ out, composite twoDots tenByTenRecord plainTable 6 [1, 2, 3, 4, 5, 6] = some out ∧
      out.length = 6 ∧
      (∀ x < 2, ∀ y < 1, shownDot twoDots tenByTenRecord plainTable [1, 2, 3, 4, 5, 6] x y =
        some (block 3 out (y * 2 + x))) ∧
      block 3 out 0 = [1, 2, 3] ∧ block 3 out 1 = [255, 255, 255] := by
  obtain ⟨out, hout, hlength, hshown⟩ :=
    composite_shows twoDots tenByTenRecord plainTable [1, 2, 3, 4, 5, 6]
      { width := by decide
        height := by decide
        baseWidth := by decide
        baseHeight := by decide
        handled := by decide
        accepted := by decide
        buffer := by decide +kernel
        whole := by decide }
  have hfirst : shownDot twoDots tenByTenRecord plainTable [1, 2, 3, 4, 5, 6] 0 0 =
      some [1, 2, 3] := by decide +kernel
  have hsecond : shownDot twoDots tenByTenRecord plainTable [1, 2, 3, 4, 5, 6] 1 0 =
      some [255, 255, 255] := by decide +kernel
  refine ⟨out, hout, hlength, hshown, ?_, ?_⟩
  · exact Option.some.inj ((hshown 0 (by decide) 0 (by decide)).symm.trans hfirst)
  · exact Option.some.inj ((hshown 1 (by decide) 0 (by decide)).symm.trans hsecond)

end Overlay
