import Mathlib.Algebra.Order.Ring.Int
import Mathlib.Data.UInt
import Mathlib.Tactic.Common
import ScorbitPlugin.Overlay.Bitmap

set_option relaxedAutoImplicit false
set_option autoImplicit false

/-!
# Where an overlay lands

`Place` of `src/OverlayPlacement.h`, and the probe firmware's rule it stands for: the overlay is
centred on the display, its origin truncated toward zero, and cropped.

Differences of sizes are integers; the source takes them in 64 bits, where they fit.

## Main definitions

* `Overlay.axis`, `Overlay.place` — `Detail::Axis` and `Place`.
* `Overlay.Placement.pixel` — the overlay pixel that a display pixel shows.
* `Overlay.firmwarePixel` — the firmware's rule for one display pixel.

## Main results

* `Overlay.place_firmware` — `Place` is the firmware's rule, for all sizes.
-/

namespace Overlay

/-! ## Placing -/

/-- One axis of a placement. -/
structure Span where
  dst : UInt32 := 0
  src : UInt32 := 0
  len : UInt32 := 0
deriving DecidableEq, Repr

/-- `origin` of `Axis`. -/
def origin (display overlay : UInt32) : ℤ :=
  ((display.toNat : ℤ) - (overlay.toNat : ℤ)).tdiv 2

/-- `Detail::Axis`. -/
def axis (display overlay : UInt32) : Span :=
  let first := max (origin display overlay) 0
  let last := min (origin display overlay + overlay.toNat) display.toNat
  if last ≤ first then {}
  else
    { dst := UInt32.ofInt first
      src := UInt32.ofInt (first - origin display overlay)
      len := UInt32.ofInt (last - first) }

/-- `Placement`. -/
structure Placement where
  dstX : UInt32 := 0
  dstY : UInt32 := 0
  srcX : UInt32 := 0
  srcY : UInt32 := 0
  width : UInt32 := 0
  height : UInt32 := 0
deriving DecidableEq, Repr

/-- `Place`. -/
def place (displayWidth displayHeight overlayWidth overlayHeight : UInt32) : Placement :=
  let x := axis displayWidth overlayWidth
  let y := axis displayHeight overlayHeight
  if x.len = 0 ∨ y.len = 0 then {}
  else
    { dstX := x.dst, srcX := x.src, width := x.len
      dstY := y.dst, srcY := y.src, height := y.len }

/-- The overlay pixel that a display pixel shows, by a placement. -/
def Placement.pixel (p : Placement) (x y : ℕ) : Option (ℕ × ℕ) :=
  if p.dstX.toNat ≤ x ∧ x < p.dstX.toNat + p.width.toNat ∧
      p.dstY.toNat ≤ y ∧ y < p.dstY.toNat + p.height.toNat then
    some (p.srcX.toNat + (x - p.dstX.toNat), p.srcY.toNat + (y - p.dstY.toNat))
  else none

/-- The firmware's rule, as `FirmwarePixel` of `test/OverlayPlacementTest.cpp` states it: `x0` and
`y0` are half the difference of the sizes, truncated toward zero, and the display pixel `(x, y)`
shows the overlay pixel `(x - x0, y - y0)` when it lies inside the overlay. -/
def firmwarePixel (displayWidth displayHeight overlayWidth overlayHeight : UInt32) (x y : ℕ) :
    Option (ℕ × ℕ) :=
  let x0 := ((displayWidth.toNat : ℤ) - overlayWidth.toNat).tdiv 2
  let y0 := ((displayHeight.toNat : ℤ) - overlayHeight.toNat).tdiv 2
  if (x : ℤ) < x0 ∨ x > x0 + overlayWidth.toNat - 1 ∨ (y : ℤ) < y0 ∨
      y > y0 + overlayHeight.toNat - 1 then none
  else some ((x - x0).toNat, (y - y0).toNat)

/-! ## One axis -/

/-- What `Axis` gives: the display's pixels from `dst` on, as far as they show the overlay, which
lies at `src` there. -/
structure Spans (display overlay : ℕ) (o : ℤ) (s : Span) : Prop where
  inDisplay : s.dst.toNat + s.len.toNat ≤ display
  inOverlay : s.src.toNat + s.len.toNat ≤ overlay
  shows_iff : ∀ x < display, (s.dst.toNat ≤ x ∧ x < s.dst.toNat + s.len.toNat ↔
    0 ≤ (x : ℤ) - o ∧ (x : ℤ) - o < overlay)
  shown : ∀ x < display, s.dst.toNat ≤ x → x < s.dst.toNat + s.len.toNat →
    s.src.toNat + (x - s.dst.toNat) = ((x : ℤ) - o).toNat

/-- A small integer is kept in 32 bits. -/
theorem toNat_ofInt {i : ℤ} (hlo : 0 ≤ i) (hhi : i < 2 ^ 32) :
    ((UInt32.ofInt i).toNat : ℤ) = i := by
  rw [UInt32.ofInt, UInt32.toNat_ofNat']
  omega

/-- The clip along one axis spans what the display and the overlay share of it.

**Proof sketch.** The two clips, at the display's edges and at the overlay's, cut what is beyond
either. Nothing wraps, for all of it is below 2^32. -/
theorem spans_axis (display overlay : UInt32) :
    Spans display.toNat overlay.toNat (origin display overlay) (axis display overlay) := by
  have hdisplay : display.toNat < 2 ^ 32 := display.toNat_lt
  have hoverlay : overlay.toNat < 2 ^ 32 := overlay.toNat_lt
  unfold axis
  generalize ho : origin display overlay = o
  dsimp only
  split
  · rename_i hnone
    -- nothing overlaps, and the span is empty
    constructor
    · exact Nat.zero_le _
    · exact Nat.zero_le _
    · intro x hx
      show 0 ≤ x ∧ x < 0 + 0 ↔ _
      omega
    · intro x _ _ hlt
      exact absurd hlt (Nat.not_lt_zero x)
  · rename_i hsome
    have hlo : (0 : ℤ) ≤ max o 0 := le_max_right o 0
    have hdst : ((UInt32.ofInt (max o 0)).toNat : ℤ) = max o 0 := toNat_ofInt hlo (by omega)
    have hsrc : ((UInt32.ofInt (max o 0 - o)).toNat : ℤ) = max o 0 - o :=
      toNat_ofInt (by omega) (by omega)
    have hlen : ((UInt32.ofInt (min (o + overlay.toNat) display.toNat - max o 0)).toNat : ℤ) =
        min (o + overlay.toNat) display.toNat - max o 0 := toNat_ofInt (by omega) (by omega)
    constructor <;> dsimp only
    · omega
    · omega
    · intro x hx
      omega
    · intro x hx hge hlt
      omega

/-! ## The placement -/

/-- A placement of two axes: both of them, or empty where one is. -/
inductive Placed (x y : Span) : Placement → Prop
  | empty (h : x.len = 0 ∨ y.len = 0) : Placed x y {}
  | both (hx : x.len ≠ 0) (hy : y.len ≠ 0) :
      Placed x y
        { dstX := x.dst, srcX := x.src, width := x.len
          dstY := y.dst, srcY := y.src, height := y.len }

/-- The placement is the clip along both. -/
theorem placed_place (displayWidth displayHeight overlayWidth overlayHeight : UInt32) :
    Placed (axis displayWidth overlayWidth) (axis displayHeight overlayHeight)
      (place displayWidth displayHeight overlayWidth overlayHeight) := by
  unfold place
  dsimp only
  split
  · rename_i hempty
    exact .empty hempty
  · rename_i hsome
    rw [not_or] at hsome
    exact .both hsome.1 hsome.2

/-- An empty axis shows no pixel. -/
theorem Spans.not_shown {display overlay : ℕ} {o : ℤ} {s : Span} (h : Spans display overlay o s)
    (hempty : s.len = 0) {x : ℕ} (hx : x < display) :
    ¬ (0 ≤ (x : ℤ) - o ∧ (x : ℤ) - o < overlay) := by
  rw [← h.shows_iff x hx, hempty]
  show ¬ (_ ≤ x ∧ x < _ + 0)
  omega

/-- An axis that is not empty shows its first pixel. -/
theorem Spans.shown_first {display overlay : ℕ} {o : ℤ} {s : Span} (h : Spans display overlay o s)
    (hsome : s.len ≠ 0) :
    s.dst.toNat < display ∧ 0 ≤ (s.dst.toNat : ℤ) - o ∧ (s.dst.toNat : ℤ) - o < overlay := by
  have hpos : s.len.toNat ≠ 0 := fun hzero => hsome (UInt32.toNat_inj.mp hzero)
  have hlt : s.dst.toNat < display := by
    have := h.inDisplay
    omega
  exact ⟨hlt, (h.shows_iff _ hlt).mp (by omega)⟩

/-- The rectangle of a placement lies in the display and in the overlay. -/
structure InBounds (displayWidth displayHeight overlayWidth overlayHeight : UInt32)
    (p : Placement) : Prop where
  displayX : p.dstX.toNat + p.width.toNat ≤ displayWidth.toNat
  displayY : p.dstY.toNat + p.height.toNat ≤ displayHeight.toNat
  overlayX : p.srcX.toNat + p.width.toNat ≤ overlayWidth.toNat
  overlayY : p.srcY.toNat + p.height.toNat ≤ overlayHeight.toNat

section Place

variable (displayWidth displayHeight overlayWidth overlayHeight : UInt32)

/-- The placement lies in both bounds. -/
theorem inBounds_place : InBounds displayWidth displayHeight overlayWidth overlayHeight
    (place displayWidth displayHeight overlayWidth overlayHeight) := by
  have hx := spans_axis displayWidth overlayWidth
  have hy := spans_axis displayHeight overlayHeight
  have hplaced := placed_place displayWidth displayHeight overlayWidth overlayHeight
  generalize place displayWidth displayHeight overlayWidth overlayHeight = p at hplaced ⊢
  cases hplaced with
  | empty h => exact ⟨Nat.zero_le _, Nat.zero_le _, Nat.zero_le _, Nat.zero_le _⟩
  | both hxsome hysome => exact ⟨hx.inDisplay, hy.inDisplay, hx.inOverlay, hy.inOverlay⟩

/-- The firmware's rule, by the origins that `Axis` computes.

**Proof sketch.** The centred origin is the one of `Axis`, by its own words; not outside and inside
are the same bounds. -/
theorem firmwarePixel_eq (x y : ℕ) :
    firmwarePixel displayWidth displayHeight overlayWidth overlayHeight x y =
      if 0 ≤ (x : ℤ) - origin displayWidth overlayWidth ∧
          (x : ℤ) - origin displayWidth overlayWidth < overlayWidth.toNat ∧
          0 ≤ (y : ℤ) - origin displayHeight overlayHeight ∧
          (y : ℤ) - origin displayHeight overlayHeight < overlayHeight.toNat then
        some (((x : ℤ) - origin displayWidth overlayWidth).toNat,
          ((y : ℤ) - origin displayHeight overlayHeight).toNat)
      else none := by
  unfold firmwarePixel
  change (if (x : ℤ) < origin displayWidth overlayWidth ∨
      x > origin displayWidth overlayWidth + overlayWidth.toNat - 1 ∨
      (y : ℤ) < origin displayHeight overlayHeight ∨
      y > origin displayHeight overlayHeight + overlayHeight.toNat - 1 then none
    else some ((x - origin displayWidth overlayWidth).toNat,
      (y - origin displayHeight overlayHeight).toNat)) = _
  generalize origin displayWidth overlayWidth = x0
  generalize origin displayHeight overlayHeight = y0
  split
  · rename_i hout
    exact (if_neg (by omega)).symm
  · rename_i hin
    exact (if_pos (by omega)).symm

/-- Where an axis is empty the firmware shows nothing. -/
theorem firmwarePixel_of_empty
    (h : (axis displayWidth overlayWidth).len = 0 ∨ (axis displayHeight overlayHeight).len = 0)
    {x y : ℕ} (hx : x < displayWidth.toNat) (hy : y < displayHeight.toNat) :
    firmwarePixel displayWidth displayHeight overlayWidth overlayHeight x y = none := by
  rw [firmwarePixel_eq]
  refine if_neg ?_
  rintro ⟨hxlo, hxhi, hylo, hyhi⟩
  rcases h with hxempty | hyempty
  · exact (spans_axis displayWidth overlayWidth).not_shown hxempty hx ⟨hxlo, hxhi⟩
  · exact (spans_axis displayHeight overlayHeight).not_shown hyempty hy ⟨hylo, hyhi⟩

/-- A display pixel shows what the firmware shows.

**Proof sketch.** Along each axis the clip shows the pixel exactly where the firmware has it
(`Spans.shows_iff`), and the two together are the pixel. Where nothing overlaps neither has one. -/
theorem pixel_place {x y : ℕ} (hxd : x < displayWidth.toNat) (hyd : y < displayHeight.toNat) :
    (place displayWidth displayHeight overlayWidth overlayHeight).pixel x y =
      firmwarePixel displayWidth displayHeight overlayWidth overlayHeight x y := by
  have hx := spans_axis displayWidth overlayWidth
  have hy := spans_axis displayHeight overlayHeight
  have hxiff := hx.shows_iff x hxd
  have hyiff := hy.shows_iff y hyd
  have hempty := firmwarePixel_of_empty displayWidth displayHeight overlayWidth overlayHeight
    (x := x) (y := y)
  have hplaced := placed_place displayWidth displayHeight overlayWidth overlayHeight
  generalize place displayWidth displayHeight overlayWidth overlayHeight = p at hplaced ⊢
  cases hplaced with
  | empty h =>
    rw [hempty h hxd hyd]
    refine if_neg ?_
    rintro ⟨-, hlt, -⟩
    exact absurd hlt (Nat.not_lt_zero x)
  | both hxsome hysome =>
    rw [firmwarePixel_eq]
    unfold Placement.pixel
    dsimp only
    by_cases hin : ((axis displayWidth overlayWidth).dst.toNat ≤ x ∧
          x < (axis displayWidth overlayWidth).dst.toNat +
            (axis displayWidth overlayWidth).len.toNat) ∧
        (axis displayHeight overlayHeight).dst.toNat ≤ y ∧
          y < (axis displayHeight overlayHeight).dst.toNat +
            (axis displayHeight overlayHeight).len.toNat
    · obtain ⟨hxin, hyin⟩ := hin
      obtain ⟨hxlo, hxhi⟩ := hxiff.mp hxin
      obtain ⟨hylo, hyhi⟩ := hyiff.mp hyin
      rw [if_pos ⟨hxin.1, hxin.2, hyin.1, hyin.2⟩, if_pos ⟨hxlo, hxhi, hylo, hyhi⟩,
        hx.shown x hxd hxin.1 hxin.2, hy.shown y hyd hyin.1 hyin.2]
    · rw [if_neg fun h => hin ⟨⟨h.1, h.2.1⟩, h.2.2⟩]
      exact (if_neg fun h => hin ⟨hxiff.mpr ⟨h.1, h.2.1⟩, hyiff.mpr h.2.2⟩).symm

/-- A placement is empty exactly if the firmware shows nothing.

**Proof sketch.** An empty placement shows nothing, and the firmware neither. Otherwise the first
pixel of both spans is one that the firmware shows. -/
theorem place_empty_iff :
    (place displayWidth displayHeight overlayWidth overlayHeight).width = 0 ∨
        (place displayWidth displayHeight overlayWidth overlayHeight).height = 0 ↔
      ∀ x < displayWidth.toNat, ∀ y < displayHeight.toNat,
        firmwarePixel displayWidth displayHeight overlayWidth overlayHeight x y = none := by
  have hempty := firmwarePixel_of_empty displayWidth displayHeight overlayWidth overlayHeight
  have hplaced := placed_place displayWidth displayHeight overlayWidth overlayHeight
  generalize place displayWidth displayHeight overlayWidth overlayHeight = p at hplaced ⊢
  cases hplaced with
  | empty h => exact iff_of_true (.inl rfl) fun x hx y hy => hempty h hx hy
  | both hxsome hysome =>
    refine iff_of_false (not_or.mpr ⟨hxsome, hysome⟩) fun hnone => ?_
    obtain ⟨hxd, hxlo, hxhi⟩ := (spans_axis displayWidth overlayWidth).shown_first hxsome
    obtain ⟨hyd, hylo, hyhi⟩ := (spans_axis displayHeight overlayHeight).shown_first hysome
    have hpixel := hnone _ hxd _ hyd
    rw [firmwarePixel_eq, if_pos ⟨hxlo, hxhi, hylo, hyhi⟩] at hpixel
    cases hpixel

/-- **`Place` is the firmware's rule**, for all sizes of the display and of the overlay: every
display pixel shows what the firmware shows, the rectangle lies in the display and in the overlay,
and it is empty exactly if no pixel of the two overlaps.

**Proof sketch.** Each axis gives the interval of the display that the overlay covers, from the
origin truncated toward zero (`spans_axis`); a placement is both, or empty where one is. -/
theorem place_firmware :
    (∀ x < displayWidth.toNat, ∀ y < displayHeight.toNat,
        (place displayWidth displayHeight overlayWidth overlayHeight).pixel x y =
          firmwarePixel displayWidth displayHeight overlayWidth overlayHeight x y) ∧
      InBounds displayWidth displayHeight overlayWidth overlayHeight
        (place displayWidth displayHeight overlayWidth overlayHeight) ∧
      ((place displayWidth displayHeight overlayWidth overlayHeight).width = 0 ∨
          (place displayWidth displayHeight overlayWidth overlayHeight).height = 0 ↔
        ∀ x < displayWidth.toNat, ∀ y < displayHeight.toNat,
          firmwarePixel displayWidth displayHeight overlayWidth overlayHeight x y = none) := by
  refine ⟨fun x hx y hy => ?_, ?_, ?_⟩
  · exact pixel_place displayWidth displayHeight overlayWidth overlayHeight hx hy
  · exact inBounds_place displayWidth displayHeight overlayWidth overlayHeight
  · exact place_empty_iff displayWidth displayHeight overlayWidth overlayHeight

end Place

/-- An odd difference is truncated toward zero, on either side. -/
example : (axis 128 131).src = 1 ∧ (axis 128 127).dst = 0 ∧ (axis 128 64).dst = 32 := by
  decide +kernel

end Overlay
