import Mathlib.Data.UInt
import Mathlib.Tactic.Common
import ScorbitPlugin.Codec.Layout

set_option relaxedAutoImplicit false
set_option autoImplicit false

/-!
# The overlay's state

`Overlay::State` of `src/OverlayState.h`: one bitmap, an enable bit and a hide timer, and the bounds
of `src/OverlayPlacement.h` that a bitmap keeps to.

## Main definitions

* `Overlay.Bitmap` — a width, a height and as many pixels; empty or within the bounds.
* `Overlay.check`, `Overlay.State.store`, `Overlay.State.control`, `Overlay.State.clear`,
  `Overlay.State.visible`.
* `Overlay.Effect` — an op on the state, its clock already read.

## Main results

* `Overlay.State.store_trim` — what follows the pixels of an upload is of no effect.
-/

namespace Overlay

open Codec

/-- `Clock::time_point`: nanoseconds since the epoch of the clock. -/
abbrev Time : Type := ℤ

/-- `std::chrono::milliseconds`. -/
def milliseconds (count : UInt32) : Time := count.toNat * 1000000

/-! ## The bitmap -/

/-- `MIN_SIDE`. -/
def minSide : UInt32 := 10

/-- `MAX_WIDTH`. -/
def maxWidth : UInt32 := 192

/-- `MAX_HEIGHT`. -/
def maxHeight : UInt32 := 64

/-- `Accepted`. -/
def accepted (width height : UInt32) : Bool :=
  width ≥ minSide && height ≥ minSide && width ≤ maxWidth && height ≤ maxHeight

/-- A payload and its size; the pointer may be null. -/
abbrev Payload : Type := Option Bytes

/-- `State::Upload`. -/
inductive Upload
  | stored
  | ignored
  | malformed
deriving DecidableEq, Repr

/-- `State::Check`. -/
def check : Payload → Upload
  | some (width :: height :: pixels) =>
    if pixels.length < width.toNat * height.toNat then .malformed
    else if accepted width.toUInt32 height.toUInt32 = true then .stored else .ignored
  | _ => .malformed

/-- `m_width`, `m_height` and `m_pixels`. -/
structure Bitmap where
  width : UInt32 := 0
  height : UInt32 := 0
  pixels : Bytes := []
  /-- There are as many pixels as the sides say. -/
  whole : pixels.length = width.toNat * height.toNat := by rfl
  /-- There is no bitmap, or it is one that is accepted. -/
  bounded : (width = 0 ∧ height = 0) ∨ accepted width height = true := by simp
deriving DecidableEq

/-- A payload that is stored has all its pixels, and is within the bounds. -/
theorem check_cons {width height : UInt8} {pixels : Bytes}
    (h : check (some (width :: height :: pixels)) = .stored) :
    width.toNat * height.toNat ≤ pixels.length ∧
      accepted width.toUInt32 height.toUInt32 = true := by
  simp only [check] at h
  split at h
  · cases h
  · rename_i hsize
    split at h
    · rename_i haccepted
      exact ⟨by omega, haccepted⟩
    · cases h

/-- The bitmap of a payload that is stored. -/
def bitmapOf : (payload : Payload) → check payload = .stored → Bitmap
  | some (width :: height :: pixels), h =>
    { width := width.toUInt32
      height := height.toUInt32
      pixels := pixels.take (width.toNat * height.toNat)
      whole := by
        rw [List.length_take_of_le (check_cons h).1]
        rfl
      bounded := .inr (check_cons h).2 }
  | none, h | some [], h | some [_], h => by simp [check] at h

/-- The sides of a bitmap are at most the largest. -/
theorem Bitmap.length_le (b : Bitmap) :
    b.pixels.length ≤ maxWidth.toNat * maxHeight.toNat := by
  rw [b.whole]
  rcases b.bounded with ⟨hwidth, -⟩ | haccepted
  · rw [hwidth]
    simp
  · simp only [accepted, Bool.and_eq_true, decide_eq_true_iff] at haccepted
    exact Nat.mul_le_mul (UInt32.le_iff_toNat_le.mp haccepted.1.2)
      (UInt32.le_iff_toNat_le.mp haccepted.2)

/-- A bitmap has pixels when it has a width.

**Proof sketch.** An empty bitmap has no pixels, as width times height is their number. An accepted
one is ten by ten at least. -/
theorem Bitmap.isEmpty_pixels (b : Bitmap) : b.pixels.isEmpty = (b.width == 0) := by
  rcases b.bounded with ⟨hwidth, -⟩ | haccepted
  · have hlength := b.whole
    rw [hwidth] at hlength ⊢
    simpa using hlength
  · simp only [accepted, Bool.and_eq_true, decide_eq_true_iff] at haccepted
    have hwidth : 10 ≤ b.width.toNat := UInt32.le_iff_toNat_le.mp haccepted.1.1.1
    have hheight : 10 ≤ b.height.toNat := UInt32.le_iff_toNat_le.mp haccepted.1.1.2
    have hpos : 0 < b.pixels.length := by
      rw [b.whole]
      exact Nat.mul_pos (by omega) (by omega)
    have hne : b.width ≠ 0 := by
      intro hzero
      rw [hzero] at hwidth
      cases hwidth
    rw [beq_eq_false_iff_ne.mpr hne, List.isEmpty_eq_false_iff]
    exact List.ne_nil_of_length_pos hpos

/-! ## The state -/

/-- `State`. -/
structure State extends Bitmap where
  enabled : Bool := false
  untilHidden : Bool := false
  hideAt : Time := 0
deriving DecidableEq

/-- `State::Store`. -/
def State.store (s : State) (payload : Payload) : State × Upload :=
  if h : check payload = .stored then
    ({ s with toBitmap := bitmapOf payload h }, .stored)
  else (s, check payload)

/-- `State::Control`. -/
def State.control (s : State) (enable : Bool) (durationMs : UInt32) (now : Time) : State :=
  { s with
    enabled := enable
    untilHidden := durationMs == 0
    hideAt := now + milliseconds durationMs }

/-- A state when it is constructed. -/
def State.blank : State := {}

/-- `State::Clear`. -/
def State.clear (_ : State) : State := .blank

/-- `State::Visible`. -/
def State.visible (s : State) (now : Time) : Bool :=
  s.enabled && !s.pixels.isEmpty && (s.untilHidden || now < s.hideAt)

/-- An op on the state, with the time that a control was given. -/
inductive Effect
  | store (payload : Payload)
  | control (enable : Bool) (durationMs : UInt32) (at_ : Time)
  | clear
deriving DecidableEq

/-- What an op does. -/
def State.apply (s : State) : Effect → State
  | .store payload => (s.store payload).1
  | .control enable durationMs at_ => s.control enable durationMs at_
  | .clear => s.clear

/-- What is not stored leaves the state as it was. -/
theorem State.store_of_ne {s : State} {payload : Payload} (h : check payload ≠ .stored) :
    (s.store payload).1 = s := by
  unfold State.store
  rw [dif_neg h]

/-- The bytes of an upload up to its last pixel. -/
def trim : Payload → Bytes
  | some (width :: height :: pixels) =>
    (width :: height :: pixels).take (2 + width.toNat * height.toNat)
  | some bytes => bytes
  | none => []

/-- **What follows the pixels of an upload** is of no effect: without it the same is stored.

**Proof sketch.** The check looks at the two sizes and at the number of pixels behind them, and so
many are kept; the bitmap takes no more of them. -/
theorem State.store_trim (s : State) {payload : Payload} (h : check payload = .stored) :
    s.store (some (trim payload)) = s.store payload := by
  rcases payload with _ | _ | ⟨width, _ | ⟨height, pixels⟩⟩
  case none | some.nil | some.cons.nil => simp [check] at h
  have htrim : trim (some (width :: height :: pixels)) =
      width :: height :: pixels.take (width.toNat * height.toNat) := by
    rw [trim, Nat.add_comm]
    rfl
  obtain ⟨hsize, haccepted⟩ := check_cons h
  have hcheck : check (some (width :: height :: pixels.take (width.toNat * height.toNat))) =
      .stored := by
    simp only [check]
    rw [if_neg (by rw [List.length_take_of_le hsize]; omega), if_pos haccepted]
  rw [htrim]
  unfold State.store
  rw [dif_pos hcheck, dif_pos h]
  simp only [bitmapOf, List.take_take, Nat.min_self]

end Overlay
