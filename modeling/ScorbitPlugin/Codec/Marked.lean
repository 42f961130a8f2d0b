import Mathlib.Data.List.Basic
import Mathlib.Tactic.Common

set_option relaxedAutoImplicit false
set_option autoImplicit false

/-!
# Marked strings

A string in pieces, some of them marked, with the spans the marked pieces take in it. Filling the
spans of a string with one symbol leaves its length and every position outside the spans, and
filling those of the marked pieces replaces just these pieces.

## Main definitions

* `Codec.Marked.fill`, `Codec.Marked.fillAll` — one span filled, and a list of them.
* `Codec.Marked.Piece`, `Codec.Marked.flat`, `Codec.Marked.spans` — pieces, what they make up, and
  where the marked ones are.

## Main results

* `Codec.Marked.length_fillAll`, `Codec.Marked.getElem?_fillAll` — what filling leaves.
* `Codec.Marked.fillAll_flat` — filling the marked pieces.
-/

namespace Codec

namespace Marked

variable {α : Type} (star : α)

/-! ## Filling -/

/-- `length` symbols from `offset` on filled, or as many as there are. -/
def fill (s : List α) (offset length : ℕ) : List α :=
  s.take offset ++ List.replicate (min length (s.length - offset)) star ++ s.drop (offset + length)

/-- Spans filled one after another. -/
def fillAll (s : List α) (spans : List (ℕ × ℕ)) : List α :=
  spans.foldl (fun s span => fill star s span.1 span.2) s

/-- Spans after other spans. -/
theorem fillAll_append (s : List α) (spans spans' : List (ℕ × ℕ)) :
    fillAll star s (spans ++ spans') = fillAll star (fillAll star s spans) spans' :=
  List.foldl_append

/-- Filling keeps the length. -/
@[simp] theorem length_fill (s : List α) (offset length : ℕ) :
    (fill star s offset length).length = s.length := by
  simp only [fill, List.length_append, List.length_take, List.length_replicate, List.length_drop]
  omega

/-- A position outside the span is left.

**Proof sketch.** Before the span the list is its front, which is taken, and behind it its rest,
which is dropped from; the lengths of both are as they were. -/
theorem getElem?_fill (s : List α) {offset length i : ℕ} (h : i < offset ∨ offset + length ≤ i) :
    (fill star s offset length)[i]? = s[i]? := by
  unfold fill
  rcases h with h | h
  · by_cases hi : i < s.length
    · have htake : i < (s.take offset).length := by
        rw [List.length_take]
        omega
      rw [List.append_assoc, List.getElem?_append_left htake, List.getElem?_take_of_lt h]
    · have hlen : (fill star s offset length).length ≤ i := by
        rw [length_fill]
        omega
      rw [← fill, List.getElem?_eq_none hlen, List.getElem?_eq_none (by omega)]
  · by_cases hi : i < s.length
    · have hfront : (s.take offset ++
          List.replicate (min length (s.length - offset)) star).length = offset + length := by
        simp only [List.length_append, List.length_take, List.length_replicate]
        omega
      rw [List.getElem?_append_right (by omega), hfront, List.getElem?_drop]
      congr 1
      omega
    · have hlen : (fill star s offset length).length ≤ i := by
        rw [length_fill]
        omega
      rw [← fill, List.getElem?_eq_none hlen, List.getElem?_eq_none (by omega)]

/-- Filling spans keeps the length. -/
@[simp] theorem length_fillAll (s : List α) (spans : List (ℕ × ℕ)) :
    (fillAll star s spans).length = s.length := by
  induction spans generalizing s with
  | nil => rfl
  | cons span spans ih => exact (ih _).trans (length_fill star s span.1 span.2)

/-- **A position outside all spans is left.** -/
theorem getElem?_fillAll (s : List α) {spans : List (ℕ × ℕ)} {i : ℕ}
    (h : ∀ span ∈ spans, i < span.1 ∨ span.1 + span.2 ≤ i) :
    (fillAll star s spans)[i]? = s[i]? := by
  induction spans generalizing s with
  | nil => rfl
  | cons span spans ih =>
    have hfirst := h span List.mem_cons_self
    have hrest := ih (fill star s span.1 span.2) fun other hother =>
      h other (List.mem_cons_of_mem _ hother)
    exact hrest.trans (getElem?_fill star s hfirst)

/-- A span in the middle of a string is filled there. -/
theorem fill_middle (front middle back : List α) :
    fill star (front ++ middle ++ back) front.length middle.length =
      front ++ List.replicate middle.length star ++ back := by
  have htake : (front ++ middle ++ back).take front.length = front := by
    rw [List.append_assoc, List.take_left]
  have hdrop : (front ++ middle ++ back).drop (front.length + middle.length) = back := by
    rw [← List.length_append, List.drop_left]
  have hlen : min middle.length ((front ++ middle ++ back).length - front.length) =
      middle.length := by
    simp only [List.length_append]
    omega
  rw [fill, htake, hdrop, hlen]

/-! ## Pieces -/

/-- A piece of a string, marked or not. -/
structure Piece (α : Type) where
  marked : Bool
  data : List α

/-- The string that pieces make up. -/
def flat (pieces : List (Piece α)) : List α := pieces.flatMap fun p => p.data

/-- The spans of the marked pieces that are not empty, the first piece standing at `offset`. -/
def spans (offset : ℕ) : List (Piece α) → List (ℕ × ℕ)
  | [] => []
  | p :: pieces =>
    (if p.marked && !p.data.isEmpty then [(offset, p.data.length)] else []) ++
      spans (offset + p.data.length) pieces

/-- A marked piece filled. -/
def Piece.filled (p : Piece α) : Piece α :=
  if p.marked then ⟨true, List.replicate p.data.length star⟩ else p

/-- A piece that is not marked is left. -/
@[simp] theorem filled_unmarked (data : List α) :
    (⟨false, data⟩ : Piece α).filled star = ⟨false, data⟩ := rfl

/-- The bytes of pieces, piece by piece. -/
@[simp] theorem flat_cons (p : Piece α) (pieces : List (Piece α)) :
    flat (p :: pieces) = p.data ++ flat pieces := rfl

/-- The bytes of two lists of pieces stand one after the other. -/
@[simp] theorem flat_append (pieces pieces' : List (Piece α)) :
    flat (pieces ++ pieces') = flat pieces ++ flat pieces' := by
  simp [flat]

/-- Filling a piece keeps its length. -/
@[simp] theorem length_filled (p : Piece α) : (p.filled star).data.length = p.data.length := by
  unfold Piece.filled
  split <;> simp

/-- The spans of pieces after other pieces. -/
theorem spans_append (offset : ℕ) (pieces pieces' : List (Piece α)) :
    spans offset (pieces ++ pieces') =
      spans offset pieces ++ spans (offset + (flat pieces).length) pieces' := by
  induction pieces generalizing offset with
  | nil => rfl
  | cons p pieces ih =>
    rw [List.cons_append, spans, ih, spans, flat_cons, List.length_append, List.append_assoc,
      Nat.add_assoc]

/-- The spans of pieces that stand further on. -/
theorem spans_add (offset shift : ℕ) (pieces : List (Piece α)) :
    spans (offset + shift) pieces =
      (spans offset pieces).map fun span => (span.1 + shift, span.2) := by
  induction pieces generalizing offset with
  | nil => rfl
  | cons p pieces ih =>
    have hnext : offset + shift + p.data.length = offset + p.data.length + shift := by omega
    rw [spans, spans, List.map_append, hnext, ih]
    split <;> rfl

/-- **Filling the marked pieces replaces just these**, wherever the pieces stand.

**Proof sketch.** Induction on the pieces: what stands before them grows by one piece, filled. -/
theorem fillAll_flat (front : List α) (pieces : List (Piece α)) (back : List α) :
    fillAll star (front ++ flat pieces ++ back) (spans front.length pieces) =
      front ++ flat (pieces.map fun p => p.filled star) ++ back := by
  induction pieces generalizing front with
  | nil => rfl
  | cons p pieces ih =>
    have hnext := ih (front ++ (p.filled star).data)
    rw [List.length_append, length_filled] at hnext
    have hfirst : fillAll star (front ++ flat (p :: pieces) ++ back)
        (if p.marked && !p.data.isEmpty then [(front.length, p.data.length)] else []) =
          front ++ (p.filled star).data ++ flat pieces ++ back := by
      have hassoc : front ++ flat (p :: pieces) ++ back =
          front ++ p.data ++ (flat pieces ++ back) := by
        simp
      cases hmarked : p.marked with
      | false => simp [fillAll, Piece.filled, hmarked]
      | true =>
        have hdata : (p.filled star).data = List.replicate p.data.length star := by
          simp [Piece.filled, hmarked]
        rw [hdata]
        cases hempty : p.data.isEmpty with
        | true =>
          have hnil : p.data = [] := List.isEmpty_iff.mp hempty
          simp [fillAll, hnil]
        | false =>
          have hfill := fill_middle star front p.data (flat pieces ++ back)
          simp only [fillAll, Bool.not_false, Bool.and_self, if_true, List.foldl_cons,
            List.foldl_nil, hassoc, hfill]
          simp
    rw [spans, fillAll_append, hfirst, hnext]
    simp

end Marked

end Codec
