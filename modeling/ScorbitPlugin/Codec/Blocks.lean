import Mathlib.Data.List.Basic
import Mathlib.Tactic.Ring

set_option relaxedAutoImplicit false
set_option autoImplicit false

/-!
# Blocks of a list

A list as consecutive blocks of one length: a block is read, and written where it lies inside the
list.

## Main definitions

* `Codec.block`, `Codec.setBlock` — the block of an index, and a write to it.

## Main results

* `Codec.exists_setBlock` — a write inside the list succeeds, and changes its block only.
-/

namespace Codec

variable {α : Type*}

/-- The `i`-th block of `k` elements. -/
def block (k : ℕ) (l : List α) (i : ℕ) : List α := (l.drop (i * k)).take k

/-- A write of the `i`-th block; `none` if it reaches past the list. -/
def setBlock (k : ℕ) (l : List α) (i : ℕ) (b : List α) : Option (List α) :=
  if i * k + k ≤ l.length then some (l.take (i * k) ++ b ++ l.drop (i * k + k)) else none

/-- A block, by its elements. -/
theorem getElem?_block (k : ℕ) (l : List α) (i n : ℕ) :
    (block k l i)[n]? = if n < k then l[i * k + n]? else none := by
  rw [block, List.getElem?_take]
  split
  · rw [List.getElem?_drop]
  · rfl

/-- A list with a block replaced, by its elements.

**Proof sketch.** An element before the block is of the front, one in it is of the block, and one
behind it is of the rest, at the place it had. -/
theorem getElem?_replaced {l b : List α} {at_ : ℕ} (hfits : at_ + b.length ≤ l.length) (m : ℕ) :
    (l.take at_ ++ b ++ l.drop (at_ + b.length))[m]? =
      if at_ ≤ m ∧ m < at_ + b.length then b[m - at_]? else l[m]? := by
  have hhead : (l.take at_).length = at_ := List.length_take_of_le (by omega)
  by_cases hbefore : m < at_
  · rw [if_neg (by omega), List.append_assoc, List.getElem?_append_left (by omega),
      List.getElem?_take, if_pos hbefore]
  · by_cases hinside : m < at_ + b.length
    · rw [if_pos ⟨by omega, hinside⟩, List.append_assoc, List.getElem?_append_right (by omega),
        hhead, List.getElem?_append_left (by omega)]
    · rw [if_neg (by omega), List.getElem?_append_right (by rw [List.length_append]; omega),
        List.getElem?_drop, List.length_append, hhead]
      congr 1
      omega

/-- Blocks of different indices do not meet. -/
theorem block_apart {k i j n : ℕ} (hn : n < k) (hne : j ≠ i) :
    ¬ (i * k ≤ j * k + n ∧ j * k + n < i * k + k) := by
  rcases Nat.lt_or_gt_of_ne hne with hlt | hgt
  · have : (j + 1) * k ≤ i * k := Nat.mul_le_mul_right k hlt
    rw [Nat.succ_mul] at this
    omega
  · have : (i + 1) * k ≤ j * k := Nat.mul_le_mul_right k hgt
    rw [Nat.succ_mul] at this
    omega

/-- **A write inside the list succeeds**, keeps the length and changes its block only.

**Proof sketch.** Element by element (`getElem?_block`, `getElem?_replaced`): of the block itself it
is the new one, and of another block, which lies apart (`block_apart`), the one that was. -/
theorem exists_setBlock {k i : ℕ} {l b : List α} (hb : b.length = k)
    (hfits : i * k + k ≤ l.length) :
    ∃ l', setBlock k l i b = some l' ∧ l'.length = l.length ∧
      ∀ j, block k l' j = if j = i then b else block k l j := by
  subst hb
  refine ⟨_, if_pos hfits, ?_, fun j => ?_⟩
  · rw [List.length_append, List.length_append, List.length_take_of_le (by omega),
      List.length_drop]
    omega
  · apply List.ext_getElem?
    intro n
    rw [getElem?_block]
    by_cases hn : n < b.length
    · rw [if_pos hn, getElem?_replaced hfits]
      by_cases hsame : j = i
      · rw [if_pos hsame, hsame, if_pos ⟨by omega, by omega⟩, Nat.add_sub_cancel_left]
      · rw [if_neg hsame, if_neg (block_apart hn hsame), getElem?_block, if_pos hn]
    · rw [if_neg hn]
      by_cases hsame : j = i
      · rw [if_pos hsame, List.getElem?_eq_none (by omega)]
      · rw [if_neg hsame, getElem?_block, if_neg hn]

end Codec
