import Mathlib.Data.List.Basic
import Mathlib.Data.List.Chain

set_option relaxedAutoImplicit false
set_option autoImplicit false

/-!
# Cutting a list

A list is cut into blocks greedily: each element joins the last block when a test lets it, and
begins a block of its own otherwise. When the test decides exactly whether the block stays
admissible, the blocks are admissible and no two neighbours could be one block.

## Main definitions

* `Runs.cut` — the blocks, by a test of a block and the element after it.
* `Runs.Cuts` — the test decides a property of blocks.

## Main results

* `Runs.flatten_cut`, `Runs.forall_mem_cut` — the blocks make up the list, and are admissible.
* `Runs.isChain_cut` — no block could be joined to the one before it.
-/

namespace Runs

variable {α : Type*} {joins : List α → α → Bool} {P : List α → Prop}

/-- One element, on the blocks so far, the newest first. -/
def cutStep (joins : List α → α → Bool) : List (List α) → α → List (List α)
  | [], a => [[a]]
  | block :: blocks, a =>
    if joins block a then (block ++ [a]) :: blocks else [a] :: block :: blocks

/-- The blocks of a list, the newest first. -/
def cutRev (joins : List α → α → Bool) (l : List α) : List (List α) := l.foldl (cutStep joins) []

/-- The blocks of a list. -/
def cut (joins : List α → α → Bool) (l : List α) : List (List α) := (cutRev joins l).reverse

/-- The blocks of a longer list. -/
theorem cutRev_append_singleton (l : List α) (a : α) :
    cutRev joins (l ++ [a]) = cutStep joins (cutRev joins l) a := by
  rw [cutRev, List.foldl_append]
  rfl

/-- The blocks make up the list.

**Proof sketch.** By induction on the list, from the end: the last element joins the last block or
follows it as one of its own. -/
theorem flatten_cut (l : List α) : (cut joins l).flatten = l := by
  induction l using List.reverseRecOn with
  | nil => rfl
  | append_singleton l a ih =>
    rw [cut, cutRev_append_singleton]
    rw [cut] at ih
    cases hblocks : cutRev joins l with
    | nil =>
      rw [hblocks] at ih
      have hl : l = [] := ih.symm
      rw [hl]
      rfl
    | cons block blocks =>
      rw [hblocks, List.reverse_cons, List.flatten_append, List.flatten_singleton] at ih
      rw [cutStep]
      split
      · rw [List.reverse_cons, List.flatten_append, List.flatten_singleton, ← List.append_assoc, ih]
      · rw [List.reverse_cons, List.reverse_cons, List.flatten_append, List.flatten_append,
          List.flatten_singleton, List.flatten_singleton, ih]

/-- The test decides whether an element may join a block, for a property of non-empty blocks that
the beginnings of a block have with it. -/
structure Cuts (joins : List α → α → Bool) (P : List α → Prop) : Prop where
  /-- An element may stand alone. -/
  single : ∀ a, P [a]
  /-- An element joins where the longer block is admissible. -/
  grows : ∀ block a, block ≠ [] → P block → joins block a = true → P (block ++ [a])
  /-- It is kept out where it is not. -/
  stuck : ∀ block a, block ≠ [] → joins block a = false → ¬ P (block ++ [a])
  /-- The beginning of an admissible block is admissible. -/
  prefixes : ∀ block rest, block ≠ [] → P (block ++ rest) → P block

/-- **The blocks are admissible**, and not empty.

**Proof sketch.** By induction on the list, from the end: an element joins the last block where that
stays admissible, and else is a block of its own. -/
theorem Cuts.forall_mem_cutRev (h : Cuts joins P) (l : List α) :
    ∀ block ∈ cutRev joins l, block ≠ [] ∧ P block := by
  induction l using List.reverseRecOn with
  | nil => exact fun block hblock => absurd hblock List.not_mem_nil
  | append_singleton l a ih =>
    rw [cutRev_append_singleton]
    have hone : [a] ≠ [] ∧ P [a] := ⟨List.cons_ne_nil a [], h.single a⟩
    cases hblocks : cutRev joins l with
    | nil =>
      intro block hblock
      obtain rfl := List.mem_singleton.mp hblock
      exact hone
    | cons last blocks =>
      rw [hblocks] at ih
      obtain ⟨hne, hlast⟩ := ih last List.mem_cons_self
      intro block hblock
      rw [cutStep] at hblock
      split at hblock
      · rename_i hjoins
        rcases List.mem_cons.mp hblock with rfl | hold
        · exact ⟨List.append_ne_nil_of_left_ne_nil hne [a], h.grows last a hne hlast hjoins⟩
        · exact ih block (List.mem_cons_of_mem last hold)
      · rcases List.mem_cons.mp hblock with rfl | hold
        · exact hone
        · exact ih block hold

/-- Every block of a cut has an element and meets the condition. -/
theorem Cuts.forall_mem_cut (h : Cuts joins P) (l : List α) :
    ∀ block ∈ cut joins l, block ≠ [] ∧ P block :=
  fun block hblock => h.forall_mem_cutRev l block (List.mem_reverse.mp hblock)

/-- **No two neighbours could be one block.**

**Proof sketch.** By induction on the list, from the end. An element that joins the last block makes
it longer, and the block before could not even take its beginning (`Cuts.prefixes`). One that does
not join could not have been taken (`Cuts.stuck`). -/
theorem Cuts.isChain_cut (h : Cuts joins P) (l : List α) :
    (cut joins l).IsChain fun block next => ¬ P (block ++ next) := by
  rw [cut, List.isChain_reverse]
  induction l using List.reverseRecOn with
  | nil => exact List.isChain_nil
  | append_singleton l a ih =>
    rw [cutRev_append_singleton]
    have hmem := h.forall_mem_cutRev l
    cases hblocks : cutRev joins l with
    | nil => exact List.isChain_singleton [a]
    | cons last blocks =>
      rw [hblocks] at ih hmem
      rw [cutStep]
      split
      · -- the block before was stuck at a beginning of the longer one already
        cases blocks with
        | nil => exact List.isChain_singleton _
        | cons before blocks =>
          obtain ⟨hbefore, hrest⟩ := List.isChain_cons_cons.mp ih
          refine List.isChain_cons_cons.mpr ⟨fun hlong => hbefore ?_, hrest⟩
          refine h.prefixes (before ++ last) [a] ?_ (by rwa [List.append_assoc])
          have hne := (hmem before (by simp)).1
          exact List.append_ne_nil_of_left_ne_nil hne last
      · rename_i hjoins
        refine List.isChain_cons_cons.mpr ⟨?_, ih⟩
        exact h.stuck last a (hmem last List.mem_cons_self).1 (Bool.eq_false_iff.mpr hjoins)

end Runs
