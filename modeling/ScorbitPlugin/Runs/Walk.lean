import Mathlib.Data.List.Nodup
import Mathlib.Data.List.Perm.Subperm
import Mathlib.Logic.Relation

set_option relaxedAutoImplicit false
set_option autoImplicit false

/-!
# Walks over a finite graph

A breadth-first walk that keeps one queue: its elements are visited in turn, and the successors of
each are pushed unless they are queued already. The queue of a finite graph ends, and holds then
what can be reached, once.

## Main definitions

* `Runs.pushAll`, `Runs.walk` — the queue, and the walk.

## Main results

* `Runs.exists_walk` — the walk ends with the elements that can be reached.
-/

namespace Runs

open Relation

variable {α : Type*} [DecidableEq α]

/-- An element is pushed unless it is queued. -/
def push (queue : List α) (x : α) : List α := if x ∈ queue then queue else queue ++ [x]

/-- Elements are pushed in turn. -/
def pushAll (queue xs : List α) : List α := xs.foldl push queue

/-- The walk from place `q` of the queue on, `none` when it does not end in so many visits. -/
def walk (succ : α → List α) : ℕ → ℕ → List α → Option (List α)
  | 0, q, queue => if q < queue.length then none else some queue
  | fuel + 1, q, queue =>
    match queue[q]? with
    | none => some queue
    | some node => walk succ fuel (q + 1) (pushAll queue (succ node))

/-! ## The queue -/

/-- A push adds at the end. -/
theorem prefix_push (queue : List α) (x : α) : queue <+: push queue x := by
  unfold push
  split
  · exact List.prefix_rfl
  · exact List.prefix_append queue [x]

/-- So do several. -/
theorem prefix_pushAll (queue xs : List α) : queue <+: pushAll queue xs := by
  induction xs generalizing queue with
  | nil => exact List.prefix_rfl
  | cons x xs ih => exact (prefix_push queue x).trans (ih (push queue x))

/-- The queue holds what it held and what is pushed. -/
@[simp] theorem mem_push {queue : List α} {x y : α} : y ∈ push queue x ↔ y ∈ queue ∨ y = x := by
  unfold push
  split
  · rename_i hx
    exact ⟨.inl, fun h => h.elim id fun heq => heq ▸ hx⟩
  · rw [List.mem_append, List.mem_singleton]

/-- So it is with several. -/
@[simp] theorem mem_pushAll {queue xs : List α} {y : α} :
    y ∈ pushAll queue xs ↔ y ∈ queue ∨ y ∈ xs := by
  induction xs generalizing queue with
  | nil => simp [pushAll]
  | cons x xs ih =>
    rw [show pushAll queue (x :: xs) = pushAll (push queue x) xs from rfl, ih, mem_push,
      List.mem_cons, or_assoc]

/-- Nothing is queued twice. -/
theorem nodup_push {queue : List α} (h : queue.Nodup) (x : α) : (push queue x).Nodup := by
  unfold push
  split
  · exact h
  · rename_i hx
    exact h.append (List.nodup_singleton x) (List.disjoint_singleton.mpr hx)

/-- Not by several pushes either. -/
theorem nodup_pushAll {queue : List α} (h : queue.Nodup) (xs : List α) :
    (pushAll queue xs).Nodup := by
  induction xs generalizing queue with
  | nil => exact h
  | cons x xs ih => exact ih (nodup_push h x)

omit [DecidableEq α] in
/-- What is in a place stays there as the queue grows. -/
theorem getElem?_of_prefix {queue final : List α} (h : queue <+: final) {q : ℕ} {x : α}
    (hx : queue[q]? = some x) : final[q]? = some x := by
  obtain ⟨hq, rfl⟩ := List.getElem?_eq_some_iff.mp hx
  exact List.getElem?_eq_some_iff.mpr ⟨Nat.lt_of_lt_of_le hq h.length_le, (h.getElem hq).symm⟩

/-! ## The walk -/

variable {succ : α → List α}

/-- The queue only grows. -/
theorem prefix_walk {fuel q : ℕ} {queue final : List α} (h : walk succ fuel q queue = some final) :
    queue <+: final := by
  induction fuel generalizing q queue with
  | zero =>
    unfold walk at h
    split at h
    · cases h
    · exact (Option.some.inj h) ▸ List.prefix_rfl
  | succ fuel ih =>
    unfold walk at h
    split at h
    · exact (Option.some.inj h) ▸ List.prefix_rfl
    · exact (prefix_pushAll _ _).trans (ih h)

/-- More visits change nothing of a walk that ends.

**Proof sketch.** By induction on the fuel: both walks visit the same nodes in the same order, and
where the shorter one ends the longer does. -/
theorem walk_mono {fuel fuel' q : ℕ} {queue final : List α} (hle : fuel ≤ fuel')
    (h : walk succ fuel q queue = some final) : walk succ fuel' q queue = some final := by
  induction fuel generalizing fuel' q queue with
  | zero =>
    unfold walk at h
    split at h
    · cases h
    · rename_i hend
      cases fuel' with
      | zero => exact (if_neg hend).trans h
      | succ fuel' =>
        unfold walk
        rw [List.getElem?_eq_none_iff.mpr (Nat.le_of_not_lt hend)]
        exact h
  | succ fuel ih =>
    cases fuel' with
    | zero => exact absurd hle (Nat.not_succ_le_zero fuel)
    | succ fuel' =>
      unfold walk at h ⊢
      cases hnode : queue[q]? with
      | none =>
        rw [hnode] at h
        exact h
      | some node =>
        rw [hnode] at h
        exact ih (Nat.le_of_succ_le_succ hle) h

/-- **A walk within a finite set ends**, without duplicates, with what can be reached from the
queue, and with the successors of what it visited.

**Proof sketch.** The queue has no duplicates and stays in the set, so it has no more places than
the set has elements, and each visit takes one. -/
theorem exists_walk {all : List α} (hsucc : ∀ x ∈ all, ∀ y ∈ succ x, y ∈ all)
    {fuel q : ℕ} {queue : List α} (hfuel : all.length ≤ q + fuel) (hnodup : queue.Nodup)
    (hqueue : ∀ x ∈ queue, x ∈ all) :
    ∃ final, walk succ fuel q queue = some final ∧ final.Nodup ∧
      (∀ y ∈ final, ∃ x ∈ queue, ReflTransGen (fun a b => b ∈ succ a) x y) ∧
      ∀ x ∈ final.drop q, ∀ y ∈ succ x, y ∈ final := by
  induction fuel generalizing q queue with
  | zero =>
    have hlength : queue.length ≤ all.length := (List.subperm_of_subset hnodup hqueue).length_le
    have hend : ¬ q < queue.length := by omega
    refine ⟨queue, if_neg hend, hnodup, fun y hy => ⟨y, hy, .refl⟩, ?_⟩
    rw [List.drop_of_length_le (by omega)]
    nofun
  | succ fuel ih =>
    unfold walk
    cases hnode : queue[q]? with
    | none =>
      have hend : queue.length ≤ q := List.getElem?_eq_none_iff.mp hnode
      refine ⟨queue, rfl, hnodup, fun y hy => ⟨y, hy, .refl⟩, ?_⟩
      rw [List.drop_of_length_le hend]
      nofun
    | some node =>
      have hin : node ∈ queue := List.mem_of_getElem? hnode
      have hpushed := nodup_pushAll hnodup (succ node)
      have hwithin : ∀ x ∈ pushAll queue (succ node), x ∈ all := by
        intro x hx
        rcases mem_pushAll.mp hx with hold | hnew
        · exact hqueue x hold
        · exact hsucc node (hqueue node hin) x hnew
      obtain ⟨final, hwalk, hfinal, hreach, hclosed⟩ := ih (q := q + 1) (by omega) hpushed hwithin
      have hprefix := prefix_walk hwalk
      refine ⟨final, hwalk, hfinal, fun y hy => ?_, fun x hx y hy => ?_⟩
      · obtain ⟨x, hx, hxy⟩ := hreach y hy
        rcases mem_pushAll.mp hx with hold | hnew
        · exact ⟨x, hold, hxy⟩
        · exact ⟨node, hin, .head hnew hxy⟩
      · have hfirst : final[q]? = some node :=
          getElem?_of_prefix ((prefix_pushAll _ _).trans hprefix) hnode
        rw [List.drop_eq_getElem?_toList_append, hfirst] at hx
        rcases List.mem_cons.mp hx with rfl | hrest
        · exact hprefix.subset (mem_pushAll.mpr (.inr hy))
        · exact hclosed x hrest y hy

end Runs
