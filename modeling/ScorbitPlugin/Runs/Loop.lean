import Mathlib.Data.Nat.Init
import Mathlib.Tactic.TypeStar

set_option relaxedAutoImplicit false
set_option autoImplicit false

/-!
# Counted loops, and sequences that settle

A `for` loop over `0, …, n - 1` whose body may fail; and a step taken again and again until nothing
changes any more.

## Main definitions

* `Runs.loop` — the loop, in the option monad.

## Main results

* `Runs.loop_invariant` — a loop whose body keeps an invariant succeeds with it.
* `Runs.settled_of_drops` — steps that settle or lower a count settle within that many and one.
-/

namespace Runs

variable {σ : Type*}

/-- The state after the rounds `0, …, n - 1` of a loop; `none` if one of them fails. -/
def loop (body : ℕ → σ → Option σ) : ℕ → σ → Option σ
  | 0, s => some s
  | n + 1, s => (loop body n s).bind (body n)

/-- **The loop rule**: where every round succeeds and takes the invariant from one count to the
next, the loop succeeds and takes it from the first to the last. -/
theorem loop_invariant {body : ℕ → σ → Option σ} {I : ℕ → σ → Prop} {n : ℕ} {s : σ}
    (hinit : I 0 s)
    (hround : ∀ i < n, ∀ s, I i s → ∃ s', body i s = some s' ∧ I (i + 1) s') :
    ∃ s', loop body n s = some s' ∧ I n s' := by
  induction n with
  | zero => exact ⟨s, rfl, hinit⟩
  | succ n ih =>
    obtain ⟨s₁, hs₁, hI₁⟩ := ih fun i hi => hround i (Nat.lt_succ_of_lt hi)
    obtain ⟨s₂, hs₂, hI₂⟩ := hround n (Nat.lt_succ_self n) s₁ hI₁
    refine ⟨s₂, ?_, hI₂⟩
    rw [loop, hs₁]
    exact hs₂

/-- **The settling rule**: where being settled lasts, and every step that does not settle lowers a
count, everything is settled one step after as many as the count was.

**Proof sketch.** By induction on the steps: after each, it is settled, or the count and the steps
together are no more than the count was. After one step more than the count the second cannot be. -/
theorem settled_of_drops {settled : ℕ → Prop} {m : ℕ → ℕ}
    (hstays : ∀ n, settled n → settled (n + 1))
    (hdrops : ∀ n, settled (n + 1) ∨ m (n + 1) < m n) {n : ℕ} (hn : m 0 + 1 ≤ n) :
    settled n := by
  have hkey : ∀ n, settled n ∨ m n + n ≤ m 0 := by
    intro n
    induction n with
    | zero => exact .inr (Nat.le_refl _)
    | succ n ih =>
      rcases ih with hsettled | hcount
      · exact .inl (hstays n hsettled)
      · rcases hdrops n with hsettled | hdrop
        · exact .inl hsettled
        · exact .inr (by omega)
  rcases hkey n with hsettled | hcount
  · exact hsettled
  · exact absurd hcount (by omega)

end Runs
