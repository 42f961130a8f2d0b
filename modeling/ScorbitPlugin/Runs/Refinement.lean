import ScorbitPlugin.Runs.System

set_option relaxedAutoImplicit false
set_option autoImplicit false

/-!
# Refinement

A step of one system may be several of another, or none. What relates their states is a relation,
so either system may keep what the other has no name for.

## Main definitions

* `Runs.Refinement` — from related states, a step of one system is a run of the other.

## Main results

* `Runs.Refinement.reaches` — every state of a run is related to one of a run of the other system.
-/

namespace Runs

variable {σ τ α β : Type*}

/-- A run that has just begun. -/
theorem System.Reaches.here {T : System τ β} {ok : τ → β → Prop} (t : τ) :
    (T.onFrom t).Reaches ok t :=
  .init rfl

/-- A run of one step. -/
theorem System.Reaches.one {T : System τ β} {ok : τ → β → Prop} {t t' : τ} {b : β}
    (hok : ok t b) (hs : T.step t b t') : (T.onFrom t).Reaches ok t' :=
  .step (.here t) hok hs

/-- Runs that go on from one another. -/
theorem System.Reaches.andThen {T : System τ β} {ok : τ → β → Prop} {s t u : τ}
    (h : (T.onFrom s).Reaches ok t) (h' : (T.onFrom t).Reaches ok u) :
    (T.onFrom s).Reaches ok u := by
  induction h' with
  | init heq => exact (show _ = t from heq) ▸ h
  | step _ hok hs ih => exact .step ih hok hs

/-- The states a run goes through are reachable. -/
theorem System.Reaches.along {S : System σ α} {ok : σ → α → Prop} {s : σ} (h : S.Reaches ok s) :
    S.Reaches (fun s a => S.Reachable s ∧ ok s a) s := by
  induction h with
  | init h => exact .init h
  | step h hok hs ih => exact .step ih ⟨h.reachable, hok⟩ hs

/-- **Refinement**: between states that meet `C`, every step of `S` from related states is a run of
`T` through states that meet `C'`, to related states. -/
structure Refinement (S : System σ α) (T : System τ β) (C : σ → Prop) (C' : τ → Prop)
    (R : σ → τ → Prop) : Prop where
  /-- Initial states are related to initial states. -/
  init : ∀ s, S.init s → ∃ t, T.init t ∧ R s t
  /-- A step is a run. -/
  step : ∀ s t a s', R s t → C s → C s' → S.step s a s' →
    ∃ t', (T.onFrom t).Reaches (fun t _ => C' t) t' ∧ R s' t'

/-- Every run of the refining system is a run of the other, up to related states. -/
theorem Refinement.reaches {S : System σ α} {T : System τ β} {C : σ → Prop} {C' : τ → Prop}
    {R : σ → τ → Prop} (h : Refinement S T C C' R) {s : σ} (hs : S.Reaches (fun s _ => C s) s)
    (hC : C s) : ∃ t, T.Reaches (fun t _ => C' t) t ∧ R s t := by
  induction hs with
  | init hi =>
    obtain ⟨t, ht, hr⟩ := h.init _ hi
    exact ⟨t, .init ht, hr⟩
  | step _ hok hst ih =>
    obtain ⟨t, ht, hr⟩ := ih hok
    obtain ⟨t', hrun, hr'⟩ := h.step _ _ _ _ hr hok hC hst
    exact ⟨t', ht.trans hrun, hr'⟩

end Runs
