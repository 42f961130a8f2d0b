import Mathlib.Logic.Basic
import Mathlib.Tactic.TypeStar

set_option relaxedAutoImplicit false
set_option autoImplicit false

/-!
# Labelled transition systems

A system is what its initial states are and which steps it can take. A run may be held to a
condition on each step, stated on the state before it and on its label; the free condition gives
plain reachability.

## Main definitions

* `Runs.System` — initial states and labelled steps.
* `Runs.System.Reaches` — the states of the runs whose steps all meet a condition.
* `Runs.runOf`, `Runs.holdsAlong` — the deterministic run of a list of labels, and a check along
  it.
* `Runs.Simulation` — every step of one system is a step of another, seen through a function.

## Main results

* `Runs.System.Reaches.invariant` — what the steps of a run preserve holds in every state of it.
* `Runs.Simulation.reaches` — a simulation carries runs to runs.
* `Runs.reachable_of_runOf` — the states a list of labels leads to are reachable.
-/

namespace Runs

variable {σ τ α β : Type*}

/-- A labelled transition system. -/
structure System (σ α : Type*) where
  /-- The initial states. -/
  init : σ → Prop
  /-- The steps, with their labels. -/
  step : σ → α → σ → Prop

/-- The system of a partial step function. -/
def System.ofStep (init : σ → Prop) (f : σ → α → Option σ) : System σ α where
  init := init
  step s a s' := f s a = some s'

/-- The states of the runs of `S` whose steps all meet the condition `ok`. -/
inductive System.Reaches (S : System σ α) (ok : σ → α → Prop) : σ → Prop
  | init {s : σ} (h : S.init s) : Reaches S ok s
  | step {s s' : σ} {a : α} (h : Reaches S ok s) (hok : ok s a) (hs : S.step s a s') :
      Reaches S ok s'

/-- The states of all runs of `S`. -/
def System.Reachable (S : System σ α) (s : σ) : Prop := S.Reaches (fun _ _ => True) s

/-- **The invariant rule**: what holds initially and is kept by every step of a run holds in every
state the run reaches. -/
theorem System.Reaches.invariant {S : System σ α} {ok : σ → α → Prop} {I : σ → Prop}
    (hinit : ∀ s, S.init s → I s)
    (hstep : ∀ s a s', I s → ok s a → S.step s a s' → I s') {s : σ} (h : S.Reaches ok s) :
    I s := by
  induction h with
  | init h => exact hinit _ h
  | step _ hok hs ih => exact hstep _ _ _ ih hok hs

/-- A run under a condition is a run under a weaker one. -/
theorem System.Reaches.mono {S : System σ α} {ok ok' : σ → α → Prop}
    (hok : ∀ s a, ok s a → ok' s a) {s : σ} (h : S.Reaches ok s) : S.Reaches ok' s := by
  induction h with
  | init h => exact .init h
  | step _ h hs ih => exact .step ih (hok _ _ h) hs

/-- A run under a condition is a run. -/
theorem System.Reaches.reachable {S : System σ α} {ok : σ → α → Prop} {s : σ}
    (h : S.Reaches ok s) : S.Reachable s :=
  h.mono fun _ _ _ => trivial

/-- The runs of `S` that go on from a state. -/
def System.onFrom (S : System σ α) (s : σ) : System σ α := { S with init := (· = s) }

/-- A run that goes on from a reachable state is a run. -/
theorem System.Reaches.onFrom {S : System σ α} {ok : σ → α → Prop} {s s' : σ}
    (h : S.Reachable s) (h' : (S.onFrom s).Reaches ok s') : S.Reachable s' := by
  induction h' with
  | init heq => exact (show _ = s from heq) ▸ h
  | step _ _ hs ih => exact .step ih trivial hs

/-- A run under a condition that goes on under it. -/
theorem System.Reaches.trans {S : System σ α} {ok : σ → α → Prop} {s s' : σ}
    (h : S.Reaches ok s) (h' : (S.onFrom s).Reaches ok s') : S.Reaches ok s' := by
  induction h' with
  | init heq => exact (show _ = s from heq) ▸ h
  | step _ hok hs ih => exact .step ih hok hs

/-- **Simulation**: through `f` every run of `S` is a run of `T`, a step that meets `ok` being one
that meets `ok'`. -/
structure Simulation (S : System σ α) (T : System τ β) (ok : σ → α → Prop) (ok' : τ → β → Prop)
    (f : σ → τ) : Prop where
  /-- Initial states are initial states. -/
  init : ∀ s, S.init s → T.init (f s)
  /-- A step is a step. -/
  step : ∀ s a s', ok s a → S.step s a s' → ∃ b, ok' (f s) b ∧ T.step (f s) b (f s')

/-- A simulation carries the runs of one system to runs of the other. -/
theorem Simulation.reaches {S : System σ α} {T : System τ β} {ok : σ → α → Prop}
    {ok' : τ → β → Prop} {f : σ → τ} (h : Simulation S T ok ok' f) {s : σ}
    (hs : S.Reaches ok s) : T.Reaches ok' (f s) := by
  induction hs with
  | init hi => exact .init (h.init _ hi)
  | step _ hok hst ih =>
    obtain ⟨b, hb, hT⟩ := h.step _ _ _ hok hst
    exact .step ih hb hT

/-- The state a list of labels leads to, when every one of its steps can be taken. -/
def runOf (f : σ → α → Option σ) : σ → List α → Option σ
  | s, [] => some s
  | s, a :: l => (f s a).bind fun s' => runOf f s' l

/-- A check holds before each step of the run of a list of labels. -/
def holdsAlong (f : σ → α → Option σ) (check : σ → α → Bool) : σ → List α → Bool
  | _, [] => true
  | s, a :: l => check s a && (f s a).all fun s' => holdsAlong f check s' l

/-- A list of labels whose steps all pass a check that implies the condition leads a run on. -/
theorem System.Reaches.runOf {init : σ → Prop} {f : σ → α → Option σ} {ok : σ → α → Prop}
    {check : σ → α → Bool} (hok : ∀ s a, check s a = true → ok s a) :
    ∀ (l : List α) {s s' : σ}, (System.ofStep init f).Reaches ok s →
      holdsAlong f check s l = true → Runs.runOf f s l = some s' →
      (System.ofStep init f).Reaches ok s'
  | [], s, s', h, _, hr => by
    obtain rfl : s = s' := by simpa [Runs.runOf] using hr
    exact h
  | a :: l, s, s', h, hc, hr => by
    obtain ⟨t, ht, hr⟩ := Option.bind_eq_some_iff.mp hr
    obtain ⟨ha, hl⟩ := Bool.and_eq_true_iff.mp hc
    rw [ht] at hl
    exact System.Reaches.runOf hok l (.step h (hok s a ha) ht) hl hr

/-- A list of labels leads from a reachable state to one. -/
theorem System.Reachable.runOf {init : σ → Prop} {f : σ → α → Option σ} {s s' : σ} {l : List α}
    (h : (System.ofStep init f).Reachable s) (hr : Runs.runOf f s l = some s') :
    (System.ofStep init f).Reachable s' := by
  have hall : ∀ (l : List α) (s : σ), holdsAlong f (fun _ _ => true) s l = true := by
    intro l
    induction l with
    | nil => exact fun _ => rfl
    | cons a l ih =>
      intro s
      cases h : f s a <;> simp [holdsAlong, h, ih]
  exact System.Reaches.runOf (fun _ _ _ => trivial) l h (hall l s) hr

/-- The states that lists of labels lead to are reachable. -/
theorem reachable_of_runOf {init : σ → Prop} {f : σ → α → Option σ} {s s' : σ} {l : List α}
    (hs : init s) (hr : runOf f s l = some s') : (System.ofStep init f).Reachable s' :=
  System.Reachable.runOf (.init hs) hr

end Runs
