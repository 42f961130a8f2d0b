import Mathlib.Data.Fintype.Basic
import Mathlib.Data.List.Basic
import Mathlib.Logic.Equiv.Basic
import Mathlib.Logic.Function.Basic
import Mathlib.Tactic.Common
import ScorbitPlugin.Runs.System

set_option relaxedAutoImplicit false
set_option autoImplicit false

/-!
# The latch

`Latch` of `src/Latch.h`: a slot that holds the latest record. `Post` exchanges in a new record and
deletes the one it displaced, `Take` exchanges in null and owns what it took. Any number of threads
post and take; each `new`, exchange, read and `delete` is a step, and the steps interleave in any
way. The allocator may hand out any address that is not in use, also one that was used before.

## Main definitions

* `Latch.State`, `Latch.step`, `Latch.system` — the heap, the slot and the threads.
* `Latch.State.Owns` — who may reach a record.
* `Latch.slotAfter` — the value of an atomic variable after some posts and takes.
* `Latch.Sound` — what holds of a run.

## Main results

* `Latch.latch_sound` — every record has one owner, nothing is used after it was deleted or leaked,
  and a take gets what was posted last, once.
-/

namespace Latch

variable {ι α : Type}

/-! ## The threads -/

/-- Where a thread stands, with the address of its record and what is in it. -/
inductive Pc (α : Type)
  | idle
  /-- `Post`, before `new`. -/
  | post (value : α)
  /-- `Post`, before the exchange. -/
  | exchange (record : ℕ) (value : α)
  /-- `Post`, before it deletes what it displaced. -/
  | delete (record : Option ℕ)
  /-- It owns what `Take` returned. -/
  | holds (record : Option ℕ) (took : Option α)

/-- The record a thread owns. -/
def Pc.record : Pc α → Option ℕ
  | .exchange record _ => some record
  | .delete record | .holds record _ => record
  | .idle | .post _ => none

/-- The thread is in no function of the latch. -/
def Pc.outside : Pc α → Bool
  | .idle | .holds _ _ => true
  | .post _ | .exchange _ _ | .delete _ => false

/-- An exchange: a record went in, or was taken. -/
inductive Exchange (α : Type)
  | posted (value : α)
  | took (value : Option α)

/-- The heap, the slot and the threads. -/
structure State (ι α : Type) where
  /-- The records in use, by address. -/
  heap : ℕ → Option α := fun _ => none
  /-- `m_slot`, where null is `none`. -/
  slot : Option ℕ := none
  pc : ι → Pc α := fun _ => .idle
  /-- `~Latch` has run. -/
  gone : Bool := false
  /-- A record was read or deleted that was not in use. -/
  faulted : Bool := false
  /-- The exchanges, oldest first. -/
  log : List (Exchange α) := []
  /-- What was read of records that were taken, and what was in them when they were taken. -/
  reads : List (Option α × Option α) := []

/-- What a thread does. -/
inductive Act (ι α : Type)
  | post (i : ι) (value : α)
  /-- `new` gives it a record at an address. -/
  | new (i : ι) (record : ℕ)
  | swap (i : ι)
  | delete (i : ι)
  | take (i : ι)
  | read (i : ι)
  /-- `~Latch`. -/
  | destroy

namespace State

variable (s : State ι α)

/-- `delete`, which does nothing for null. -/
def free : Option ℕ → State ι α
  | none => s
  | some record =>
    { s with
      heap := Function.update s.heap record none
      faulted := s.faulted || (s.heap record).isNone }

/-- What is in a record. -/
def valueOf (record : Option ℕ) : Option α := record.bind s.heap

/-- A thread goes on. -/
def goto [DecidableEq ι] (i : ι) (pc : Pc α) : State ι α :=
  { s with pc := Function.update s.pc i pc }

end State

/-- One step. -/
def step [DecidableEq ι] (s : State ι α) : Act ι α → Option (State ι α)
  | .post i value =>
    match s.pc i with
    | .idle => if s.gone then none else some (s.goto i (.post value))
    | _ => none
  | .new i record =>
    match s.pc i with
    | .post value =>
      if (s.heap record).isNone then
        some { s.goto i (.exchange record value) with
          heap := Function.update s.heap record (some value) }
      else none
    | _ => none
  | .swap i =>
    match s.pc i with
    | .exchange record value =>
      some { s.goto i (.delete s.slot) with
        slot := some record, log := s.log ++ [.posted value] }
    | _ => none
  | .delete i =>
    match s.pc i with
    | .delete record | .holds record _ => some ((s.free record).goto i .idle)
    | _ => none
  | .take i =>
    match s.pc i with
    | .idle =>
      if s.gone then none
      else
        some { s.goto i (.holds s.slot (s.valueOf s.slot)) with
          slot := none, log := s.log ++ [.took (s.valueOf s.slot)] }
    | _ => none
  | .read i =>
    match s.pc i with
    | .holds (some record) took =>
      some { s with
        reads := s.reads ++ [(s.heap record, took)]
        faulted := s.faulted || (s.heap record).isNone }
    | _ => none
  | .destroy =>
    if s.gone then none else some { s.free s.slot with slot := none, gone := true }

/-- The latch from its construction. -/
def system [DecidableEq ι] : Runs.System (State ι α) (Act ι α) := .ofStep (· = {}) step

/-- The latch is destroyed when no thread is in one of its functions. -/
def Joined (s : State ι α) (a : Act ι α) : Prop :=
  match a with
  | .destroy => ∀ i, (s.pc i).outside = true
  | _ => True

instance [Fintype ι] (s : State ι α) (a : Act ι α) : Decidable (Joined s a) :=
  match a with
  | .destroy => inferInstanceAs (Decidable (∀ i, (s.pc i).outside = true))
  | .post .. | .new .. | .swap _ | .delete _ | .take _ | .read _ => isTrue trivial

/-! ## Soundness -/

/-- Who may reach a record: the slot, or one thread. -/
def State.Owns (s : State ι α) : Option ι → ℕ → Prop
  | none, record => s.slot = some record
  | some i, record => (s.pc i).record = some record

/-- An atomic variable after some exchanges: it holds what was posted last, until that is taken. -/
def slotAfter (log : List (Exchange α)) : Option α :=
  match log.getLast? with
  | some (.posted value) => some value
  | _ => none

/-- Every take got what was in the variable. -/
inductive Legal : List (Exchange α) → Prop
  | nil : Legal []
  | posted {log : List (Exchange α)} (value : α) (h : Legal log) : Legal (log ++ [.posted value])
  | took {log : List (Exchange α)} (h : Legal log) : Legal (log ++ [.took (slotAfter log)])

/-- What was posted. -/
def postedOf (log : List (Exchange α)) : List α :=
  log.filterMap fun
    | .posted value => some value
    | .took _ => none

/-- What was taken. -/
def takenOf (log : List (Exchange α)) : List α :=
  log.filterMap fun
    | .posted _ => none
    | .took value => value

/-- The records in use have one owner each. -/
structure Owned (s : State ι α) : Prop where
  live : ∀ record, s.heap record ≠ none ↔ ∃ o, s.Owns o record
  alone : ∀ o o' record, s.Owns o record → s.Owns o' record → o = o'

/-- What holds in every state. -/
structure Sound (s : State ι α) : Prop where
  /-- Nothing is read or deleted that is not in use. -/
  safe : s.faulted = false
  /-- What is read of a record is what was in it when it was taken. -/
  reads : ∀ r ∈ s.reads, r.1 = r.2 ∧ r.1 ≠ none
  owned : Owned s
  /-- The slot is an atomic variable. -/
  legal : Legal s.log
  slot : ¬ s.gone = true → s.valueOf s.slot = slotAfter s.log
  /-- Each thread knows what is in its record. -/
  exchange : ∀ i record value, s.pc i = .exchange record value → s.heap record = some value
  holds : ∀ i record took, s.pc i = .holds record took → s.valueOf record = took
  gone : s.gone = true → s.slot = none ∧ ∀ i, (s.pc i).outside = true

/-- What is taken was posted, in order and once.

**Proof sketch.** By induction on the log. A post replaces what was in the slot, which is lost; a
take appends it to what was taken and leaves the slot empty. -/
theorem Legal.sublist {log : List (Exchange α)} (h : Legal log) :
    (takenOf log ++ (slotAfter log).toList).Sublist (postedOf log) := by
  induction h with
  | nil => exact List.Sublist.refl _
  | @posted log value h ih =>
    have htaken : takenOf (log ++ [.posted value]) = takenOf log := by simp [takenOf]
    have hposted : postedOf (log ++ [.posted value]) = postedOf log ++ [value] := by
      simp [postedOf]
    have hafter : slotAfter (log ++ [.posted value]) = some value := by simp [slotAfter]
    rw [htaken, hposted, hafter]
    exact ((List.sublist_append_left _ _).trans ih).append (List.Sublist.refl _)
  | @took log h ih =>
    have htaken : takenOf (log ++ [.took (slotAfter log)]) =
        takenOf log ++ (slotAfter log).toList := by
      cases hafter : slotAfter log <;> simp [takenOf]
    have hposted : postedOf (log ++ [.took (slotAfter log)]) = postedOf log := by simp [postedOf]
    have hafter : slotAfter (log ++ [.took (slotAfter log)]) = none := by simp [slotAfter]
    rw [htaken, hposted, hafter]
    simpa using ih

/-! ## Ownership -/

section Owned

variable {s s' : State ι α}

/-- Owners trade places. -/
theorem Owned.traded (h : Owned s) (swap : Equiv.Perm (Option ι))
    (hheap : ∀ record, s'.heap record = none ↔ s.heap record = none)
    (howns : ∀ o record, s'.Owns o record ↔ s.Owns (swap o) record) : Owned s' := by
  constructor
  · intro record
    rw [Ne, hheap, ← Ne, h.live]
    constructor
    · rintro ⟨o, ho⟩
      exact ⟨swap.symm o, (howns _ _).mpr (by rwa [Equiv.apply_symm_apply])⟩
    · rintro ⟨o, ho⟩
      exact ⟨swap o, (howns _ _).mp ho⟩
  · intro o o' record ho ho'
    exact swap.injective (h.alone _ _ record ((howns _ _).mp ho) ((howns _ _).mp ho'))

/-- Someone gets a new record.

**Proof sketch.** Nobody owned the new record, for it was free. Every other record is in the heap as
before and owned as before. -/
theorem Owned.gained (h : Owned s) {o : Option ι} {record : ℕ} (hfree : s.heap record = none)
    {value : α} (hheap : s'.heap = Function.update s.heap record (some value))
    (howns : ∀ o' r, s'.Owns o' r ↔ s.Owns o' r ∨ (o' = o ∧ r = record)) : Owned s' := by
  have hnobody : ∀ o, ¬ s.Owns o record := fun o ho => (h.live record).mpr ⟨o, ho⟩ hfree
  constructor
  · intro r
    rw [hheap]
    by_cases hr : r = record
    · subst hr
      rw [Function.update_self]
      exact ⟨fun _ => ⟨o, (howns _ _).mpr (.inr ⟨rfl, rfl⟩)⟩, fun _ => by simp⟩
    · rw [Function.update_of_ne hr, h.live]
      constructor
      · rintro ⟨o', ho'⟩
        exact ⟨o', (howns _ _).mpr (.inl ho')⟩
      · rintro ⟨o', ho'⟩
        exact ⟨o', ((howns _ _).mp ho').resolve_right fun hnew => hr hnew.2⟩
  · intro o' o'' r ho' ho''
    rcases (howns _ _).mp ho' with hold | ⟨rfl, rfl⟩
    · rcases (howns _ _).mp ho'' with hold' | ⟨rfl, rfl⟩
      · exact h.alone _ _ r hold hold'
      · exact absurd hold (hnobody _)
    · rcases (howns _ _).mp ho'' with hold' | ⟨rfl, -⟩
      · exact absurd hold' (hnobody _)
      · rfl

/-- Someone's record is deleted.

**Proof sketch.** The record is in no heap and nobody's; every other is where it was, with its
owner. -/
theorem Owned.freed (h : Owned s) {o : Option ι} {record : ℕ} (hmine : s.Owns o record)
    (hheap : s'.heap = Function.update s.heap record none)
    (howns : ∀ o' r, s'.Owns o' r ↔ s.Owns o' r ∧ r ≠ record) : Owned s' := by
  constructor
  · intro r
    rw [hheap]
    by_cases hr : r = record
    · subst hr
      rw [Function.update_self]
      refine ⟨fun hne => absurd rfl hne, ?_⟩
      rintro ⟨o', ho'⟩
      exact absurd rfl ((howns _ _).mp ho').2
    · rw [Function.update_of_ne hr, h.live]
      constructor
      · rintro ⟨o', ho'⟩
        exact ⟨o', (howns _ _).mpr ⟨ho', hr⟩⟩
      · rintro ⟨o', ho'⟩
        exact ⟨o', ((howns _ _).mp ho').1⟩
  · intro o' o'' r ho' ho''
    exact h.alone _ _ r ((howns _ _).mp ho').1 ((howns _ _).mp ho'').1

end Owned

/-! ## The steps -/

section Steps

variable [DecidableEq ι] {s s' : State ι α} {i : ι}

/-- What a thread owns after it went on. -/
theorem owns_update {pc : ι → Pc α} {pc' : Pc α} {j : ι} {record : ℕ} :
    (Function.update pc i pc' j).record = some record ↔
      if j = i then pc'.record = some record else (pc j).record = some record := by
  by_cases hj : j = i
  · subst hj
    simp
  · simp [hj]

/-- A thread and the slot trade what they own.

**Proof sketch.** The owners are swapped between the thread and the slot, and nobody else's record
changes (`Owned.traded`). -/
theorem Owned.exchanged (h : Owned s) (hheap : s'.heap = s.heap)
    (hslot : s'.slot = (s.pc i).record) {pc' : Pc α} (hpc : s'.pc = Function.update s.pc i pc')
    (hrecord : pc'.record = s.slot) : Owned s' := by
  refine h.traded (Equiv.swap none (some i)) (fun record => by rw [hheap]) fun o record => ?_
  cases o with
  | none =>
    rw [Equiv.swap_apply_left]
    show s'.slot = some record ↔ (s.pc i).record = some record
    rw [hslot]
  | some j =>
    show (s'.pc j).record = some record ↔ _
    rw [hpc, owns_update]
    by_cases hj : j = i
    · rw [if_pos hj, hj, Equiv.swap_apply_right, hrecord]
      rfl
    · rw [if_neg hj, Equiv.swap_apply_of_ne_of_ne (by simp) (by simpa using hj)]
      rfl

/-- A thread deletes its record.

**Proof sketch.** Without a record nothing is freed. With one it was the thread's alone, so it was
in the heap, and nobody owns it after; the other records are left. -/
theorem Owned.deleted (h : Owned s) :
    Owned ((s.free (s.pc i).record).goto i .idle) ∧
      (s.free (s.pc i).record).faulted = s.faulted := by
  cases hrecord : (s.pc i).record with
  | none =>
    refine ⟨h.traded (Equiv.refl _) (fun record => Iff.rfl) fun o record => ?_, rfl⟩
    cases o with
    | none => exact Iff.rfl
    | some j =>
      show (Function.update s.pc i .idle j).record = some record ↔ (s.pc j).record = some record
      rw [owns_update]
      by_cases hj : j = i
      · rw [if_pos hj, hj, hrecord]
        rfl
      · rw [if_neg hj]
  | some record =>
    have hmine : s.Owns (some i) record := hrecord
    have hlive : s.heap record ≠ none := (h.live record).mpr ⟨_, hmine⟩
    refine ⟨h.freed (o := some i) hmine rfl fun o r => ?_, ?_⟩
    · -- no other owner has the record
      have hothers : ∀ o, o ≠ some i → s.Owns o r → r ≠ record := by
        rintro o hne ho rfl
        exact hne (h.alone _ _ r ho hmine)
      cases o with
      | none =>
        exact ⟨fun ho => ⟨ho, hothers none (by simp) ho⟩, And.left⟩
      | some j =>
        show (Function.update s.pc i .idle j).record = some r ↔ _
        rw [owns_update]
        by_cases hj : j = i
        · rw [if_pos hj, hj]
          refine ⟨fun hnone => by simp [Pc.record] at hnone, fun ⟨ho, hne⟩ => absurd ?_ hne⟩
          exact (Option.some.inj (hrecord.symm.trans ho)).symm
        · rw [if_neg hj]
          exact ⟨fun ho => ⟨ho, hothers (some j) (by simpa using hj) ho⟩, And.left⟩
    · cases hheap : s.heap record with
      | none => exact absurd hheap hlive
      | some value => simp [State.free, hheap]

/-- What a thread knows of its record, and what it did, is kept while others go on.

**Proof sketch.** The thread's own place is given. Another thread's record is in the heap as it was,
and what it took is of the values posted, which are not changed. -/
theorem Sound.known (h : Sound s) (s' : State ι α) {pc' : Pc α} (hheap : ∀ j record, j ≠ i →
      (s.pc j).record = some record → s'.heap record = s.heap record)
    (hpc : s'.pc = Function.update s.pc i pc')
    (hexchange : ∀ record value, pc' = .exchange record value → s'.heap record = some value)
    (hholds : ∀ record took, pc' = .holds record took → s'.valueOf record = took) :
    (∀ j record value, s'.pc j = .exchange record value → s'.heap record = some value) ∧
      ∀ j record took, s'.pc j = .holds record took → s'.valueOf record = took := by
  constructor
  · intro j record value hj
    rw [hpc] at hj
    by_cases heq : j = i
    · rw [heq, Function.update_self] at hj
      exact hexchange record value hj
    · rw [Function.update_of_ne heq] at hj
      rw [hheap j record heq (by rw [hj]; rfl)]
      exact h.exchange j record value hj
  · intro j record took hj
    rw [hpc] at hj
    by_cases heq : j = i
    · rw [heq, Function.update_self] at hj
      exact hholds record took hj
    · rw [Function.update_of_ne heq] at hj
      rw [← h.holds j record took hj]
      cases record with
      | none => rfl
      | some record => exact hheap j record heq (by rw [hj]; rfl)

/-- Every thread stays outside of a latch that is gone. -/
theorem Sound.stays (h : Sound s) {pc' : Pc α} (hpc' : pc'.outside = true)
    (hgone : s.gone = true) :
    s.slot = none ∧ ∀ j, (Function.update s.pc i pc' j).outside = true := by
  obtain ⟨hslot, hall⟩ := h.gone hgone
  refine ⟨hslot, fun j => ?_⟩
  by_cases hj : j = i
  · rw [hj, Function.update_self]
    exact hpc'
  · rw [Function.update_of_ne hj]
    exact hall j

/-- A thread that deletes its record keeps everything.

**Proof sketch.** The record was the thread's alone (`Owned.deleted`), so the heap holds the records
of all others as before; the thread is idle after, and knows of none. -/
theorem Sound.deleted (h : Sound s) : Sound ((s.free (s.pc i).record).goto i .idle) := by
  obtain ⟨howned, hfaulted⟩ := h.owned.deleted (i := i)
  have hheap : ∀ o record, o ≠ some i → s.Owns o record →
      (s.free (s.pc i).record).heap record = s.heap record := by
    intro o record hne ho
    cases hmine : (s.pc i).record with
    | none => rfl
    | some r =>
      refine Function.update_of_ne ?_ _ _
      rintro rfl
      exact hne (h.owned.alone _ _ record ho hmine)
  obtain ⟨hexchange, hholds⟩ := h.known (i := i)
    ((s.free (s.pc i).record).goto i .idle)
    (fun j record hj hr => hheap (some j) record (by simpa using hj) hr)
    (by cases (s.pc i).record <;> rfl) (by simp) (by simp)
  have hsame : (s.free (s.pc i).record).slot = s.slot ∧
      (s.free (s.pc i).record).log = s.log ∧ (s.free (s.pc i).record).reads = s.reads ∧
        (s.free (s.pc i).record).gone = s.gone ∧ (s.free (s.pc i).record).pc = s.pc := by
    cases (s.pc i).record <;> exact ⟨rfl, rfl, rfl, rfl, rfl⟩
  obtain ⟨hslot, hlog, hreads, hgone, hpc⟩ := hsame
  refine ⟨hfaulted.trans h.safe, ?_, howned, ?_, fun hg => ?_, hexchange, hholds, fun hg => ?_⟩
  · show ∀ r ∈ (s.free (s.pc i).record).reads, _
    rw [hreads]
    exact h.reads
  · show Legal (s.free (s.pc i).record).log
    rw [hlog]
    exact h.legal
  · show ((s.free (s.pc i).record).slot).bind (s.free (s.pc i).record).heap =
      slotAfter (s.free (s.pc i).record).log
    have hg : ¬ (s.free (s.pc i).record).gone = true := hg
    rw [hgone] at hg
    rw [hslot, hlog, ← h.slot hg]
    cases hs : s.slot with
    | none => rfl
    | some record => exact hheap none record (by simp) hs
  · have hg : (s.free (s.pc i).record).gone = true := hg
    rw [hgone] at hg
    show (s.free (s.pc i).record).slot = none ∧
      ∀ j, (Function.update (s.free (s.pc i).record).pc i .idle j).outside = true
    rw [hslot, hpc]
    exact h.stays rfl hg

omit [DecidableEq ι] in
/-- A latch that is gone has no thread in its functions. -/
theorem Sound.not_gone (h : Sound s) (hinside : (s.pc i).outside = false) : s.gone ≠ true := by
  intro hgone
  have := (h.gone hgone).2 i
  rw [hinside] at this
  cases this

/-- `Post` is called: the thread owns nothing yet.

**Proof sketch.** The thread owns nothing before and after, so ownership is as it was. -/
theorem Sound.post (h : Sound s) (hpc : s.pc i = .idle) (hgone : ¬ s.gone = true) (value : α) :
    Sound (s.goto i (.post value)) := by
  obtain ⟨hexchange, hholds⟩ := h.known (i := i) (s.goto i (.post value))
    (fun _ _ _ _ => rfl) rfl (by simp) (by simp)
  refine ⟨h.safe, h.reads, ?_, h.legal, h.slot, hexchange, hholds, fun hg => absurd hg hgone⟩
  refine h.owned.traded (Equiv.refl _) (fun _ => Iff.rfl) fun o record => ?_
  cases o with
  | none => exact Iff.rfl
  | some j =>
    show (Function.update s.pc i (.post value) j).record = some record ↔
      (s.pc j).record = some record
    rw [owns_update]
    by_cases hj : j = i
    · rw [if_pos hj, hj, hpc]
      exact Iff.rfl
    · rw [if_neg hj]

/-- `new` gives a thread a record that no one has.

**Proof sketch.** The record is free, so no one's record changes and no one else has it
(`Owned.gained`). -/
theorem Sound.new (h : Sound s) {value : α} (hpc : s.pc i = .post value) {record : ℕ}
    (hfree : s.heap record = none) :
    Sound { s.goto i (.exchange record value) with
      heap := Function.update s.heap record (some value) } := by
  have hnobody : ∀ o, ¬ s.Owns o record := fun o ho => (h.owned.live record).mpr ⟨o, ho⟩ hfree
  have hheap : ∀ o r, s.Owns o r → Function.update s.heap record (some value) r = s.heap r := by
    intro o r ho
    refine Function.update_of_ne ?_ _ _
    rintro rfl
    exact hnobody o ho
  obtain ⟨hexchange, hholds⟩ := h.known (i := i)
    { s.goto i (.exchange record value) with
      heap := Function.update s.heap record (some value) }
    (fun j r _ hr => hheap (some j) r hr) rfl
    (fun r v heq => by
      obtain ⟨rfl, rfl⟩ := Pc.exchange.inj heq
      exact Function.update_self _ _ _) (by simp)
  have hgone : ¬ s.gone = true := h.not_gone (i := i) (by rw [hpc]; rfl)
  refine ⟨h.safe, h.reads, ?_, h.legal, fun hg => ?_, hexchange, hholds,
    fun hg => absurd hg hgone⟩
  · refine h.owned.gained (o := some i) hfree rfl fun o r => ?_
    cases o with
    | none => exact ⟨.inl, fun ho => ho.resolve_right (by simp)⟩
    | some j =>
      show (Function.update s.pc i (.exchange record value) j).record = some r ↔ _
      rw [owns_update]
      by_cases hj : j = i
      · rw [if_pos hj, hj]
        have hnone : ¬ s.Owns (some i) r := by
          show ¬ (s.pc i).record = some r
          rw [hpc]
          simp [Pc.record]
        constructor
        · intro heq
          exact .inr ⟨rfl, (Option.some.inj heq).symm⟩
        · rintro (hold | ⟨-, rfl⟩)
          · exact absurd hold hnone
          · rfl
      · rw [if_neg hj]
        exact ⟨.inl, fun ho => ho.resolve_right (by simp [hj])⟩
  · show s.slot.bind (Function.update s.heap record (some value)) = slotAfter s.log
    rw [← h.slot hg]
    cases hslot : s.slot with
    | none => rfl
    | some r => exact hheap none r hslot

/-- The exchange of `Post`: the thread and the slot trade their records. -/
theorem Sound.swap (h : Sound s) {record : ℕ} {value : α} (hpc : s.pc i = .exchange record value) :
    Sound { s.goto i (.delete s.slot) with
      slot := some record, log := s.log ++ [.posted value] } := by
  obtain ⟨hexchange, hholds⟩ := h.known (i := i)
    { s.goto i (.delete s.slot) with
      slot := some record, log := s.log ++ [.posted value] }
    (fun _ _ _ _ => rfl) rfl (by simp) (by simp)
  have hgone : ¬ s.gone = true := h.not_gone (i := i) (by rw [hpc]; rfl)
  refine ⟨h.safe, h.reads, ?_, h.legal.posted value, fun _ => ?_, hexchange, hholds,
    fun hg => absurd hg hgone⟩
  · exact h.owned.exchanged (i := i) rfl (by rw [hpc]; rfl) rfl rfl
  · show (some record).bind s.heap = slotAfter (s.log ++ [.posted value])
    simpa [slotAfter] using h.exchange i record value hpc

/-- `Take`: the thread gets what was in the slot.

**Proof sketch.** The thread had nothing and the slot has nothing after, so the two have traded
(`Owned.exchanged`); what is taken is what the log says the slot had. -/
theorem Sound.take (h : Sound s) (hpc : s.pc i = .idle) (hgone : ¬ s.gone = true) :
    Sound { s.goto i (.holds s.slot (s.valueOf s.slot)) with
      slot := none, log := s.log ++ [.took (s.valueOf s.slot)] } := by
  obtain ⟨hexchange, hholds⟩ := h.known (i := i)
    { s.goto i (.holds s.slot (s.valueOf s.slot)) with
      slot := none, log := s.log ++ [.took (s.valueOf s.slot)] }
    (fun _ _ _ _ => rfl) rfl (by simp) (fun record took heq => by
      obtain ⟨rfl, rfl⟩ := Pc.holds.inj heq
      rfl)
  refine ⟨h.safe, h.reads, ?_, ?_, fun _ => ?_, hexchange, hholds, fun hg => absurd hg hgone⟩
  · exact h.owned.exchanged (i := i) rfl (by rw [hpc]; rfl) rfl rfl
  · show Legal (s.log ++ [.took (s.valueOf s.slot)])
    rw [h.slot hgone]
    exact h.legal.took
  · show none = slotAfter (s.log ++ [.took _])
    simp [slotAfter]

omit [DecidableEq ι] in
/-- A thread reads the record it took.

**Proof sketch.** The thread owns the record, so it is in the heap, and with the value that was
taken with it. -/
theorem Sound.read (h : Sound s) {record : ℕ} {took : Option α}
    (hpc : s.pc i = .holds (some record) took) :
    Sound { s with
      reads := s.reads ++ [(s.heap record, took)]
      faulted := s.faulted || (s.heap record).isNone } := by
  have hlive : s.heap record ≠ none := by
    refine (h.owned.live record).mpr ⟨some i, ?_⟩
    show (s.pc i).record = some record
    rw [hpc]
    rfl
  have htook : s.heap record = took := h.holds i (some record) took hpc
  refine ⟨?_, fun r hr => ?_, ⟨h.owned.live, h.owned.alone⟩, h.legal, h.slot, h.exchange,
    h.holds, h.gone⟩
  · show (s.faulted || (s.heap record).isNone) = false
    rw [h.safe, Bool.false_or, Option.isNone_eq_false_iff, Option.isSome_iff_ne_none]
    exact hlive
  · rcases List.mem_append.mp hr with hr | hr
    · exact h.reads r hr
    · obtain rfl := List.mem_singleton.mp hr
      exact ⟨htook, hlive⟩

omit [DecidableEq ι] in
/-- `~Latch` deletes what is left in the slot.

**Proof sketch.** All threads are outside, so none has a record. What the slot has is its own and is
freed; after it nobody owns anything. -/
theorem Sound.destroy (h : Sound s) (hjoined : ∀ i, (s.pc i).outside = true) :
    Sound { s.free s.slot with slot := none, gone := true } := by
  cases hslot : s.slot with
  | none =>
    refine ⟨h.safe, h.reads, ?_, h.legal, fun hg => absurd rfl hg, h.exchange, h.holds,
      fun _ => ⟨rfl, hjoined⟩⟩
    refine h.owned.traded (Equiv.refl _) (fun _ => Iff.rfl) fun o record => ?_
    cases o with
    | none => exact iff_of_false (by simp [State.Owns]) (by simp [State.Owns, hslot])
    | some j => exact Iff.rfl
  | some record =>
    have hmine : s.Owns none record := hslot
    have hothers : ∀ j r, (s.pc j).record = some r → r ≠ record := by
      rintro j r hr rfl
      exact absurd (h.owned.alone (some j) none r hr hmine) (by simp)
    have hlive : (s.heap record).isNone = false := by
      rw [Option.isNone_eq_false_iff, Option.isSome_iff_ne_none]
      exact (h.owned.live record).mpr ⟨none, hmine⟩
    refine ⟨?_, h.reads, ?_, h.legal, fun hg => absurd rfl hg, ?_, ?_, fun _ => ⟨rfl, hjoined⟩⟩
    · show (s.faulted || (s.heap record).isNone) = false
      rw [h.safe, hlive]
      rfl
    · refine h.owned.freed (o := none) hmine rfl fun o r => ?_
      cases o with
      | none =>
        refine iff_of_false (by simp [State.Owns]) ?_
        rintro ⟨ho, hne⟩
        exact hne (Option.some.inj (hslot.symm.trans ho)).symm
      | some j => exact ⟨fun ho => ⟨ho, hothers j r ho⟩, And.left⟩
    · intro j r value hj
      have hne : r ≠ record := hothers j r (by
        show (s.pc j).record = some r
        rw [show s.pc j = .exchange r value from hj]
        rfl)
      show Function.update s.heap record none r = some value
      rw [Function.update_of_ne hne]
      exact h.exchange j r value hj
    · intro j r took hj
      have hj : s.pc j = .holds r took := hj
      cases r with
      | none => exact h.holds j none took hj
      | some r =>
        have hne : r ≠ record := hothers j r (by rw [hj]; rfl)
        show Function.update s.heap record none r = took
        rw [Function.update_of_ne hne]
        exact h.holds j (some r) took hj

/-- **Every step keeps the latch sound.**

**Proof sketch.** By the step and the place of its thread; a step that does not fit the place cannot
be taken. An exchange trades the thread's record for the slot's, and the others are lemmas. -/
theorem Sound.step (h : Sound s) {a : Act ι α} (hjoined : Joined s a)
    (hs : step s a = some s') : Sound s' := by
  cases a with
  | post i value =>
    cases hpc : s.pc i with
    | idle =>
      simp only [Latch.step, hpc] at hs
      obtain ⟨hgone, hs⟩ := Option.ite_none_left_eq_some.mp hs
      obtain rfl := Option.some.inj hs
      exact h.post hpc hgone value
    | post | exchange | delete | holds => simp [Latch.step, hpc] at hs
  | new i record =>
    cases hpc : s.pc i with
    | post value =>
      simp only [Latch.step, hpc] at hs
      obtain ⟨hfree, hs⟩ := Option.ite_none_right_eq_some.mp hs
      obtain rfl := Option.some.inj hs
      exact h.new hpc (by simpa using hfree)
    | idle | exchange | delete | holds => simp [Latch.step, hpc] at hs
  | swap i =>
    cases hpc : s.pc i with
    | exchange record value =>
      simp only [Latch.step, hpc] at hs
      obtain rfl := Option.some.inj hs
      exact h.swap hpc
    | idle | post | delete | holds => simp [Latch.step, hpc] at hs
  | delete i =>
    have hdeleted := h.deleted (i := i)
    cases hpc : s.pc i with
    | delete record =>
      simp only [Latch.step, hpc] at hs
      obtain rfl := Option.some.inj hs
      rwa [hpc] at hdeleted
    | holds record took =>
      simp only [Latch.step, hpc] at hs
      obtain rfl := Option.some.inj hs
      rwa [hpc] at hdeleted
    | idle | post | exchange => simp [Latch.step, hpc] at hs
  | take i =>
    cases hpc : s.pc i with
    | idle =>
      simp only [Latch.step, hpc] at hs
      obtain ⟨hgone, hs⟩ := Option.ite_none_left_eq_some.mp hs
      obtain rfl := Option.some.inj hs
      exact h.take hpc hgone
    | post | exchange | delete | holds => simp [Latch.step, hpc] at hs
  | read i =>
    cases hpc : s.pc i with
    | holds record took =>
      cases record with
      | none => simp [Latch.step, hpc] at hs
      | some record =>
        simp only [Latch.step, hpc] at hs
        obtain rfl := Option.some.inj hs
        exact h.read hpc
    | idle | post | exchange | delete => simp [Latch.step, hpc] at hs
  | destroy =>
    obtain ⟨hgone, hs⟩ := Option.ite_none_left_eq_some.mp hs
    obtain rfl := Option.some.inj hs
    exact h.destroy hjoined

omit [DecidableEq ι] in
/-- Nothing has happened yet. -/
theorem Sound.init : Sound ({} : State ι α) := by
  have howns : ∀ o record, ¬ ({} : State ι α).Owns o record := by
    rintro (_ | i) record ho <;> exact absurd ho (by simp [State.Owns, Pc.record])
  refine ⟨rfl, by simp, ⟨fun record => ?_, fun o o' record ho => absurd ho (howns o record)⟩, .nil,
    fun _ => rfl, ?_, ?_, by simp⟩
  · refine iff_of_false (fun hne => hne rfl) ?_
    rintro ⟨o, ho⟩
    exact howns o record ho
  · intro i record value heq
    cases heq
  · intro i record took heq
    cases heq

/-- **The latch hands over the latest record, and each record has one owner**: whatever the threads
do, nothing is read or deleted that is not in use, what is read is what was posted, a take gets what
was posted since the last one, latest first and once, and when the latch is gone and no thread has a
record, none is left.

**Proof sketch.** Each step moves one record: `new` makes its thread the owner, an exchange lets the
thread and the slot trade, and `delete` ends the record of the one who does it. So one owner each
is kept (`Owned.gained`, `Owned.exchanged`, `Owned.freed`), and a step can neither fault nor change
a record that another owner reads. The slot is then an atomic variable, and its log is legal. -/
theorem latch_sound (h : (system : Runs.System (State ι α) (Act ι α)).Reaches Joined s) :
    Sound s ∧ (takenOf s.log).Sublist (postedOf s.log) ∧
      (s.gone = true → (∀ i, (s.pc i).record = none) → ∀ record, s.heap record = none) := by
  have hsound : Sound s := by
    apply h.invariant
    · rintro t rfl
      exact .init
    · intro t a t' ht hok hs
      exact ht.step hok hs
  refine ⟨hsound, ?_, ?_⟩
  · have htaken : (takenOf s.log).Sublist (takenOf s.log ++ (slotAfter s.log).toList) :=
      List.sublist_append_left _ _
    exact htaken.trans hsound.legal.sublist
  · intro hgone hnobody record
    by_contra hlive
    obtain ⟨o, ho⟩ := (hsound.owned.live record).mp hlive
    cases o with
    | none =>
      rw [State.Owns, (hsound.gone hgone).1] at ho
      cases ho
    | some i =>
      rw [State.Owns, hnobody i] at ho
      cases ho

end Steps

/-- Two threads post, a third takes, and the address of a displaced record is used again. -/
def sharedRun : List (Act (Fin 3) ℕ) :=
  [.post 0 1, .post 1 2, .new 0 7, .new 1 8, .swap 0, .swap 1, .delete 0, .delete 1,
    .post 0 3, .new 0 7, .take 2, .swap 0, .read 2, .delete 2, .take 2, .delete 0, .post 1 4,
    .new 1 8, .swap 1, .read 2, .delete 1, .delete 2, .destroy]

/-- The latest of two records is taken, a later one is not lost, and nothing is left. -/
theorem latch_sound_sharedRun : ∃ s : State (Fin 3) ℕ,
    Runs.runOf step {} sharedRun = some s ∧ takenOf s.log = [2, 3] ∧
      postedOf s.log = [1, 2, 3, 4] ∧ s.faulted = false ∧ ∀ record, s.heap record = none := by
  have hrun : ((Runs.runOf step {} sharedRun).any (fun s : State (Fin 3) ℕ =>
        decide (takenOf s.log = [2, 3] ∧ postedOf s.log = [1, 2, 3, 4] ∧ s.gone = true ∧
          ∀ i, (s.pc i).record = none)) &&
      Runs.holdsAlong step (fun s a => decide (Joined s a)) {} sharedRun) = true := by
    decide +kernel
  obtain ⟨hrun, halong⟩ := Bool.and_eq_true_iff.mp hrun
  obtain ⟨s, hs, hchecks⟩ := (Option.any_eq_true _ _).mp hrun
  obtain ⟨htaken, hposted, hgone, hnobody⟩ := of_decide_eq_true hchecks
  have hreach : system.Reaches Joined s :=
    Runs.System.Reaches.runOf (fun _ _ => of_decide_eq_true) _ (.init rfl) halong hs
  obtain ⟨hsound, -, hempty⟩ := latch_sound hreach
  exact ⟨s, hs, htaken, hposted, hsound.safe, hempty hgone hnobody⟩

end Latch
