import ScorbitPlugin.Runs.System
import ScorbitPlugin.Worker.Players
import ScorbitPlugin.Worker.ReadBack

set_option relaxedAutoImplicit false
set_option autoImplicit false

/-!
# The leaderboard results a script reads

`TopScoresStore` and the leaderboard part of `ReadBackState` in `src/ReadBack.cpp`. A result is kept
under its request id until it is released, replaced or evicted; those of an earlier table are kept
out by their epoch, and those of an earlier identity by the last id that was handed out under it.

The marks are history: what was noted, accepted, released and cleared. No function reads them.

## Main definitions

* `Worker.TopScoresStore.add`, `Worker.ScriptState` — the store, and the state over it.
* `Worker.ScoreLog`, `Worker.scores` — the state with its marks, and its runs.
* `Worker.lastAdded` — the last accepted result for an id, and how many were accepted after it.
* `Worker.ReadsOwn` — what is claimed of the results.

## Main results

* `Worker.ScriptState.age_grows` — a result only grows older.
* `Worker.reads_own_scores` — it holds in every run.
-/

namespace Worker

open Codec

/-! ## The store -/

/-- `TopScoresPost`, with the time the worker had it, `0` for none. -/
structure ScorePost extends TopScoresPost where
  received : ℤ := 0
deriving DecidableEq, Repr

/-- `TopScoresStore::Entry`. -/
structure ScoreEntry where
  post : ScorePost
  received : ℤ
deriving DecidableEq, Repr

/-- The id an entry is kept under. -/
def ScoreEntry.id (e : ScoreEntry) : UInt32 := e.post.requestId

/-- `TopScoresStore`, oldest first. -/
abbrev TopScoresStore : Type := List ScoreEntry

namespace TopScoresStore

/-- `CAPACITY`. -/
def capacity : ℕ := 8

variable (s : TopScoresStore)

/-- `Release`. -/
def release (requestId : UInt32) : TopScoresStore := s.filter fun e => e.id != requestId

/-- `Add`. -/
def add (post : ScorePost) (now : ℤ) : TopScoresStore :=
  let rest := release s post.requestId
  (if rest.length ≥ capacity then rest.tail else rest) ++
    [⟨post, if post.received = 0 then now else post.received⟩]

/-- `Find`. -/
def find (requestId : UInt32) : Option ScoreEntry := s.find? fun e => e.id == requestId

end TopScoresStore

/-! ## The script's state -/

/-- A number a script passes: a whole one, or a fraction, an infinity or no number. -/
inductive ScriptNumber
  | whole (n : ℤ)
  | other
deriving DecidableEq, Repr

/-- `ScriptIndex`. -/
def scriptIndex (v : ScriptNumber) (lo hi : ℤ) : Option UInt32 :=
  match v with
  | .other => none
  | .whole n => if n < lo ∨ n > hi then none else some (UInt32.ofNat n.toNat)

/-- `ReadBackState`. -/
structure ScriptState extends ReadBackState where
  lastRequest : UInt32 := 0
  clearedThrough : UInt32 := 0
  scores : TopScoresStore := []

namespace ScriptState

variable (s : ScriptState)

/-- `ClearScores`. -/
def clearScores : ScriptState := { s with scores := [], clearedThrough := s.lastRequest }

/-- `NoteRequest`. -/
def noteRequest (requestId : UInt32) : ScriptState :=
  if requestId ≠ 0 then { s with lastRequest := requestId } else s

/-- `NewEpoch`. -/
def newEpoch (epoch : ℕ) : ScriptState :=
  { s with
    toReadBackState := s.toReadBackState.newEpoch epoch
    clearedThrough := 0
    scores := [] }

/-- A result that `Drain` takes is kept. -/
def accepts (post : ScorePost) : Bool :=
  post.epoch == s.epoch && (s.clearedThrough == 0 || decide (post.requestId > s.clearedThrough))

/-- `Drain`, of what the latch holds and of the results in the channel. -/
def drain (latch : Option PlayersPost) (results : List ScorePost) (now : ℤ) : ScriptState :=
  { s with
    toReadBackState := s.toReadBackState.drain latch
    scores := results.foldl (fun scores post =>
      if s.accepts post then TopScoresStore.add scores post now else scores) s.scores }

/-- `Release`. -/
def release (requestId : ScriptNumber) : ScriptState :=
  match scriptIndex requestId 1 0x7FFFFFFF with
  | some id => { s with scores := TopScoresStore.release s.scores id }
  | none => s

/-- `Find`. -/
def find (requestId : ScriptNumber) : Option ScoreEntry :=
  (scriptIndex requestId 1 0x7FFFFFFF).bind (TopScoresStore.find s.scores)

/-- `Result`, `-1` being `SCORES_NONE`. -/
def result (requestId : ScriptNumber) : ℤ :=
  match s.find requestId with
  | some e => e.post.result
  | none => -1

/-- `Age`, of times in nanoseconds. -/
def age (requestId : ScriptNumber) (now : ℤ) : ℤ :=
  match s.find requestId with
  | none => 0
  | some e => min (e.post.ageS.toNat + max ((now - e.received).tdiv 1000000000) 0) 0x7FFFFFFF

/-- `Count`. -/
def count (requestId : ScriptNumber) : ℕ :=
  match s.find requestId with
  | some e => e.post.entries.length
  | none => 0

/-- `Score`. -/
def score (requestId index : ScriptNumber) : Option Wire.TopScoreEntry :=
  (s.find requestId).bind fun e =>
    if e.post.entries = [] then none
    else (scriptIndex index 0 (e.post.entries.length - 1)).bind fun i => e.post.entries[i.toNat]?

/-- **A result only grows older**: its age is no less than the daemon gave it, up to what an `int`
holds, and never goes back while the clock goes on. -/
theorem age_grows (requestId : ScriptNumber) :
    (∀ e, s.find requestId = some e → ∀ now,
      min (e.post.ageS.toNat : ℤ) 0x7FFFFFFF ≤ s.age requestId now) ∧
    ∀ now now', now ≤ now' → 0 ≤ s.age requestId now ∧
      s.age requestId now ≤ s.age requestId now' ∧ s.age requestId now' ≤ 0x7FFFFFFF := by
  refine ⟨fun e he now => ?_, fun now now' hle => ?_⟩
  · simp only [age, he]
    omega
  · cases hfind : s.find requestId with
    | none => simp [age, hfind]
    | some e =>
      have hticks : (now - e.received).tdiv 1000000000 ≤ (now' - e.received).tdiv 1000000000 :=
        Int.tdiv_le_tdiv (by decide) (Int.sub_le_sub_right hle _)
      simp only [age, hfind]
      refine ⟨?_, ?_, ?_⟩ <;> omega

end ScriptState

/-! ## Runs -/

/-- What happened to results: an id was noted in an epoch, a result was kept, an id released, or
the results were cleared, by a new epoch or within one. -/
inductive ScoreMark
  | noted (id : UInt32) (epoch : ℕ)
  | added (post : ScorePost)
  | released (id : UInt32)
  | cleared
deriving DecidableEq, Repr

/-- The state with its marks, newest first. -/
structure ScoreLog where
  state : ScriptState := {}
  marks : List ScoreMark := []

/-- What can happen. -/
inductive ScoreAct
  | newEpoch (epoch : ℕ)
  | clearScores
  | noteRequest (id : UInt32)
  | release (requestId : ScriptNumber)
  | drain (latch : Option PlayersPost) (results : List ScorePost) (now : ℤ)

namespace ScoreLog

/-- One step. -/
def step (t : ScoreLog) : ScoreAct → ScoreLog
  | .newEpoch epoch => ⟨t.state.newEpoch epoch, .cleared :: t.marks⟩
  | .clearScores => ⟨t.state.clearScores, .cleared :: t.marks⟩
  | .noteRequest id =>
    ⟨t.state.noteRequest id, if id ≠ 0 then .noted id t.state.epoch :: t.marks else t.marks⟩
  | .release requestId =>
    ⟨t.state.release requestId, match scriptIndex requestId 1 0x7FFFFFFF with
      | some id => .released id :: t.marks
      | none => t.marks⟩
  | .drain latch results now =>
    ⟨t.state.drain latch results now,
      ((results.filter t.state.accepts).map .added).reverse ++ t.marks⟩

/-- Epochs grow, ids increase and stay below `2 ^ 31`, and a result is posted under the epoch its
request was noted in. -/
def WellPosted (t : ScoreLog) : ScoreAct → Prop
  | .newEpoch epoch => t.state.epoch < epoch
  | .noteRequest id => id = 0 ∨ t.state.lastRequest < id ∧ id.toNat < 2 ^ 31
  | .drain _ results _ => ∀ post ∈ results, .noted post.requestId post.epoch ∈ t.marks
  | _ => True

instance (t : ScoreLog) (a : ScoreAct) : Decidable (t.WellPosted a) := by
  cases a <;> unfold WellPosted <;> infer_instance

end ScoreLog

/-- The script's results, from the plugin's load. -/
def scores : Runs.System ScoreLog ScoreAct := .ofStep (· = {}) fun t a => some (t.step a)

/-! ## What is claimed -/

/-- The last result kept for an id since it was released or the results were cleared, and how many
were kept for other ids after it. -/
def lastAdded (id : UInt32) : List ScoreMark → Option (ScorePost × ℕ)
  | [] => none
  | .cleared :: _ => none
  | .noted _ _ :: marks => lastAdded id marks
  | .released id' :: marks => if id' = id then none else lastAdded id marks
  | .added post :: marks =>
    if post.requestId = id then some (post, 0)
    else (lastAdded id marks).map fun p => (p.1, p.2 + 1)

/-- The id was noted before results were cleared. -/
def NotedBefore (marks : List ScoreMark) (id : UInt32) (epoch : ℕ) : Prop :=
  ∃ after before, marks = after ++ .cleared :: before ∧ .noted id epoch ∈ before

/-- The id was noted, and results were not cleared after. -/
def NotedSince (marks : List ScoreMark) (id : UInt32) (epoch : ℕ) : Prop :=
  ∃ after before, marks = after ++ .noted id epoch :: before ∧ .cleared ∉ after

/-- What is claimed of the results: none is of a request noted before they were cleared, the ids are
distinct and few, what is found is the last kept, and it stays until many others are kept. -/
structure ReadsOwn (t : ScoreLog) : Prop where
  own : ∀ requestId e, t.state.find requestId = some e →
    ∀ epoch, ¬ NotedBefore t.marks e.id epoch
  distinct : (t.state.scores.map ScoreEntry.id).Nodup
  few : t.state.scores.length ≤ TopScoresStore.capacity
  latest : ∀ id e, TopScoresStore.find t.state.scores id = some e →
    ∃ n, lastAdded id t.marks = some (e.post, n)
  stays : ∀ id post n, lastAdded id t.marks = some (post, n) → n < TopScoresStore.capacity →
    ∃ e, TopScoresStore.find t.state.scores id = some e ∧ e.post = post

/-! ## What the store retains -/

namespace TopScoresStore

variable {s : TopScoresStore} {marks marks' : List ScoreMark}

/-- What is found is kept under the id. -/
theorem of_find {id : UInt32} {e : ScoreEntry} (h : find s id = some e) : e ∈ s ∧ e.id = id :=
  ⟨List.mem_of_find?_eq_some h, by simpa using List.find?_some h⟩

/-- What is kept under an id of its own is found. -/
theorem find_of_mem (hnodup : (s.map ScoreEntry.id).Nodup) {e : ScoreEntry} (he : e ∈ s) :
    find s e.id = some e := by
  induction s with
  | nil => cases he
  | cons e' s ih =>
    obtain ⟨hnot, hnodup⟩ := List.nodup_cons.mp hnodup
    unfold find
    rcases List.mem_cons.mp he with rfl | he
    · exact List.find?_cons_of_pos (by simp)
    · have hne : e'.id ≠ e.id := fun heq => hnot (heq ▸ List.mem_map_of_mem he)
      rw [List.find?_cons_of_neg (by simpa using hne)]
      exact ih hnodup he

/-- The other results stay. -/
theorem mem_release {id : UInt32} {e : ScoreEntry} : e ∈ release s id ↔ e ∈ s ∧ e.id ≠ id := by
  unfold release
  rw [List.mem_filter, bne_iff_ne]

/-- Every entry is the last result kept for its id, and no more entries are behind it than were
kept after it. -/
def Backed (marks : List ScoreMark) : TopScoresStore → Prop
  | [] => True
  | e :: rest =>
    (∃ n, lastAdded e.id marks = some (e.post, n) ∧ rest.length ≤ n) ∧ Backed marks rest

/-- Entries may go, where nothing happened to the others. -/
theorem Backed.sublist {s' : TopScoresStore} (h : Backed marks s) (hsub : List.Sublist s' s)
    (hsame : ∀ e ∈ s', lastAdded e.id marks' = lastAdded e.id marks) : Backed marks' s' := by
  induction hsub with
  | slnil => trivial
  | cons e _ ih => exact ih h.2 hsame
  | cons_cons e hsub ih =>
    obtain ⟨⟨n, hlast, hle⟩, hrest⟩ := h
    refine ⟨⟨n, ?_, hsub.length_le.trans hle⟩,
      ih hrest fun e he => hsame e (List.mem_cons_of_mem _ he)⟩
    rw [hsame e List.mem_cons_self]
    exact hlast

/-- A result is kept behind the others. -/
theorem Backed.append (h : Backed marks s) {e : ScoreEntry} (hne : ∀ e' ∈ s, e'.id ≠ e.id) :
    Backed (.added e.post :: marks) (s ++ [e]) := by
  induction s with
  | nil => exact ⟨⟨0, if_pos rfl, le_rfl⟩, trivial⟩
  | cons e' s ih =>
    obtain ⟨⟨n, hlast, hle⟩, hrest⟩ := h
    refine ⟨⟨n + 1, ?_, ?_⟩, ih hrest fun e'' he => hne e'' (List.mem_cons_of_mem _ he)⟩
    · have hother : e.post.requestId ≠ e'.id := fun heq => hne e' List.mem_cons_self heq.symm
      unfold lastAdded
      rw [if_neg hother, hlast]
      rfl
    · show (s ++ [e]).length ≤ n + 1
      rw [List.length_append]
      exact Nat.succ_le_succ hle

/-- An entry of a backed store is the last kept for its id. -/
theorem Backed.of_mem (h : Backed marks s) {e : ScoreEntry} (he : e ∈ s) :
    ∃ n, lastAdded e.id marks = some (e.post, n) := by
  induction s with
  | nil => cases he
  | cons e' s ih =>
    obtain ⟨⟨n, hlast, -⟩, hrest⟩ := h
    rcases List.mem_cons.mp he with rfl | he
    · exact ⟨n, hlast⟩
    · exact ih hrest he

/-- What the store retains of what happened. -/
structure Retains (marks : List ScoreMark) (s : TopScoresStore) : Prop where
  nodup : (s.map ScoreEntry.id).Nodup
  few : s.length ≤ capacity
  backed : Backed marks s
  stays : ∀ id post n, lastAdded id marks = some (post, n) → n < capacity →
    ∃ e ∈ s, e.id = id ∧ e.post = post

/-- An id is released. -/
theorem Retains.release (h : Retains marks s) (id : UInt32) :
    Retains (.released id :: marks) (release s id) := by
  have hsub : List.Sublist (TopScoresStore.release s id) s := List.filter_sublist
  refine ⟨h.nodup.sublist (hsub.map _), hsub.length_le.trans h.few,
    h.backed.sublist hsub fun e he => ?_, fun id' post n hlast hlt => ?_⟩
  · exact if_neg (mem_release.mp he).2.symm
  · unfold lastAdded at hlast
    split at hlast
    · cases hlast
    · rename_i hne
      obtain ⟨e, he, rfl, hpost⟩ := h.stays id' post n hlast hlt
      exact ⟨e, mem_release.mpr ⟨he, Ne.symm hne⟩, rfl, hpost⟩

/-- A result is kept: when the oldest makes room for it, as many are behind that as the store
holds.

**Proof sketch.** What is behind an entry was kept after it (`Backed`), so the one that goes has
seen eight results of other ids. -/
theorem Retains.add (h : Retains marks s) (post : ScorePost) (now : ℤ) :
    Retains (.added post :: marks) (add s post now) := by
  let rest := TopScoresStore.release s post.requestId
  let others := if rest.length ≥ capacity then rest.tail else rest
  let e : ScoreEntry := ⟨post, if post.received = 0 then now else post.received⟩
  have hrest : List.Sublist rest s := List.filter_sublist
  have hothers : List.Sublist others rest := by
    show List.Sublist (if rest.length ≥ capacity then rest.tail else rest) rest
    split
    · exact List.tail_sublist rest
    · exact List.Sublist.refl rest
  have hne : ∀ e' ∈ others, e'.id ≠ e.id := fun e' he' =>
    (mem_release.mp (hothers.subset he')).2
  have hlength : others.length + 1 ≤ capacity := by
    have hfew := hrest.length_le.trans h.few
    show (if rest.length ≥ capacity then rest.tail else rest).length + 1 ≤ capacity
    split
    · rw [List.length_tail]
      have : 0 < capacity := by decide
      omega
    · omega
  have hnodup : ((others ++ [e]).map ScoreEntry.id).Nodup := by
    rw [List.map_append]
    refine (h.nodup.sublist ((hothers.trans hrest).map _)).append (List.nodup_singleton _) ?_
    refine List.disjoint_singleton.mpr fun hin => ?_
    obtain ⟨e', he', heq⟩ := List.mem_map.mp hin
    exact hne e' he' heq
  refine ⟨hnodup, ?_, ?_, fun id post' n hlast hlt => ?_⟩
  · show (others ++ [e]).length ≤ capacity
    rw [List.length_append]
    exact hlength
  · exact (h.backed.sublist (hothers.trans hrest) fun _ _ => rfl).append hne
  · show ∃ e' ∈ others ++ [e], _
    unfold lastAdded at hlast
    split at hlast
    · rename_i heq
      obtain ⟨rfl, -⟩ := Prod.mk.inj (Option.some.inj hlast)
      exact ⟨e, List.mem_append_right _ List.mem_cons_self, heq, rfl⟩
    · rename_i hother
      obtain ⟨⟨post'', n'⟩, hlast', heq⟩ := Option.map_eq_some_iff.mp hlast
      obtain ⟨rfl, rfl⟩ := Prod.mk.inj heq
      dsimp only at hlt
      obtain ⟨e', he', hid, hpost⟩ := h.stays id post'' n' hlast' (by omega)
      have hin : e' ∈ rest := mem_release.mpr ⟨he', fun heq => hother (heq.symm.trans hid)⟩
      refine ⟨e', List.mem_append_left _ ?_, hid, hpost⟩
      show e' ∈ if rest.length ≥ capacity then rest.tail else rest
      split
      · rename_i hfull
        have hbacked : Backed marks rest := h.backed.sublist hrest fun _ _ => rfl
        cases hcases : rest with
        | nil => rw [hcases] at hin; cases hin
        | cons first behind =>
          rw [hcases] at hin hfull hbacked
          rcases List.mem_cons.mp hin with rfl | hbehind
          · obtain ⟨⟨m, hm, hle⟩, -⟩ := hbacked
            rw [hid, hlast'] at hm
            obtain ⟨-, rfl⟩ := Prod.mk.inj (Option.some.inj hm)
            rw [List.length_cons] at hfull
            omega
          · exact hbehind
      · exact hin

end TopScoresStore

/-! ## What is accepted -/

variable {marks : List ScoreMark} {id : UInt32} {epoch : ℕ}

/-- What was noted before was noted. -/
theorem NotedBefore.mem (h : NotedBefore marks id epoch) : .noted id epoch ∈ marks := by
  obtain ⟨after, before, rfl, hmem⟩ := h
  exact List.mem_append_right _ (List.mem_cons_of_mem _ hmem)

/-- The latest mark clears what was noted, or what was noted before was cleared earlier. -/
theorem NotedBefore.of_cons {m : ScoreMark} (h : NotedBefore (m :: marks) id epoch) :
    m = .cleared ∧ .noted id epoch ∈ marks ∨ NotedBefore marks id epoch := by
  obtain ⟨after, before, heq, hmem⟩ := h
  cases after with
  | nil =>
    obtain ⟨rfl, rfl⟩ := List.cons.inj heq
    exact .inl ⟨rfl, hmem⟩
  | cons m' after =>
    obtain ⟨-, rfl⟩ := List.cons.inj heq
    exact .inr ⟨after, before, rfl, hmem⟩

/-- The latest mark notes the id, or does not clear and the id was noted earlier. -/
theorem NotedSince.of_cons {m : ScoreMark} (h : NotedSince (m :: marks) id epoch) :
    m = .noted id epoch ∨ m ≠ .cleared ∧ NotedSince marks id epoch := by
  obtain ⟨after, before, heq, hnot⟩ := h
  cases after with
  | nil => exact .inl (List.cons.inj heq).1
  | cons m' after =>
    obtain ⟨rfl, rfl⟩ := List.cons.inj heq
    refine .inr ⟨fun hc => hnot (hc ▸ List.mem_cons_self), after, before, rfl, fun hc => ?_⟩
    exact hnot (List.mem_cons_of_mem _ hc)

/-- A mark that neither notes nor clears. -/
def ScoreMark.quiet : ScoreMark → Bool
  | .noted _ _ | .cleared => false
  | _ => true

/-- The notes: ids increase to the last, and each was noted in one epoch, no later than the one in
force. -/
structure Noted (marks : List ScoreMark) (s : ScriptState) : Prop where
  le : ∀ id epoch, .noted id epoch ∈ marks →
    id ≠ 0 ∧ id ≤ s.lastRequest ∧ epoch ≤ s.epoch
  once : ∀ id epoch epoch', .noted id epoch ∈ marks → .noted id epoch' ∈ marks → epoch = epoch'
  floor : s.clearedThrough ≤ s.lastRequest
  /-- What was noted before results were cleared is of an earlier epoch, or below the floor. -/
  before : ∀ id epoch, NotedBefore marks id epoch → epoch < s.epoch ∨ id ≤ s.clearedThrough
  /-- What was noted since is of this epoch, and above the floor. -/
  since : ∀ id epoch, NotedSince marks id epoch → epoch = s.epoch ∧ s.clearedThrough < id

namespace Noted

variable {s s' : ScriptState}

/-- Quiet marks change nothing.

**Proof sketch.** By induction on the marks: a quiet one is no note and clears nothing, so no clause
counts it. -/
theorem of_quiet (h : Noted marks s) {new : List ScoreMark} (hquiet : ∀ m ∈ new, m.quiet = true)
    (hlast : s'.lastRequest = s.lastRequest) (hepoch : s'.epoch = s.epoch)
    (hfloor : s'.clearedThrough = s.clearedThrough) : Noted (new ++ marks) s' := by
  induction new with
  | nil =>
    refine ⟨?_, h.once, ?_, ?_, ?_⟩
    · rw [hlast, hepoch]
      exact h.le
    · rw [hfloor, hlast]
      exact h.floor
    · rw [hepoch, hfloor]
      exact h.before
    · rw [hepoch, hfloor]
      exact h.since
  | cons m new ih =>
    have ih := ih fun m' hm' => hquiet m' (List.mem_cons_of_mem _ hm')
    have hm := hquiet m List.mem_cons_self
    have hnoted : ∀ {id epoch}, .noted id epoch ∈ m :: (new ++ marks) →
        .noted id epoch ∈ new ++ marks := by
      intro id epoch hmem
      rcases List.mem_cons.mp hmem with rfl | hmem
      · cases hm
      · exact hmem
    refine ⟨fun id epoch hmem => ih.le id epoch (hnoted hmem),
      fun id epoch epoch' hmem hmem' => ih.once id epoch epoch' (hnoted hmem) (hnoted hmem'),
      ih.floor, fun id epoch hbefore => ?_, fun id epoch hsince => ?_⟩
    · rcases hbefore.of_cons with ⟨rfl, -⟩ | hearlier
      · cases hm
      · exact ih.before id epoch hearlier
    · rcases hsince.of_cons with rfl | ⟨-, hearlier⟩
      · cases hm
      · exact ih.since id epoch hearlier

/-- Results are cleared, in a later epoch or up to the last id.

**Proof sketch.** What was noted is of an earlier epoch, or no greater than the last id, which is
the floor now. So no note before the mark is accepted after it. -/
theorem of_clear (h : Noted marks s) (hlast : s'.lastRequest = s.lastRequest)
    (hclear : s.epoch < s'.epoch ∧ s'.clearedThrough = 0 ∨
      s'.epoch = s.epoch ∧ s'.clearedThrough = s.lastRequest) :
    Noted (.cleared :: marks) s' := by
  have hnoted : ∀ {id epoch}, .noted id epoch ∈ .cleared :: marks → .noted id epoch ∈ marks := by
    intro id epoch hmem
    rcases List.mem_cons.mp hmem with heq | hmem
    · cases heq
    · exact hmem
  have hold : ∀ id epoch, .noted id epoch ∈ marks →
      epoch < s'.epoch ∨ id ≤ s'.clearedThrough := by
    intro id epoch hmem
    obtain ⟨-, hle, hepoch⟩ := h.le id epoch hmem
    rcases hclear with ⟨hlater, -⟩ | ⟨-, hfloor⟩
    · exact .inl (Nat.lt_of_le_of_lt hepoch hlater)
    · exact .inr (hfloor ▸ hle)
  refine ⟨fun id epoch hmem => ?_, fun id epoch epoch' hmem hmem' =>
    h.once id epoch epoch' (hnoted hmem) (hnoted hmem'), ?_, fun id epoch hbefore => ?_,
    fun id epoch hsince => ?_⟩
  · obtain ⟨hne, hle, hepoch⟩ := h.le id epoch (hnoted hmem)
    refine ⟨hne, hlast ▸ hle, ?_⟩
    rcases hclear with ⟨hlater, -⟩ | ⟨hsame, -⟩
    · exact hepoch.trans (Nat.le_of_lt hlater)
    · exact hsame ▸ hepoch
  · rw [hlast]
    rcases hclear with ⟨-, hfloor⟩ | ⟨-, hfloor⟩
    · rw [hfloor]
      exact UInt32.zero_le
    · rw [hfloor]
      exact UInt32.le_refl _
  · rcases hbefore.of_cons with ⟨-, hmem⟩ | hearlier
    · exact hold id epoch hmem
    · exact hold id epoch hearlier.mem
  · rcases hsince.of_cons with heq | ⟨hne, -⟩
    · cases heq
    · exact absurd rfl hne

/-- An id is noted.

**Proof sketch.** The id is above all that were noted, so it was not noted before, and above the
floor, so it is accepted in its epoch. -/
theorem of_note (h : Noted marks s) {id : UInt32} (hlt : s.lastRequest < id)
    (hlast : s'.lastRequest = id) (hepoch : s'.epoch = s.epoch)
    (hfloor : s'.clearedThrough = s.clearedThrough) :
    Noted (.noted id s.epoch :: marks) s' := by
  have hnew : ∀ epoch, .noted id epoch ∉ marks := fun epoch hmem =>
    absurd (UInt32.lt_of_lt_of_le hlt (h.le id epoch hmem).2.1) (UInt32.lt_irrefl _)
  have hbelow : s.clearedThrough < id := UInt32.lt_of_le_of_lt h.floor hlt
  refine ⟨fun id' epoch hmem => ?_, fun id' epoch epoch' hmem hmem' => ?_, ?_,
    fun id' epoch hbefore => ?_, fun id' epoch hsince => ?_⟩
  · rw [hlast, hepoch]
    rcases List.mem_cons.mp hmem with heq | hmem
    · obtain ⟨rfl, rfl⟩ := ScoreMark.noted.inj heq
      refine ⟨?_, UInt32.le_refl _, le_rfl⟩
      rintro rfl
      exact absurd hlt UInt32.not_lt_zero
    · obtain ⟨hne, hle, hepoch⟩ := h.le id' epoch hmem
      exact ⟨hne, UInt32.le_of_lt (UInt32.lt_of_le_of_lt hle hlt), hepoch⟩
  · rcases List.mem_cons.mp hmem with heq | hold
    · obtain ⟨rfl, rfl⟩ := ScoreMark.noted.inj heq
      rcases List.mem_cons.mp hmem' with heq' | hold'
      · exact (ScoreMark.noted.inj heq').2.symm
      · exact absurd hold' (hnew _)
    · rcases List.mem_cons.mp hmem' with heq' | hold'
      · obtain ⟨rfl, rfl⟩ := ScoreMark.noted.inj heq'
        exact absurd hold (hnew _)
      · exact h.once id' epoch epoch' hold hold'
  · rw [hfloor, hlast]
    exact UInt32.le_of_lt hbelow
  · rw [hepoch, hfloor]
    rcases hbefore.of_cons with ⟨heq, -⟩ | hearlier
    · cases heq
    · exact h.before id' epoch hearlier
  · rw [hepoch, hfloor]
    rcases hsince.of_cons with heq | ⟨-, hearlier⟩
    · obtain ⟨rfl, rfl⟩ := ScoreMark.noted.inj heq
      exact ⟨rfl, hbelow⟩
    · exact h.since id' epoch hearlier

end Noted

/-- What is kept was noted in the epoch in force, and is above the floor. -/
def KeptNoted (marks : List ScoreMark) (s : ScriptState) : Prop :=
  ∀ e ∈ s.scores, .noted e.id s.epoch ∈ marks ∧
    (s.clearedThrough = 0 ∨ s.clearedThrough < e.id)

/-- What `Drain` keeps. -/
theorem retains_foldl (accepts : ScorePost → Bool) (now : ℤ) (results : List ScorePost)
    {marks : List ScoreMark} {s : TopScoresStore} (h : TopScoresStore.Retains marks s) :
    TopScoresStore.Retains (((results.filter accepts).map .added).reverse ++ marks)
      (results.foldl (fun scores post =>
        if accepts post then TopScoresStore.add scores post now else scores) s) := by
  induction results generalizing marks s with
  | nil => exact h
  | cons post results ih =>
    rw [List.foldl_cons, List.filter_cons]
    split
    · rw [List.map_cons, List.reverse_cons, List.append_assoc]
      exact ih (h.add post now)
    · exact ih h

/-- What is kept was kept before, or is a result it takes. -/
theorem mem_foldl_add {accepts : ScorePost → Bool} {now : ℤ} {results : List ScorePost}
    {s : TopScoresStore} {e : ScoreEntry}
    (he : e ∈ results.foldl (fun scores post =>
      if accepts post then TopScoresStore.add scores post now else scores) s) :
    e ∈ s ∨ e.post ∈ results ∧ accepts e.post = true := by
  induction results generalizing s with
  | nil => exact .inl he
  | cons post results ih =>
    rw [List.foldl_cons] at he
    rcases ih he with hold | ⟨hin, hacc⟩
    · split at hold
      · rename_i hacc
        rcases List.mem_append.mp hold with hrest | hnew
        · refine .inl (List.mem_of_mem_filter (p := fun e => e.id != post.requestId) ?_)
          split at hrest
          · exact List.mem_of_mem_tail hrest
          · exact hrest
        · obtain rfl := List.mem_singleton.mp hnew
          exact .inr ⟨List.mem_cons_self, hacc⟩
      · exact .inl hold
    · exact .inr ⟨List.mem_cons_of_mem _ hin, hacc⟩

/-- `Drain` leaves the epoch. -/
theorem ScriptState.epoch_drain (s : ScriptState) (latch : Option PlayersPost)
    (results : List ScorePost) (now : ℤ) : (s.drain latch results now).epoch = s.epoch := by
  show (s.toReadBackState.drain latch).epoch = s.epoch
  unfold ReadBackState.drain
  split
  · rfl
  · split <;> rfl

/-- What holds of the results in every run. -/
structure ScoresSound (t : ScoreLog) : Prop where
  retains : TopScoresStore.Retains t.marks t.state.scores
  noted : Noted t.marks t.state
  kept : KeptNoted t.marks t.state

/-- An empty store retains all that is kept after results were cleared. -/
theorem TopScoresStore.Retains.nil {marks : List ScoreMark} (h : ∀ id, lastAdded id marks = none) :
    TopScoresStore.Retains marks [] := by
  refine ⟨List.nodup_nil, Nat.zero_le _, trivial, fun id post n hlast => ?_⟩
  rw [h id] at hlast
  cases hlast

/-- **The steps keep the results sound.**

**Proof sketch.** By the step. A new epoch and a clearing empty the results, and what was noted
before is accepted no more (`Noted.of_clear`); a note makes one id more accepted; a drain puts in
what is accepted. -/
theorem ScoresSound.step {t : ScoreLog} (h : ScoresSound t) {a : ScoreAct} (ha : t.WellPosted a) :
    ScoresSound (t.step a) := by
  cases a with
  | newEpoch epoch =>
    exact ⟨.nil fun _ => rfl, h.noted.of_clear rfl (.inl ⟨ha, rfl⟩), nofun⟩
  | clearScores =>
    exact ⟨.nil fun _ => rfl, h.noted.of_clear rfl (.inr ⟨rfl, rfl⟩), nofun⟩
  | noteRequest id =>
    by_cases hzero : id = 0
    · have hsame : t.step (.noteRequest id) = t := by
        simp [ScoreLog.step, ScriptState.noteRequest, hzero]
      rw [hsame]
      exact h
    · have hlt := (ha.resolve_left hzero).1
      have hstep : t.step (.noteRequest id) =
          ⟨{ t.state with lastRequest := id }, .noted id t.state.epoch :: t.marks⟩ := by
        simp [ScoreLog.step, ScriptState.noteRequest, hzero]
      rw [hstep]
      refine ⟨⟨h.retains.nodup, h.retains.few, ?_, h.retains.stays⟩,
        h.noted.of_note hlt rfl rfl rfl, fun e he => ?_⟩
      · exact h.retains.backed.sublist (List.Sublist.refl _) fun _ _ => rfl
      · obtain ⟨hmem, hfloor⟩ := h.kept e he
        exact ⟨List.mem_cons_of_mem _ hmem, hfloor⟩
  | release requestId =>
    simp only [ScoreLog.step, ScriptState.release]
    cases scriptIndex requestId 1 0x7FFFFFFF with
    | none => exact ⟨h.retains, h.noted, h.kept⟩
    | some id =>
      refine ⟨h.retains.release id,
        h.noted.of_quiet (by simp [ScoreMark.quiet] : ∀ m ∈ [ScoreMark.released id], m.quiet = true)
          rfl rfl rfl,
        fun e he => ?_⟩
      obtain ⟨hmem, hfloor⟩ := h.kept e (TopScoresStore.mem_release.mp he).1
      exact ⟨List.mem_cons_of_mem _ hmem, hfloor⟩
  | drain latch results now =>
    have hepoch := t.state.epoch_drain latch results now
    refine ⟨retains_foldl t.state.accepts now results h.retains,
      h.noted.of_quiet (fun m hm => ?_) rfl hepoch rfl, fun e he => ?_⟩
    · obtain ⟨post, -, rfl⟩ := List.mem_map.mp (List.mem_reverse.mp hm)
      rfl
    · show .noted e.id (t.state.drain latch results now).epoch ∈ _ ++ t.marks ∧ _
      rw [hepoch]
      rcases mem_foldl_add he with hold | ⟨hin, hacc⟩
      · obtain ⟨hmem, hfloor⟩ := h.kept e hold
        exact ⟨List.mem_append_right _ hmem, hfloor⟩
      · obtain ⟨hsame, hfloor⟩ := Bool.and_eq_true_iff.mp hacc
        have hnoted := ha e.post hin
        rw [beq_iff_eq.mp hsame] at hnoted
        have habove : t.state.clearedThrough = 0 ∨ t.state.clearedThrough < e.post.requestId := by
          simpa using hfloor
        exact ⟨List.mem_append_right _ hnoted, habove⟩

/-- Nothing was noted or kept at the start. -/
theorem ScoresSound.start : ScoresSound {} where
  retains := .nil fun _ => rfl
  noted := ⟨nofun, nofun, UInt32.le_refl _, fun _ _ h => (nomatch h.mem), fun _ _ h => by
    obtain ⟨after, before, heq, -⟩ := h
    cases after <;> cases heq⟩
  kept := nofun

/-- What is kept was not noted before results were cleared. -/
theorem ScoresSound.own {t : ScoreLog} (h : ScoresSound t) {e : ScoreEntry}
    (he : e ∈ t.state.scores) (epoch : ℕ) : ¬ NotedBefore t.marks e.id epoch := by
  intro hbefore
  obtain ⟨hmem, hfloor⟩ := h.kept e he
  have hsame := h.noted.once e.id epoch t.state.epoch hbefore.mem hmem
  rcases h.noted.before e.id epoch hbefore with hlt | hle
  · exact absurd hsame (Nat.ne_of_lt hlt)
  · rcases hfloor with hzero | hlt
    · rw [hzero] at hle
      exact (h.noted.le e.id _ hmem).1 (UInt32.le_zero_iff.mp hle)
    · exact absurd (UInt32.lt_of_lt_of_le hlt hle) (UInt32.lt_irrefl _)

/-- **A script reads no other table's scores**: in every run in which epochs grow, ids increase and
results are posted under the epoch their request was noted in, however late and often. What `Drain`
takes for an id noted since results were cleared, under the epoch in force, is kept.

**Proof sketch.** Ids noted before the last clear are of an earlier epoch or no greater than the
floor, and those noted since are greater (`Noted`); the entry that makes room has seen as many
results as the store holds (`Retains.add`). -/
theorem reads_own_scores {t : ScoreLog} (h : scores.Reaches ScoreLog.WellPosted t) :
    ReadsOwn t ∧ ∀ latch results now, t.WellPosted (.drain latch results now) →
      ∀ post ∈ results, post.epoch = t.state.epoch →
        (∃ epoch, NotedSince t.marks post.requestId epoch) →
        ∃ new, (t.step (.drain latch results now)).marks = new ++ t.marks ∧ .added post ∈ new := by
  have hsound : ScoresSound t := by
    refine h.invariant (I := ScoresSound) ?_ ?_
    · rintro t rfl
      exact ScoresSound.start
    · rintro t a t' hs ha hstep
      exact (Option.some.inj hstep) ▸ hs.step ha
  refine ⟨⟨fun requestId e hfind epoch => ?_, hsound.retains.nodup, hsound.retains.few,
    fun id e hfind => ?_, fun id post n hlast hlt => ?_⟩,
    fun latch results now _ post hin hepoch hsince => ?_⟩
  · obtain ⟨id, -, hfound⟩ := Option.bind_eq_some_iff.mp hfind
    exact hsound.own (TopScoresStore.of_find hfound).1 epoch
  · obtain ⟨he, rfl⟩ := TopScoresStore.of_find hfind
    exact hsound.retains.backed.of_mem he
  · obtain ⟨e, he, rfl, hpost⟩ := hsound.retains.stays id post n hlast hlt
    exact ⟨e, TopScoresStore.find_of_mem hsound.retains.nodup he, hpost⟩
  · obtain ⟨epoch, hsince⟩ := hsince
    have hfloor := (hsound.noted.since _ _ hsince).2
    have hacc : t.state.accepts post = true := by
      unfold ScriptState.accepts
      rw [hepoch, beq_self_eq_true, Bool.true_and, decide_eq_true hfloor, Bool.or_true]
    refine ⟨_, rfl, List.mem_reverse.mpr (List.mem_map_of_mem ?_)⟩
    exact List.mem_filter.mpr ⟨hin, hacc⟩

/-- The identity changes while the answer to the first request is under way, and both it and the
answer to the second arrive after. -/
def lateRun : List ScoreAct :=
  let late : ScorePost := { epoch := 1, requestId := 1, result := 1 }
  let own : ScorePost := { epoch := 1, requestId := 2, result := 3 }
  [.newEpoch 1, .noteRequest 1, .clearScores, .noteRequest 2, .drain none [late, own] 5]

/-- The script reads the second answer only. -/
theorem reads_own_scores_lateRun : ∃ t,
    Runs.runOf (fun t a => some (ScoreLog.step t a)) {} lateRun = some t ∧
      t.state.result (.whole 1) = -1 ∧ t.state.result (.whole 2) = 3 ∧ ReadsOwn t := by
  have hrun : (Runs.runOf (fun t a => some (ScoreLog.step t a)) {} lateRun).any (fun t => decide
      (t.state.result (.whole 1) = -1 ∧ t.state.result (.whole 2) = 3)) = true := by
    decide +kernel
  obtain ⟨t, ht, hresults⟩ := (Option.any_eq_true _ _).mp hrun
  have halong : Runs.holdsAlong (fun t a => some (ScoreLog.step t a))
      (fun t a => decide (t.WellPosted a)) {} lateRun = true := by
    decide +kernel
  have hreach : scores.Reaches ScoreLog.WellPosted t :=
    Runs.System.Reaches.runOf (fun _ _ h => of_decide_eq_true h) lateRun (.init rfl) halong ht
  obtain ⟨hlate, hown⟩ := of_decide_eq_true hresults
  exact ⟨t, ht, hlate, hown, (reads_own_scores hreach).1⟩

end Worker
