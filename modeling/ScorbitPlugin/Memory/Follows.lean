import ScorbitPlugin.Memory.Frames
import ScorbitPlugin.Memory.Polls

set_option relaxedAutoImplicit false
set_option autoImplicit false

/-!
# Reads follow writes

What a `Poll` returns after a `Write` or a `Subscribe` was answered `Ok`. `Service` answers, reads
its snapshot, publishes it and completes what it answered, in this order: so a write that returned
was applied before the snapshot was read that any later `Poll` finds, unless that snapshot did not
fit and an older one stayed.

## Main definitions

* `Memory.Notes`, `Memory.Logged.FollowsWrites` — the events of a step, and what is claimed of them.
* `Memory.steady` — frames rise, and there is room for the blocks left over.
* `Memory.Dated` — when the writes were applied and the snapshots read.
* `Memory.Latest`, `Memory.Kept` — the set a `Subscribe` installed, and that it stays.

## Main results

* `Memory.reads_follow_writes` — polls follow writes, in the runs that meet the condition.
* `Memory.not_reads_follow_writes` — and not in all.
-/

namespace Memory

open Relation

/-! ## The events of a step -/

/-- What a step may record. -/
inductive Notes (s : State) (a : Act) : List Event → Prop
  | nothing : Notes s a []
  | wrote (c : ℕ) (result : Result) : Notes s a [.wrote c result]
  | polled (c game : ℕ) (looked : Installed) {read : Option Snapshot}
      (hread : read = none ∨ read = s.bridge.snapshot) :
      Notes s a
        [.polled c game looked ⟨s.bridge.subscriptionId, s.bridge.ranges⟩ (pollReply looked read)]
  | host {new : List Event} (h : ∀ e ∈ new, ∃ x ∈ written s a, ∃ ops applied space,
      e = .hostWrite x.1 ops applied space) : Notes s a new

/-- Returning a write records that, if anything. -/
theorem notes_wrote {s : State} {a : Act} {b : Bridge} {c : ℕ} {result : Result}
    (h : b.history.events = s.bridge.history.events) : ∃ new, Notes s a new ∧
      (b.wrote c result).history.events = new ++ s.bridge.history.events := by
  rw [Bridge.events_wrote, h]
  split
  · exact ⟨_, .wrote c result, rfl⟩
  · exact ⟨_, .nothing, rfl⟩

/-- To complete requests is no event. -/
theorem Bridge.events_complete (l : List ℕ) (b : Bridge) :
    (b.complete l).history.events = b.history.events := by
  induction l generalizing b with
  | nil => rfl
  | cons c l ih => exact (ih (b.completeOne c)).trans (b.events_completeOne c)

/-- An answer without a game is no event. -/
theorem Bridge.events_answerNoGame (b : Bridge) (c : ℕ) :
    (b.answerNoGame c).history.events = b.history.events := by
  unfold answerNoGame
  dsimp only
  split <;> rfl

/-- Nor are those to all that is pending. -/
theorem Bridge.events_foldl_answerNoGame (pending : List ℕ) (b : Bridge) :
    (pending.foldl Bridge.answerNoGame b).history.events = b.history.events := by
  induction pending generalizing b with
  | nil => rfl
  | cons c pending ih => exact (ih (b.answerNoGame c)).trans (b.events_answerNoGame c)

/-- A request that is queued is no event yet. -/
theorem Bridge.events_submit (b : Bridge) (c : ℕ) :
    (b.submit c).1.history.events = b.history.events := by
  unfold submit
  split
  · exact (events_complete _ _).trans (b.events_answerNoGame c)
  · split <;> rfl

/-- Answering records the host's calls.

**Proof sketch.** By induction on the work. Answering one request records the host's write where it
was called (`Bridge.events_answerOne`), and is the head of `writesIn` there; the rest follows for
the bridge it leaves. -/
theorem Bridge.events_answerAll (s : Service) (work : List ℕ) (b : Bridge) (calls : ℕ)
    (current : Installed) : ∃ new,
      (Bridge.answerAll s work b calls current).1.history.events = new ++ b.history.events ∧
        ∀ e ∈ new, ∃ x ∈ writesIn s work b calls, ∃ ops applied space,
          e = .hostWrite x.1 ops applied space := by
  induction work generalizing b calls current with
  | nil => exact ⟨[], rfl, nofun⟩
  | cons c work ih =>
    let one := b.answerOne s calls c
    obtain ⟨new, hnew, hall⟩ := ih one.1 one.2 (followed (one.1.requests c) current)
    have hevents := b.events_answerOne c s calls
    cases happlied : ((b.requests c).answer s b.addressSpace calls).applied with
    | none =>
      rw [happlied] at hevents
      refine ⟨new, hnew.trans (congrArg (new ++ ·) hevents), fun e he => ?_⟩
      obtain ⟨x, hx, hrest⟩ := hall e he
      refine ⟨x, ?_, hrest⟩
      unfold writesIn
      rw [happlied]
      exact hx
    | some applied =>
      rw [happlied] at hevents
      refine ⟨new ++ [.hostWrite c (b.requests c).ops applied b.addressSpace], ?_, fun e he => ?_⟩
      · rw [List.append_assoc]
        exact hnew.trans (congrArg (new ++ ·) hevents)
      · unfold writesIn
        rw [happlied]
        rcases List.mem_append.mp he with hold | hnow
        · obtain ⟨x, hx, hrest⟩ := hall e hold
          exact ⟨x, List.mem_cons_of_mem _ hx, hrest⟩
        · obtain rfl := List.mem_singleton.mp hnow
          exact ⟨(c, calls), List.mem_cons_self, _, _, _, rfl⟩

/-- The events of a call that goes on.

**Proof sketch.** By where the call stands. Submitting records an answer at once where the queue is
full, waiting records the answer it leaves with, and a poll records its reply. All other steps
record nothing. -/
theorem notes_advance {s s' : State} {c : ℕ} (h : s.advance c = some s') :
    ∃ new, Notes s (.advance c) new ∧
      s'.bridge.history.events = new ++ s.bridge.history.events := by
  have hsame : s'.bridge.history.events = s.bridge.history.events →
      ∃ new, Notes s (.advance c) new ∧
        s'.bridge.history.events = new ++ s.bridge.history.events :=
    fun hevents => ⟨[], .nothing, hevents⟩
  unfold State.advance at h
  dsimp only at h
  cases hcall : s.calls c with
  | unused | returned => simp [hcall] at h
  | submit =>
    rw [hcall] at h
    obtain rfl := Option.some.inj h
    have hsubmit := s.bridge.events_submit c
    unfold State.submit
    split
    · rename_i b heq
      rw [heq] at hsubmit
      exact ⟨[], .nothing, hsubmit⟩
    · rename_i b result heq
      rw [heq] at hsubmit
      exact notes_wrote hsubmit
  | wait =>
    rw [hcall] at h
    dsimp only at h
    split at h
    · obtain rfl := Option.some.inj h
      exact notes_wrote rfl
    · split at h
      · obtain rfl := Option.some.inj h
        exact notes_wrote (b := s.bridge.abandon c) rfl
      · cases h
  | pollRead game looked =>
    rw [hcall] at h
    obtain rfl := Option.some.inj h
    exact ⟨_, .polled c game looked (.inr rfl), rfl⟩
  | write ops | writeSupported ops | writeGame ops =>
    rw [hcall] at h
    dsimp only at h
    split at h
    · obtain rfl := Option.some.inj h
      first
        | exact hsame rfl
        | exact ⟨_, .wrote c _, rfl⟩
    · obtain rfl := Option.some.inj h
      first
        | exact hsame rfl
        | exact ⟨_, .wrote c _, rfl⟩
  | readDirect address length =>
    rw [hcall] at h
    dsimp only at h
    split at h
    · obtain rfl := Option.some.inj h
      exact hsame rfl
    · obtain rfl := Option.some.inj h
      exact hsame rfl
  | _ =>
    rw [hcall] at h
    obtain rfl := Option.some.inj h
    exact hsame rfl

/-- The events of a step.

**Proof sketch.** By the step. A call that goes on, times out or reads a torn snapshot records what
it returns; a phase of `Service` records the host's writes (`Bridge.events_answerAll`). The others
record nothing. -/
theorem notes_step {s s' : State} {a : Act} (h : step s a = some s') :
    ∃ new, Notes s a new ∧ s'.bridge.history.events = new ++ s.bridge.history.events := by
  cases a with
  | subscribe | poll | readDirect | clear | stop =>
    obtain rfl := Option.some.inj h
    exact ⟨[], .nothing, rfl⟩
  | write ops =>
    simp only [step] at h
    split at h
    · obtain rfl := Option.some.inj h
      cases checkWrite ops with
      | some result => exact ⟨_, .wrote s.started result, rfl⟩
      | none => exact ⟨[], .nothing, rfl⟩
    · cases h
  | advance c => exact notes_advance h
  | timeout c =>
    simp only [step, State.timeout] at h
    split at h
    · obtain rfl := Option.some.inj h
      exact notes_wrote (b := s.bridge.abandon c) rfl
    · cases h
  | torn c =>
    simp only [step, State.torn] at h
    split at h
    · rename_i game looked _
      obtain rfl := Option.some.inj h
      exact ⟨_, .polled c game looked (.inl rfl), rfl⟩
    · cases h
  | setGameRunning running =>
    simp only [step] at h
    split at h
    · obtain rfl := Option.some.inj h
      refine ⟨[], .nothing, ?_⟩
      cases running with
      | true => exact s.bridge.events_startGame
      | false =>
        exact (Bridge.events_complete _ _).trans (Bridge.events_foldl_answerNoGame _ _)
    · cases h
  | setAddressSpace space =>
    simp only [step] at h
    split at h
    · obtain rfl := Option.some.inj h
      exact ⟨[], .nothing, rfl⟩
    · cases h
  | service service =>
    simp only [step] at h
    split at h
    · obtain rfl := Option.some.inj h
      exact ⟨[], .nothing, s.bridge.events_takeQueue service⟩
    · cases h
  | phase =>
    simp only [step, State.phase] at h
    cases hapi : s.api with
    | idle =>
      rw [hapi] at h
      cases h
    | answering service work taken =>
      rw [hapi] at h
      obtain rfl := Option.some.inj h
      obtain ⟨new, hnew, hall⟩ := Bridge.events_answerAll service work s.bridge 0 taken
      refine ⟨new, .host fun e he => ?_, (Bridge.events_snapshotFor _ _ _ _).trans hnew⟩
      unfold written
      rw [hapi]
      exact hall e he
    | completing work =>
      rw [hapi] at h
      obtain rfl := Option.some.inj h
      exact ⟨[], .nothing, Bridge.events_complete _ _⟩
    | ending =>
      rw [hapi] at h
      obtain rfl := Option.some.inj h
      exact ⟨[], .nothing, rfl⟩

/-! ## Requests that are done -/

/-- A request that is done stays as it is.

**Proof sketch.** A request that is done is neither early, held nor queued, so no move that fills,
queues or answers one is about it. Only returning from it is left, which leaves the request alone.
-/
theorem Filed.keeps_done {R : Rules} {k k' : Core} (hf : Filed k) (hm : Move R k k') {c : ℕ}
    (hdone : (k.bridge.requests c).done = true) :
    k'.bridge.requests c = k.bridge.requests c := by
  have hearly : (k.calls c).early ≠ true := fun he => by
    rw [(hf.filedAt c).early he] at hdone
    cases hdone
  have hfree : k.hold c = .free := by
    by_contra hne
    rw [((hf.filedAt c).held hne).1] at hdone
    cases hdone
  have hqueued : c ∉ k.bridge.queue := fun hq => by
    rw [((hf.filedAt c).queued hq).2.2.2.1] at hdone
    cases hdone
  cases hm with
  | @number c' _ hcall | @readDirect c' _ _ hcall | @write c' _ hcall =>
    refine if_neg fun heq => hearly ?_
    rw [heq, hcall]
    rfl
  | full | leave => exact congrFun (Bridge.requests_wrote _ _ _) c
  | @abandon c' hcall hopen _ _ =>
    have hne : c ≠ c' := by
      rintro rfl
      rw [hopen] at hdone
      cases hdone
    exact (congrFun (Bridge.requests_wrote _ _ _) c).trans (if_neg hne)
  | @service s => exact if_neg hqueued
  | @answer s calls c' locked following hhold _ _ =>
    refine if_neg fun heq => ?_
    rw [← heq, hfree] at hhold
    cases hhold
  | @finish c' locked hhold _ =>
    refine (k.bridge.requests_completeOne c' c).trans (if_neg fun heq => ?_)
    rw [← heq, hfree] at hhold
    cases hhold
  | _ => rfl

/-- Nor does a step change it. -/
theorem requests_of_done {s s' : State} {a : Act} (hs : Sound s) (h : step s a = some s')
    {c : ℕ} (hdone : (s.bridge.requests c).done = true) :
    s'.bridge.requests c = s.bridge.requests c := by
  refine (hs.keeps (R := {}) (I := fun k => k.bridge.requests c = s.bridge.requests c)
    (fun k k' hf hi hm => ?_) rfl (Rules.allows s a) h).2
  exact (hf.keeps_done hm (hi ▸ hdone)).trans hi

/-! ## When writes were applied -/

/-- The frame numbers of the `Service` calls rise: the next snapshot has that of the latest. -/
def framesRise (s : State) : Act → Prop
  | .service service => s.bridge.nextSnapshot.frame ≤ service.frame
  | _ => True

instance (s : State) (a : Act) : Decidable (framesRise s a) := by
  cases a <;> unfold framesRise <;> infer_instance

/-- The check of the ranges calls the host on. -/
theorem le_calls_readable (read : ReadFn) (ranges : List Wire.MemoryRange) (calls : ℕ) :
    calls ≤ (Request.readable read calls ranges).2 := by
  induction ranges generalizing calls with
  | nil => exact le_rfl
  | cons range ranges ih =>
    unfold Request.readable
    split
    · exact ih calls
    · dsimp only
      split
      · exact (Nat.le_succ calls).trans (ih (calls + 1))
      · exact (Nat.le_succ calls).trans (ih (calls + 1))

/-- So does the loop of a direct read. -/
theorem le_calls_readChunks (read : ReadFn) (address length : UInt32) (offsets : List ℕ)
    (calls : ℕ) (unstable : List UInt32) (bytes : Codec.Bytes) :
    calls ≤ (Request.readChunks read address length offsets calls unstable bytes).2.2 := by
  induction offsets generalizing calls unstable bytes with
  | nil => exact le_rfl
  | cons offset offsets ih =>
    rw [Request.readChunks_cons]
    dsimp only
    split
    · exact Nat.le_add_right calls 2
    · split
      · exact Nat.le_add_right calls 2
      · exact (Nat.le_add_right calls 2).trans (ih (calls + 2) _ _)

/-- An answer calls the host on, and exactly once for a write that reaches it.

**Proof sketch.** By the kind of the request. A write calls the host at most once, and only where it
is answered by it; the two reads call it for each range or chunk. -/
theorem calls_answer (r : Request) (s : Service) (space calls : ℕ) :
    calls ≤ (r.answer s space calls).calls ∧
      ((r.answer s space calls).applied.isSome = true →
        (r.answer s space calls).calls = calls + 1) := by
  unfold Request.answer
  cases r.kind with
  | write =>
    dsimp only
    unfold Request.answerWrite
    split
    · exact ⟨le_rfl, nofun⟩
    · split
      · exact ⟨le_rfl, nofun⟩
      · split
        · exact ⟨le_rfl, nofun⟩
        · exact ⟨Nat.le_succ calls, fun _ => rfl⟩
  | subscribe =>
    dsimp only
    unfold Request.answerSubscribe
    split
    · exact ⟨le_rfl, nofun⟩
    · exact ⟨le_calls_readable _ _ _, nofun⟩
  | readDirect =>
    dsimp only
    unfold Request.answerReadDirect
    split
    · exact ⟨le_rfl, nofun⟩
    · exact ⟨le_calls_readChunks _ _ _ _ _ _ _, nofun⟩

/-- The host's write calls of a `Service` are made before its reads.

**Proof sketch.** By induction on the work: each answer calls the host on (`calls_answer`), and a
write that reaches it is its own call. -/
theorem lt_of_mem_writesIn (s : Service) (work : List ℕ) (b : Bridge) (calls : ℕ)
    (current : Installed) :
    calls ≤ (Bridge.answerAll s work b calls current).2.1 ∧
      ∀ x ∈ writesIn s work b calls, x.2 < (Bridge.answerAll s work b calls current).2.1 := by
  induction work generalizing b calls current with
  | nil => exact ⟨le_rfl, nofun⟩
  | cons c work ih =>
    let one := b.answerOne s calls c
    obtain ⟨hle, hlt⟩ := ih one.1 one.2 (Bridge.followed (one.1.requests c) current)
    obtain ⟨hcalls, honce⟩ := calls_answer (b.requests c) s b.addressSpace calls
    refine ⟨hcalls.trans hle, fun x hx => ?_⟩
    unfold writesIn at hx
    dsimp only at hx
    split at hx
    · rename_i happlied
      rcases List.mem_cons.mp hx with rfl | hrest
      · have hone : one.2 = calls + 1 := honce happlied
        exact lt_of_lt_of_le (by omega) hle
      · exact hlt x hrest
    · exact hlt x hx

/-- When the host's write calls were made and the latest snapshot was read. -/
structure Dated (t : Logged) : Prop where
  applied : ∀ c, Applied t.state.bridge.history.events c → ∃ m, (c, m) ∈ t.writes
  services : ∀ x ∈ t.writes, x.2.service ≤ t.services
  /-- A `Service` that answers has made none. -/
  answering : ∀ service work taken, t.state.api = .answering service work taken →
    ∀ x ∈ t.writes, x.2.service < t.services
  latest : ∀ r, t.records.head? = some r →
    r.snapshot.header.frame = t.state.bridge.nextSnapshot.frame ∧
      (r.snapshot.header.complete = true → ∀ x ∈ t.writes, x.2.before r.moment)

namespace Dated

variable {t : Logged}

/-- What a step that builds a record builds it of.

**Proof sketch.** A record is built when `Service` has answered, or when it finds the game ended.
The first is of the frame of the next snapshot and comes after the writes of its work
(`lt_of_mem_writesIn`); the second is not complete. -/
theorem of_built {s s' : State} {a : Act} {r : Snapshot × ℕ} (h : step s a = some s')
    (hbuilt : built s a = some r) :
    r.1.header.frame = s'.bridge.nextSnapshot.frame ∧
      (r.1.header.complete = true → ∀ x ∈ written s a, x.2 < r.2) ∧
      (r.1.header.complete = true →
        ∃ service work taken, s.api = .answering service work taken) := by
  unfold built at hbuilt
  unfold written
  split at hbuilt
  · rename_i service work taken hapi
    obtain rfl := Option.some.inj hbuilt
    simp only [step, State.phase, hapi] at h
    obtain rfl := Option.some.inj h
    refine ⟨rfl, fun _ => ?_, fun _ => ⟨_, _, _, hapi⟩⟩
    rw [hapi]
    exact (lt_of_mem_writesIn service work s.bridge 0 taken).2
  · rename_i hapi
    obtain rfl := Option.some.inj hbuilt
    simp only [step, State.phase, hapi] at h
    obtain rfl := Option.some.inj h
    exact ⟨rfl, (fun hcomplete => by cases hcomplete), (fun hcomplete => by cases hcomplete)⟩
  · cases hbuilt

/-- Only a `Service` that answers writes, and it builds a record. -/
theorem of_written {s : State} {a : Act} {x : ℕ × ℕ} (h : x ∈ written s a) :
    (∃ service work taken, s.api = .answering service work taken) ∧ a = .phase ∧
      ∃ r, built s a = some r := by
  unfold written at h
  split at h
  · rename_i service work taken hapi
    refine ⟨⟨_, _, _, hapi⟩, rfl, ?_⟩
    unfold built
    rw [hapi]
    exact ⟨_, rfl⟩
  · cases h

/-- A `Service` that answers was begun by the step, or answered before it.

**Proof sketch.** By the step. Only a `Service` begins to answer, and of those that keep what
`Service` does none is its next phase. -/
theorem answering_step {s s' : State} {a : Act} (h : step s a = some s')
    {service : Service} {work : List ℕ} {taken : Installed}
    (hapi : s'.api = .answering service work taken) :
    a.isService = true ∨ s.api = .answering service work taken ∧ a ≠ .phase := by
  cases a with
  | subscribe | poll | readDirect | clear | stop =>
    obtain rfl := Option.some.inj h
    exact .inr ⟨hapi, (by simp)⟩
  | write ops =>
    simp only [step] at h
    split at h
    · obtain rfl := Option.some.inj h
      refine .inr ⟨?_, (by simp)⟩
      cases hcheck : checkWrite ops with
      | some | none =>
        rw [hcheck] at hapi
        exact hapi
    · cases h
  | advance c =>
    obtain ⟨-, b, call, rfl, -⟩ := advance_goto h
    exact .inr ⟨hapi, (by simp)⟩
  | timeout c =>
    simp only [step, State.timeout] at h
    split at h
    · obtain rfl := Option.some.inj h
      exact .inr ⟨hapi, (by simp)⟩
    · cases h
  | torn c =>
    simp only [step, State.torn] at h
    split at h
    · obtain rfl := Option.some.inj h
      exact .inr ⟨hapi, (by simp)⟩
    · cases h
  | setGameRunning running =>
    simp only [step] at h
    split at h
    · obtain rfl := Option.some.inj h
      cases running with
      | true => exact .inr ⟨hapi, (by simp)⟩
      | false => cases hapi
    · cases h
  | setAddressSpace space =>
    simp only [step] at h
    split at h
    · obtain rfl := Option.some.inj h
      exact .inr ⟨hapi, (by simp)⟩
    · cases h
  | service service => exact .inl rfl
  | phase =>
    simp only [step, State.phase] at h
    split at h
    · cases h
    · obtain rfl := Option.some.inj h
      cases hapi
    · obtain rfl := Option.some.inj h
      cases hapi
    · obtain rfl := Option.some.inj h
      cases hapi

/-- The host's write calls of a step are logged in the `Service` of then. -/
theorem mem_writes_step {t t' : Logged} {a : Act} (h : t.step a = some t') {x : ℕ × Moment}
    (hx : x ∈ t'.writes) : x ∈ t.writes ∨
      ∃ w ∈ written t.state a, x = (w.1, ⟨t.services, w.2⟩) := by
  obtain ⟨s', -, rfl⟩ := Option.map_eq_some_iff.mp h
  rcases List.mem_append.mp hx with hnew | hold
  · obtain ⟨w, hw, rfl⟩ := List.mem_map.mp hnew
    exact .inr ⟨w, hw, rfl⟩
  · exact .inl hold

/-- **The steps keep the dates.**

**Proof sketch.** A write enters the log in the `Service` that calls the host, under its number, and
a record of the same `Service` is built after it (`of_built`). So the dates of the writes stay below
the number of services and those of the records below the next one. -/
theorem step {t' : Logged} (hd : Dated t) {a : Act} (h : t.step a = some t') : Dated t' := by
  have hmem := fun x => mem_writes_step h (x := x)
  obtain ⟨s', hs', rfl⟩ := Option.map_eq_some_iff.mp h
  have hle : t.services ≤ if a.isService then t.services + 1 else t.services := by
    split <;> omega
  constructor
  · rintro c ⟨ops, applied, space, hin⟩
    obtain ⟨new, hnotes, hevents⟩ := notes_step hs'
    dsimp only at hin ⊢
    rw [hevents] at hin
    rcases List.mem_append.mp hin with hnew | hold
    · cases hnotes with
      | nothing => cases hnew
      | wrote | polled =>
        cases List.mem_singleton.mp hnew
      | host hall =>
        obtain ⟨x, hx, _, _, _, heq⟩ := hall _ hnew
        obtain ⟨rfl, -⟩ := Event.hostWrite.inj heq
        exact ⟨_, List.mem_append_left _ (List.mem_map_of_mem hx)⟩
    · obtain ⟨m, hm⟩ := hd.applied c ⟨ops, applied, space, hold⟩
      exact ⟨m, List.mem_append_right _ hm⟩
  · intro x hx
    rcases hmem x hx with hold | ⟨w, -, rfl⟩
    · exact (hd.services x hold).trans hle
    · exact hle
  · intro service work taken hapi x hx
    dsimp only at hapi ⊢
    rcases hmem x hx with hold | ⟨w, hw, rfl⟩
    · rcases answering_step hs' hapi with hservice | ⟨hwas, -⟩
      · rw [if_pos hservice]
        exact Nat.lt_succ_of_le (hd.services x hold)
      · exact lt_of_lt_of_le (hd.answering service work taken hwas x hold) hle
    · obtain ⟨-, rfl, -⟩ := of_written hw
      rcases answering_step hs' hapi with hservice | ⟨-, hne⟩
      · cases hservice
      · exact absurd rfl hne
  · intro r hr
    cases hbuilt : built t.state a with
    | none =>
      dsimp only at hr ⊢
      rw [hbuilt] at hr
      rw [show s'.bridge.nextSnapshot = t.state.bridge.nextSnapshot from
        congrArg Prod.snd (buffers_step hs' hbuilt)]
      obtain ⟨hframe, hbefore⟩ := hd.latest r hr
      refine ⟨hframe, fun hcomplete x hx => ?_⟩
      rcases hmem x hx with hold | ⟨w, hw, rfl⟩
      · exact hbefore hcomplete x hold
      · obtain ⟨-, -, r', hr'⟩ := of_written hw
        rw [hbuilt] at hr'
        cases hr'
    | some r' =>
      obtain ⟨hframe, hwritten, hanswering⟩ := of_built hs' hbuilt
      dsimp only at hr ⊢
      rw [hbuilt] at hr
      obtain rfl := Option.some.inj hr
      refine ⟨hframe, fun hcomplete x hx => ?_⟩
      rcases hmem x hx with hold | ⟨w, hw, rfl⟩
      · obtain ⟨service, work, taken, hapi⟩ := hanswering hcomplete
        exact .inl (hd.answering service work taken hapi x hold)
      · exact .inr ⟨rfl, hwritten hcomplete w hw⟩

/-- At the start nothing was written. -/
theorem start : Dated {} :=
  ⟨fun _ ⟨_, _, _, h⟩ => (nomatch h), nofun, nofun, nofun⟩

end Dated

/-! ## A poll after a write -/

/-- What a poll found after a write: a frame no earlier than the write's, in a snapshot that was
read after the host's write function was called for it. -/
structure Logged.Follows (t : Logged) (w : ℕ) (looked : Installed) (reply : Wire.PollReply) :
    Prop where
  frame : (t.state.bridge.requests w).writeReply.frame ≤ reply.frame
  read : ∃ r ∈ t.records, r.snapshot.poll looked.id = some reply ∧
    ∃ m, (w, m) ∈ t.writes ∧ m.before r.moment

/-- Every poll that answers with blocks follows the writes that answered `Ok` before it. -/
def Logged.FollowsWrites (t : Logged) : Prop :=
  t.state.bridge.history.events.Pairwise fun later earlier =>
    ∀ w, earlier = .wrote w .ok → ∀ c game looked installed reply,
      later = .polled c game looked installed (some reply) → reply.blocks ≠ [] →
        t.Follows w looked reply

/-- The condition: frames rise, and there is room for the blocks left over. -/
def steady (t : Logged) (a : Act) : Prop := roomy t a ∧ framesRise t.state a

instance (t : Logged) (a : Act) : Decidable (steady t a) := inferInstanceAs (Decidable (_ ∧ _))

/-- A complete record that fits is read back. -/
theorem poll_record {next : Wire.PollReply} {id : ℕ}
    (hfits : (record next id true).size ≤ snapshotBytes) :
    (record next id true).poll id = some next := by
  rw [Snapshot.poll_eq next.blocks rfl rfl hfits]
  exact if_neg (by simp [record])

/-- What a poll with blocks finds in the snapshot it read.

**Proof sketch.** A reply with blocks is not the empty one, so it came from the record, and the
record's `poll` gives it the header's frame. -/
theorem of_pollReply {looked : Installed} {read : Option Snapshot} {reply : Wire.PollReply}
    (h : pollReply looked read = some reply) (hblocks : reply.blocks ≠ []) :
    ∃ snapshot, read = some snapshot ∧ snapshot.poll looked.id = some reply ∧
      reply.frame = snapshot.header.frame := by
  unfold pollReply at h
  split at h
  · obtain rfl := Option.some.inj h
    exact absurd rfl hblocks
  · obtain ⟨snapshot, hread, hpoll⟩ := Option.bind_eq_some_iff.mp h
    refine ⟨snapshot, hread, hpoll, ?_⟩
    unfold Snapshot.poll at hpoll
    split at hpoll
    · cases hpoll
    · obtain ⟨p, -, hmap⟩ := Option.bind_eq_some_iff.mp hpoll
      obtain ⟨blocks, -, rfl⟩ := Option.map_eq_some_iff.mp hmap
      rfl

/-- The frames rise in a run whose `Service` calls have rising frames. -/
theorem framed_of_reaches {s : State} (h : system.Reaches framesRise s) :
    Sound s ∧ Framed (core s) := by
  refine holds_of_reaches (R := risingFrames) (fun s a _ ha => ⟨fun _ _ => trivial, ?_,
    fun _ => trivial⟩) Framed.start (fun k k' hf hi hm => hi.move hf hm) h
  rintro service rfl
  exact ha

/-- A run of the condition is one with rising frames. -/
theorem framed_of_steady {t : Logged} (h : logged.Reaches steady t) :
    Sound t.state ∧ Framed (core t.state) :=
  framed_of_reaches ((simulation_logged framesRise).reaches (h.mono fun _ _ hok => hok.2))

/-- A poll now follows the writes that have returned.

**Proof sketch.** A poll with blocks answers from the latest record, which was published, for every
record that was built fits. The write is done, so its frame is no later than that of the next
snapshot and its call came before the record (`Dated`). -/
theorem Logged.follows_of_pollReply {t : Logged} (h : logged.Reaches steady t) (hd : Dated t)
    {w : ℕ} (hw : .wrote w .ok ∈ t.state.bridge.history.events) {looked : Installed}
    {read : Option Snapshot} (hread : read = none ∨ read = t.state.bridge.snapshot)
    {reply : Wire.PollReply} (hreply : pollReply looked read = some reply)
    (hblocks : reply.blocks ≠ []) : t.Follows w looked reply := by
  obtain ⟨snapshot, hsome, hpoll, hframe⟩ := of_pollReply hreply hblocks
  have hcomplete := (Snapshot.of_poll hpoll).1
  have hsnapshot : t.state.bridge.snapshot = some snapshot := by
    rcases hread with rfl | rfl
    · cases hsome
    · exact hsome
  rw [(AllPublished.of_roomy (fun _ _ hok => hok.1) h).latest] at hsnapshot
  obtain ⟨r, hr, rfl⟩ := Option.map_eq_some_iff.mp hsnapshot
  obtain ⟨hnext, hbefore⟩ := hd.latest r hr
  have hat := (framed_of_steady h).2.at_ w
  obtain ⟨hdone, hwrote⟩ := hat.returned hw
  obtain ⟨hle, happlied⟩ := hat.done hdone hwrote
  obtain ⟨m, hm⟩ := hd.applied w happlied
  refine ⟨?_, r, List.mem_of_mem_head? hr, hpoll, m, hm, hbefore hcomplete _ hm⟩
  rw [hframe, hnext]
  exact hle

/-- What a poll found stays found. -/
theorem Logged.Follows.step {t t' : Logged} {a : Act} (hs : Sound t.state)
    (h : t.step a = some t') {w : ℕ} (hdone : (t.state.bridge.requests w).done = true)
    {looked : Installed} {reply : Wire.PollReply} (hf : t.Follows w looked reply) :
    t'.Follows w looked reply := by
  obtain ⟨s', hs', rfl⟩ := Option.map_eq_some_iff.mp h
  obtain ⟨r, hr, hpoll, m, hm, hbefore⟩ := hf.read
  refine ⟨?_, r, List.mem_append_right _ hr, hpoll, m, List.mem_append_right _ hm, hbefore⟩
  dsimp only
  rw [requests_of_done hs hs' hdone]
  exact hf.frame

/-- **Polls follow writes** in the runs that meet the condition.

**Proof sketch.** By induction on the run. The events of the step are no poll, or one poll: it
follows the writes that returned before it by `Logged.follows_of_pollReply`. Of the events before
the step it holds already. -/
theorem Logged.followsWrites {t : Logged} (h : logged.Reaches steady t) :
    Dated t ∧ t.FollowsWrites := by
  induction h with
  | init hinit =>
    obtain rfl : _ = ({} : Logged) := hinit
    exact ⟨Dated.start, List.Pairwise.nil⟩
  | @step t t' a h hok hstep ih =>
    obtain ⟨hd, hfollows⟩ := ih
    obtain ⟨hs, hframed⟩ := framed_of_steady h
    refine ⟨hd.step hstep, ?_⟩
    have hdone : ∀ w, .wrote w .ok ∈ t.state.bridge.history.events →
        (t.state.bridge.requests w).done = true := fun w hw => ((hframed.at_ w).returned hw).1
    -- what was claimed of the events before the step
    have hold : t.state.bridge.history.events.Pairwise fun later earlier =>
        ∀ w, earlier = .wrote w .ok → ∀ c game looked installed reply,
          later = .polled c game looked installed (some reply) → reply.blocks ≠ [] →
            t'.Follows w looked reply := by
      refine hfollows.imp_of_mem fun {later earlier} _ hearlier hpair => ?_
      rintro w rfl c game looked installed reply rfl hblocks
      exact (hpair w rfl c game looked installed reply rfl hblocks).step hs hstep
        (hdone w hearlier)
    obtain ⟨s', hs', heq⟩ := Option.map_eq_some_iff.mp hstep
    obtain ⟨new, hnotes, hevents⟩ := notes_step hs'
    unfold FollowsWrites
    rw [show t'.state.bridge.history.events = new ++ t.state.bridge.history.events by
      rw [← heq]; exact hevents]
    refine List.pairwise_append.mpr ⟨?_, hold, ?_⟩
    · cases hnotes with
      | nothing => exact List.Pairwise.nil
      | wrote | polled => exact List.pairwise_singleton _ _
      | host hall =>
        refine List.pairwise_of_forall_mem_list fun later _ earlier hearlier => ?_
        rintro w rfl
        obtain ⟨_, _, _, _, _, hhost⟩ := hall _ hearlier
        cases hhost
    · rintro later hlater earlier hearlier w rfl c game looked installed reply rfl hblocks
      cases hnotes with
      | nothing => cases hlater
      | wrote => cases List.mem_singleton.mp hlater
      | polled c' game' looked' hread =>
        obtain ⟨-, -, rfl, -, hreply⟩ := Event.polled.inj (List.mem_singleton.mp hlater)
        exact (follows_of_pollReply h hd hearlier hread hreply.symm hblocks).step hs hstep
          (hdone w hearlier)
      | host hall =>
        obtain ⟨_, _, _, _, _, hhost⟩ := hall _ hlater
        cases hhost

/-! ## A poll after a subscription -/

/-- The call waits, or is about to, for its request. -/
def Call.submitted : Call → Bool
  | .submit | .wait => true
  | _ => false

/-- The call is one that replaces the subscription. -/
def Call.replaces : Call → Bool
  | .subscribe _ | .reset | .number _ | .clear => true
  | _ => false

/-- The id of a subscription that is waited for is the latest, and installed when it is done. -/
def Latest (k : Core) : Prop :=
  ∀ c, (k.bridge.requests c).kind = .subscribe → (k.calls c).submitted = true →
    (k.bridge.requests c).subscriptionId + 1 = k.bridge.nextSubscriptionId ∧
      ((k.bridge.requests c).done = true →
        (k.bridge.requests c).subscriptionId ≤ k.bridge.subscriptionId)

namespace Latest

variable {k k' : Core}

/-- No subscription is replaced. -/
theorem of_frame (h : Latest k) (hnext : k'.bridge.nextSubscriptionId = k.bridge.nextSubscriptionId)
    (hle : k.bridge.subscriptionId ≤ k'.bridge.subscriptionId)
    (hsame : ∀ c, (k'.bridge.requests c).kind = .subscribe → (k'.calls c).submitted = true →
      (k.bridge.requests c).kind = .subscribe ∧ (k.calls c).submitted = true ∧
        (k.bridge.requests c).subscriptionId = (k'.bridge.requests c).subscriptionId ∧
        (k.bridge.requests c).done = (k'.bridge.requests c).done) : Latest k' := by
  intro c hkind hcall
  obtain ⟨hkind', hcall', hid, hdone⟩ := hsame c hkind hcall
  obtain ⟨hlast, hinstalled⟩ := h c hkind' hcall'
  rw [hnext, ← hid, ← hdone]
  exact ⟨hlast, fun hd => (hinstalled hd).trans hle⟩

/-- The one call under way goes on, other than to its request.

**Proof sketch.** The call placed has no request yet, and of every other nothing relevant has
changed. -/
theorem of_place (h : Latest k) {c : ℕ} {b : Bridge} {call : Call}
    (hcall : call.submitted = false)
    (hothers : ∀ c' ≠ c, (k.calls c').submitted = true →
      b.requests c' = k.bridge.requests c' ∧
      b.nextSubscriptionId = k.bridge.nextSubscriptionId ∧
      b.subscriptionId = k.bridge.subscriptionId) : Latest (k.place c b call) := by
  intro c' hkind hcall'
  dsimp only [Core.place] at hkind hcall' ⊢
  split at hcall'
  · rw [hcall] at hcall'
    cases hcall'
  · rename_i hne
    obtain ⟨hrequest, hnext, hid⟩ := hothers c' hne hcall'
    rw [hrequest] at hkind ⊢
    rw [hnext, hid]
    exact h c' hkind hcall'

/-- **The moves of one thread keep it.**

**Proof sketch.** By the move. A `Subscribe` that takes a number gets one above those installed and
is the only call (`Alone`), so no other request waits. An answer that installs, installs the number
of that call; the other moves leave the numbers. -/
theorem move (h : Latest k) (ha : Alone k) (hf : Filed k) (hm : Move oneThread k k') :
    Latest k' := by
  have hactive : ∀ {c}, (k.calls c).submitted = true → (k.calls c).active = true := by
    intro c hc
    cases hcall : k.calls c <;> rw [hcall] at hc <;> first | rfl | cases hc
  cases hm with
  | @begin c call _ hb _ =>
    refine h.of_place ?_ (fun _ _ _ => ⟨rfl, rfl, rfl⟩)
    cases hb <;> rfl
  | @go c call hadvance =>
    refine h.of_place ?_ (fun _ _ _ => ⟨rfl, rfl, rfl⟩)
    generalize k.calls c = old at hadvance
    cases hadvance <;> rfl
  | refuse | polled => exact h.of_place rfl (fun _ _ _ => ⟨rfl, rfl, rfl⟩)
  | @reset c hcall | @clear c hcall =>
    refine h.of_place rfl (fun c' hne hc' => absurd ?_ hne)
    exact ha.one c' c (hactive hc') (by rw [hcall]; rfl)
  | @number c ranges hcall =>
    intro c' hkind hc'
    by_cases heq : c' = c
    · subst heq
      simp [Core.place, Bridge.number, Bridge.setRequest]
    · have hwas : (k.calls c').submitted = true := by
        simpa [Core.place, heq] using hc'
      exact absurd (ha.one c' c (hactive hwas) (by rw [hcall]; rfl)) heq
  | @readDirect c _ _ hcall | @write c _ hcall =>
    intro c' hkind hc'
    by_cases heq : c' = c
    · simp [Core.place, Bridge.setRequest, heq] at hkind
    · have hwas : (k.calls c').submitted = true := by
        simpa [Core.place, heq] using hc'
      exact absurd (ha.one c' c (hactive hwas) (by rw [hcall]; rfl)) heq
  | @enqueue c hcall | @hand c hcall =>
    refine h.of_frame rfl le_rfl fun c' hkind hc' => ⟨hkind, ?_, rfl, rfl⟩
    by_cases heq : c' = c
    · rw [heq, hcall]
      rfl
    · simpa [Core.place, Core.keep, heq] using hc'
  | @full c hcall | @leave c hcall =>
    refine h.of_place rfl (fun c' hne hc' => absurd ?_ hne)
    exact ha.one c' c (hactive hc') (by rw [hcall]; rfl)
  | @abandon c hcall =>
    refine h.of_place rfl (fun c' hne hc' => absurd ?_ hne)
    exact ha.one c' c (hactive hc') (by rw [hcall]; rfl)
  | stop | startGame | endGame | space | pass | close =>
    exact h.of_frame rfl le_rfl fun c' hkind hc' => ⟨hkind, hc', rfl, rfl⟩
  | @service s =>
    have hnumbers := k.bridge.numbers_takeQueue s
    simp only [Bridge.numbers, Prod.mk.injEq, Installed.mk.injEq] at hnumbers
    refine h.of_frame hnumbers.1 (Nat.le_of_eq hnumbers.2.1.1.symm) fun c' hkind hc' => ?_
    dsimp only [Core.take, Bridge.takeQueue] at hkind ⊢
    split at hkind
    · rename_i hq
      rw [if_pos hq]
      exact ⟨hkind, hc', rfl, rfl⟩
    · rename_i hq
      rw [if_neg hq]
      exact ⟨hkind, hc', rfl, rfl⟩
  | @answer s calls c locked following _ _ _ =>
    refine h.of_frame rfl le_rfl fun c' hkind hc' => ?_
    dsimp only [Core.keep] at hkind hc' ⊢
    rw [Bridge.requests_answerOne] at hkind ⊢
    split at hkind
    · rename_i heq
      rw [if_pos heq, Request.subscriptionId_answer, Request.done_answer, heq]
      rw [Request.kind_answer] at hkind
      exact ⟨hkind, heq ▸ hc', rfl, rfl⟩
    · rename_i heq
      rw [if_neg heq]
      exact ⟨hkind, hc', rfl, rfl⟩
  | @finish c locked hhold _ =>
    have hnext : (k.bridge.completeOne c).nextSubscriptionId = k.bridge.nextSubscriptionId := by
      rw [Bridge.completeOne_eq]
    have hid : (k.bridge.completeOne c).subscriptionId =
        if k.bridge.installs (k.bridge.requests c) then (k.bridge.requests c).subscriptionId
        else k.bridge.subscriptionId := by
      rw [Bridge.completeOne_eq]
    intro c' hkind hc'
    dsimp only [Core.keep] at hkind hc' ⊢
    rw [Bridge.requests_completeOne] at hkind ⊢
    rw [hnext, hid]
    split at hkind
    · rename_i heq
      rw [if_pos heq]
      rw [heq] at hc'
      obtain ⟨hlast, -⟩ := h c hkind hc'
      refine ⟨hlast, fun _ => ?_⟩
      split
      · exact le_rfl
      · rename_i hinstalls
        -- it is waited for, so nobody gave up on it
        have habandoned : (k.bridge.requests c).abandoned = false := by
          by_contra hne
          rw [(hf.filedAt c).abandoned (by simpa using hne)] at hc'
          cases hc'
        have hsubscribe : (k.bridge.requests c).kind = .subscribe := hkind
        simpa [Bridge.installs, habandoned, hsubscribe] using hinstalls
    · rename_i heq
      rw [if_neg heq]
      obtain ⟨hlast, hinstalled⟩ := h c' hkind hc'
      refine ⟨hlast, fun hdone => (hinstalled hdone).trans ?_⟩
      split
      · rename_i hinstalls
        simp only [Bridge.installs, Bool.and_eq_true, decide_eq_true_eq] at hinstalls
        exact Nat.le_of_lt hinstalls.2
      · exact le_rfl

/-- Nothing is subscribed to at the start. -/
theorem start : Latest {} := nofun

end Latest

/-- The set stays installed: no call replaces it, and nobody waits for another. -/
structure Kept (i : Installed) (old : List Event) (k : Core) : Prop where
  current : (⟨k.bridge.subscriptionId, k.bridge.ranges⟩ : Installed) = i
  calls : ∀ c, (k.calls c).replaces = false
  requests : ∀ c, (k.bridge.requests c).kind = .subscribe → k.calls c = .returned
  polled : ∃ new, k.bridge.history.events = new ++ old ∧
    ∀ c game looked installed reply, .polled c game looked installed reply ∈ new → installed = i

/-- No call that replaces the subscription begins. -/
def noneReplaces : Rules where
  begins _ call := call.replaces = false

namespace Kept

variable {i : Installed} {old : List Event} {k k' : Core}

/-- A poll is recorded with the set. -/
theorem of_events (h : Kept i old k) {events : List Event}
    (hevents : events = k.bridge.history.events ∨ ∃ e, events = e :: k.bridge.history.events ∧
      ∀ c game looked installed reply, e = .polled c game looked installed reply →
        installed = ⟨k.bridge.subscriptionId, k.bridge.ranges⟩) :
    ∃ new, events = new ++ old ∧
      ∀ c game looked installed reply, .polled c game looked installed reply ∈ new →
        installed = i := by
  obtain ⟨new, hnew, hall⟩ := h.polled
  rcases hevents with rfl | ⟨e, rfl, he⟩
  · exact ⟨new, hnew, hall⟩
  · refine ⟨e :: new, congrArg (e :: ·) hnew, fun c game looked installed reply hmem => ?_⟩
    rcases List.mem_cons.mp hmem with heq | hold
    · exact (he c game looked installed reply heq.symm).trans h.current
    · exact hall c game looked installed reply hold

/-- One call goes on.

**Proof sketch.** The set installed is the one before. Only call `c` and its request changed, and
that is no `Subscribe` that could install one; the events are those before, or one poll of the set.
-/
theorem of_place (h : Kept i old k) {c : ℕ} {b : Bridge} {call : Call}
    (hid : b.subscriptionId = k.bridge.subscriptionId) (hranges : b.ranges = k.bridge.ranges)
    (hevents : b.history.events = k.bridge.history.events ∨
      ∃ e, b.history.events = e :: k.bridge.history.events ∧
        ∀ c game looked installed reply, e = .polled c game looked installed reply →
          installed = ⟨k.bridge.subscriptionId, k.bridge.ranges⟩)
    (hcall : call.replaces = false)
    (hothers : ∀ c' ≠ c, b.requests c' = k.bridge.requests c')
    (hc : (b.requests c).kind = .subscribe → call = .returned) : Kept i old (k.place c b call) := by
  refine ⟨?_, fun c' => ?_, fun c' hkind => ?_, h.of_events hevents⟩
  · dsimp only [Core.place]
    rw [hid, hranges]
    exact h.current
  · dsimp only [Core.place]
    split
    · exact hcall
    · exact h.calls c'
  · dsimp only [Core.place] at hkind ⊢
    split
    · rename_i heq
      exact hc (heq ▸ hkind)
    · rename_i hne
      rw [hothers c' hne] at hkind
      exact h.requests c' hkind

/-- Nothing is called and nothing installed. -/
theorem of_bridge (h : Kept i old k) (hcalls : k'.calls = k.calls)
    (hid : k'.bridge.subscriptionId = k.bridge.subscriptionId)
    (hranges : k'.bridge.ranges = k.bridge.ranges)
    (hkinds : ∀ c, (k'.bridge.requests c).kind = (k.bridge.requests c).kind)
    (hevents : k'.bridge.history.events = k.bridge.history.events ∨
      ∃ e, k'.bridge.history.events = e :: k.bridge.history.events ∧
        ∀ c game looked installed reply, e = .polled c game looked installed reply →
          installed = ⟨k.bridge.subscriptionId, k.bridge.ranges⟩) : Kept i old k' := by
  refine ⟨?_, ?_, fun c hkind => ?_, h.of_events hevents⟩
  · rw [hid, hranges]
    exact h.current
  · rw [hcalls]
    exact h.calls
  · rw [hcalls]
    exact h.requests c ((hkinds c).symm.trans hkind)

/-- What returning a write records. -/
theorem events_wrote (b : Bridge) (c : ℕ) (result : Result) (current : Installed) :
    (b.wrote c result).history.events = b.history.events ∨
      ∃ e, (b.wrote c result).history.events = e :: b.history.events ∧
        ∀ c game looked installed reply, e = .polled c game looked installed reply →
          installed = current := by
  rw [Bridge.events_wrote]
  split
  · exact .inr ⟨_, rfl, nofun⟩
  · exact .inl rfl

/-- What returning a write leaves of the subscription. -/
theorem current_wrote (b : Bridge) (c : ℕ) (result : Result) :
    (b.wrote c result).subscriptionId = b.subscriptionId ∧
      (b.wrote c result).ranges = b.ranges := by
  unfold Bridge.wrote
  split <;> exact ⟨rfl, rfl⟩

/-- **The moves keep the set.**

**Proof sketch.** By the move. None that replaces the set may run, so calls begin and go on with
reads, writes and polls (`Kept.of_place`). `Service` answers what is queued, of which nothing is a
`Subscribe`, so what it installs is the set it found. -/
theorem move (h : Kept i old k) (hf : Filed k) (hm : Move noneReplaces k k') :
    Kept i old k' := by
  have hearly : ∀ {c}, (k.calls c).early = true → ∀ {call : Call},
      (k.bridge.requests c).kind = .subscribe → call = .returned := by
    intro c he call hkind
    rw [(hf.filedAt c).early he] at hkind
    cases hkind
  have hnever : ∀ {c}, (k.calls c).replaces = true → Kept i old k' := by
    intro c hc
    rw [h.calls c] at hc
    cases hc
  cases hm with
  | @begin c call hcall _ hmay =>
    exact h.of_place rfl rfl (.inl rfl) hmay (fun _ _ => rfl) (hearly (by rw [hcall]; rfl))
  | @go c call hadvance =>
    have hnot := h.calls c
    have hwas : (k.calls c).early = true := by
      generalize k.calls c = old at hadvance
      cases hadvance <;> rfl
    refine h.of_place rfl rfl (.inl rfl) ?_ (fun _ _ => rfl) (hearly hwas)
    generalize k.calls c = old at hadvance hnot
    cases hadvance <;> first | rfl | exact hnot
  | refuse =>
    exact h.of_place rfl rfl (.inr ⟨_, rfl, (by simp)⟩) rfl (fun _ _ => rfl) (fun _ => rfl)
  | @reset c hcall | @clear c hcall | @number c _ hcall =>
    exact hnever (c := c) (by rw [hcall]; rfl)
  | readDirect | write =>
    refine h.of_place rfl rfl (.inl rfl) rfl (fun _ hne => if_neg hne) ?_
    simp [Bridge.setRequest]
  | @enqueue c hcall =>
    refine h.of_place rfl rfl (.inl rfl) rfl (fun _ _ => rfl) fun hkind => ?_
    have hreturned := h.requests c hkind
    rw [hcall] at hreturned
    cases hreturned
  | @hand c hcall =>
    have hplace : Kept i old (k.place c k.bridge .wait) := by
      refine h.of_place rfl rfl (.inl rfl) rfl (fun _ _ => rfl) fun hkind => ?_
      have hreturned := h.requests c hkind
      rw [hcall] at hreturned
      cases hreturned
    exact ⟨hplace.current, hplace.calls, hplace.requests, hplace.polled⟩
  | full | leave =>
    obtain ⟨hid, hranges⟩ := current_wrote k.bridge _ _
    exact h.of_place hid hranges (events_wrote _ _ _ _) rfl (fun _ _ => by simp) (fun _ => rfl)
  | @abandon c =>
    obtain ⟨hid, hranges⟩ := current_wrote (k.bridge.abandon c) c .busy
    refine h.of_place hid hranges (events_wrote (k.bridge.abandon c) _ _ _) rfl (fun c' hne => ?_)
      (fun _ => rfl)
    exact (congrFun (Bridge.requests_wrote _ _ _) c').trans (if_neg hne)
  | polled =>
    refine h.of_place rfl rfl (.inr ⟨_, rfl, ?_⟩) rfl (fun _ _ => rfl) (fun _ => rfl)
    rintro c' game looked installed reply heq
    exact (Event.polled.inj heq).2.2.2.1.symm
  | stop | endGame | space | close =>
    exact h.of_bridge rfl rfl rfl (fun _ => rfl) (.inl rfl)
  | startGame =>
    exact h.of_bridge rfl rfl rfl (fun _ => rfl) (.inl k.bridge.events_startGame)
  | @service s =>
    have hnumbers := k.bridge.numbers_takeQueue s
    simp only [Bridge.numbers, Prod.mk.injEq, Installed.mk.injEq] at hnumbers
    refine h.of_bridge rfl hnumbers.2.1.1 hnumbers.2.1.2 (fun c => ?_)
      (.inl (k.bridge.events_takeQueue s))
    dsimp only [Core.take, Bridge.takeQueue]
    split <;> rfl
  | @answer s calls c =>
    refine h.of_bridge rfl rfl rfl (fun c' => ?_) ?_
    · dsimp only [Core.keep]
      rw [Bridge.requests_answerOne]
      split
      · rename_i heq
        rw [Request.kind_answer, heq]
      · rfl
    · dsimp only [Core.keep]
      rw [Bridge.events_answerOne]
      split
      · exact .inl rfl
      · exact .inr ⟨_, rfl, (by simp)⟩
  | @finish c locked hhold _ =>
    -- what is held has been given up on, if it is a subscription
    have hnot : ¬ k.bridge.installs (k.bridge.requests c) = true := by
      intro hinstalls
      simp only [Bridge.installs, Bool.and_eq_true, Bool.not_eq_true', beq_iff_eq] at hinstalls
      have hreturned := h.requests c hinstalls.1.2
      have hheld := ((hf.filedAt c).held (by rw [hhold]; simp)).2
      rw [hreturned, hinstalls.1.1] at hheld
      simp at hheld
    refine h.of_bridge rfl ?_ ?_ (fun c' => ?_) (.inl (k.bridge.events_completeOne c))
    · dsimp only [Core.keep]
      rw [Bridge.completeOne_eq]
      exact if_neg hnot
    · dsimp only [Core.keep]
      rw [Bridge.completeOne_eq]
      exact if_neg hnot
    · dsimp only [Core.keep]
      rw [Bridge.requests_completeOne]
      split
      · rename_i heq
        rw [heq]
      · rfl
  | @pass s calls =>
    exact h.of_bridge rfl rfl rfl (fun _ => rfl)
      (.inl (k.bridge.events_snapshotFor s calls k.following))

end Kept

/-- A `Subscribe` that was answered `Ok` with some ranges returns. -/
structure Accepts (s : State) (c : ℕ) (s' : State) : Prop where
  waits : s.calls c = .wait
  kind : (s.bridge.requests c).kind = .subscribe
  done : (s.bridge.requests c).done = true
  ok : (s.bridge.requests c).result = .ok
  accepted : (s.bridge.requests c).accepted ≠ []
  step : step s (.advance c) = some s'

/-- Neither a `Subscribe` nor a `Clear` begins. -/
def keepsSet : Act → Prop
  | .subscribe _ | .clear => False
  | _ => True

instance (a : Act) : Decidable (keepsSet a) := by
  cases a <;> unfold keepsSet <;> infer_instance

/-- The calls that keep the set follow the rule. -/
theorem allows_keepsSet (s : State) (a : Act) (h : keepsSet a) : noneReplaces.Allows s a := by
  refine ⟨fun call hcall => ?_, fun _ _ => trivial, fun _ => trivial⟩
  cases a with
  | subscribe | clear => exact h.elim
  | poll =>
    obtain rfl := Option.some.inj hcall
    rfl
  | readDirect address length =>
    obtain rfl := Option.some.inj hcall
    cases checkReadDirect address length <;> rfl
  | write ops =>
    obtain rfl := Option.some.inj hcall
    cases checkWrite ops <;> rfl
  | _ => cases hcall

/-- What a `Subscribe` returns is installed, and no other is waited for.

**Proof sketch.** The worker's thread makes one call at a time, so while this `Subscribe` waits no
other call is active, and its number is the last one installed (`Latest`). The ranges installed
under that number are the ones accepted (`Numbered`). -/
theorem kept_of_accepts {s s' : State} (h : system.Reaches workerThread s) {c : ℕ}
    (ha : Accepts s c s') :
    Kept ⟨(s.bridge.requests c).subscriptionId, (s.bridge.requests c).accepted⟩
      s'.bridge.history.events (core s') := by
  obtain ⟨hs, hn, halone, hlatest⟩ := holds_of_reaches allows_workerThread
    (I := fun k => Numbered k ∧ Alone k ∧ Latest k)
    ⟨Numbered.start, Alone.start, Latest.start⟩
    (fun _ _ hf hi hm =>
      ⟨hi.1.move hf hm, hi.2.1.move hf hm, hi.2.2.move hi.2.1 hf hm⟩) h
  have hstep : s' = s.leave c s.bridge (s.bridge.requests c).result := by
    have hstep := ha.step
    simp only [step, State.advance, ha.waits] at hstep
    rw [if_pos ha.done] at hstep
    exact (Option.some.inj hstep).symm
  have hbridge : s.bridge.wrote c (s.bridge.requests c).result = s.bridge := by
    unfold Bridge.wrote
    rw [if_neg (by rw [ha.kind]; simp)]
  have hnone : ∀ c' ≠ c, (s.calls c').active = false := by
    intro c' hne
    by_contra hactive
    refine hne (halone.one c' c (Bool.eq_true_of_not_eq_false hactive) ?_)
    rw [show (core s).calls c = .wait from ha.waits]
    rfl
  obtain ⟨hlast, hle⟩ := hlatest c ha.kind (by rw [show (core s).calls c = _ from ha.waits]; rfl)
  have hid : s.bridge.subscriptionId = (s.bridge.requests c).subscriptionId := by
    have hlt : s.bridge.subscriptionId < s.bridge.nextSubscriptionId :=
      hn.installs_lt _ hn.installed
    have hle : (s.bridge.requests c).subscriptionId ≤ s.bridge.subscriptionId := hle ha.done
    have hlast : (s.bridge.requests c).subscriptionId + 1 = s.bridge.nextSubscriptionId := hlast
    omega
  have hranges : s.bridge.ranges = (s.bridge.requests c).accepted := by
    have hcurrent : s.bridge.history.sets s.bridge.subscriptionId = some s.bridge.ranges :=
      hn.current
    rw [hid] at hcurrent
    exact Option.some.inj (hcurrent.symm.trans (hn.settled c ha.kind (.inr ha.done)))
  rw [hstep]
  have hcalls : ∀ c', (s.leave c s.bridge (s.bridge.requests c).result).calls c' =
      if c' = c then .returned else s.calls c' := fun _ => rfl
  refine ⟨?_, fun c' => ?_, fun c' hkind => ?_, [], rfl, (by simp)⟩
  · show (⟨(s.bridge.wrote c _).subscriptionId, (s.bridge.wrote c _).ranges⟩ : Installed) = _
    rw [hbridge, hid, hranges]
  · show ((s.leave c s.bridge (s.bridge.requests c).result).calls c').replaces = false
    rw [hcalls]
    split
    · rfl
    · rename_i hne
      have hidle := hnone c' hne
      cases hcall : s.calls c' <;> rw [hcall] at hidle <;> first | rfl | cases hidle
  · show (s.leave c s.bridge (s.bridge.requests c).result).calls c' = _
    rw [hcalls]
    split
    · rfl
    · rename_i hne
      have hkind : ((s.bridge.wrote c (s.bridge.requests c).result).requests c').kind =
          .subscribe := hkind
      rw [hbridge] at hkind
      have hidle := hnone c' hne
      cases hcall : s.calls c' with
      | returned => rfl
      | unused =>
        have hearly : s.bridge.requests c' = {} :=
          (hs.filed.filedAt c').early (by rw [show (core s).calls c' = _ from hcall]; rfl)
        rw [hearly] at hkind
        cases hkind
      | _ =>
        rw [hcall] at hidle
        cases hidle

/-- It stays in the runs in which none is replaced. -/
theorem kept_of_reaches {s s' : State} (hs : Sound s) {i : Installed} {old : List Event}
    (h : Kept i old (core s))
    (hruns : (system.onFrom s).Reaches (fun s a => workerThread s a ∧ keepsSet a) s') :
    Kept i old (core s') := by
  have hboth : Sound s' ∧ Kept i old (core s') := by
    refine hruns.invariant (I := fun s => Sound s ∧ Kept i old (core s)) ?_ ?_
    · rintro s rfl
      exact ⟨hs, h⟩
    · rintro s a s' ⟨hs, hk⟩ hok hstep
      exact ⟨hs.step hstep,
        (hs.keeps (fun k k' hf hi hm => hi.move hf hm) hk (allows_keepsSet s a hok.2) hstep).2⟩
  exact hboth.2

/-- **Reads follow writes**: in every run in which the frames of the `Service` calls rise and there
is room for the blocks left over, a `Poll` that answers with blocks after a `Write` answered `Ok`
reports a frame no earlier than the write's, in bytes read after the host was called for it. And in
every run of the worker's thread, after a `Subscribe` answered `Ok` with some ranges, a `Poll`
answers `Ok` with exactly these until a `Subscribe` or a `Clear` begins.

**Proof sketch.** A write that returned was completed after the snapshot of its `Service` was
published (`Framed.move`), and what is published since was read later (`Dated.step`). A `Subscribe`
waits until it is completed, and so is installed (`Latest.move`); an older request that is still
held was given up on, and is not (`Kept.move`). -/
theorem reads_follow_writes (t : Logged) (s' : State) :
    (logged.Reaches steady t → t.FollowsWrites) ∧
      ∀ s c s₁, system.Reaches workerThread s → Accepts s c s₁ →
        (system.onFrom s₁).Reaches (fun s a => workerThread s a ∧ keepsSet a) s' →
        ∃ new, s'.bridge.history.events = new ++ s₁.bridge.history.events ∧
          ∀ p game looked installed reply,
            .polled p game looked installed (some reply) ∈ new →
            reply.blocks.map (fun block => (block.address, block.bytes.length)) =
              (s.bridge.requests c).accepted.map fun range =>
                (range.address, range.length.toNat) := by
  refine ⟨fun h => (Logged.followsWrites h).2, fun s c s₁ h ha hruns => ?_⟩
  have hreach : system.Reaches workerThread s₁ :=
    .step h (fun hbegun => by cases hbegun) ha.step
  have hkept := kept_of_reaches (polled_of_workerThread hreach).1 (kept_of_accepts h ha) hruns
  obtain ⟨-, hn, hshown, halone⟩ :=
    polled_of_workerThread (hreach.trans (hruns.mono fun _ _ hok => hok.1))
  obtain ⟨new, hnew, hall⟩ := hkept.polled
  refine ⟨new, hnew, fun p game looked installed reply hmem => ?_⟩
  have hin : .polled p game looked installed (some reply) ∈ s'.bridge.history.events :=
    hnew ▸ List.mem_append_left _ hmem
  obtain rfl := hall p game looked installed (some reply) hmem
  obtain rfl := halone.polled p game looked _ (some reply) hin
  exact (hshown.polled p game _ _ reply hin ha.accepted).2.map_eq

/-! ## Runs -/

/-- A service of a host that can write. -/
def writingService (failing : ℕ) (frame : UInt64) : Service :=
  { failingService failing frame with write := some fun _ _ => 1 }

/-- A write is called and waits for its answer. -/
def writes (c : ℕ) : List Act :=
  [.write [⟨0, [1]⟩], .advance c, .advance c, .advance c, .advance c]

/-- A poll is called and returns. -/
def polls (c : ℕ) : List Act := [.poll, .advance c, .advance c, .advance c]

/-- A range is subscribed to, up to the return. -/
def subscribingRun : List Act :=
  .setGameRunning true :: subscribed 0 [⟨0, 2⟩] ++ [.service (failingService 9 1), .phase, .phase]

/-- The range is written and polled. -/
def rereadingRun : List Act :=
  writes 1 ++ [.service (writingService 9 2), .phase, .phase, .advance 1] ++ polls 2

/-- What the poll is answered with: the frame of the write. -/
def rereadEvent : Event :=
  .polled 2 1 ⟨1, [⟨0, 2⟩]⟩ ⟨1, [⟨0, 2⟩]⟩ (some { frame := 2, blocks := [⟨0, [0, 0]⟩] })

/-- The poll after the write follows it, and answers with the range that was accepted. -/
theorem reads_follow_writes_rereadingRun :
    (∃ t, Runs.runOf Logged.step {} (subscribingRun ++ .advance 0 :: rereadingRun) = some t ∧
      rereadEvent ∈ t.state.bridge.history.events ∧ t.FollowsWrites) ∧
    ∃ s s₁ s', Accepts s 0 s₁ ∧ Runs.runOf step s₁ rereadingRun = some s' ∧
      ∃ new, s'.bridge.history.events = new ++ s₁.bridge.history.events ∧
        rereadEvent ∈ s'.bridge.history.events ∧
        ∀ p game looked installed reply, .polled p game looked installed (some reply) ∈ new →
          reply.blocks.map (fun block => (block.address, block.bytes.length)) = [(0, 2)] := by
  constructor
  · have hrun : (Runs.runOf Logged.step {} (subscribingRun ++ .advance 0 :: rereadingRun)).any
        (fun t => decide (rereadEvent ∈ t.state.bridge.history.events)) = true := by
      decide +kernel
    obtain ⟨t, ht, hpoll⟩ := (Option.any_eq_true _ _).mp hrun
    have halong : Runs.holdsAlong Logged.step (fun t a => decide (steady t a)) {}
        (subscribingRun ++ .advance 0 :: rereadingRun) = true := by
      decide +kernel
    have hreach : logged.Reaches steady t :=
      Runs.System.Reaches.runOf (fun _ _ h => of_decide_eq_true h) _ (.init rfl) halong ht
    exact ⟨t, ht, of_decide_eq_true hpoll, (reads_follow_writes t t.state).1 hreach⟩
  · have hrun : (Runs.runOf step {} subscribingRun).any (fun s =>
        decide (s.calls 0 = .wait ∧ (s.bridge.requests 0).kind = .subscribe ∧
          (s.bridge.requests 0).done = true ∧ (s.bridge.requests 0).result = .ok ∧
          (s.bridge.requests 0).accepted = [⟨0, 2⟩]) &&
        (step s (.advance 0)).any (fun s₁ => (Runs.runOf step s₁ rereadingRun).any (fun s' =>
          decide (rereadEvent ∈ s'.bridge.history.events) &&
          Runs.holdsAlong step (fun s a => decide (workerThread s a) && decide (keepsSet a)) s₁
            rereadingRun))) = true := by
      decide +kernel
    obtain ⟨s, hs, hrun⟩ := (Option.any_eq_true _ _).mp hrun
    obtain ⟨hfacts, hrun⟩ := Bool.and_eq_true_iff.mp hrun
    obtain ⟨s₁, hs₁, hrun⟩ := (Option.any_eq_true _ _).mp hrun
    obtain ⟨s', hs', hrun⟩ := (Option.any_eq_true _ _).mp hrun
    obtain ⟨hpoll, halong⟩ := Bool.and_eq_true_iff.mp hrun
    obtain ⟨hwait, hkind, hdone, hok, haccepted⟩ := of_decide_eq_true hfacts
    have halong₀ : Runs.holdsAlong step (fun s a => decide (workerThread s a)) {}
        subscribingRun = true := by
      decide +kernel
    have hreach : system.Reaches workerThread s :=
      Runs.System.Reaches.runOf (fun _ _ h => of_decide_eq_true h) _ (.init rfl) halong₀ hs
    have haccepts : Accepts s 0 s₁ := ⟨hwait, hkind, hdone, hok, by rw [haccepted]; nofun, hs₁⟩
    have hruns : (system.onFrom s₁).Reaches (fun s a => workerThread s a ∧ keepsSet a) s' :=
      Runs.System.Reaches.runOf (fun _ _ h => by simpa using h) _ (.init rfl) halong hs'
    obtain ⟨new, hnew, hall⟩ :=
      (reads_follow_writes {} s').2 s 0 s₁ hreach haccepts hruns
    rw [haccepted] at hall
    exact ⟨s, s₁, s', haccepts, hs', new, hnew, of_decide_eq_true hpoll, hall⟩

/-- A subscription is given up on while a `Service` answers it, and cut short in its snapshot; then
a write is answered by a `Service` that reads the first range of the old one short; and a `Poll` is
about to read the snapshot. -/
def staleRun : List Act :=
  .setGameRunning true :: subscribed 0 [⟨0, 10000⟩, ⟨16000, 1⟩, ⟨20000, 5000⟩] ++
    [.service (failingService 9 1), .phase, .phase, .advance 0] ++
    subscribed 1 [⟨0, 1⟩, ⟨16, 15000⟩, ⟨40000, 1⟩] ++
    [.service (failingService 4 2), .timeout 1, .phase, .phase] ++ writes 2 ++
    [.service (writingService 1 3), .phase, .phase, .advance 2] ++
    [.poll, .advance 3, .advance 3]

/-- The subscription of that run. -/
def staleSet : Installed := ⟨1, [⟨0, 10000⟩, ⟨16000, 1⟩, ⟨20000, 5000⟩]⟩

/-- Its first snapshot. -/
def staleSnapshot : Wire.PollReply where
  frame := 1
  blocks := [⟨0, List.replicate 10000 0⟩, ⟨16000, List.replicate 1 0⟩,
    ⟨20000, List.replicate 5000 0⟩]

/-- The blocks of its last snapshot, and of the one before. -/
def staleBlocks (length : ℕ) : List Wire.MemoryBlock :=
  [⟨0, List.replicate length 0⟩, ⟨16, List.replicate 15000 0⟩, ⟨20000, List.replicate 5000 0⟩]

set_option maxRecDepth 10000 in
/-- The records of that run, what the write was answered and where the poll stands. -/
theorem records_staleRun : (Runs.runOf Logged.step {} staleRun).map (fun t =>
    (t.records.map (·.snapshot), t.state.calls 3, t.state.bridge.history.events,
      (t.state.bridge.requests 2).writeReply.frame)) =
      some ([record { frame := 3, blocks := staleBlocks 10000 } 1 false,
          record { frame := 2, blocks := staleBlocks 1 } 2 false, record staleSnapshot 1 true],
        .pollRead 1 staleSet, [.wrote 2 .ok, .hostWrite 2 [⟨0, [1]⟩] 1 0], 3) := by
  rfl

/-- The bytes of such a record. -/
theorem size_staleBlocks (length : ℕ) (frame : UInt64) (id : ℕ) :
    (record { frame := frame, blocks := staleBlocks length } id false).size =
      20048 + length := by
  rw [size_record]
  simp only [staleBlocks, totalBytes, snapshotHeaderBytes, List.map_cons, List.map_nil,
    List.sum_cons, List.sum_nil, List.length_cons, List.length_nil, List.length_replicate]
  omega

/-- The first snapshot of that run fits. -/
theorem size_staleSnapshot : (record staleSnapshot 1 true).size ≤ snapshotBytes := by
  rw [size_record]
  simp only [staleSnapshot, totalBytes, snapshotHeaderBytes, List.map_cons, List.map_nil,
    List.sum_cons, List.sum_nil, List.length_cons, List.length_nil, List.length_replicate]
  decide

/-- And this is what it is read back as. -/
theorem poll_staleSnapshot : pollReply staleSet (some (record staleSnapshot 1 true)) =
    some staleSnapshot := by
  have hpoll := poll_record size_staleSnapshot
  unfold pollReply
  rw [if_neg nofun, Option.bind_some]
  exact hpoll

/-- **A poll may read what is older than a write**, in a run of one thread and of rising frames:
the write was answered with frame 3 and the poll after it reports frame 1.

**Proof sketch.** The run is evaluated up to the second poll: its three records, of which only the
first fits (`size_staleBlocks`), so the snapshot is that of frame 1. The poll reads it after the
write has returned with frame 3. -/
theorem not_reads_follow_writes : ∃ t, logged.Reaches
    (fun t a => workerThread t.state a ∧ framesRise t.state a) t ∧ ¬ t.FollowsWrites := by
  obtain ⟨t, ht, hfacts⟩ := Option.map_eq_some_iff.mp records_staleRun
  simp only [Prod.mk.injEq] at hfacts
  obtain ⟨hrecords, hcall, hevents, hframe⟩ := hfacts
  have halong : Runs.holdsAlong Logged.step
      (fun t a => decide (workerThread t.state a) && decide (framesRise t.state a)) {} staleRun =
      true := by
    decide +kernel
  have hreach : logged.Reaches (fun t a => workerThread t.state a ∧ framesRise t.state a) t :=
    Runs.System.Reaches.runOf (fun _ _ h => by simpa using h) staleRun (.init rfl) halong ht
  -- of the three records only the first fits
  have hsnapshot : t.state.bridge.snapshot = some (record staleSnapshot 1 true) := by
    have hfind : t.state.bridge.snapshot =
        (t.records.map (·.snapshot)).find? fun r => decide (r.size ≤ snapshotBytes) := by
      rw [List.find?_map]
      exact snapshot_eq_find hreach
    rw [hfind, hrecords, List.find?_cons_of_neg, List.find?_cons_of_neg, List.find?_cons_of_pos]
    · exact decide_eq_true size_staleSnapshot
    · rw [size_staleBlocks]
      decide
    · rw [size_staleBlocks]
      decide
  let t' : Logged := { t with state := t.state.polled 3 1 staleSet t.state.bridge.snapshot }
  have hstep : t.step (.advance 3) = some t' := by
    unfold Logged.step step State.advance
    dsimp only
    rw [hcall]
    rfl
  have hok : workerThread t.state (.advance 3) ∧ framesRise t.state (.advance 3) :=
    ⟨nofun, trivial⟩
  refine ⟨t', .step hreach hok hstep, fun hfollows => ?_⟩
  have hpolled : t'.state.bridge.history.events =
      .polled 3 1 staleSet ⟨t.state.bridge.subscriptionId, t.state.bridge.ranges⟩
        (some staleSnapshot) :: t.state.bridge.history.events := by
    show Event.polled 3 1 staleSet _ (pollReply staleSet t.state.bridge.snapshot) :: _ = _
    rw [hsnapshot, poll_staleSnapshot]
  unfold Logged.FollowsWrites at hfollows
  rw [hpolled, hevents] at hfollows
  have hread := (List.pairwise_cons.mp hfollows).1 (.wrote 2 .ok) List.mem_cons_self 2 rfl 3 1
    staleSet _ staleSnapshot rfl nofun
  have hle : (t.state.bridge.requests 2).writeReply.frame ≤ staleSnapshot.frame := hread.frame
  rw [hframe] at hle
  exact absurd hle (by decide)

end Memory
