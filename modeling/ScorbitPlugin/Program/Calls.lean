import ScorbitPlugin.Program.Refines
import ScorbitPlugin.Wire.GameLayouts
import ScorbitPlugin.Worker.Delivery

set_option relaxedAutoImplicit false
set_option autoImplicit false

/-!
# What the worker sees and sends is what the script called

Every state of the program is, for the worker, one of its own system. So what it sends is a batch
that was committed, and what was committed is said by the script's calls, one after another.

## Main definitions

* `Program.State.Seen` — what the worker sees of the source is all there is.
* `Program.State.SentCommitted` — a batch that was sent is a committed one.

## Main results

* `Program.refines_worker` — the worker's results are about the program.
* `Program.sent_calls` — what is sent was called.
-/

namespace Worker.GamePath

variable {Ask : Type} {p p' : GamePath Ask} {m : Move}

/-- What was sent was taken. -/
def SentTaken (p : GamePath Ask) : Prop := ∀ q d, .sent q d ∈ p.log.events → q ∈ p.log.taken

/-- A move that sends nothing. -/
theorem SentTaken.quiet (h : p.SentTaken) (new : List GameEvent)
    (he : p'.log.events = new ++ p.log.events) (hnew : ∀ q d, .sent q d ∉ new)
    (ht : ∀ q ∈ p.log.taken, q ∈ p'.log.taken) : p'.SentTaken := by
  intro q d hq
  rw [he] at hq
  rcases List.mem_append.mp hq with hq | hq
  · exact absurd hq (hnew q d)
  · exact ht q (h q d hq)

/-- Every move sends what was taken. -/
theorem SentTaken.moves (h : p.SentTaken) (hs : p.Sorted) (hm : p.Moves m p') :
    p'.SentTaken := by
  cases hm with
  | sent flush front rest hpc hg =>
    intro q d hq
    rcases List.mem_cons.mp hq with hq | hq
    · obtain ⟨rfl, -⟩ := GameEvent.sent.inj hq
      refine hs.tracked.mem_taken ?_
      have hmem : q ∈ p.games.games := by rw [hg]; exact List.mem_cons_self
      rw [← List.take_append_drop p.games.replayQueued p.games.games] at hmem
      rcases List.mem_append.mp hmem with hmem | hmem
      · exact .inl (List.mem_append_right _ hmem)
      · exact .inr hmem
    · exact h q d hq
  | handshake ack request hpc =>
    refine h.quiet _ (noteDropped_events _ _) (by simp) fun q hq => ?_
    rw [GamePath.handshake]
    simpa [takeSourceGames] using .inl hq
  | took flush hpc => exact h.quiet [] rfl (by simp) fun q hq => List.mem_append_left _ hq
  | acked flush request front rest hpc hg => exact h.quiet [.acked front] rfl (by simp) fun _ => id
  | refused flush request front rest hpc hg =>
    exact h.quiet [.refused front] rfl (by simp) fun _ => id
  | dropped flush front rest hpc hg | droppedUnserved flush front rest hpc hg =>
    exact h.quiet [.dropped front] rfl (by simp) fun _ => id
  | declared now request hpc => exact h.quiet [.declared now] rfl (by simp) fun _ => id
  | ended hpc => exact h.quiet [.ended] rfl (by simp) fun _ => id
  | failed hpc => exact h.quiet [.ended] rfl (by simp) fun _ => id
  | posted | committed | evicted | connected | redeclared | left | leftUnserved | declaring
  | moved => exact h.quiet [] rfl (by simp) fun _ => id

end Worker.GamePath

namespace Program

open Codec Source

/-! ## The worker's view -/

/-- A batch is the entry it was committed as. -/
def IsEntry (e : Entry) (q : Worker.GamePost) : Prop :=
  q.serial = e.place ∧ q.epoch = e.post.epoch ∧ q.batch = e.post.batch

/-- What the worker sees of the source is all there is. -/
structure State.SeesAll (p : State) : Prop where
  inForce : p.seen.path.source.inForce ∈ p.trail.declares.getLast?
  queue : List.Forall₂ IsEntry p.run.queue.queue p.seen.path.source.queue
  committed : List.Forall₂ IsEntry p.run.committed p.seen.path.log.committed

/-- Nothing is kept from the worker. -/
theorem State.Sound.seesAll {p : State} (h : p.Sound) : p.SeesAll := by
  have hall : ∀ entries : List Entry, (∀ e ∈ entries, e ∈ p.run.committed) →
      List.Forall₂ IsEntry entries (entries.filterMap (gamePost p.identities)) := by
    intro entries hsub
    refine (forall₂_gamePost p.identities fun e he => (h.committed e (hsub e he)).1).imp ?_
    intro e q hq
    obtain ⟨hserial, hepoch, hbatch, -⟩ := gamePost_eq_some hq
    exact ⟨hserial, hepoch, hbatch⟩
  exact ⟨h.tagged.newest, hall _ fun e he => h.queue_sublist.subset he, hall _ fun e he => he⟩

/-- **The worker's results are about the program**: in every run, the worker with what it sees of
the source is a state of its own system, and it sees every batch.

**Proof sketch.** `refinement`, which asks nothing of the states here. -/
theorem refines_worker (platform : Platform) (cfg : Worker.Config) {p : State}
    (h : (system platform cfg).Reachable p) : (Worker.system cfg).Reachable p.seen ∧ p.SeesAll := by
  have hlasting : Lasting fun _ => True := fun _ _ _ _ _ _ => trivial
  obtain ⟨w, hw, -, rfl⟩ := (refinement platform cfg hlasting).reaches
    (h.mono fun _ _ _ => trivial) trivial
  exact ⟨hw, (sound h).seesAll⟩

/-- A table is declared, its script plays up to a score, and the worker sends the batch. -/
def playedRun : List Act :=
  [.host (.gameStart (some somePaths) {}), .declare (some someMachine) {},
    .script (.setGameStarted (.whole 0)),
    .script (.setScore (.whole 1) (.whole 1500) (.whole 0)), .script .commit,
    .worker (.connect (some [])), .worker (Worker.helloAckOf 1 Wire.capAuthoredTables),
    .worker .go, .worker .go, .worker .go, .worker (Worker.ackOf 2), .worker .go, .worker .go,
    .worker (Worker.ackOf 3), .worker .go]

/-- The worker's system runs to what the worker sees at the end. -/
theorem refines_worker_playedRun : ∃ p,
    Runs.runOf (step plainPlatform {}) (start plainPlatform {}) playedRun = some p ∧
      p.seen.path.log.committed.map (·.serial) = [0] ∧
      (Worker.system {}).Reachable p.seen ∧ p.SeesAll := by
  have hrun : (Runs.runOf (step plainPlatform {}) (start plainPlatform {}) playedRun).any (fun p =>
      decide (p.seen.path.log.committed.map (·.serial) = [0])) = true := by
    decide +kernel
  obtain ⟨p, hp, hcommitted⟩ := (Option.any_eq_true _ _).mp hrun
  exact ⟨p, hp, of_decide_eq_true hcommitted,
    refines_worker plainPlatform {} (Runs.reachable_of_runOf ⟨{}, rfl⟩ hp)⟩

/-! ## What is sent -/

/-- A batch that was sent: the daemon reads it as it is, and it is a committed batch. -/
structure State.SentCommitted (p : State) (q : Worker.GamePost) : Prop where
  decoded : Wire.GameBatch.decode q.batch.encode = some q.batch
  committed : ∃ e, p.run.committed[q.serial]? = some e ∧ e.post.epoch = q.epoch ∧
    e.post.batch.ops = q.batch.ops
  /-- A table of its epoch was declared as an authored one. -/
  declared : ∃ d ∈ p.trail.declares, d.epoch = q.epoch ∧
    d.declare.tableKind = Wire.tableAuthored

/-- A batch that can be committed is read as it is, whatever its id. -/
theorem decode_of_committable {batch : Wire.GameBatch}
    (h : Worker.committable batch.ops = true) :
    Wire.GameBatch.decode batch.encode = some batch := by
  obtain ⟨hvalid, hall⟩ := Bool.and_eq_true_iff.mp h
  have hops : ∀ op ∈ batch.ops, op.mode.length ≤ Worker.maxModeBytes ∧ op.carried = op := by
    simpa only [List.all_eq_true, Bool.and_eq_true, decide_eq_true_eq, beq_iff_eq] using hall
  have hcarried : batch.carried = batch := by
    rw [Wire.GameBatch.carried, List.map_congr_left fun op hop => (hops op hop).2, List.map_id']
  have hencoded := Wire.GameBatch.encode_ne_nil_of_short (v := batch) hvalid
    fun op hop => (hops op hop).1
  rw [Wire.GameBatch.coding.decode_encode hencoded, hcarried]

/-- **What is sent was called.** In every run, the ops of all committed batches, one batch after
another, are what some of the script's calls say, in the order of the calls and each once; and every
batch that is sent is read by its daemon as it is, is one of the committed batches and was committed
under a declared authored table of its epoch.

**Proof sketch.** An op is buffered behind the ops of the calls before it, a commit cuts what is
buffered without loss, and the worker sends only what it took of the queue. -/
theorem sent_calls (platform : Platform) (cfg : Worker.Config) {p : State}
    (h : (system platform cfg).Reachable p) :
    SaidBy p.called (p.run.committed.flatMap (·.post.batch.ops)) ∧
      ∀ q d, .sent q d ∈ p.worker.path.log.events → p.SentCommitted q := by
  have hsound := sound h
  have hlasting : Lasting fun _ => True := fun _ _ _ _ _ _ => trivial
  obtain ⟨w, hw, -, rfl⟩ := (refinement platform cfg hlasting).reaches
    (h.mono fun _ _ _ => trivial) trivial
  have hpath : Worker.GamePath.system.Reaches (fun _ _ => True) p.seen.path :=
    (Worker.simulation cfg fun _ _ => True).reaches (hw.mono fun _ _ _ _ _ => trivial)
  obtain ⟨-, -, -, -, hcommitted⟩ := Worker.GamePath.replayKey_invariant hpath
  have hkept : p.seen.path.Sorted ∧ p.seen.path.AtPlace ∧ p.seen.path.SentTaken := by
    refine hpath.invariant (I := fun p => p.Sorted ∧ p.AtPlace ∧ p.SentTaken) ?_ ?_
    · intro p hinit
      have hs := Worker.GamePath.sorted_init hinit
      obtain ⟨d, rfl⟩ := hinit
      exact ⟨hs, ⟨by simp, by simp⟩, by simp [Worker.GamePath.SentTaken]⟩
    · intro p m p' ⟨hs, hp, hst⟩ _ hm
      exact ⟨hs.moves hm, hp.moves hm, hst.moves hs hm⟩
  obtain ⟨-, hplace, hsent⟩ := hkept
  refine ⟨hsound.said.left, fun q d hq => ?_⟩
  have htaken : q ∈ p.seen.path.log.taken ++ p.seen.path.source.queue :=
    List.mem_append_left _ (hsent q d hq)
  obtain ⟨c, hc, hops⟩ := hcommitted q htaken
  obtain ⟨c', hc', hepoch⟩ := hplace.epoch q htaken
  obtain rfl : c = c' := Option.some.inj (hc.symm.trans hc')
  -- the batch the worker sees there is an entry
  have hall := hsound.seesAll.committed
  obtain ⟨hlt, hget⟩ := List.getElem?_eq_some_iff.mp hc
  have hlt' : q.serial < p.run.committed.length := by rw [hall.length_eq]; exact hlt
  obtain ⟨-, he, hb⟩ := hall.get hlt' hlt
  simp only [List.get_eq_getElem] at he hb
  rw [hget] at he hb
  have hmem : p.run.committed[q.serial] ∈ p.run.committed := List.getElem_mem hlt'
  obtain ⟨-, d', hd', hepoch', hkind⟩ := hsound.committed _ hmem
  refine ⟨decode_of_committable q.sound, ⟨p.run.committed[q.serial],
    List.getElem?_eq_getElem hlt', he.symm.trans hepoch, ?_⟩, d', hd', ?_, hkind⟩
  · rw [← hops, hb]
  · exact hepoch'.trans (he.symm.trans hepoch)

/-- The daemon gets the two calls. -/
theorem sent_calls_playedRun : ∃ p,
    Runs.runOf (step plainPlatform {}) (start plainPlatform {}) playedRun = some p ∧
      (Worker.everySent p.worker.path.log.events).map (·.batch.ops.length) = [2] ∧
      SaidBy p.called (p.run.committed.flatMap (·.post.batch.ops)) ∧
      ∀ q d, .sent q d ∈ p.worker.path.log.events → p.SentCommitted q := by
  have hrun : (Runs.runOf (step plainPlatform {}) (start plainPlatform {}) playedRun).any (fun p =>
      decide ((Worker.everySent p.worker.path.log.events).map (·.batch.ops.length) = [2])) =
        true := by
    decide +kernel
  obtain ⟨p, hp, hsent⟩ := (Option.any_eq_true _ _).mp hrun
  exact ⟨p, hp, of_decide_eq_true hsent,
    sent_calls plainPlatform {} (Runs.reachable_of_runOf ⟨{}, rfl⟩ hp)⟩

end Program
