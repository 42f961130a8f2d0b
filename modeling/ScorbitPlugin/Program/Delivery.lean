import ScorbitPlugin.Program.Calls

set_option relaxedAutoImplicit false
set_option autoImplicit false

/-!
# From the script's calls to the daemon

What a table's script calls and commits is what a daemon plays, whatever the worker's thread and its
connections do in between.

A daemon is held to one thing: it skips a batch whose id it has seen. What it plays is then the
game its ops make, from the last start, and none after an end.

## Main definitions

* `Program.opsInGame` — the ops of the game that is open after some ops.
* `Program.State.committedOps` — what the script called in an epoch and committed.
* `Program.daemonGame` — the game a daemon has open.
* `Program.Undisturbed` — one table, and a queue with room.

## Main results

* `Program.script_to_daemon` — the game the script has open is the daemon's.
-/

namespace Program

open Codec Source

/-! ## Games as ops -/

/-- The game after one more op: it begins with `GAME_START`, and is over with `GAME_END`. -/
def nextOps (game : List Wire.GameOp) (op : Wire.GameOp) : List Wire.GameOp :=
  if op.kind = Wire.gameStart then [op]
  else if op.kind = Wire.gameEnd ∨ game = [] then []
  else game ++ [op]

/-- The game that is open after the ops: from its start, and not ended. -/
def opsInGame (ops : List Wire.GameOp) : List Wire.GameOp := ops.foldl nextOps []

/-- The ops of some batches. -/
def opsIn (posts : List Worker.GamePost) : List Wire.GameOp := posts.flatMap (·.batch.ops)

/-- The ops of the batches, counted. -/
theorem length_opsIn (posts : List Worker.GamePost) :
    (opsIn posts).length = Worker.opsOf posts := by
  rw [opsIn, List.length_flatMap]
  rfl

/-- The same batches have the same ops. -/
theorem opsIn_same {posts posts' : List Worker.GamePost}
    (h : List.Forall₂ Worker.GamePost.Same posts posts') : opsIn posts = opsIn posts' := by
  induction h with
  | nil => rfl
  | cons hsame _ ih =>
    rw [opsIn, List.flatMap_cons, hsame.ops] at *
    exact congrArg _ ih

/-- Ops that neither start nor end a game join the one that is open. -/
theorem foldl_nextOps {ops : List Wire.GameOp} (game : List Wire.GameOp)
    (hops : ∀ op ∈ ops, op.kind ≠ Wire.gameStart ∧ op.kind ≠ Wire.gameEnd) :
    ops.foldl nextOps game = if game = [] then [] else game ++ ops := by
  induction ops generalizing game with
  | nil => by_cases h : game = [] <;> simp [h]
  | cons op ops ih =>
    obtain ⟨⟨hs, he⟩, hops⟩ := List.forall_mem_cons.mp hops
    rw [List.foldl_cons, ih _ hops]
    unfold nextOps
    by_cases h : game = []
    · simp [hs, h]
    · simp [hs, he, h]

/-- What the worker takes is a batch as a commit makes it. -/
theorem admissible_of_committable {ops : List Wire.GameOp} (h : Worker.committable ops = true) :
    Admissible ops := by
  obtain ⟨hvalid, -⟩ := Bool.and_eq_true_iff.mp h
  simp only [Wire.validGameBatch, Bool.and_eq_true, List.all_eq_true, decide_eq_true_eq] at hvalid
  obtain ⟨⟨hne, hlen⟩, hall⟩ := hvalid
  have hplace : ∀ {i op}, ops[i]? = some op →
      (op.kind = Wire.gameStart → i = 0) ∧ (op.kind = Wire.gameEnd → i = ops.length - 1) := by
    intro i op hget
    obtain ⟨⟨-, hstart⟩, hend⟩ := hall (op, i) (List.mem_zipIdx_iff_getElem?.mpr hget)
    exact ⟨fun hk => by simpa [hk] using hstart, fun hk => by simpa [hk] using hend⟩
  refine ⟨by simpa using hne, hlen, fun op hop hk => ?_, fun op hop hk => ?_⟩
  · obtain ⟨i, hi⟩ := List.mem_iff_getElem?.mp hop
    rw [List.getElem?_tail] at hi
    exact absurd ((hplace hi).1 hk) (by omega)
  · obtain ⟨i, hi⟩ := List.mem_iff_getElem?.mp hop
    rw [List.getElem?_dropLast] at hi
    split at hi
    · have := (hplace hi).2 hk
      omega
    · cases hi

/-- A batch makes of the game what its ops make of it.

**Proof sketch.** A batch has an operation, and a game starts in its first and ends in its last
only. So op by op the game is begun anew, gone on with, or closed, as `nextGame` has it at once. -/
theorem opsIn_nextGame (game : List Worker.GamePost) (post : Worker.GamePost) :
    opsIn (Worker.nextGame game post) = post.batch.ops.foldl nextOps (opsIn game) := by
  have hadmissible := admissible_of_committable post.sound
  have hnone : opsIn game = [] ↔ game = [] := by
    constructor
    · intro h
      by_contra hne
      obtain ⟨q, hq⟩ := List.exists_mem_of_ne_nil _ hne
      have hops := List.flatMap_eq_nil_iff.mp h q hq
      exact (admissible_of_committable q.sound).nonempty hops
    · rintro rfl
      rfl
  obtain ⟨first, rest, hops⟩ := List.exists_cons_of_ne_nil hadmissible.nonempty
  have hstarts : post.starts = true ↔ first.kind = Wire.gameStart := by
    simp [Worker.GamePost.starts, Wire.GameBatch.startsGame, hops]
  have hjoined : opsIn (Worker.joined game post) =
      if first.kind = Wire.gameStart then post.batch.ops
      else if game = [] then [] else opsIn game ++ post.batch.ops := by
    unfold Worker.joined
    simp only [hstarts]
    split_ifs <;> simp [opsIn]
  by_cases hends : post.ends = true
  · -- its last op ends the game
    have hlast : ∃ op ∈ post.batch.ops.getLast?, op.kind = Wire.gameEnd :=
      (endsGame_iff post.batch.ops).mp hends
    obtain ⟨op, hop, hkind⟩ := hlast
    obtain ⟨before, hsplit⟩ := List.getLast?_eq_some_iff.mp hop
    have hne : Wire.gameEnd ≠ Wire.gameStart := by decide
    rw [Worker.nextGame, if_pos hends, hsplit, List.foldl_append]
    simp [nextOps, hne, hkind, opsIn]
  · rw [Worker.nextGame, if_neg hends, hjoined]
    have hnoEnd : ∀ op ∈ post.batch.ops, op.kind ≠ Wire.gameEnd := by
      intro op hop hkind
      rw [← List.dropLast_concat_getLast hadmissible.nonempty, List.mem_append,
        List.mem_singleton] at hop
      rcases hop with hop | rfl
      · exact hadmissible.endLast op hop hkind
      · exact hends ((endsGame_iff post.batch.ops).mpr
          ⟨_, List.getLast?_eq_getLast_of_ne_nil hadmissible.nonempty, hkind⟩)
    have hrest : ∀ op ∈ rest, op.kind ≠ Wire.gameStart ∧ op.kind ≠ Wire.gameEnd := by
      intro op hop
      exact ⟨hadmissible.startFirst op (by rw [hops]; exact hop),
        hnoEnd op (by rw [hops]; exact List.mem_cons_of_mem _ hop)⟩
    have hfirst := hnoEnd first (by rw [hops]; exact List.mem_cons_self)
    rw [hops, List.foldl_cons, foldl_nextOps _ hrest]
    unfold nextOps
    by_cases hs : first.kind = Wire.gameStart
    · simp [hs]
    · by_cases hg : game = []
      · simp [hs, hg, opsIn]
      · have hg' : opsIn game ≠ [] := fun h => hg (hnone.mp h)
        simp [hs, hfirst, hg, hg']

/-- **The game that is open after some batches is the one their ops make.** -/
theorem opsIn_gameAfter (posts : List Worker.GamePost) :
    opsIn (Worker.gameAfter posts) = opsInGame (opsIn posts) := by
  induction posts using List.reverseRecOn with
  | nil => rfl
  | append_singleton posts post ih =>
    rw [Worker.gameAfter_concat, opsIn_nextGame, ih]
    simp [opsInGame, opsIn]

/-! ## The game that is open -/

/-- What is open is the end of the batches. -/
theorem gameAfter_suffix (posts : List Worker.GamePost) : Worker.gameAfter posts <:+ posts := by
  induction posts using List.reverseRecOn with
  | nil => exact List.suffix_rfl
  | append_singleton posts post ih =>
    rw [Worker.gameAfter_concat]
    unfold Worker.nextGame Worker.joined
    split_ifs
    · exact List.nil_suffix
    · exact List.suffix_append _ _
    · exact List.nil_suffix
    · obtain ⟨before, hsplit⟩ := ih
      refine ⟨before, ?_⟩
      rw [← List.append_assoc, hsplit]

/-- A game that is open is open after its own batches, whatever was open before.

**Proof sketch.** By induction on the batches, from the end. The last one is no end. If it starts
the game it is the game; if not, it joins an open one, for which the induction hypothesis holds. -/
theorem foldl_gameAfter {posts : List Worker.GamePost} (h : Worker.gameAfter posts ≠ [])
    (game : List Worker.GamePost) :
    (Worker.gameAfter posts).foldl Worker.nextGame game = Worker.gameAfter posts := by
  induction posts using List.reverseRecOn generalizing game with
  | nil => exact absurd rfl h
  | append_singleton posts post ih =>
    rw [Worker.gameAfter_concat] at h ⊢
    cases hends : post.ends with
    | true => simp [Worker.nextGame, hends] at h
    | false =>
      have hnext : ∀ game, Worker.nextGame game post = Worker.joined game post := fun game => by
        simp [Worker.nextGame, hends]
      rw [hnext] at h ⊢
      cases hstarts : post.starts with
      | true =>
        have hjoined : ∀ game, Worker.joined game post = [post] := fun game => if_pos hstarts
        rw [hjoined, List.foldl_cons, List.foldl_nil, hnext, hjoined]
      | false =>
        have hnone : Worker.gameAfter posts ≠ [] := by
          intro hnone
          simp [Worker.joined, hstarts, hnone] at h
        have hjoined : Worker.joined (Worker.gameAfter posts) post =
            Worker.gameAfter posts ++ [post] := by
          simp [Worker.joined, hstarts, hnone]
        rw [hjoined, List.foldl_append, ih hnone, List.foldl_cons, List.foldl_nil, hnext, hjoined]

/-- What is late is at the end of what is sorted.

**Proof sketch.** By induction on the list: if its first is late, then so are all behind it; else
the first belongs to what comes before. -/
theorem sorted_split {posts : List Worker.GamePost}
    (h : posts.Pairwise fun a b => a.serial < b.serial) (n : ℕ) :
    ∃ before, posts = before ++ posts.filter (n ≤ ·.serial) := by
  induction posts with
  | nil => exact ⟨[], rfl⟩
  | cons q posts ih =>
    obtain ⟨hq, h⟩ := List.pairwise_cons.mp h
    by_cases hle : n ≤ q.serial
    · refine ⟨[], ?_⟩
      rw [List.nil_append, List.filter_eq_self.mpr]
      intro r hr
      rcases List.mem_cons.mp hr with rfl | hr
      · simpa using hle
      · have := hq r hr
        simp only [decide_eq_true_eq]
        omega
    · obtain ⟨before, hsplit⟩ := ih h
      refine ⟨q :: before, ?_⟩
      rw [List.filter_cons_of_neg (by simpa using hle), List.cons_append, ← hsplit]

/-- A batch that was committed no later is of no later epoch. -/
theorem epoch_le_of_before {posts : List Worker.GamePost}
    (h : posts.Pairwise Worker.GamePost.Before) {a b : Worker.GamePost} (ha : a ∈ posts)
    (hb : b ∈ posts) (hle : a.serial ≤ b.serial) : a.epoch ≤ b.epoch := by
  obtain ⟨i, hi, rfl⟩ := List.mem_iff_getElem.mp ha
  obtain ⟨j, hj, rfl⟩ := List.mem_iff_getElem.mp hb
  rcases Nat.lt_trichotomy i j with hij | rfl | hij
  · exact (List.pairwise_iff_getElem.mp h i j hi hj hij).epoch
  · exact le_refl _
  · have := (List.pairwise_iff_getElem.mp h j i hj hi hij).serial
    omega

/-- A daemon with all batches of the open game has it open, whatever else it got before.

**Proof sketch.** What was applied, from the first batch of the open game on, is the game: serials
are sorted, and all later batches of the epoch are in it. What came before is closed or begun anew
by its start (`foldl_gameAfter`). -/
theorem gameAfter_applied {taken applied : List Worker.GamePost} {e : ℕ}
    (htaken : taken.Pairwise Worker.GamePost.Before) (hlast : ∀ q ∈ taken, q.epoch ≤ e)
    (happlied : applied.Pairwise fun a b => a.serial < b.serial) (hsub : ∀ q ∈ applied, q ∈ taken)
    (hopen : Worker.gameAfter (Worker.ofEpoch e taken) ≠ [])
    (hgame : ∀ q ∈ Worker.gameAfter (Worker.ofEpoch e taken), q ∈ applied) :
    Worker.gameAfter applied = Worker.gameAfter (Worker.ofEpoch e taken) := by
  obtain ⟨first, rest, hfirst⟩ := List.exists_cons_of_ne_nil hopen
  obtain ⟨before, hsplit⟩ := gameAfter_suffix (Worker.ofEpoch e taken)
  have hepoch : (Worker.ofEpoch e taken).Pairwise Worker.GamePost.Before :=
    htaken.sublist (Worker.ofEpoch_sublist e taken)
  have hsorted : (Worker.gameAfter (Worker.ofEpoch e taken)).Pairwise fun a b =>
      a.serial < b.serial :=
    (hepoch.sublist (gameAfter_suffix _).sublist).imp Worker.GamePost.Before.serial
  have hmem : first ∈ Worker.ofEpoch e taken :=
    (gameAfter_suffix _).subset (hfirst ▸ List.mem_cons_self)
  -- what was applied from its first batch on is the game
  have hfrom : applied.filter (first.serial ≤ ·.serial) =
      Worker.gameAfter (Worker.ofEpoch e taken) := by
    have hirrefl : Std.Irrefl fun a b : Worker.GamePost => a.serial < b.serial :=
      ⟨fun a => lt_irrefl a.serial⟩
    refine List.Pairwise.eq_of_mem_iff (happlied.filter _) hsorted fun q => ?_
    rw [List.mem_filter, decide_eq_true_eq]
    constructor
    · rintro ⟨hq, hle⟩
      have hq := hsub q hq
      -- no batch of an earlier epoch is as late
      obtain ⟨htakenFirst, hfe⟩ := Worker.mem_ofEpoch.mp hmem
      have hqe : q.epoch = e :=
        le_antisymm (hlast q hq) (hfe ▸ epoch_le_of_before htaken htakenFirst hq hle)
      have hqmem : q ∈ Worker.ofEpoch e taken := Worker.mem_ofEpoch.mpr ⟨hq, hqe⟩
      rw [← hsplit] at hqmem hepoch
      rcases List.mem_append.mp hqmem with hold | hnew
      · have := ((List.pairwise_append.mp hepoch).2.2 q hold first
          (hfirst ▸ List.mem_cons_self)).serial
        omega
      · exact hnew
    · intro hq
      refine ⟨hgame q hq, ?_⟩
      rw [hfirst] at hq hsorted
      rcases List.mem_cons.mp hq with rfl | hq
      · exact le_refl _
      · exact ((List.pairwise_cons.mp hsorted).1 q hq).le
  obtain ⟨earlier, heq⟩ := sorted_split happlied first.serial
  rw [heq, hfrom, Worker.gameAfter, List.foldl_append, foldl_gameAfter hopen]

/-! ## A queue with room -/

/-- A queue takes batches that fit, and drops nothing.

**Proof sketch.** With room for all there is room for each in turn, so no push makes room or drops,
by induction on the entries. -/
theorem push_of_room {maxOps : ℕ} {q : GameQueue} (hopen : q.refusing = false)
    {entries : List Entry}
    (hroom : q.ops + Source.opsOf entries ≤ maxOps) :
    (q.push maxOps entries).1.queue = q.queue ++ entries ∧
      (q.push maxOps entries).1.refusing = false := by
  have hone : ∀ (q : GameQueue) (dropped : Bool) (entry : Entry), q.refusing = false →
      q.ops + entry.opCount ≤ maxOps → GameQueue.pushOne maxOps (q, dropped) entry =
        ({ queue := q.queue ++ [entry], ops := q.ops + entry.opCount, refusing := false },
          dropped) := by
    intro q dropped entry hopen hroom
    have hmake : q.makeRoom maxOps entry.opCount entry.starts dropped = (q, dropped) := by
      rw [GameQueue.makeRoom, if_neg (Nat.not_lt.mpr hroom)]
    unfold GameQueue.pushOne
    simp only [hopen, Bool.false_and, Bool.false_eq_true, if_false, hmake]
    rw [if_neg (Nat.not_lt.mpr hroom)]
  have hall : ∀ (entries : List Entry) (q : GameQueue) (dropped : Bool), q.refusing = false →
      q.ops + Source.opsOf entries ≤ maxOps →
      (entries.foldl (GameQueue.pushOne maxOps) (q, dropped)).1.queue = q.queue ++ entries ∧
        (entries.foldl (GameQueue.pushOne maxOps) (q, dropped)).1.refusing = false := by
    intro entries
    induction entries with
    | nil => exact fun q dropped hopen _ => ⟨(List.append_nil _).symm, hopen⟩
    | cons entry entries ih =>
      intro q dropped hopen hroom
      have hsum : Source.opsOf (entry :: entries) = entry.opCount + Source.opsOf entries := rfl
      rw [List.foldl_cons, hone q dropped entry hopen (by omega)]
      obtain ⟨hqueue, hopen'⟩ := ih
        { queue := q.queue ++ [entry], ops := q.ops + entry.opCount, refusing := false } dropped rfl
        (by simp only; omega)
      exact ⟨by rw [hqueue, List.append_assoc]; rfl, hopen'⟩
  exact hall entries q false hopen hroom

/-- The batches of a commit have its ops. -/
theorem opsOf_commit (committed : List Entry) (epoch : ℕ) (ops : List Wire.GameOp) :
    Source.opsOf (entriesOf committed (commitPosts epoch ops)) = ops.length := by
  have hposts := post_entriesOf committed (commitPosts epoch ops)
  conv_rhs => rw [← flatMap_commitPosts epoch ops, ← hposts, List.flatMap_map]
  rw [List.length_flatMap]
  rfl

/-- Nothing that was committed is lost. -/
structure State.Whole (p : State) : Prop where
  all : p.run.handed ++ p.run.queue.queue = p.run.committed
  accepting : p.run.queue.refusing = false

/-- A commit finds room in the queue. -/
def Fits (platform : Platform) (p : State) : Act → Prop
  | .script c => c.commits = true →
    Source.opsOf p.run.queue.queue + (p.buffer platform c).trail.source.ops.length ≤
      Worker.maxQueuedGameOps
  | _ => True

section Whole

variable {platform : Platform} {cfg : Worker.Config} {p p' : State} {e : Event}

/-- An event keeps all batches, when what it commits finds room.

**Proof sketch.** By what the event hands over (`emits`). A commit's operations are those buffered,
so its entries fit behind the queue and nothing is dropped (`push_of_room`). -/
theorem State.Whole.api (h : p.Whole) (hs : p.Sound)
    (hroom : Source.opsOf p.run.queue.queue + p.trail.source.ops.length ≤ Worker.maxQueuedGameOps ∨
      (p.trail.step platform e).commits = p.trail.commits) : (p.api platform e).Whole := by
  rcases emits platform hs.tagged e with
    ⟨hd, hp, hc⟩ | ⟨d, hd, hp, hc, hle⟩ | ⟨calls, hd, hp, hready, hc, hi, -⟩
  · rw [api_of_quiet hd hc]
    exact ⟨h.all, h.accepting⟩
  · rw [api_of_declared hd hc]
    exact ⟨h.all, h.accepting⟩
  · have hroom : Source.opsOf p.run.queue.queue + p.trail.source.ops.length ≤
        Worker.maxQueuedGameOps := by
      refine hroom.resolve_right fun hsame => ?_
      rw [hc] at hsame
      simpa using congrArg List.length hsame
    obtain ⟨earlier, hrun⟩ := hs.calls
    have hcounted := counted Worker.maxQueuedGameOps earlier
    rw [← hrun] at hcounted
    have hfits : p.run.queue.ops + Source.opsOf (entriesOf p.run.committed
        (commitPosts p.trail.source.epoch p.trail.source.ops)) ≤ Worker.maxQueuedGameOps := by
      rw [hcounted.ops, opsOf_commit]
      exact hroom
    obtain ⟨hqueue, hopen⟩ := push_of_room h.accepting hfits
    rw [api_of_committed hd hc]
    refine ⟨?_, hopen⟩
    show p.run.handed ++ _ = _
    rw [Run.call, hqueue, ← List.append_assoc, h.all]

/-- Only a commit commits. -/
theorem commits_step (he : e ≠ .scriptCommit) :
    (p.trail.step platform e).commits = p.trail.commits := by
  cases e with
  | scriptCommit => exact absurd rfl he
  | declareMachine machineId seen =>
    rw [Trail.step]
    split <;> rfl
  | gameStart | gameEnd | setRomId | updateDeclare | scriptGameOp => rfl

/-- Buffering an op pushes nothing. -/
theorem State.run_buffer (c : ScriptCall) : (p.buffer platform c).run = p.run := by
  unfold State.buffer
  dsimp only
  split
  · rename_i op hop
    have hc : (p.trail.step platform (.scriptGameOp op)).commits = p.trail.commits := rfl
    have hd : (p.trail.step platform (.scriptGameOp op)).declares = p.trail.declares := rfl
    rw [api_of_quiet (p := { p with called := p.called ++ [c] }) hd hc]
  · rfl

/-- Buffering an op keeps all batches. -/
theorem State.Whole.buffer (h : p.Whole) (c : ScriptCall) : (p.buffer platform c).Whole := by
  have hrun : (p.buffer platform c).run = p.run := p.run_buffer c
  refine ⟨?_, ?_⟩ <;> rw [hrun]
  · exact h.all
  · exact h.accepting

/-- What the worker takes is handed to it. -/
theorem State.Whole.wrote (h : p.Whole) (w : Worker.State) : (p.wrote w).Whole := by
  unfold State.wrote
  split
  · refine ⟨?_, h.accepting⟩
    show p.run.handed ++ p.run.queue.queue ++ [] = _
    rw [List.append_nil]
    exact h.all
  · exact ⟨h.all, h.accepting⟩

/-- Every step keeps all batches, when what it commits finds room.

**Proof sketch.** By the step. Only the script's commit hands over batches, and it does so after its
operation was buffered; the worker takes the queue, or leaves it. -/
theorem State.Whole.step (h : p.Whole) (hs : p.Sound) {a : Act} (hfits : Fits platform p a)
    (hstep : Program.step platform cfg p a = some p') : p'.Whole := by
  cases a with
  | host e =>
    obtain rfl := Option.some.inj hstep
    exact h.api hs (.inr (commits_step (by cases e <;> simp [HostEvent.event])))
  | declare machineId seen =>
    obtain rfl := Option.some.inj hstep
    exact h.api hs (.inr (commits_step (by simp)))
  | script c =>
    obtain rfl := Option.some.inj hstep
    have hbuffered : (p.buffer platform c).Whole := h.buffer c
    have hrun : (p.buffer platform c).run = p.run := p.run_buffer c
    unfold State.script
    split
    · rename_i hcommits
      exact hbuffered.api (hs.buffer c) (.inl (by rw [hrun]; exact hfits hcommits))
    · exact hbuffered
  | requestTopScores scope period vpinFilter limit since =>
    simp only [Program.step] at hstep
    split at hstep
    · obtain ⟨w, hw, rfl⟩ := Option.map_eq_some_iff.mp hstep
      exact ⟨h.all, h.accepting⟩
    · obtain rfl := Option.some.inj hstep
      exact h
  | takeResults =>
    simp only [Program.step] at hstep
    obtain ⟨w, hw, rfl⟩ := Option.map_eq_some_iff.mp hstep
    exact ⟨h.all, h.accepting⟩
  | worker a =>
    obtain ⟨ha, hstep⟩ := Option.ite_none_right_eq_some.mp hstep
    obtain ⟨w, hw, rfl⟩ := Option.map_eq_some_iff.mp hstep
    exact h.wrote w

/-- With nothing lost, the worker has taken or sees every batch.

**Proof sketch.** The places taken and queued are all that were committed, and the worker's batches
carry these places as their serials. -/
theorem State.Whole.keepsAll (h : p.Whole) (hs : p.Sound) (t : Worker.DeclareSnapshot) :
    p.seen.path.KeepsAll t := by
  have hserials : (p.seen.path.log.taken ++ p.seen.path.source.queue).map (·.serial) =
      p.seen.path.log.committed.map (·.serial) := by
    have hqueue : p.seen.path.source.queue.map (·.serial) = p.run.queue.queue.map (·.place) :=
      map_serial_gamePost p.identities fun e he => (hs.committed e (hs.queue_sublist.subset he)).1
    have hcommitted : p.seen.path.log.committed.map (·.serial) = p.run.committed.map (·.place) :=
      map_serial_gamePost p.identities fun e he => (hs.committed e he).1
    rw [List.map_append, hqueue, hcommitted, ← h.all, List.map_append, ← hs.taken]
    rfl
  intro c hc _
  have hmem : c.serial ∈ (p.seen.path.log.taken ++ p.seen.path.source.queue).map (·.serial) := by
    rw [hserials]
    exact List.mem_map_of_mem hc
  exact List.mem_map.mp hmem

end Whole

/-! ## One table -/

/-- What the script called in an epoch and committed. -/
def State.committedOps (p : State) (e : ℕ) : List Wire.GameOp :=
  ((p.trail.commits.flatMap Prod.snd).filter (·.2 == e)).map Prod.fst

/-- The state of a program up to a table and as long as it stays: all that was declared leads to it
or is it, its daemon serves authored tables when it is declared, and no daemon refused a batch of
its epoch. -/
structure State.OneTable (t : Worker.DeclareSnapshot) (p : State) : Prop where
  declares : ∀ d ∈ p.trail.declares, d.UpToTable t
  serves : p.worker.path.link.haveDeclared = true →
    p.worker.path.link.declared.table = t.table → p.worker.path.link.authoredAllowed = true
  refused : ∀ q, .refused q ∈ p.worker.path.log.events → q.epoch ≠ t.epoch

variable {t : Worker.DeclareSnapshot} {p : State}

/-- The worker sees one table too: nothing was committed in its epoch before it was declared.

**Proof sketch.** The newest declaration is of the table or comes before it. A batch committed in
the table's epoch has a declaration that kept its identity, so the table was declared by then. -/
theorem State.OneTable.seen (h : p.OneTable t) (hs : p.Sound) : p.seen.path.OneTable t where
  inForce := by
    refine (h.declares _ (List.mem_of_getLast? hs.tagged.newest)).imp id fun hleads => ?_
    refine ⟨hleads, fun q hq => ?_⟩
    obtain ⟨e, he, hsome⟩ := List.mem_filterMap.mp hq
    obtain ⟨-, hepoch, -⟩ := gamePost_eq_some hsome
    obtain ⟨-, d, hd, hde, hkind⟩ := hs.committed e he
    have hkept := hs.tagged.kept_last hd
    have hle := hkept.epoch
    have hid := hkept.identity
    rcases h.declares d hd with hsame | hlt | ⟨-, -, hnot⟩
    · -- it is declared already
      have hdt := Worker.DeclareSnapshot.epoch_of_table hsame
      have hit := Worker.DeclareSnapshot.identity_of_table hsame
      rcases hleads with hlt | ⟨heq, hlt, -⟩ <;> omega
    · omega
    · exact absurd hkind hnot
  serves := h.serves
  refused := h.refused

/-- One table is a condition that lasts. -/
theorem lasting_oneTable (t : Worker.DeclareSnapshot) : Lasting fun w => w.path.OneTable t := by
  intro w queue committed more queue' h
  refine ⟨h.inForce.imp id fun ⟨hleads, hnone⟩ => ⟨hleads, fun q hq => ?_⟩, h.serves, h.refused⟩
  exact hnone q (List.mem_append_left _ hq)

/-- What was committed in an epoch is what the batches of the epoch are.

**Proof sketch.** Each commit is of one epoch and its batches are its operations, cut. By induction
on the commits, those of the epoch put their operations after each other on both sides. -/
theorem committedOps_eq (hs : p.Sound) (hc : Called p.trail) (e : ℕ) :
    p.committedOps e = opsIn (Worker.ofEpoch e p.seen.path.log.committed) := by
  have hone : ∀ posts calls, (posts, calls) ∈ p.trail.commits →
      (calls.filter (·.2 == e)).map Prod.fst =
        (posts.filter (·.epoch == e)).flatMap (·.batch.ops) := by
    intro posts calls hmem
    obtain ⟨hops, hepochs⟩ := hc.committed posts calls hmem
    cases posts with
    | nil =>
      have hnil : calls = [] := by simpa using hops.symm
      simp [hnil]
    | cons post rest =>
      cases calls with
      | nil =>
        have hnone := List.flatMap_eq_nil_iff.mp hops post List.mem_cons_self
        exact absurd hnone post.nonempty
      | cons call calls =>
        -- all of them are of one epoch
        have hposts : ∀ post' ∈ post :: rest, post'.epoch = call.2 := fun post' hpost' =>
          (hepochs post' hpost' call List.mem_cons_self).symm
        have hcalls : ∀ call' ∈ call :: calls, call'.2 = call.2 := fun call' hcall' =>
          (hepochs post List.mem_cons_self call' hcall').trans (hposts post List.mem_cons_self)
        by_cases he : call.2 = e
        · rw [List.filter_eq_self.mpr fun c hc => by simp [hcalls c hc, he],
            List.filter_eq_self.mpr fun q hq => by simp [hposts q hq, he]]
          exact hops.symm
        · rw [List.filter_eq_nil_iff.mpr fun c hc => by simp [hcalls c hc, he],
            List.filter_eq_nil_iff.mpr fun q hq => by simp [hposts q hq, he]]
          rfl
  have hall : ∀ commits : List (List Post × List (Wire.GameOp × ℕ)),
      (∀ commit ∈ commits, commit ∈ p.trail.commits) →
      ((commits.flatMap Prod.snd).filter (·.2 == e)).map Prod.fst =
        ((commits.flatMap Prod.fst).filter (·.epoch == e)).flatMap (·.batch.ops) := by
    intro commits
    induction commits with
    | nil => exact fun _ => rfl
    | cons commit commits ih =>
      intro hsub
      obtain ⟨hcommit, hsub⟩ := List.forall_mem_cons.mp hsub
      rw [List.flatMap_cons, List.flatMap_cons, List.filter_append, List.filter_append,
        List.map_append, List.flatMap_append, ih hsub, hone commit.1 commit.2 hcommit]
  have hview : opsIn (Worker.ofEpoch e p.seen.path.log.committed) =
      ((p.run.committed.map (·.post)).filter (·.epoch == e)).flatMap (·.batch.ops) := by
    have hentries := hs.seesAll.committed
    generalize p.seen.path.log.committed = posts at hentries ⊢
    generalize p.run.committed = entries at hentries ⊢
    induction hentries with
    | nil => rfl
    | cons hentry _ ih =>
      obtain ⟨-, hepoch, hbatch⟩ := hentry
      rw [Worker.ofEpoch] at ih ⊢
      rw [List.map_cons, List.filter_cons, List.filter_cons, hepoch]
      split
      · rw [List.flatMap_cons, ← ih, ← hbatch]
        rfl
      · exact ih
  rw [State.committedOps, hall p.trail.commits fun _ h => h, hview, hs.posts]

/-! ## What the daemon has open -/

/-- The program goes on with one table: a commit finds room, and no table starts while ops are
buffered. -/
structure Undisturbed (platform : Platform) (t : Worker.DeclareSnapshot) (p : State) (a : Act) :
    Prop where
  oneTable : p.OneTable t
  room : Fits platform p a
  fresh : ∀ e, a = .host e → FreshStart p.trail e.event

/-- The calls are kept.

**Proof sketch.** By the step. Events of the API thread and of the script are `Called.step`, the
latter after the operation was buffered; the worker's steps leave the trail. -/
theorem called_step {platform : Platform} {cfg : Worker.Config} {p' : State} {a : Act}
    (h : Called p.trail) (hfresh : ∀ e, a = .host e → FreshStart p.trail e.event)
    (hs : step platform cfg p a = some p') : Called p'.trail := by
  cases a with
  | host e =>
    obtain rfl := Option.some.inj hs
    exact h.step (hfresh e rfl)
  | declare machineId seen =>
    obtain rfl := Option.some.inj hs
    exact h.step (e := .declareMachine _ seen) trivial
  | script c =>
    obtain rfl := Option.some.inj hs
    have hbuffered : Called (p.buffer platform c).trail := by
      unfold State.buffer
      dsimp only
      split
      · rename_i op hop
        have hstep : Called (p.trail.step platform (.scriptGameOp op)) := h.step trivial
        exact hstep
      · exact h
    unfold State.script
    split
    · have hstep : Called ((p.buffer platform c).trail.step platform .scriptCommit) :=
        hbuffered.step trivial
      exact hstep
    · exact hbuffered
  | requestTopScores scope period vpinFilter limit since =>
    simp only [step] at hs
    split at hs
    · obtain ⟨w, hw, rfl⟩ := Option.map_eq_some_iff.mp hs
      exact h
    · obtain rfl := Option.some.inj hs
      exact h
  | takeResults =>
    simp only [step] at hs
    obtain ⟨w, hw, rfl⟩ := Option.map_eq_some_iff.mp hs
    exact h
  | worker a =>
    obtain ⟨ha, hs⟩ := Option.ite_none_right_eq_some.mp hs
    obtain ⟨w, hw, rfl⟩ := Option.map_eq_some_iff.mp hs
    exact h

/-- What a run with one table keeps. -/
theorem kept_undisturbed {platform : Platform} {cfg : Worker.Config}
    (h : (system platform cfg).Reaches (Undisturbed platform t) p) :
    p.Whole ∧ Called p.trail := by
  refine h.along.invariant (I := fun p => p.Whole ∧ Called p.trail) ?_ ?_
  · rintro p ⟨seen, rfl⟩
    refine ⟨⟨rfl, rfl⟩, ?_, ?_, ?_⟩
    · exact (VpxSessionSource.ops_updateDeclare platform {} seen).symm
    · exact fun call hcall => absurd hcall List.not_mem_nil
    · exact fun posts calls hmem => absurd hmem List.not_mem_nil
  · intro p a p' ⟨hwhole, hcalled⟩ ⟨hreach, hok⟩ hs
    exact ⟨hwhole.step (sound hreach) hok.room hs, called_step hcalled hok.fresh hs⟩

/-- The game a daemon has open, which skips the batches whose id it has seen. -/
def daemonGame (got : List Worker.GamePost) : List Wire.GameOp :=
  opsInGame (opsIn (Worker.appliedOnce got).reverse)

/-- **The game the script has open is the daemon's.** In every run of the program up to an authored
table and as long as it stays, whose daemons serve it as one and refuse no batch of its epoch, in
which every commit finds room in the queue, no table starts while ops are buffered and fewer than
`2^32` batches were taken: once nothing is left to send, a daemon that skips the ids it has seen,
and is the peer of the session, has open exactly the game that the script called and committed since
its last `GAME_START`, if one is open and fits the queue.

**Proof sketch.** With room in the queue the worker takes every batch, and what it sees of the
source is a run of its own system; so the daemon has what is open of the batches of the epoch, at
the end of what it applied. These batches are the ops of the calls, cut. -/
theorem script_to_daemon (platform : Platform) (cfg : Worker.Config) (t : Worker.DeclareSnapshot)
    (htable : t.declare.tableKind = Wire.tableAuthored) {p : State}
    (h : (system platform cfg).Reaches (Undisturbed platform t) p) (hone : p.OneTable t)
    (hlen : p.worker.path.log.taken.length < 2 ^ 32) (hleft : p.seen.path.NothingLeft)
    {got : List Worker.GamePost} (hgot : Worker.Reached p.worker.path.log.events true got)
    (hopen : opsInGame (p.committedOps t.epoch) ≠ [])
    (hfits : (opsInGame (p.committedOps t.epoch)).length ≤ Worker.maxQueuedGameOps) :
    daemonGame got = opsInGame (p.committedOps t.epoch) := by
  have hsound := sound h.reachable
  obtain ⟨hwhole, hcalled⟩ := kept_undisturbed h
  obtain ⟨w, hw, -, rfl⟩ := (refinement platform cfg (lasting_oneTable t)).reaches
    (h.along.mono fun s a ⟨hreach, hok⟩ => hok.oneTable.seen (sound hreach)) (hone.seen hsound)
  have hpath : Worker.GamePath.system.Reaches (fun p _ => p.OneTable t) p.seen.path :=
    (Worker.simulation cfg fun p _ => p.OneTable t).reaches (hw.mono fun _ _ hone _ _ => hone)
  have hkept := Worker.GamePath.delivering htable hpath (hone.seen hsound)
  -- the worker took the batches of the epoch, so their game is the one of the calls
  have hsame := Worker.gameAfter_same (Worker.GamePath.taken_same hkept.sorted.ordered
    hkept.asCommitted hkept.atPlace (hwhole.keepsAll hsound t) hleft.queue)
  have hops : opsIn (Worker.gameAfter (Worker.ofEpoch t.epoch p.seen.path.log.taken)) =
      opsInGame (p.committedOps t.epoch) := by
    rw [committedOps_eq hsound hcalled, ← opsIn_gameAfter]
    exact opsIn_same hsame
  have hgameFits : Worker.opsOf (Worker.gameAfter (Worker.ofEpoch t.epoch p.seen.path.log.taken)) ≤
      Worker.maxQueuedGameOps := by
    rw [← length_opsIn, hops]
    exact hfits
  have hnonempty : Worker.gameAfter (Worker.ofEpoch t.epoch p.seen.path.log.taken) ≠ [] := by
    intro hnil
    rw [hnil] at hops
    exact hopen hops.symm
  have hgame := hkept.openGame hleft hgot hgameFits
  obtain ⟨happlied, hmem⟩ := Worker.appliedOnce_spec (hkept.recalls.known hgot)
    (hkept.same_id hlen hgot)
  have hbound : ∀ q ∈ p.seen.path.log.taken, q.epoch ≤ t.epoch := fun q hq =>
    ((hkept.sorted.ordered.bound q (List.mem_append_left _ hq)).2.1).trans
      (hone.seen hsound).upToTable.epoch_le
  have heq := gameAfter_applied hkept.sorted.ordered.taken hbound
    (List.pairwise_reverse.mpr happlied)
    (fun q hq => hkept.recalls.taken hgot q ((hmem q).mp (List.mem_reverse.mp hq))) hnonempty
    (fun q hq => List.mem_reverse.mpr ((hmem q).mpr (hgame q hq)))
  rw [daemonGame, ← opsIn_gameAfter, heq, hops]

/-- The table that `someMachine` is declared as. -/
def someTable : Worker.DeclareSnapshot :=
  { declare :=
      { tableKind := Wire.tableAuthored, machineUuid := (canonicalMachineId someMachine).getD [] }
    epoch := 1, identity := 1 }

/-- A game begins, and the connection ends; the script scores while it is gone, and another session
replays the game. -/
def cutRun : List Act :=
  [.host (.gameStart (some somePaths) {}), .declare (some someMachine) {},
    .worker (.connect (some [])), .worker (Worker.helloAckOf 1 Wire.capAuthoredTables),
    .worker .go, .worker .go, .worker .go, .worker (Worker.ackOf 2),
    .script (.setGameStarted (.whole 0)), .script .commit,
    .worker .go, .worker .go, .worker (Worker.ackOf 3), .worker .go, .worker .go, .worker .go,
    .worker .cut,
    .script (.setScore (.whole 1) (.whole 1500) (.whole 0)), .script .commit,
    .worker (.connect (some [])), .worker (Worker.helloAckOf 1 Wire.capAuthoredTables),
    .worker .go, .worker .go, .worker .go, .worker (Worker.ackOf 2), .worker .go, .worker .go,
    .worker (Worker.ackOf 3), .worker .go, .worker (Worker.ackOf 4), .worker .go]

instance (d t : Worker.DeclareSnapshot) : Decidable (d.UpToTable t) :=
  inferInstanceAs (Decidable (_ ∨ _))

instance (platform : Platform) (p : State) : (a : Act) → Decidable (Fits platform p a)
  | .script _ => inferInstanceAs (Decidable (_ → _))
  | .host _ | .declare _ _ | .requestTopScores .. | .takeResults | .worker _ => .isTrue trivial

/-- A state of the run, and what is done in it. -/
def keepsOneTable (platform : Platform) (t : Worker.DeclareSnapshot) (p : State) (a : Act) :
    Bool :=
  decide (∀ d ∈ p.trail.declares, d.UpToTable t)
    && decide (p.worker.path.link.haveDeclared = true →
      p.worker.path.link.declared.table = t.table → p.worker.path.link.authoredAllowed = true)
    && (p.worker.path.log.events.all fun
      | .refused q => q.epoch != t.epoch
      | _ => true)
    && decide (Fits platform p a)
    && match a with
      | .host e => decide (FreshStart p.trail e.event)
      | _ => true

/-- The check of a step implies the condition. -/
theorem undisturbed_of_keepsOneTable {platform : Platform} {t : Worker.DeclareSnapshot} {p : State}
    {a : Act} (h : keepsOneTable platform t p a = true) : Undisturbed platform t p a := by
  simp only [keepsOneTable, Bool.and_eq_true, decide_eq_true_eq, List.all_eq_true] at h
  obtain ⟨⟨⟨⟨hdeclares, hserves⟩, hrefused⟩, hfits⟩, hfresh⟩ := h
  refine ⟨⟨hdeclares, hserves, fun q hq => by simpa using hrefused _ hq⟩, hfits, ?_⟩
  rintro e rfl
  exact of_decide_eq_true hfresh

/-- The daemon of both sessions gets the start twice, and has the game of the two calls open. -/
theorem script_to_daemon_cutRun : ∃ p,
    Runs.runOf (step plainPlatform {}) (start plainPlatform {}) cutRun = some p ∧
      (Worker.everySent p.worker.path.log.events).map (·.batch.batchId) = [2, 1, 1] ∧
      (p.committedOps 1).map (·.kind) = [Wire.gameStart, Wire.gameScore] ∧
      daemonGame (Worker.everySent p.worker.path.log.events) = opsInGame (p.committedOps 1) := by
  have hrun : (Runs.runOf (step plainPlatform {}) (start plainPlatform {}) cutRun).any (fun p =>
      decide ((Worker.everySent p.worker.path.log.events).map (·.batch.batchId) = [2, 1, 1] ∧
        (p.committedOps 1).map (·.kind) = [Wire.gameStart, Wire.gameScore] ∧
        Worker.acksSent p.worker.path.log.events = true ∧
        keepsOneTable plainPlatform someTable p .takeResults = true ∧
        p.worker.path.log.taken.length < 2 ^ 32 ∧
        opsInGame (p.committedOps 1) ≠ [] ∧
        (opsInGame (p.committedOps 1)).length ≤ Worker.maxQueuedGameOps ∧
        (p.worker.path.pc ≠ .offline ∧ p.worker.path.link.haveDeclared = true ∧
          p.worker.path.games.replayPending = false ∧ p.worker.path.games.games = [] ∧
          p.seen.path.source.queue = []))
      && Runs.holdsAlong (step plainPlatform {}) (keepsOneTable plainPlatform someTable)
        (start plainPlatform {}) cutRun) = true := by
    decide +kernel
  obtain ⟨p, hp, hchecks⟩ := (Option.any_eq_true _ _).mp hrun
  obtain ⟨hchecks, halong⟩ := Bool.and_eq_true_iff.mp hchecks
  obtain ⟨hids, hkinds, hacks, hkeeps, hlen, hopen, hfits, hpc, hdeclared, hreplay, hgames,
    hqueue⟩ := of_decide_eq_true hchecks
  have hreach : (system plainPlatform {}).Reaches (Undisturbed plainPlatform someTable) p :=
    Runs.System.Reaches.runOf (fun _ _ => undisturbed_of_keepsOneTable) cutRun
      (.init ⟨{}, rfl⟩) halong hp
  exact ⟨p, hp, hids, hkinds, script_to_daemon plainPlatform {} someTable rfl hreach
    (undisturbed_of_keepsOneTable hkeeps).oneTable hlen
    ⟨hpc, hdeclared, hreplay, hgames, hqueue⟩ (Worker.reached_everySent hacks) hopen hfits⟩

end Program
