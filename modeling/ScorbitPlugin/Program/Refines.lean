import ScorbitPlugin.Program.System

set_option relaxedAutoImplicit false
set_option autoImplicit false

/-!
# The program refines the worker's system

The worker's results are about a source that posts what it likes, commits one batch at a time and
loses batches anywhere. The session source does less: what it posts is tagged in order, a commit is
cut into batches the worker's source could commit, and the queue loses games from its front, or what
does not fit.

## Main definitions

* `Program.Emits` — what an event of the session source hands over.
* `Program.State.Sound` — what holds in every state.

## Main results

* `Program.refinement` — every step of the program is some steps of the worker's system.
* `Program.sound` — the invariant holds in every run.
-/

namespace Program

open Codec Source

/-! ## What the session source hands over -/

/-- What an event hands over: nothing, a declaration, or the batches of a commit. -/
inductive Emits (t t' : Trail) : Prop
  | quiet (hd : t'.declares = t.declares) (hp : t'.source.posted = t.source.posted)
      (hc : t'.commits = t.commits)
  | declared (d : Worker.DeclareSnapshot) (hd : t'.declares = t.declares ++ [d])
      (hp : t'.source.posted = d) (hc : t'.commits = t.commits) (hle : t.source.posted.upTo d)
  | committed (calls : List (Wire.GameOp × ℕ)) (hd : t'.declares = t.declares)
      (hp : t'.source.posted = t.source.posted) (hready : t.source.authoredReady = true)
      (hc : t'.commits = t.commits ++ [(commitPosts t.source.epoch t.source.ops, calls)])
      (hi : t'.source.identity = t.source.identity) (ho : t'.source.ops = [])

section Events

variable {platform : Platform} {t : Trail}

/-- `UpdateDeclare` posts what changed. -/
theorem emits_update (h : Tagged t) {s : VpxSessionSource} (hs : Comes t.source s) (seen : Seen) :
    Emits t (t.update platform s seen) := by
  cases hposts : s.posts platform seen with
  | false =>
    have hsilent : (s.havePosted && s.snapshot platform seen == s.posted) = true :=
      (Bool.not_eq_false' _).mp hposts
    refine .quiet (by simp [Trail.update, hposts]) ?_ rfl
    show (s.updateDeclare platform seen).posted = _
    unfold VpxSessionSource.updateDeclare
    rw [if_pos hsilent]
    exact hs.posted
  | true =>
    have hchanged : (s.havePosted && s.snapshot platform seen == s.posted) = false :=
      (Bool.not_eq_true' _).mp hposts
    have hkept : TagsKept t.source.posted (s.snapshot platform seen) := h.kept_snapshot hs
    refine .declared (s.snapshot platform seen) (by simp [Trail.update, hposts]) ?_ rfl
      ⟨hkept.epoch, hkept.identity⟩
    show (s.updateDeclare platform seen).posted = _
    unfold VpxSessionSource.updateDeclare
    rw [if_neg (ne_true_of_eq_false hchanged)]

/-- Every event hands over at most one thing.

**Proof sketch.** By the event. The host's and the script's calls change the source and call
`UpdateDeclare`, which posts a declaration or nothing (`emits_update`); an operation that commits
hands over a batch and nothing else. -/
theorem emits (platform : Platform) (h : Tagged t) (e : Event) :
    Emits t (t.step platform e) := by
  cases e with
  | gameStart info seen => exact emits_update h (comes_onGameStart platform t.source info) seen
  | gameEnd seen =>
    have hs : Comes t.source t.source.onGameEnd := ⟨rfl, rfl, rfl, Nat.le_succ _⟩
    exact emits_update h hs seen
  | setRomId romId seen =>
    have hs : Comes t.source (t.source.setRomId romId) := ⟨rfl, rfl, rfl, le_refl _⟩
    exact emits_update h hs seen
  | declareMachine machineId seen =>
    rw [Trail.step]
    cases hdeclare : t.source.declareMachine machineId with
    | none => exact .quiet rfl rfl rfl
    | some s => exact emits_update h (comes_declareMachine hdeclare) seen
  | updateDeclare seen => exact emits_update h ⟨rfl, rfl, rfl, le_refl _⟩ seen
  | scriptGameOp op =>
    refine .quiet rfl ?_ rfl
    show (t.source.scriptGameOp op).posted = _
    unfold VpxSessionSource.scriptGameOp
    split <;> rfl
  | scriptCommit =>
    rw [Trail.step]
    unfold VpxSessionSource.scriptCommit
    by_cases hops : t.source.ops = []
    · rw [if_pos hops]
      exact .quiet rfl rfl (by simp)
    · rw [if_neg hops]
      cases hready : t.source.authoredReady with
      | false => exact .quiet rfl rfl (by simp)
      | true => exact .committed t.calls rfl rfl hready (by simp) rfl rfl

/-- An event keeps the buffered ops, drops them, or adds the one that was called.

**Proof sketch.** By the event. A game's end and a commit clear the buffer, a script's operation is
added to it, and all else leaves it (`VpxSessionSource.ops_updateDeclare`). -/
theorem ops_step (platform : Platform) (t : Trail) (e : Event) :
    (t.step platform e).source.ops = t.source.ops ∨ (t.step platform e).source.ops = [] ∨
      ∃ op, e = .scriptGameOp op ∧ (t.step platform e).source.ops = t.source.ops ++ [op] := by
  cases e with
  | gameStart info seen =>
    left
    simp only [Trail.step, Trail.update, VpxSessionSource.ops_updateDeclare]
    cases info <;> rfl
  | gameEnd seen =>
    right; left
    simp only [Trail.step, Trail.update, VpxSessionSource.ops_updateDeclare]
    rfl
  | setRomId romId seen =>
    left
    simp only [Trail.step, Trail.update, VpxSessionSource.ops_updateDeclare]
    rfl
  | updateDeclare seen =>
    left
    simp only [Trail.step, Trail.update, VpxSessionSource.ops_updateDeclare]
  | declareMachine machineId seen =>
    rw [Trail.step]
    cases hdeclare : t.source.declareMachine machineId with
    | none => exact .inl rfl
    | some s =>
      simp only [Trail.update, VpxSessionSource.ops_updateDeclare]
      unfold VpxSessionSource.declareMachine at hdeclare
      split at hdeclare
      · cases hdeclare
      · split at hdeclare
        · cases hdeclare
        · split at hdeclare
          · obtain rfl := Option.some.inj hdeclare
            exact .inl rfl
          · obtain rfl := Option.some.inj hdeclare
            exact .inr (.inl rfl)
  | scriptGameOp op =>
    simp only [Trail.step, VpxSessionSource.scriptGameOp]
    split
    · exact .inr (.inr ⟨op, rfl, rfl⟩)
    · exact .inl rfl
  | scriptCommit =>
    simp only [Trail.step, VpxSessionSource.scriptCommit]
    split
    · exact .inl rfl
    · split <;> exact .inr (.inl rfl)

/-- The last declaration is of an authored table while the source has one. -/
def Current (t : Trail) : Prop :=
  t.source.authoredReady = true → t.source.posted.declare.tableKind = Wire.tableAuthored

/-- `UpdateDeclare` declares what the source has.

**Proof sketch.** Either the source is silent, and what was posted is of the same table, or it
declares what it has, which is authored where the source is ready. -/
theorem current_update (s : VpxSessionSource) (seen : Seen) :
    Current (t.update platform s seen) := by
  have hdeclaration : ∀ s' : VpxSessionSource, s'.authoredReady = true →
      (s'.declaration platform seen).tableKind = Wire.tableAuthored := by
    intro s' hready
    unfold VpxSessionSource.declaration
    rw [if_pos hready]
  intro hready
  have hready : (s.updateDeclare platform seen).authoredReady = true := hready
  show (s.updateDeclare platform seen).posted.declare.tableKind = _
  unfold VpxSessionSource.updateDeclare at hready ⊢
  dsimp only at hready ⊢
  split at hready
  · rename_i hsilent
    rw [if_pos hsilent]
    obtain ⟨-, hsame⟩ := Bool.and_eq_true_iff.mp hsilent
    show s.posted.declare.tableKind = _
    rw [← beq_iff_eq.mp hsame]
    exact hdeclaration s hready
  · rename_i hchanged
    rw [if_neg hchanged]
    exact hdeclaration s hready

/-- Every event keeps the declaration current.

**Proof sketch.** By the event: those that end in `UpdateDeclare` post what is due. An op or a
commit changes no declaration. -/
theorem Current.step (h : Current t) (e : Event) : Current (t.step platform e) := by
  cases e with
  | gameStart info seen | gameEnd seen | setRomId romId seen | updateDeclare seen =>
    exact current_update _ seen
  | declareMachine machineId seen =>
    rw [Trail.step]
    cases t.source.declareMachine machineId with
    | none => exact h
    | some s => exact current_update s seen
  | scriptGameOp op =>
    show VpxSessionSource.authoredReady (t.source.scriptGameOp op) = true → _
    simp only [Trail.step, VpxSessionSource.scriptGameOp]
    split <;> exact h
  | scriptCommit =>
    show VpxSessionSource.authoredReady t.source.scriptCommit.2 = true → _
    simp only [Trail.step, VpxSessionSource.scriptCommit]
    split
    · exact h
    · split <;> exact h

end Events

/-! ## The queue's batches -/

/-- A pushed batch is queued behind what is left of the queue, or not at all.

**Proof sketch.** Making room only takes entries away, and a push adds its entry behind them or
loses it. By induction on the entries this holds of a whole commit. -/
theorem sublist_push (maxOps : ℕ) (q : GameQueue) (entries : List Entry) :
    (q.push maxOps entries).1.queue.Sublist (q.queue ++ entries) := by
  have hone : ∀ (state : GameQueue × Bool) (entry : Entry),
      (GameQueue.pushOne maxOps state entry).1.queue.Sublist (state.1.queue ++ [entry]) := by
    intro state entry
    obtain ⟨oldest, hleft⟩ := GameQueue.leftOf_makeRoom maxOps entry.opCount entry.starts state.1
      state.2
    have hroom : (state.1.makeRoom maxOps entry.opCount entry.starts state.2).1.queue.Sublist
        state.1.queue := by
      rw [hleft.queue]
      exact List.sublist_append_right _ _
    unfold GameQueue.pushOne
    split
    · exact List.sublist_append_left _ _
    · dsimp only
      split
      · exact hroom.trans (List.sublist_append_left _ _)
      · exact hroom.append_right _
  have hall : ∀ (entries : List Entry) (state : GameQueue × Bool),
      (entries.foldl (GameQueue.pushOne maxOps) state).1.queue.Sublist
        (state.1.queue ++ entries) := by
    intro entries
    induction entries with
    | nil => intro state; simp
    | cons entry entries ih =>
      intro state
      refine (ih _).trans ?_
      rw [List.append_cons]
      exact (hone state entry).append_right entries
  exact hall entries (q, false)

/-- Batches are committed at the places they carry.

**Proof sketch.** By induction on the posts: the first gets the number of those committed before it,
and each further one the next. -/
theorem place_entriesOf {committed : List Entry} {posts : List Post} {i : ℕ} {e : Entry}
    (h : (entriesOf committed posts)[i]? = some e) : e.place = committed.length + i := by
  induction posts generalizing committed i with
  | nil => simp [entriesOf] at h
  | cons post posts ih =>
    rw [entriesOf] at h
    cases i with
    | zero =>
      obtain rfl : entryOf committed post = e := by simpa using h
      rfl
    | succ i =>
      have hplace := ih (by simpa using h)
      rw [List.length_append, List.length_singleton] at hplace
      omega

/-- The committed batches are the posts. -/
theorem post_entriesOf (committed : List Entry) (posts : List Post) :
    (entriesOf committed posts).map (·.post) = posts := by
  induction posts generalizing committed with
  | nil => rfl
  | cons post posts ih =>
    rw [entriesOf, List.map_cons, ih]
    rfl

/-- Calls are made one after another. -/
theorem runCalls_concat (maxOps : ℕ) (calls : List Call) (call : Call) :
    runCalls maxOps (calls ++ [call]) = (runCalls maxOps calls).call maxOps call := by
  simp [runCalls]

/-- Pushing nothing is no call. -/
theorem call_push_nil (maxOps : ℕ) (r : Run) : r.call maxOps (.push []) = r := by
  simp [Run.call, entriesOf, GameQueue.push]

/-- A batch that the worker takes is what was queued. -/
theorem gamePost_eq_some {identities : List ℕ} {e : Entry} {q : Worker.GamePost}
    (h : gamePost identities e = some q) : q.serial = e.place ∧ q.epoch = e.post.epoch ∧
      q.batch = e.post.batch ∧ q.identity = identities.getD e.place 0 := by
  obtain ⟨hcommittable, h⟩ := Option.dite_none_right_eq_some.mp h
  obtain rfl := Option.some.inj h
  exact ⟨rfl, rfl, rfl, rfl⟩

/-- Identities that come later change nothing. -/
theorem gamePost_append {identities : List ℕ} (more : List ℕ) {e : Entry}
    (h : e.place < identities.length) :
    gamePost (identities ++ more) e = gamePost identities e := by
  unfold gamePost
  rw [List.getD_append _ _ _ _ h]

/-- The worker gets every batch, in order. -/
theorem forall₂_gamePost (identities : List ℕ) {entries : List Entry}
    (h : ∀ e ∈ entries, Worker.committable e.post.batch.ops = true) :
    List.Forall₂ (fun e q => gamePost identities e = some q) entries
      (entries.filterMap (gamePost identities)) := by
  induction entries with
  | nil => exact .nil
  | cons e entries ih =>
    obtain ⟨he, h⟩ := List.forall_mem_cons.mp h
    have hsome : gamePost identities e = some _ := dif_pos he
    rw [List.filterMap_cons_some hsome]
    exact .cons hsome (ih h)

/-- The places the worker gets are those of the batches. -/
theorem map_serial_gamePost (identities : List ℕ) {entries : List Entry}
    (h : ∀ e ∈ entries, Worker.committable e.post.batch.ops = true) :
    (entries.filterMap (gamePost identities)).map (·.serial) = entries.map (·.place) := by
  have hall := forall₂_gamePost identities h
  generalize entries.filterMap (gamePost identities) = posts at hall ⊢
  induction hall with
  | nil => rfl
  | cons hsome _ ih =>
    rw [List.map_cons, List.map_cons, ih fun e he => h e (List.mem_cons_of_mem _ he),
      (gamePost_eq_some hsome).1]

/-! ## The invariant -/

/-- The ops committed and those buffered, in order. -/
def State.ops (p : State) : List Wire.GameOp :=
  p.run.committed.flatMap (·.post.batch.ops) ++ p.trail.source.ops

/-- What holds in every state. -/
structure State.Sound (p : State) : Prop where
  tagged : Tagged p.trail
  current : Current p.trail
  buffered : ∀ op ∈ p.trail.source.ops, Scripted op ∧ op.carried = op
  /-- The script called what is buffered and what was committed. -/
  said : SaidBy p.called p.ops
  calls : ∃ calls, p.run = runCalls Worker.maxQueuedGameOps calls
  posts : p.run.committed.map (·.post) = p.trail.commits.flatMap Prod.fst
  identities : p.identities.length = p.run.committed.length
  /-- A batch is one the worker takes, of a table that was declared. -/
  committed : ∀ e ∈ p.run.committed, Worker.committable e.post.batch.ops = true ∧
    ∃ d ∈ p.trail.declares, d.epoch = e.post.epoch ∧ d.declare.tableKind = Wire.tableAuthored
  taken : p.worker.path.log.taken.map (·.serial) = p.run.handed.map (·.place)

section Api

variable {platform : Platform} {cfg : Worker.Config} {p p' : State} {e : Event}

/-- An event that hands nothing over. -/
theorem api_of_quiet (hd : (p.trail.step platform e).declares = p.trail.declares)
    (hc : (p.trail.step platform e).commits = p.trail.commits) :
    p.api platform e = { p with trail := p.trail.step platform e } := by
  simp [State.api, hd, hc, call_push_nil]

/-- An event that declares. -/
theorem api_of_declared {d : Worker.DeclareSnapshot}
    (hd : (p.trail.step platform e).declares = p.trail.declares ++ [d])
    (hc : (p.trail.step platform e).commits = p.trail.commits) :
    p.api platform e = { p with trail := p.trail.step platform e, latch := some d } := by
  simp [State.api, hd, hc, call_push_nil]

/-- An event that commits. -/
theorem api_of_committed {posts : List Post} {calls : List (Wire.GameOp × ℕ)}
    (hd : (p.trail.step platform e).declares = p.trail.declares)
    (hc : (p.trail.step platform e).commits = p.trail.commits ++ [(posts, calls)]) :
    p.api platform e =
      { p with
        trail := p.trail.step platform e
        run := p.run.call Worker.maxQueuedGameOps (.push posts)
        identities := p.identities ++
          posts.map fun _ => (p.trail.step platform e).source.identity } := by
  simp [State.api, hd, hc]

/-- The batches of a commit are ones the worker takes. -/
theorem State.Sound.committable (h : p.Sound) {post : Post}
    (hpost : post ∈ commitPosts p.trail.source.epoch p.trail.source.ops) :
    Worker.committable post.batch.ops = true := by
  have hcut := cutInto_commitPosts p.trail.source.epoch fun op hop => (h.buffered op hop).1
  have hmem : ∀ op ∈ post.batch.ops, op ∈ p.trail.source.ops := by
    intro op hop
    rw [← hcut.whole]
    exact List.mem_flatMap.mpr ⟨post, hpost, hop⟩
  exact (hcut.admissible post hpost).committable (fun op hop => (h.buffered op (hmem op hop)).1)
    fun op hop => (h.buffered op (hmem op hop)).2

/-- Every event keeps the invariant, when the op that is called is said by the last call.

**Proof sketch.** By what the event hands over (`emits`). Nothing and a declaration leave the
commits. A commit adds one list of batches, said by the calls that were buffered, and as many
entries with the identity of the source. -/
theorem State.Sound.api (h : p.Sound) (hop : ∀ op, e = .scriptGameOp op →
      (Scripted op ∧ op.carried = op) ∧ SaidBy p.called (p.ops ++ [op])) :
    (p.api platform e).Sound := by
  have htagged : Tagged (p.trail.step platform e) := h.tagged.step e
  have hcurrent : Current (p.trail.step platform e) := h.current.step e
  obtain ⟨hbuffered, hsaid⟩ : (∀ op ∈ (p.trail.step platform e).source.ops,
      Scripted op ∧ op.carried = op) ∧ SaidBy p.called
        (p.run.committed.flatMap (·.post.batch.ops) ++ (p.trail.step platform e).source.ops) := by
    rcases ops_step platform p.trail e with hsame | hnone | ⟨op, he, hmore⟩
    · rw [hsame]
      exact ⟨h.buffered, h.said⟩
    · rw [hnone, List.append_nil]
      exact ⟨by simp, h.said.left⟩
    · obtain ⟨hscripted, hsaid⟩ := hop op he
      rw [hmore, ← List.append_assoc]
      refine ⟨fun op' hop' => ?_, hsaid⟩
      rcases List.mem_append.mp hop' with hold | hnew
      · exact h.buffered op' hold
      · exact List.mem_singleton.mp hnew ▸ hscripted
  rcases emits platform h.tagged e with
    ⟨hd, hp, hc⟩ | ⟨d, hd, hp, hc, hle⟩ | ⟨calls, hd, hp, hready, hc, hi, ho⟩
  · rw [api_of_quiet hd hc]
    refine ⟨htagged, hcurrent, hbuffered, hsaid, h.calls, ?_, h.identities, ?_, h.taken⟩
    · rw [hc]
      exact h.posts
    · rw [hd]
      exact h.committed
  · rw [api_of_declared hd hc]
    refine ⟨htagged, hcurrent, hbuffered, hsaid, h.calls, ?_, h.identities, fun b hb => ?_,
      h.taken⟩
    · rw [hc]
      exact h.posts
    · obtain ⟨hcommittable, d', hd', hkind⟩ := h.committed b hb
      refine ⟨hcommittable, d', ?_, hkind⟩
      rw [hd]
      exact List.mem_append_left _ hd'
  · rw [api_of_committed hd hc]
    have hposts := post_entriesOf p.run.committed
      (commitPosts p.trail.source.epoch p.trail.source.ops)
    refine ⟨htagged, hcurrent, hbuffered, ?_, ?_, ?_, ?_, fun b hb => ?_, h.taken⟩
    · -- what was buffered is committed, in the same order
      have hflat : (entriesOf p.run.committed
          (commitPosts p.trail.source.epoch p.trail.source.ops)).flatMap (·.post.batch.ops) =
            p.trail.source.ops := by
        conv_rhs => rw [← flatMap_commitPosts p.trail.source.epoch p.trail.source.ops, ← hposts]
        rw [List.flatMap_map]
      have hsame : (p.run.committed ++ entriesOf p.run.committed
          (commitPosts p.trail.source.epoch p.trail.source.ops)).flatMap (·.post.batch.ops) ++
            (p.trail.step platform e).source.ops = p.ops := by
        rw [ho, List.append_nil, List.flatMap_append, hflat]
        rfl
      have hsaid := h.said
      rwa [← hsame] at hsaid
    · obtain ⟨earlier, hrun⟩ := h.calls
      exact ⟨earlier ++ [_], by rw [hrun, runCalls_concat]⟩
    · rw [hc, List.flatMap_append, ← h.posts]
      simp [Run.call, post_entriesOf]
    · have hlength := congrArg List.length hposts
      rw [List.length_map] at hlength
      simp [Run.call, h.identities, hlength]
    · rw [hd]
      rcases List.mem_append.mp hb with hb | hb
      · exact h.committed b hb
      · have hpost : b.post ∈ commitPosts p.trail.source.epoch p.trail.source.ops := by
          rw [← hposts]
          exact List.mem_map_of_mem hb
        refine ⟨h.committable hpost, p.trail.source.posted, ?_, ?_, h.current hready⟩
        · exact List.mem_of_getLast? h.tagged.newest
        · rw [h.tagged.epoch, epoch_of_mem_commitPosts hpost]

/-- A call that buffers an op keeps the invariant. -/
theorem State.Sound.buffer (h : p.Sound) (c : ScriptCall) : (p.buffer platform c).Sound := by
  have hcalled : ({ p with called := p.called ++ [c] } : State).Sound :=
    ⟨h.tagged, h.current, h.buffered, h.said.call c, h.calls, h.posts, h.identities, h.committed,
      h.taken⟩
  unfold State.buffer
  dsimp only
  split
  · rename_i op hop
    refine hcalled.api fun op' heq => ?_
    obtain rfl : op = op' := Event.scriptGameOp.inj heq
    exact ⟨c.scripted hop, h.said.concat (ScriptCall.says_iff.mp hop).1⟩
  · exact hcalled

/-- A script's call keeps the invariant. -/
theorem State.Sound.script (h : p.Sound) (c : ScriptCall) : (p.script platform c).Sound := by
  unfold State.script
  split
  · exact (h.buffer c).api (by simp)
  · exact h.buffer c

/-- What is queued was committed. -/
theorem State.Sound.queue_sublist (h : p.Sound) : p.run.queue.queue.Sublist p.run.committed := by
  obtain ⟨calls, hrun⟩ := h.calls
  have hordered := (dropsTails Worker.maxQueuedGameOps calls).ordered
  rw [← hrun] at hordered
  exact (List.sublist_append_right _ _).trans hordered

/-- A committed batch carries its place. -/
theorem State.Sound.place (h : p.Sound) {i : ℕ} {b : Entry} (hb : p.run.committed[i]? = some b) :
    b.place = i := by
  obtain ⟨calls, hrun⟩ := h.calls
  rw [hrun, committed_runCalls] at hb
  simpa using place_entriesOf hb

/-- What the worker sees and takes keeps the invariant.

**Proof sketch.** The worker takes the whole queue or leaves it. What it sees of the queue has the
same serials, and each entry is where its serial says, so what is taken is what was committed. -/
theorem State.Sound.wrote (h : p.Sound) {w : Worker.State} (hw : OwnStep p.seen.path w.path) :
    (p.wrote w).Sound := by
  have hserials := map_serial_gamePost p.identities fun e he =>
    (h.committed e (h.queue_sublist.subset he)).1
  have hnumbered : ∀ (id : UInt32) (posts : List Worker.GamePost),
      (Worker.numberedFrom id posts).map (·.serial) = posts.map (·.serial) := by
    intro id posts
    induction posts generalizing id with
    | nil => rfl
    | cons post posts ih =>
      rw [Worker.numberedFrom, List.map_cons, List.map_cons, ih]
      rfl
  by_cases hempty : w.path.source.queue.isEmpty = true
  · refine ⟨h.tagged, h.current, h.buffered, ?_, ?_, ?_, ?_, ?_, ?_⟩ <;>
      simp only [State.wrote, hempty, if_true]
    · exact h.said
    · obtain ⟨calls, hrun⟩ := h.calls
      exact ⟨calls ++ [.takeAll], by rw [hrun, runCalls_concat]⟩
    · exact h.posts
    · exact h.identities
    · exact h.committed
    · show w.path.log.taken.map (·.serial) = (p.run.handed ++ p.run.queue.queue).map (·.place)
      rw [List.map_append, ← h.taken, ← hserials]
      rcases hw.taken with ⟨hsame, ht⟩ | ⟨-, id, ht⟩
      · rw [ht]
        have hnil : p.run.queue.queue.filterMap (gamePost p.identities) = [] := by
          have : p.seen.path.source.queue = [] := by
            rw [← hsame]
            simpa using hempty
          exact this
        rw [hnil, List.map_nil, List.append_nil]
        rfl
      · rw [ht, List.map_append, hnumbered]
        rfl
  · refine ⟨h.tagged, h.current, h.buffered, ?_, ?_, ?_, ?_, ?_, ?_⟩ <;>
      simp only [State.wrote, hempty, Bool.false_eq_true, if_false]
    · exact h.said
    · exact h.calls
    · exact h.posts
    · exact h.identities
    · exact h.committed
    · show w.path.log.taken.map (·.serial) = _
      rcases hw.taken with ⟨-, ht⟩ | ⟨hnil, -⟩
      · rw [ht]
        exact h.taken
      · simp [hnil] at hempty

/-- The invariant holds at the start. -/
theorem sound_start (seen : Seen) : (start platform seen).Sound where
  tagged := tagged_init platform seen
  current := current_update {} seen
  buffered := fun op hop => by
    have hops : ((start platform seen).trail.source).ops = [] :=
      VpxSessionSource.ops_updateDeclare platform {} seen
    rw [hops] at hop
    cases hop
  said := by
    have hops : (start platform seen).ops = [] :=
      VpxSessionSource.ops_updateDeclare platform {} seen
    rw [hops]
    exact .nil _
  calls := ⟨[], rfl⟩
  posts := rfl
  identities := rfl
  committed := fun e he => by cases he
  taken := rfl

/-- Every step keeps the invariant.

**Proof sketch.** By the step: the API thread's events are `State.Sound.api`, the script's
`State.Sound.script`, and the worker's own steps `State.Sound.wrote`. -/
theorem State.Sound.step (h : p.Sound) {a : Act} (hs : step platform cfg p a = some p') :
    p'.Sound := by
  cases a with
  | host e =>
    obtain rfl := Option.some.inj hs
    refine h.api fun op heq => ?_
    cases e <;> cases heq
  | declare machineId seen =>
    obtain rfl := Option.some.inj hs
    exact h.api (by simp)
  | script c =>
    obtain rfl := Option.some.inj hs
    exact h.script c
  | requestTopScores scope period vpinFilter limit since =>
    simp only [Program.step] at hs
    split at hs
    · obtain ⟨w, hw, rfl⟩ := Option.map_eq_some_iff.mp hs
      obtain rfl := Option.some.inj hw
      exact ⟨h.tagged, h.current, h.buffered, h.said, h.calls, h.posts, h.identities, h.committed,
        h.taken⟩
    · obtain rfl := Option.some.inj hs
      exact h
  | takeResults =>
    simp only [Program.step] at hs
    obtain ⟨w, hw, rfl⟩ := Option.map_eq_some_iff.mp hs
    obtain rfl := Option.some.inj hw
    exact ⟨h.tagged, h.current, h.buffered, h.said, h.calls, h.posts, h.identities, h.committed,
        h.taken⟩
  | worker a =>
    obtain ⟨ha, hs⟩ := Option.ite_none_right_eq_some.mp hs
    obtain ⟨w, hw, rfl⟩ := Option.map_eq_some_iff.mp hs
    exact h.wrote (ownStep ha hw)

end Api

/-! ## The refinement -/

/-- A worker with another queue before it, and other batches committed. -/
def holding (w : Worker.State) (queue committed : List Worker.GamePost) : Worker.State :=
  { w with path := { w.path with
      source := { w.path.source with queue := queue }
      log := { w.path.log with committed := committed } } }

/-- A condition that asks nothing of the queue, and holds of fewer committed batches too. -/
def Lasting (C : Worker.State → Prop) : Prop :=
  ∀ (w : Worker.State) (queue committed more queue' : List Worker.GamePost),
    C (holding w queue' (committed ++ more)) → C (holding w queue committed)

section Runs

variable {cfg : Worker.Config} {C : Worker.State → Prop} {w : Worker.State}

/-- A committable batch is a commit of the worker's system. -/
theorem step_commit {batch : Wire.GameBatch} (h : Worker.committable batch.ops = true) :
    Worker.step cfg w (.commit batch) = some { w with path := w.path.commit batch h } :=
  dif_pos h

/-- So is an eviction one of its steps. -/
theorem step_evict (i : ℕ) :
    Worker.step cfg w (.evict i) = some { w with path := w.path.evict i } := rfl

/-- The worker's source commits batches one at a time.

**Proof sketch.** By induction on the batches, from the end. The worker's commit gives the batch the
next serial and the identity in force, and this is the batch the program committed. -/
theorem reaches_commits (posts : List Worker.GamePost)
    (hposts : ∀ (i : ℕ) (q : Worker.GamePost), posts[i]? = some q →
      q.serial = w.path.log.committed.length + i ∧ q.epoch = w.path.source.inForce.epoch ∧
        q.identity = w.path.source.inForce.identity)
    (hC : ∀ queue committed, committed <+: w.path.log.committed ++ posts →
      C (holding w queue committed)) :
    ((Worker.system cfg).onFrom w).Reaches (fun w _ => C w)
      (holding w (w.path.source.queue ++ posts) (w.path.log.committed ++ posts)) := by
  induction posts using List.reverseRecOn with
  | nil =>
    rw [List.append_nil, List.append_nil]
    exact .here w
  | append_singleton posts q ih =>
    have hrun := ih (fun i r hr => hposts i r (by
        rw [List.getElem?_append_left (List.getElem?_eq_some_iff.mp hr).1]
        exact hr)) fun queue committed hpre => hC queue committed (hpre.trans (by
          rw [← List.append_assoc]
          exact List.prefix_append _ _))
    obtain ⟨hserial, hepoch, hidentity⟩ := hposts posts.length q (by simp)
    have hcommitting : (holding w (w.path.source.queue ++ posts)
        (w.path.log.committed ++ posts)).path.committing q.batch q.sound = q := by
      cases q
      simp_all [Worker.GamePath.committing, holding]
    refine hrun.step (hC _ _ ?_) (a := .commit q.batch) ?_
    · rw [← List.append_assoc]
      exact List.prefix_append _ _
    · show Worker.step cfg _ _ = _
      rw [step_commit q.sound]
      refine congrArg some ?_
      unfold Worker.GamePath.commit
      rw [hcommitting]
      simp [holding]

/-- The worker's source loses batches anywhere.

**Proof sketch.** By induction on what is left of the queue: a batch that is gone is one eviction at
its place, behind those that stay. -/
theorem reaches_evictions (hC : ∀ queue, C (holding w queue w.path.log.committed))
    {queue left : List Worker.GamePost} (hsub : left.Sublist queue)
    (before : List Worker.GamePost) :
    ((Worker.system cfg).onFrom (holding w (before ++ queue) w.path.log.committed)).Reaches
      (fun w _ => C w) (holding w (before ++ left) w.path.log.committed) := by
  induction hsub generalizing before with
  | slnil => exact .here _
  | cons q hsub ih =>
    refine Runs.System.Reaches.andThen (.one (hC _) (b := .evict before.length) ?_) (ih before)
    show Worker.step cfg _ _ = _
    rw [step_evict]
    simp [holding, Worker.GamePath.evict, List.eraseIdx_append_of_length_le]
  | cons_cons q hsub ih =>
    have hrun := ih (before ++ [q])
    rwa [List.append_assoc, List.append_assoc] at hrun

end Runs

section Steps

variable {platform : Platform} {cfg : Worker.Config} {C : Worker.State → Prop} {p p' : State}

/-- A commit is batches the worker's source commits one at a time, some of which it loses.

**Proof sketch.** The worker's source commits the batches one by one (`reaches_commits`) and evicts
those the queue of the program lost (`sublist_push`). The state it comes to is what the program
shows after the event. -/
theorem reaches_api_committed (h : p.Sound) (hlasting : Lasting C) {e : Event}
    (hC : C (p.api platform e).seen) {calls : List (Wire.GameOp × ℕ)}
    (hd : (p.trail.step platform e).declares = p.trail.declares)
    (hp : (p.trail.step platform e).source.posted = p.trail.source.posted)
    (hc : (p.trail.step platform e).commits =
      p.trail.commits ++ [(commitPosts p.trail.source.epoch p.trail.source.ops, calls)])
    (hi : (p.trail.step platform e).source.identity = p.trail.source.identity) :
    ((Worker.system cfg).onFrom p.seen).Reaches (fun w _ => C w) (p.api platform e).seen := by
  let posts := commitPosts p.trail.source.epoch p.trail.source.ops
  let entries := entriesOf p.run.committed posts
  let more := posts.map fun _ => p.trail.source.identity
  let new := entries.filterMap (gamePost (p.identities ++ more))
  have hcommittable : ∀ b ∈ entries, Worker.committable b.post.batch.ops = true := by
    intro b hb
    have hpost : b.post ∈ posts := by
      rw [← post_entriesOf p.run.committed posts]
      exact List.mem_map_of_mem hb
    exact h.committable hpost
  have hold : ∀ b ∈ p.run.committed,
      gamePost (p.identities ++ more) b = gamePost p.identities b := by
    intro b hb
    obtain ⟨i, hi⟩ := List.mem_iff_getElem?.mp hb
    refine gamePost_append more ?_
    rw [h.identities, h.place hi]
    exact (List.getElem?_eq_some_iff.mp hi).1
  -- what the worker sees of the commit, and of what was there
  have hcommitted : (p.run.committed ++ entries).filterMap (gamePost (p.identities ++ more)) =
      p.seen.path.log.committed ++ new := by
    rw [List.filterMap_append, List.filterMap_congr hold]
    rfl
  have hqueue : (p.run.queue.queue ++ entries).filterMap (gamePost (p.identities ++ more)) =
      p.seen.path.source.queue ++ new := by
    rw [List.filterMap_append,
      List.filterMap_congr fun b hb => hold b (h.queue_sublist.subset hb)]
    rfl
  let left := (p.run.queue.push Worker.maxQueuedGameOps entries).1.queue.filterMap
    (gamePost (p.identities ++ more))
  have hseen : (p.api platform e).seen =
      holding p.seen left (p.seen.path.log.committed ++ new) := by
    rw [api_of_committed hd hc, hi, ← hcommitted]
    simp only [State.seen, hp]
    rfl
  have hsub : left.Sublist (p.seen.path.source.queue ++ new) := by
    rw [← hqueue]
    exact (sublist_push _ _ _).filterMap _
  have hlength : p.seen.path.log.committed.length = p.run.committed.length :=
    (forall₂_gamePost p.identities fun b hb => (h.committed b hb).1).length_eq.symm
  have hposts : ∀ (i : ℕ) (q : Worker.GamePost), new[i]? = some q →
      q.serial = p.seen.path.log.committed.length + i ∧
        q.epoch = p.seen.path.source.inForce.epoch ∧
        q.identity = p.seen.path.source.inForce.identity := by
    intro i q hq
    have hall := forall₂_gamePost (p.identities ++ more) hcommittable
    have hi' : i < entries.length := by
      rw [hall.length_eq]
      exact (List.getElem?_eq_some_iff.mp hq).1
    obtain ⟨hlt, rfl⟩ := List.getElem?_eq_some_iff.mp hq
    obtain ⟨hserial, hepoch, -, hidentity⟩ := gamePost_eq_some (hall.get hi' hlt)
    have hplace : entries[i].place = p.run.committed.length + i :=
      place_entriesOf (List.getElem?_eq_getElem hi')
    have hpost : entries[i].post ∈ posts := by
      rw [← post_entriesOf p.run.committed posts]
      exact List.mem_map_of_mem (List.getElem_mem hi')
    have hmore : i < posts.length := by
      rw [← post_entriesOf p.run.committed posts, List.length_map]
      exact hi'
    refine ⟨?_, ?_, ?_⟩
    · rw [hlength, ← hplace]
      exact hserial
    · refine hepoch.trans ((epoch_of_mem_commitPosts hpost).trans ?_)
      exact h.tagged.epoch.symm
    · refine hidentity.trans (Eq.trans ?_ h.tagged.identity.symm)
      show (p.identities ++ more).getD entries[i].place 0 = _
      rw [hplace, ← h.identities, List.getD_append_right _ _ _ _ (by omega)]
      simp [more, hmore]
  have hall : ∀ queue committed, committed <+: p.seen.path.log.committed ++ new →
      C (holding p.seen queue committed) := by
    rintro queue committed ⟨rest, heq⟩
    refine hlasting p.seen queue committed rest left ?_
    rw [heq, ← hseen]
    exact hC
  rw [hseen]
  exact (reaches_commits new hposts hall).andThen
    (reaches_evictions (w := holding p.seen (p.seen.path.source.queue ++ new)
      (p.seen.path.log.committed ++ new)) (fun queue => hall queue _ List.prefix_rfl) hsub [])

/-- An event of the API thread is a run of the worker's system.

**Proof sketch.** By what the event emits: nothing, which the worker does not see; a declaration,
which is one `post`; or batches with what is lost for them. -/
theorem reaches_api (h : p.Sound) (hlasting : Lasting C) (e : Event) (hC : C p.seen)
    (hC' : C (p.api platform e).seen) :
    ((Worker.system cfg).onFrom p.seen).Reaches (fun w _ => C w) (p.api platform e).seen := by
  rcases emits platform h.tagged e with
    ⟨hd, hp, hc⟩ | ⟨d, hd, hp, hc, hle⟩ | ⟨calls, hd, hp, hready, hc, hi, -⟩
  · have hseen : (p.api platform e).seen = p.seen := by
      rw [api_of_quiet hd hc]
      simp only [State.seen, hp]
    rw [hseen]
    exact .here _
  · refine .one hC (b := .post d) ?_
    show Worker.step cfg _ _ = _
    have hstep : Worker.step cfg p.seen (.post d) =
        some { p.seen with path := p.seen.path.post d } := if_pos hle
    rw [hstep, api_of_declared hd hc]
    simp only [State.seen, hp]
    rfl
  · exact reaches_api_committed h hlasting hC' hd hp hc hi

/-- Buffering an op shows the worker nothing.

**Proof sketch.** An op declares nothing, commits nothing and posts nothing, and these are what the
worker sees. -/
theorem seen_buffer (platform : Platform) (h : p.Sound) (c : ScriptCall) :
    (p.buffer platform c).seen = p.seen := by
  unfold State.buffer
  dsimp only
  split
  · rename_i op hop
    have hcalled : Tagged ({ p with called := p.called ++ [c] } : State).trail := h.tagged
    have hd : (p.trail.step platform (.scriptGameOp op)).declares = p.trail.declares := rfl
    have hc : (p.trail.step platform (.scriptGameOp op)).commits = p.trail.commits := rfl
    have hp : (p.trail.step platform (.scriptGameOp op)).source.posted = p.trail.source.posted := by
      show (p.trail.source.scriptGameOp op).posted = _
      unfold VpxSessionSource.scriptGameOp
      split <;> rfl
    rw [api_of_quiet (p := { p with called := p.called ++ [c] }) hd hc]
    simp only [State.seen, hp]
  · rfl

/-- What the worker wrote is what it sees.

**Proof sketch.** Field by field: the posted declaration, the committed batches and the rest are
unchanged by the worker's own step, and the queue is taken or left as the worker left it. -/
theorem seen_wrote {w : Worker.State} (hw : OwnStep p.seen.path w.path) : (p.wrote w).seen = w := by
  have hforce : p.trail.source.posted = w.path.source.inForce := hw.inForce.symm
  have hcommitted : p.run.committed.filterMap (gamePost p.identities) = w.path.log.committed :=
    hw.committed.symm
  have hqueue : (p.wrote w).run.queue.queue.filterMap (gamePost p.identities) =
      w.path.source.queue := by
    by_cases hempty : w.path.source.queue.isEmpty = true
    · simp only [State.wrote, hempty, if_true]
      simpa [Run.call, GameQueue.takeAll] using (List.isEmpty_iff.mp hempty).symm
    · simp only [State.wrote, hempty, Bool.false_eq_true, if_false]
      rcases hw.taken with ⟨hsame, -⟩ | ⟨hnil, -⟩
      · exact hsame.symm
      · simp [hnil] at hempty
  have hsame : (p.wrote w).run.committed = p.run.committed := by
    unfold State.wrote
    dsimp only
    split <;> rfl
  show ({ w with path := { w.path with
    source := { inForce := p.trail.source.posted, latch := w.path.source.latch
                queue := (p.wrote w).run.queue.queue.filterMap (gamePost p.identities) }
    log := { w.path.log with
      committed := (p.wrote w).run.committed.filterMap (gamePost p.identities) } } } :
      Worker.State) = w
  rw [hqueue, hsame, hforce, hcommitted]

end Steps

/-- **The program refines the worker's system**, whatever lasting condition its states meet.

**Proof sketch.** A declaration is posted with tags that are not behind the last one's. A commit is
cut into batches that the worker takes (`State.Sound.committable`), each committed in turn; what the
queue is left with is some of these and of what it had. The worker's own steps see of the source
what they would see, and leave the rest. -/
theorem refinement (platform : Platform) (cfg : Worker.Config) {C : Worker.State → Prop}
    (hlasting : Lasting C) :
    Runs.Refinement (system platform cfg) (Worker.system cfg) (fun p => C p.seen) C
      (fun p w => p.Sound ∧ w = p.seen) where
  init := by
    rintro p ⟨seen, rfl⟩
    exact ⟨_, ⟨_, rfl⟩, sound_start seen, rfl⟩
  step := by
    rintro p w a p' ⟨h, rfl⟩ hC hC' hs
    refine ⟨p'.seen, ?_, h.step hs, rfl⟩
    cases a with
    | host e =>
      obtain rfl := Option.some.inj hs
      exact reaches_api h hlasting _ hC hC'
    | declare machineId seen =>
      obtain rfl := Option.some.inj hs
      exact reaches_api h hlasting _ hC hC'
    | script c =>
      obtain rfl := Option.some.inj hs
      have hseen := seen_buffer platform h c
      unfold State.script at hC' ⊢
      split at hC'
      · rename_i hcommits
        rw [if_pos hcommits, ← hseen]
        exact reaches_api (h.buffer c) hlasting _ (hseen ▸ hC) hC'
      · rename_i hcommits
        rw [if_neg hcommits, hseen]
        exact .here _
    | requestTopScores scope period vpinFilter limit since =>
      have hs : Program.step platform cfg p _ = some p' := hs
      simp only [Program.step] at hs
      split at hs
      · rename_i request hrequest
        obtain ⟨w, hw, rfl⟩ := Option.map_eq_some_iff.mp hs
        refine .one hC (b := .request p.trail.source.epoch request p.trail.source.identity) ?_
        obtain rfl := Option.some.inj hw
        rfl
      · obtain rfl := Option.some.inj hs
        exact .here _
    | takeResults =>
      have hs : Program.step platform cfg p _ = some p' := hs
      simp only [Program.step] at hs
      obtain ⟨w, hw, rfl⟩ := Option.map_eq_some_iff.mp hs
      refine .one hC (b := .takeResults) ?_
      obtain rfl := Option.some.inj hw
      rfl
    | worker a =>
      obtain ⟨ha, hs⟩ := Option.ite_none_right_eq_some.mp hs
      obtain ⟨w, hw, rfl⟩ := Option.map_eq_some_iff.mp hs
      have hown := ownStep ha hw
      refine .one hC (b := a) ?_
      rw [seen_wrote hown]
      exact hw

/-- The invariant holds in every run. -/
theorem sound {platform : Platform} {cfg : Worker.Config} {p : State}
    (h : (system platform cfg).Reachable p) : p.Sound :=
  h.invariant (by rintro p ⟨seen, rfl⟩; exact sound_start seen) fun _ _ _ hp _ hs => hp.step hs

end Program
