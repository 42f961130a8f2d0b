import ScorbitPlugin.Memory.Numbering
import ScorbitPlugin.Memory.Snapshots

set_option relaxedAutoImplicit false
set_option autoImplicit false

/-!
# A poll serves the installed ranges

What a `Poll` answers with, in any interleaving of the worker's calls with the API thread: the
installed ranges in order, read in one `Service` pass for that subscription, in a game that still
ran when the `Poll` looked or was started since.

## Main definitions

* `Memory.workerThread` — the worker is one thread.
* `Memory.Bridge.ReadFor` — blocks read in one pass for a subscription.
* `Memory.Shown` — what is published, and what was polled.
* `Memory.Alone` — what a single thread of calls has.

## Main results

* `Memory.serves_installed` — every `Poll` of a run serves what is installed.
-/

namespace Memory

/-- A call under way. -/
def Call.active : Call → Bool
  | .unused | .returned => false
  | _ => true

/-- The worker is one thread: it makes a call when the one before has returned. -/
def workerThread (s : State) (a : Act) : Prop :=
  a.begun.isSome = true → ∀ c < s.started, (s.calls c).active = false

instance (s : State) (a : Act) : Decidable (workerThread s a) :=
  inferInstanceAs (Decidable (_ → _))

/-- The blocks are the ranges of a subscription, read in one pass made for it in a game that is
`game` or a later one. -/
def Bridge.ReadFor (b : Bridge) (i : Installed) (game : ℕ) (blocks : List Wire.MemoryBlock) :
    Prop :=
  ∃ p ∈ b.history.passes, p.subscriptionId = i.id ∧ p.ranges = i.ranges ∧ game ≤ p.game ∧
    ReadInFull p.read p.calls i.ranges blocks

/-- Such blocks have the ranges' addresses and lengths. -/
theorem Bridge.ReadFor.map_eq {b : Bridge} {i : Installed} {game : ℕ}
    {blocks : List Wire.MemoryBlock} (h : b.ReadFor i game blocks) :
    blocks.map (fun block => (block.address, block.bytes.length)) =
      i.ranges.map (fun range => (range.address, range.length.toNat)) := by
  obtain ⟨p, -, -, -, -, hfull⟩ := h
  exact hfull.map_eq

/-- What is published, and what was polled. -/
structure Shown (k : Core) : Prop where
  serving : ∀ running, k.phase = .serving running → k.bridge.gameRunning = running
  ending : k.phase = .ending → k.bridge.gameRunning = false
  /-- A complete snapshot is that of a pass in the game that runs, or is about to be replaced. -/
  snapshot : ∀ snapshot, k.bridge.snapshot = some snapshot → snapshot.header.complete = true →
    (k.bridge.gameRunning = true ∨ k.phase ≠ .none) ∧
      ∃ p ∈ k.bridge.history.passes, p.subscriptionId = snapshot.header.rangesId ∧
        p.game = k.bridge.history.game ∧
        ∀ id reply, snapshot.poll id = some reply → reply.blocks = p.blocks
  passes : ∀ p ∈ k.bridge.history.passes, ReadInFull p.read p.calls p.ranges p.blocks
  looking : ∀ c game, (k.calls c = .pollLook game ∨ ∃ looked, k.calls c = .pollRead game looked) →
    game ≤ k.bridge.history.game
  polled : ∀ c game looked installed reply,
    .polled c game looked installed (some reply) ∈ k.bridge.history.events →
    looked.ranges ≠ [] → looked.id ∈ k.bridge.history.installs ∧
      k.bridge.ReadFor looked game reply.blocks

/-- Empty blocks always fit. -/
theorem publishSnapshot_nil (next : Wire.PollReply) (h : next.blocks = []) (rangesId : ℕ)
    (complete : Bool) (published : Option Snapshot) : ∃ snapshot,
    publishSnapshot next rangesId complete published = some snapshot ∧
      snapshot.header.complete = complete := by
  unfold publishSnapshot
  rw [h]
  exact ⟨_, rfl, rfl⟩

/-- Without a game no snapshot is complete. -/
theorem takeSnapshot_noGame (next : Wire.PollReply) {s : Service}
    (ranges : List Wire.MemoryRange) (calls : ℕ) (h : s.gameRunning = false) :
    (takeSnapshot next s ranges calls).1.blocks = [] ∧
      (takeSnapshot next s ranges calls).2 = false := by
  unfold takeSnapshot
  dsimp only
  rw [h, Bool.not_false, Bool.or_true]
  exact ⟨rfl, rfl⟩

/-- What is published, and the game it is of. -/
def Bridge.published (b : Bridge) : Option Snapshot × Bool × ℕ × List Pass :=
  (b.snapshot, b.gameRunning, b.history.game, b.history.passes)

namespace Bridge

variable (b : Bridge) (c : ℕ)

/-- A `Write` that returns leaves what is published. -/
@[simp] theorem published_wrote (result : Result) :
    (b.wrote c result).published = b.published := by
  unfold wrote
  split <;> rfl

/-- A `Write` that returns installs nothing. -/
@[simp] theorem installs_wrote (result : Result) :
    (b.wrote c result).history.installs = b.history.installs := by
  unfold wrote
  split <;> rfl

/-- A `Write` that returns is not a `Poll`. -/
theorem mem_events_wrote {result : Result} {c' game : ℕ} {looked installed : Installed}
    {reply : Option Wire.PollReply}
    (h : .polled c' game looked installed reply ∈ (b.wrote c result).history.events) :
    .polled c' game looked installed reply ∈ b.history.events := by
  unfold wrote at h
  split at h
  · rcases List.mem_cons.mp h with heq | hold
    · cases heq
    · exact hold
  · exact h

/-- To complete a request leaves what is published. -/
theorem published_completeOne : (b.completeOne c).published = b.published := by
  rw [completeOne_eq]
  unfold published
  dsimp only
  split <;> rfl

/-- An installed id stays in the record when a request is completed. -/
theorem mem_installs_completeOne : ∀ id ∈ b.history.installs,
    id ∈ (b.completeOne c).history.installs := by
  intro id hid
  rw [completeOne_eq]
  dsimp only
  split
  · exact List.mem_cons_of_mem _ hid
  · exact hid

/-- To answer a request leaves what is published. -/
theorem published_answerOne (s : Service) (calls : ℕ) :
    (b.answerOne s calls c).1.published = b.published := by
  unfold answerOne published
  dsimp only
  split
  · split <;> rfl
  · split <;> rfl

/-- Nor is the host's write function. -/
theorem mem_events_answerOne {s : Service} {calls c' game : ℕ} {looked installed : Installed}
    {reply : Option Wire.PollReply}
    (h : .polled c' game looked installed reply ∈ (b.answerOne s calls c).1.history.events) :
    .polled c' game looked installed reply ∈ b.history.events := by
  unfold answerOne at h
  dsimp only at h
  split at h
  · split at h
    · exact h
    · exact h
  · rcases List.mem_cons.mp h with heq | hold
    · cases heq
    · split at hold
      · exact hold
      · exact hold

end Bridge

namespace Shown

variable {k k' : Core}

/-- A move that publishes nothing and starts or ends no game.

**Proof sketch.** Field by field: nothing that is published changed, a poll's game is one that
began, and the events are those before or polls of what is read for them. -/
theorem of_frame (h : Shown k) (hphase : k'.phase = k.phase)
    (hpublished : k'.bridge.published = k.bridge.published)
    (hinstalls : ∀ id ∈ k.bridge.history.installs, id ∈ k'.bridge.history.installs)
    (hcalls : ∀ c game, (k'.calls c = .pollLook game ∨
      ∃ looked, k'.calls c = .pollRead game looked) → game ≤ k.bridge.history.game)
    (hevents : ∀ c game looked installed reply,
      .polled c game looked installed (some reply) ∈ k'.bridge.history.events →
      .polled c game looked installed (some reply) ∈ k.bridge.history.events ∨
        (looked.ranges ≠ [] → looked.id ∈ k.bridge.history.installs ∧
          k.bridge.ReadFor looked game reply.blocks)) : Shown k' := by
  obtain ⟨hsnapshot, hrunning, hgame, hpasses⟩ : k'.bridge.snapshot = k.bridge.snapshot ∧
      k'.bridge.gameRunning = k.bridge.gameRunning ∧
      k'.bridge.history.game = k.bridge.history.game ∧
      k'.bridge.history.passes = k.bridge.history.passes := by
    simpa [Bridge.published] using hpublished
  constructor
  · rw [hphase, hrunning]
    exact h.serving
  · rw [hphase, hrunning]
    exact h.ending
  · rw [hsnapshot, hphase, hrunning, hgame, hpasses]
    exact h.snapshot
  · rw [hpasses]
    exact h.passes
  · rw [hgame]
    exact hcalls
  · intro c game looked installed reply hmem hne
    unfold Bridge.ReadFor
    rw [hpasses]
    rcases hevents c game looked installed reply hmem with hold | hnew
    · obtain ⟨hin, hread⟩ := h.polled c game looked installed reply hold hne
      exact ⟨hinstalls _ hin, hread⟩
    · obtain ⟨hin, hread⟩ := hnew hne
      exact ⟨hinstalls _ hin, hread⟩

/-- A call goes where it does not look at a snapshot. -/
theorem of_place (h : Shown k) {c : ℕ} {b : Bridge} {call : Call}
    (hpublished : b.published = k.bridge.published)
    (hinstalls : ∀ id ∈ k.bridge.history.installs, id ∈ b.history.installs)
    (hcall : ∀ game, (call = .pollLook game ∨ ∃ looked, call = .pollRead game looked) →
      game ≤ k.bridge.history.game)
    (hevents : ∀ c game looked installed reply,
      .polled c game looked installed (some reply) ∈ b.history.events →
      .polled c game looked installed (some reply) ∈ k.bridge.history.events ∨
        (looked.ranges ≠ [] → looked.id ∈ k.bridge.history.installs ∧
          k.bridge.ReadFor looked game reply.blocks)) : Shown (k.place c b call) := by
  refine h.of_frame rfl hpublished hinstalls (fun c' game hc' => ?_) hevents
  dsimp only [Core.place] at hc'
  split at hc'
  · exact hcall game hc'
  · exact h.looking c' game hc'

/-- What a `Poll` finds in the snapshot was read for the subscription it looked at. -/
theorem of_pollReply (h : Shown k) (hn : Numbered k) {c game : ℕ} {looked : Installed}
    {read : Option Snapshot} {reply : Wire.PollReply} (hcall : k.calls c = .pollRead game looked)
    (hread : read = none ∨ read = k.bridge.snapshot) (hreply : pollReply looked read = some reply)
    (hne : looked.ranges ≠ []) : k.bridge.ReadFor looked game reply.blocks := by
  unfold pollReply at hreply
  rw [if_neg (by simpa using hne)] at hreply
  obtain ⟨snapshot, hsome, hpoll⟩ := Option.bind_eq_some_iff.mp hreply
  have hsnapshot : k.bridge.snapshot = some snapshot := by
    rcases hread with rfl | rfl
    · cases hsome
    · exact hsome
  obtain ⟨hcomplete, hid⟩ := Snapshot.of_poll hpoll
  obtain ⟨-, p, hp, hpid, hgame, hblocks⟩ := h.snapshot snapshot hsnapshot hcomplete
  have hset := hn.passes p hp
  rw [hpid, hid, (hn.looked c game looked hcall).1] at hset
  have hranges : p.ranges = looked.ranges := (Option.some.inj hset).symm
  refine ⟨p, hp, hpid.trans hid, hranges, ?_, ?_⟩
  · rw [hgame]
    exact h.looking c game (.inr ⟨looked, hcall⟩)
  · rw [← hranges, hblocks _ _ hpoll]
    exact h.passes p hp

/-- A game starts, if none runs.

**Proof sketch.** No phase is under way, so nothing is published in it. Where a game begins its
number is new, and no record of the game and no poll of it is there yet. -/
theorem of_startGame (h : Shown k) (hphase : k.phase = .none) {phase : Phase} {b : Bridge}
    (hsnapshot : b.snapshot = k.bridge.snapshot)
    (hevents : b.history.events = k.bridge.history.events)
    (hinstalls : b.history.installs = k.bridge.history.installs)
    (hpasses : b.history.passes = k.bridge.history.passes) (hrunning : b.gameRunning = true)
    (hgame : b.history.game =
      if k.bridge.gameRunning then k.bridge.history.game else k.bridge.history.game + 1)
    (hnot : phase = .none ∨ phase = .serving true) {following : Installed} {frame : UInt64}
    {hold : ℕ → Hold} :
    Shown { k with
      bridge := b, phase := phase, following := following, frame := frame, hold := hold } := by
  have hle : k.bridge.history.game ≤ b.history.game := by
    rw [hgame]
    split <;> omega
  constructor
  · rintro running heq
    rcases hnot with rfl | rfl
    · cases heq
    · obtain rfl := Phase.serving.inj heq
      exact hrunning
  · rintro heq
    rcases hnot with rfl | rfl
    · cases heq
    · cases heq
  · intro snapshot hsome hcomplete
    obtain ⟨hold, p, hp, hid, hpgame, hblocks⟩ :=
      h.snapshot snapshot (hsnapshot ▸ hsome) hcomplete
    have hwas : k.bridge.gameRunning = true := hold.resolve_right fun hne => hne hphase
    rw [if_pos hwas] at hgame
    exact ⟨.inl hrunning, p, hpasses ▸ hp, hid, hpgame.trans hgame.symm, hblocks⟩
  · exact hpasses ▸ h.passes
  · exact fun c game hc => (h.looking c game hc).trans hle
  · intro c game looked installed reply hmem hne
    obtain ⟨hin, hread⟩ := h.polled c game looked installed reply (hevents ▸ hmem) hne
    unfold Bridge.ReadFor
    dsimp only
    rw [hpasses, hinstalls]
    exact ⟨hin, hread⟩

/-- A game stops running, its snapshot being about to be replaced. -/
theorem of_stopGame (h : Shown k) {phase : Phase} {b : Bridge}
    (hsnapshot : b.snapshot = k.bridge.snapshot) (hhistory : b.history = k.bridge.history)
    (hrunning : b.gameRunning = false) (hphase : phase = .ending ∨ phase = .serving false)
    {following : Installed} {frame : UInt64} {hold : ℕ → Hold} :
    Shown { k with
      bridge := b, phase := phase, following := following, frame := frame, hold := hold } := by
  constructor
  · rintro running heq
    rcases hphase with rfl | rfl
    · cases heq
    · obtain rfl := Phase.serving.inj heq
      exact hrunning
  · exact fun _ => hrunning
  · intro snapshot hsome hcomplete
    obtain ⟨-, p, hp, hrest⟩ := h.snapshot snapshot (hsnapshot ▸ hsome) hcomplete
    refine ⟨.inr ?_, p, hhistory ▸ hp, hhistory ▸ hrest⟩
    rcases hphase with rfl | rfl <;> nofun
  · exact hhistory ▸ h.passes
  · exact hhistory ▸ h.looking
  · intro c game looked installed reply hmem hne
    obtain ⟨hin, hread⟩ := h.polled c game looked installed reply (hhistory ▸ hmem) hne
    exact ⟨hhistory ▸ hin, by unfold Bridge.ReadFor; exact hhistory ▸ hread⟩

/-- The snapshot is replaced by one that is not complete. -/
theorem of_incomplete (h : Shown k) {b : Bridge} {following : Installed}
    (hsnapshot : ∀ snapshot, b.snapshot = some snapshot → snapshot.header.complete = false)
    (hhistory : b.history = k.bridge.history) :
    Shown { k with bridge := b, phase := .none, following := following } := by
  constructor
  · nofun
  · nofun
  · intro snapshot hsome hcomplete
    rw [hsnapshot snapshot hsome] at hcomplete
    cases hcomplete
  · exact hhistory ▸ h.passes
  · exact hhistory ▸ h.looking
  · intro c game looked installed reply hmem hne
    obtain ⟨hin, hread⟩ := h.polled c game looked installed reply (hhistory ▸ hmem) hne
    exact ⟨hhistory ▸ hin, by unfold Bridge.ReadFor; exact hhistory ▸ hread⟩

/-- `Service` reads its snapshot and publishes it.

**Proof sketch.** A pass that reads in full publishes a record of the game that runs, and is noted
with what it read. One that does not publishes a record that no poll answers from. What was
published before is replaced or stays. -/
theorem of_pass (h : Shown k) {s : Service} {calls : ℕ}
    (hphase : k.phase = .serving s.gameRunning) :
    Shown { k with
      bridge := k.bridge.snapshotFor s calls k.following, phase := .none, following := {} } := by
  let next := takeSnapshot k.bridge.nextSnapshot s k.following.ranges calls
  have hserving := h.serving _ hphase
  have hsnapshot : (k.bridge.snapshotFor s calls k.following).snapshot =
      publishSnapshot next.1 k.following.id next.2 k.bridge.snapshot := rfl
  cases hcomplete : next.2 with
  | true =>
    obtain ⟨hgame, hread⟩ := readInFull_takeSnapshot hcomplete
    let p : Pass :=
      ⟨k.following.id, k.following.ranges, k.bridge.history.game, s.read, calls, next.1.blocks⟩
    have hhistory : (k.bridge.snapshotFor s calls k.following).history =
        { k.bridge.history with passes := p :: k.bridge.history.passes } := if_pos hcomplete
    have hrunning : k.bridge.gameRunning = true := hserving.trans hgame
    constructor
    · nofun
    · nofun
    · intro snapshot hsome hheader
      have hsome : publishSnapshot next.1 k.following.id next.2 k.bridge.snapshot =
          some snapshot := hsnapshot ▸ hsome
      refine ⟨.inl hrunning, ?_⟩
      rw [show (k.bridge.snapshotFor s calls k.following).history = _ from hhistory]
      rcases poll_publishSnapshot hsome with hold | ⟨-, hid, hblocks⟩
      · obtain ⟨-, p', hp', hrest⟩ := h.snapshot snapshot hold hheader
        exact ⟨p', List.mem_cons_of_mem _ hp', hrest⟩
      · exact ⟨p, List.mem_cons_self, hid.symm, rfl, hblocks⟩
    · intro p' hp'
      rw [show (k.bridge.snapshotFor s calls k.following).history = _ from hhistory] at hp'
      rcases List.mem_cons.mp hp' with rfl | hold
      · exact hread
      · exact h.passes p' hold
    · intro c game hc
      rw [show (k.bridge.snapshotFor s calls k.following).history = _ from hhistory]
      exact h.looking c game hc
    · intro c game looked installed reply hmem hne
      unfold Bridge.ReadFor
      rw [show (k.bridge.snapshotFor s calls k.following).history = _ from hhistory] at hmem ⊢
      obtain ⟨hin, p', hp', hrest⟩ := h.polled c game looked installed reply hmem hne
      exact ⟨hin, p', List.mem_cons_of_mem _ hp', hrest⟩
  | false =>
    have hhistory : (k.bridge.snapshotFor s calls k.following).history = k.bridge.history :=
      if_neg (Bool.eq_false_iff.mp hcomplete)
    by_cases hgame : s.gameRunning = true
    · -- the old snapshot may stay, in the game that still runs
      have hrunning : k.bridge.gameRunning = true := hserving.trans hgame
      constructor
      · nofun
      · nofun
      · intro snapshot hsome hheader
        have hsome : publishSnapshot next.1 k.following.id next.2 k.bridge.snapshot =
            some snapshot := hsnapshot ▸ hsome
        refine ⟨.inl hrunning, ?_⟩
        rw [show (k.bridge.snapshotFor s calls k.following).history = _ from hhistory]
        rcases poll_publishSnapshot hsome with hold | ⟨hnew, -, -⟩
        · exact (h.snapshot snapshot hold hheader).2
        · rw [hnew, hcomplete] at hheader
          cases hheader
      · exact hhistory ▸ h.passes
      · exact hhistory ▸ h.looking
      · intro c game looked installed reply hmem hne
        obtain ⟨hin, hread⟩ := h.polled c game looked installed reply (hhistory ▸ hmem) hne
        exact ⟨hhistory ▸ hin, by unfold Bridge.ReadFor; exact hhistory ▸ hread⟩
    · refine h.of_incomplete (fun snapshot hsome => ?_) hhistory
      obtain ⟨hblocks, -⟩ := takeSnapshot_noGame k.bridge.nextSnapshot
        k.following.ranges calls (Bool.eq_false_iff.mpr hgame)
      obtain ⟨snapshot', hnew, hheader⟩ := publishSnapshot_nil _ hblocks k.following.id next.2
        k.bridge.snapshot
      rw [hsnapshot, hnew] at hsome
      obtain rfl := Option.some.inj hsome
      exact hheader.trans hcomplete

/-- **The moves keep what is published and what was polled.**

**Proof sketch.** By the move. A poll's two reads are of what is published between them, so its
reply is of the set that was looked at and of its game. A pass is `of_pass`, a game's start
`of_startGame`, and the others are frames. -/
theorem move {R : Rules} (h : Shown k) (hn : Numbered k) (hm : Move R k k') : Shown k' := by
  cases hm with
  | @begin c call hcall hb _ =>
    refine h.of_place rfl (fun _ => id) ?_ (fun _ _ _ _ _ => .inl)
    rintro game (rfl | ⟨looked, rfl⟩)
    · cases hb
    · cases hb
  | @go c call hadvance =>
    refine h.of_place rfl (fun _ => id) ?_ (fun _ _ _ _ _ => .inl)
    have hlooking := h.looking c
    generalize k.calls c = old at hadvance hlooking
    rintro game (rfl | ⟨looked, rfl⟩)
    · cases hadvance
      exact le_rfl
    · cases hadvance
      exact hlooking game (.inl rfl)
  | @refuse c result hearly _ _ =>
    refine h.of_place rfl (fun _ => id) (by simp) (fun c' game looked installed reply hmem => ?_)
    rcases List.mem_cons.mp hmem with heq | hold
    · cases heq
    · exact .inl hold
  | reset | clear =>
    exact h.of_place rfl (fun _ => List.mem_cons_of_mem _) (by simp) (fun _ _ _ _ _ => .inl)
  | number | readDirect | write | enqueue =>
    exact h.of_place rfl (fun _ => id) (by simp) (fun _ _ _ _ _ => .inl)
  | full | leave =>
    exact h.of_place (Bridge.published_wrote _ _ _) (fun _ hid => by simpa using hid) (by simp)
      (fun _ _ _ _ _ hmem => .inl (Bridge.mem_events_wrote _ _ hmem))
  | @abandon c hcall hdone _ _ =>
    refine h.of_place ((Bridge.published_wrote _ _ _).trans rfl) (fun id hid => ?_) (by simp)
      (fun _ _ _ _ _ hmem => .inl (Bridge.mem_events_wrote (k.bridge.abandon c) c hmem))
    rw [Bridge.installs_wrote]
    exact hid
  | @hand c hcall =>
    refine h.of_frame rfl rfl (fun _ => id) (fun c' game hc' => ?_) (fun _ _ _ _ _ => .inl)
    dsimp only [Core.keep, Core.place] at hc'
    split at hc'
    · simp at hc'
    · exact h.looking c' game hc'
  | @polled c game looked read hcall hread =>
    refine h.of_place rfl (fun _ => id) (by simp) (fun c' game' looked' installed reply hmem => ?_)
    rcases List.mem_cons.mp hmem with heq | hold
    · obtain ⟨-, rfl, rfl, -, hreply⟩ := Event.polled.inj heq
      refine .inr fun hne => ⟨(hn.looked c _ _ hcall).2, ?_⟩
      exact h.of_pollReply hn hcall hread hreply.symm hne
    · exact .inl hold
  | stop | space =>
    exact h.of_frame rfl rfl (fun _ => id) h.looking (fun _ _ _ _ _ => .inl)
  | startGame hphase =>
    exact h.of_startGame (b := k.bridge.startGame) hphase rfl k.bridge.events_startGame
      k.bridge.installs_startGame k.bridge.passes_startGame rfl k.bridge.game_startGame
        (.inl hphase)
  | endGame hphase =>
    exact h.of_stopGame (b := { k.bridge with gameRunning := false, queue := [] }) rfl rfl rfl
      (.inl rfl)
  | @service s hphase _ =>
    cases hgame : s.gameRunning with
    | true =>
      have hstore : k.bridge.storeGameRunning s.gameRunning = k.bridge.startGame := if_pos hgame
      unfold Bridge.takeQueue
      rw [hstore]
      refine h.of_startGame hphase ?_ ?_ ?_ ?_ ?_ ?_ (.inr rfl)
      · rfl
      · exact k.bridge.events_startGame
      · exact k.bridge.installs_startGame
      · exact k.bridge.passes_startGame
      · rfl
      · exact k.bridge.game_startGame
    | false =>
      have hstore : k.bridge.storeGameRunning s.gameRunning =
          { k.bridge with gameRunning := false } := if_neg (Bool.eq_false_iff.mp hgame)
      unfold Bridge.takeQueue
      rw [hstore]
      refine h.of_stopGame ?_ ?_ ?_ (.inr rfl)
      · rfl
      · rfl
      · rfl
  | @answer s calls c locked following hhold _ _ =>
    refine h.of_frame rfl (Bridge.published_answerOne _ _ _ _) ?_ h.looking
      (fun _ _ _ _ _ hmem => .inl (Bridge.mem_events_answerOne _ _ hmem))
    intro id hid
    exact (k.bridge.installs_answerOne c s calls).symm ▸ hid
  | @finish c locked hhold _ =>
    refine h.of_frame rfl (Bridge.published_completeOne _ _)
      (Bridge.mem_installs_completeOne _ _) h.looking (fun _ _ _ _ _ hmem => .inl ?_)
    exact (k.bridge.events_completeOne c) ▸ hmem
  | pass hphase _ => exact h.of_pass hphase
  | close hphase =>
    refine h.of_incomplete (fun snapshot hsome => ?_) rfl
    obtain ⟨snapshot', hnew, hheader⟩ := publishSnapshot_nil
      { k.bridge.nextSnapshot with playerRunning := 0, blocks := [] } rfl 0 false
      k.bridge.snapshot
    obtain rfl : snapshot' = snapshot := Option.some.inj (hnew.symm.trans hsome)
    exact hheader

end Shown

/-! ## One thread of calls -/

/-- What a single thread of calls has: a `Poll` finds at its end the subscription it looked at. -/
structure Alone (k : Core) : Prop where
  one : ∀ c c', (k.calls c).active = true → (k.calls c').active = true → c = c'
  looked : ∀ c game looked, k.calls c = .pollRead game looked →
    looked = ⟨k.bridge.subscriptionId, k.bridge.ranges⟩
  polled : ∀ c game looked installed reply,
    .polled c game looked installed reply ∈ k.bridge.history.events → installed = looked

/-- A call begins when no other is under way. -/
def oneThread : Rules where
  begins k _ := ∀ c, (k.calls c).active = false

namespace Alone

variable {k k' : Core}

/-- The one call under way goes on.

**Proof sketch.** The call that goes on is the active one, or begins while none is. What a poll
looked at is installed still, for no other call changes it. -/
theorem of_place (h : Alone k) {c : ℕ} {b : Bridge} {call : Call}
    (hactive : (k.calls c).active = true ∨
      (call.active = true → ∀ c', (k.calls c').active = false) ∧
        b.subscriptionId = k.bridge.subscriptionId ∧ b.ranges = k.bridge.ranges)
    (hlooked : ∀ game looked, call = .pollRead game looked →
      looked = ⟨b.subscriptionId, b.ranges⟩)
    (hevents : ∀ c game looked installed reply,
      .polled c game looked installed reply ∈ b.history.events →
      .polled c game looked installed reply ∈ k.bridge.history.events ∨ installed = looked) :
    Alone (k.place c b call) := by
  constructor
  · intro c' c'' hc' hc''
    dsimp only [Core.place] at hc' hc''
    rcases hactive with hactive | ⟨hnone, -, -⟩
    · split at hc'
      · rename_i heq
        split at hc''
        · rename_i heq'
          exact heq.trans heq'.symm
        · exact heq.trans (h.one c c'' hactive hc'')
      · split at hc''
        · rename_i heq'
          exact (h.one c' c hc' hactive).trans heq'.symm
        · exact h.one c' c'' hc' hc''
    · split at hc'
      · rename_i heq
        split at hc''
        · rename_i heq'
          exact heq.trans heq'.symm
        · rw [hnone hc' c''] at hc''
          cases hc''
      · split at hc''
        · rw [hnone hc'' c'] at hc'
          cases hc'
        · exact h.one c' c'' hc' hc''
  · intro c' game looked hc'
    dsimp only [Core.place] at hc'
    split at hc'
    · exact hlooked game looked hc'
    · rename_i hne
      rcases hactive with hactive | ⟨-, hid, hranges⟩
      · exact absurd (h.one c' c (by rw [hc']; rfl) hactive) hne
      · rw [show (k.place c b call).bridge.subscriptionId = _ from hid,
          show (k.place c b call).bridge.ranges = _ from hranges]
        exact h.looked c' game looked hc'
  · intro c' game looked installed reply hmem
    rcases hevents c' game looked installed reply hmem with hold | hnew
    · exact h.polled c' game looked installed reply hold
    · exact hnew

/-- The calls stay where they are, and so does the subscription. -/
theorem of_bridge (h : Alone k) (hcalls : k'.calls = k.calls)
    (hcurrent : k'.bridge.subscriptionId = k.bridge.subscriptionId ∧
      k'.bridge.ranges = k.bridge.ranges)
    (hevents : ∀ c game looked installed reply,
      .polled c game looked installed reply ∈ k'.bridge.history.events →
      .polled c game looked installed reply ∈ k.bridge.history.events) : Alone k' := by
  constructor
  · rw [hcalls]
    exact h.one
  · rw [hcalls, hcurrent.1, hcurrent.2]
    exact h.looked
  · exact fun c game looked installed reply hmem =>
      h.polled c game looked installed reply (hevents c game looked installed reply hmem)

/-- **The moves of one thread keep it alone.**

**Proof sketch.** By the move: a call begins only while none is active, and goes on as the one that
is. `Service` installs only the set of a request that waits, which is that call's, so a poll finds
what it looked at. -/
theorem move (h : Alone k) (hf : Filed k) (hm : Move oneThread k k') : Alone k' := by
  cases hm with
  | @begin c call hcall hb hmay =>
    refine h.of_place (.inr ⟨fun _ => hmay, rfl, rfl⟩) ?_ (fun _ _ _ _ _ => .inl)
    rintro game looked rfl
    cases hb
  | @go c call hadvance =>
    have hactive : (k.calls c).active = true := by
      generalize k.calls c = old at hadvance
      cases hadvance <;> rfl
    refine h.of_place (.inl hactive) ?_ (fun _ _ _ _ _ => .inl)
    rintro game looked rfl
    generalize k.calls c = old at hadvance
    cases hadvance
    rfl
  | @refuse c result hearly _ _ =>
    refine h.of_place (.inr ⟨(fun hactive => by cases hactive), rfl, rfl⟩) (by simp)
      (fun c' game looked installed reply hmem => ?_)
    rcases List.mem_cons.mp hmem with heq | hold
    · cases heq
    · exact .inl hold
  | reset hcall | clear hcall | number hcall | readDirect hcall | write hcall | enqueue hcall =>
    exact h.of_place (.inl (by rw [hcall]; rfl)) (by simp) (fun _ _ _ _ _ => .inl)
  | @full c hcall | @leave c hcall =>
    exact h.of_place (.inl (by rw [hcall]; rfl)) (by simp)
      (fun _ _ _ _ _ hmem => .inl (Bridge.mem_events_wrote _ _ hmem))
  | @abandon c hcall =>
    exact h.of_place (.inl (by rw [hcall]; rfl)) (by simp)
      (fun _ _ _ _ _ hmem => .inl (Bridge.mem_events_wrote (k.bridge.abandon c) c hmem))
  | @hand c hcall =>
    have hplace : Alone (k.place c k.bridge .wait) :=
      h.of_place (.inl (by rw [hcall]; rfl)) (by simp) (fun _ _ _ _ _ => .inl)
    exact ⟨hplace.one, hplace.looked, hplace.polled⟩
  | @polled c game looked read hcall _ =>
    refine h.of_place (.inl (by rw [hcall]; rfl)) (by simp)
      (fun c' game' looked' installed reply hmem => ?_)
    rcases List.mem_cons.mp hmem with heq | hold
    · obtain ⟨-, -, rfl, rfl, -⟩ := Event.polled.inj heq
      exact .inr (h.looked c _ _ hcall).symm
    · exact .inl hold
  | stop | space | endGame | close => exact ⟨h.one, h.looked, h.polled⟩
  | startGame =>
    exact h.of_bridge rfl ⟨rfl, rfl⟩ (fun _ _ _ _ _ hmem => k.bridge.events_startGame ▸ hmem)
  | @service s =>
    have hcurrent := k.bridge.numbers_takeQueue s
    refine h.of_bridge rfl ?_ (fun _ _ _ _ _ hmem => k.bridge.events_takeQueue s ▸ hmem)
    simp only [Bridge.numbers, Prod.mk.injEq, Installed.mk.injEq] at hcurrent
    exact hcurrent.2.1
  | @answer s calls c =>
    exact h.of_bridge rfl ⟨rfl, rfl⟩
      (fun _ _ _ _ _ hmem => Bridge.mem_events_answerOne _ _ hmem)
  | @finish c locked hhold _ =>
    by_cases hi : k.bridge.installs (k.bridge.requests c) = true
    · -- whose request is installed waits for it, and so does not look
      have hwait : (k.calls c).active = true := by
        have hheld := (hf.filedAt c).held (by rw [hhold]; simp)
        simp only [Bridge.installs, Bool.and_eq_true, Bool.not_eq_true'] at hi
        rcases hheld.2 with ⟨hwait, -⟩ | ⟨-, habandoned⟩
        · rw [hwait]
          rfl
        · rw [habandoned] at hi
          cases hi.1.1
      refine ⟨h.one, fun c' game looked hc' => ?_, ?_⟩
      · have hcc : c' = c := h.one c' c (by rw [show k.calls c' = _ from hc']; rfl) hwait
        have hheld := (hf.filedAt c).held (by rw [hhold]; simp)
        rw [hcc] at hc'
        rw [show k.calls c = _ from hc'] at hheld
        simp at hheld
      · exact (k.bridge.events_completeOne c).symm ▸ h.polled
    · refine h.of_bridge rfl ?_ (fun _ _ _ _ _ hmem => k.bridge.events_completeOne c ▸ hmem)
      dsimp only [Core.keep]
      rw [Bridge.completeOne_eq, if_neg hi, if_neg hi]
      exact ⟨rfl, rfl⟩
  | @pass s calls =>
    refine h.of_bridge rfl ⟨rfl, rfl⟩ (fun _ _ _ _ _ hmem => ?_)
    exact k.bridge.events_snapshotFor s calls k.following ▸ hmem

end Alone

/-- Nothing is published at the start, and no call is under way. -/
theorem Shown.start : Shown {} :=
  ⟨nofun, nofun, nofun, nofun, by simp, nofun⟩

/-- At the start there are no calls to overlap. -/
theorem Alone.start : Alone {} :=
  ⟨nofun, nofun, nofun⟩

/-- The worker's thread follows the rule of one thread. -/
theorem allows_workerThread (s : State) (a : Act) (hs : Sound s) (h : workerThread s a) :
    oneThread.Allows s a := by
  refine ⟨fun call hcall c => ?_, fun _ _ => trivial, fun _ => trivial⟩
  rcases Nat.lt_or_ge c s.started with hlt | hge
  · exact h (by rw [hcall]; rfl) c hlt
  · rw [show (core s).calls c = .unused from hs.unused c hge]
    rfl

/-- What holds of the polls of one thread. -/
theorem polled_of_workerThread {s : State} (h : system.Reaches workerThread s) :
    Sound s ∧ Numbered (core s) ∧ Shown (core s) ∧ Alone (core s) :=
  holds_of_reaches allows_workerThread (I := fun k => Numbered k ∧ Shown k ∧ Alone k)
    ⟨Numbered.start, Shown.start, Alone.start⟩
    (fun _ _ hf hi hm => ⟨hi.1.move hf hm, hi.2.1.move hi.1 hm, hi.2.2.move hf hm⟩) h

/-- **A poll serves the installed ranges**: in every interleaving of the worker's calls with the
API thread, a `Poll` that answers while ranges are installed returns them in order, each in full,
read in one `Service` pass for that subscription in a game that still ran when the `Poll` looked or
began since; and nobody gave up on that subscription.

**Proof sketch.** A complete snapshot is published with the id it was read for, an id stands for
one set for good (`Numbered.move`), and whenever a game begins there is no complete snapshot
(`Shown.move`). What is installed does not change under a `Poll`, as a request that nobody gave up
on is waited for by the thread that polls (`Alone.move`). -/
theorem serves_installed {s : State} (h : system.Reaches workerThread s) {c game : ℕ}
    {looked installed : Installed} {reply : Wire.PollReply}
    (hpoll : .polled c game looked installed (some reply) ∈ s.bridge.history.events)
    (hne : installed.ranges ≠ []) :
    reply.blocks.map (fun block => (block.address, block.bytes.length)) =
        installed.ranges.map (fun range => (range.address, range.length.toNat)) ∧
      s.bridge.ReadFor installed game reply.blocks ∧
      ∀ c', (s.bridge.requests c').kind = .subscribe →
        (s.bridge.requests c').abandoned = true →
        (s.bridge.requests c').subscriptionId ≠ installed.id := by
  obtain ⟨-, hn, hs, ha⟩ := polled_of_workerThread h
  obtain rfl := ha.polled c game looked installed (some reply) hpoll
  obtain ⟨hin, hread⟩ := hs.polled c game installed installed reply hpoll hne
  refine ⟨?_, hread, fun c' hkind habandoned heq => ?_⟩
  · exact hread.map_eq
  · have hinstalled := hn.installs c' hkind (heq ▸ hin)
    exact absurd (habandoned.symm.trans hinstalled.2) nofun

/-- Two ranges are subscribed to, read and polled. -/
def pollingRun : List Act :=
  [.setGameRunning true, .subscribe [⟨0, 2⟩, ⟨16, 1⟩], .advance 0, .advance 0, .advance 0,
    .service { read := .filled (fun _ _ size => size) fun calls => UInt8.ofNat calls,
               frame := 1, gameRunning := true },
    .phase, .phase, .advance 0, .poll, .advance 1, .advance 1, .advance 1]

/-- The `Poll` finds what the pass read after it had answered the `Subscribe`. -/
theorem serves_installed_pollingRun : ∃ s, Runs.runOf step {} pollingRun = some s ∧
    s.bridge.ReadFor ⟨1, [⟨0, 2⟩, ⟨16, 1⟩]⟩ 1 [⟨0, [2, 2]⟩, ⟨16, [3]⟩] := by
  let looked : Installed := ⟨1, [⟨0, 2⟩, ⟨16, 1⟩]⟩
  let reply : Wire.PollReply := { frame := 1, blocks := [⟨0, [2, 2]⟩, ⟨16, [3]⟩] }
  have hrun : (Runs.runOf step {} pollingRun).any (fun s => decide
      (.polled 1 1 looked looked (some reply) ∈ s.bridge.history.events)) = true := by
    decide +kernel
  obtain ⟨s, hs, hpoll⟩ := (Option.any_eq_true _ _).mp hrun
  have halong : Runs.holdsAlong step (fun s a => decide (workerThread s a)) {} pollingRun =
      true := by
    decide +kernel
  have hreach : system.Reaches workerThread s :=
    Runs.System.Reaches.runOf (fun _ _ h => of_decide_eq_true h) pollingRun (.init rfl) halong hs
  exact ⟨s, hs, (serves_installed hreach (of_decide_eq_true hpoll) nofun).2.1⟩

end Memory
