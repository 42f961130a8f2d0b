import ScorbitPlugin.Worker.Flow

set_option relaxedAutoImplicit false
set_option autoImplicit false

/-!
# The open game kept for a replay

`m_openGame` holds a gap-free run of one game in every state of a run, provided no session ends
with the tail of a replay still queued and its start already dropped: such a tail would be taken
back as the open game. A session ends so when the table stopped being served during a replay.

## Main definitions

* `Worker.SameGame` — two batches are of one game.
* `Worker.GamePath.RetainsGame` — what is claimed of the open game.
* `Worker.GamePath.ReplayWhole` — the condition on the steps.

## Main results

* `Worker.retains_game` — it holds in every state of the runs under the condition.
* `Worker.not_retains_game` — and fails in one of the others.
-/

namespace Worker

open Codec

/-! ## Batch ids -/

/-- Batches with ids counted on have consecutive ones. -/
theorem batchIds_numberedFrom (id : UInt32) (posts : List GamePost) :
    (numberedFrom id posts).map (·.batch.batchId) =
      (List.range posts.length).map fun i => id + UInt32.ofNat i := by
  induction posts generalizing id with
  | nil => rfl
  | cons post posts ih =>
    rw [numberedFrom, List.map_cons, ih, List.length_cons, List.range_succ_eq_map, List.map_cons,
      List.map_map]
    congr 1
    · simp
    · refine List.map_congr_left fun i _ => ?_
      show id + 1 + UInt32.ofNat i = id + UInt32.ofNat (i + 1)
      rw [UInt32.ofNat_add, UInt32.add_assoc, UInt32.add_comm 1]
      rfl

/-- The ids of batches numbered from `1`. -/
def batchIds (n : ℕ) : List UInt32 := (List.range n).map fun i => UInt32.ofNat (i + 1)

/-- The ids go on counting. -/
theorem batchIds_add (m n : ℕ) :
    batchIds (m + n) = batchIds m ++ (List.range n).map fun i =>
      UInt32.ofNat (m + 1) + UInt32.ofNat i := by
  rw [batchIds, List.range_add, List.map_append, List.map_map]
  congr 1
  refine List.map_congr_left fun i _ => ?_
  show UInt32.ofNat (m + i + 1) = _
  rw [← UInt32.ofNat_add]
  congr 1
  omega

/-- Fewer than `2^32` ids are increasing.

**Proof sketch.** The ids count on from `1`, and below `2 ^ 32` no `uint32_t` wraps. -/
theorem pairwise_batchIds {n : ℕ} (h : n < 2 ^ 32) : (batchIds n).Pairwise (· < ·) := by
  refine List.pairwise_map.mpr (List.pairwise_lt_range.imp_of_mem fun {i j} _ hj hij => ?_)
  have hj := List.mem_range.mp hj
  rw [UInt32.lt_iff_toNat_lt, UInt32.toNat_ofNat_of_lt' (by simp [UInt32.size]; omega),
    UInt32.toNat_ofNat_of_lt' (by simp [UInt32.size]; omega)]
  omega

namespace GamePath

variable {Ask : Type} {p p' : GamePath Ask} {m : Move}

/-- The batches taken are numbered from `1` on. -/
structure Numbered (p : GamePath Ask) : Prop where
  ids : p.log.taken.map (·.batch.batchId) = batchIds p.log.taken.length
  next : p.games.nextBatchId = UInt32.ofNat (p.log.taken.length + 1)

/-- Batches taken from the source get the next ids. -/
theorem Numbered.takeSourceGames (h : p.Numbered) : p.takeSourceGames.Numbered where
  ids := by
    simp only [GamePath.takeSourceGames, List.map_append, h.ids, batchIds_numberedFrom, h.next,
      List.length_append, length_numberedFrom, batchIds_add]
  next := by
    simp only [GamePath.takeSourceGames, Games.takeSourceGames, h.next, List.length_append,
      length_numberedFrom, ← UInt32.ofNat_add]
    congr 1
    omega

/-- Every move keeps the numbering.

**Proof sketch.** Only a handshake and `SendGames` take batches, with the ids counted on. The other
moves leave the batches taken and the next id. -/
theorem Numbered.moves (h : p.Numbered) (ht : p.Tracked) (hm : p.Moves m p') : p'.Numbered := by
  have hs := h.takeSourceGames
  cases hm with
  | handshake ack request hpc =>
    have hsound := ht.sound.takeSourceGames p.source.queue
    refine ⟨by simpa [GamePath.handshake] using hs.ids, ?_⟩
    simpa [GamePath.handshake, GamePath.takeSourceGames, hsound] using hs.next
  | took flush hpc =>
    refine ⟨hs.ids, Eq.trans ?_ hs.next⟩
    simp only [takeGames]
    split
    · exact Games.insertReplay_nextBatchId _ _
    · rfl
  | acked flush request front rest hpc hg =>
    obtain ⟨-, he⟩ := ht.epoch_front hpc hg
    refine ⟨h.ids, Eq.trans ?_ h.next⟩
    rw [gameAcked_games, Games.acknowledged_eq ht.sound.ops _ he]
  | refused flush request front rest hpc hg =>
    obtain ⟨-, he⟩ := ht.epoch_front hpc hg
    refine ⟨h.ids, Eq.trans ?_ h.next⟩
    rw [gameRefused_games, Games.refused_eq ht.sound.ops he]
    split <;> rfl
  | declared now request hpc =>
    refine ⟨h.ids, Eq.trans ?_ h.next⟩
    simp only [declareAcked]
    split <;> rfl
  | posted | committed | evicted | connected | failed | ended | redeclared | left | leftUnserved
  | dropped | droppedUnserved | sent | declaring | moved => exact ⟨h.ids, h.next⟩

/-! ## The start of the game -/

/-- The first of the batches, if there is one, begins a game. -/
def StartsGame (posts : List GamePost) : Prop := ∀ q ∈ posts.head?, q.starts = true

/-- Without batches no start is missing. -/
theorem StartsGame.nil : StartsGame [] := by simp [StartsGame]

/-- The first part of batches that begin a game begins it. -/
theorem StartsGame.of_append {l l' : List GamePost} (h : StartsGame (l ++ l')) : StartsGame l := by
  cases l with
  | nil => exact .nil
  | cons q l => exact h

/-- **The condition**: no session ends with the rest of a replay queued, its start dropped and
nothing of it retained. And `uint32_t` ids suffice. -/
def ReplayWhole (p : GamePath Ask) : Move → Prop
  | .ended => 0 < p.games.replayQueued → p.games.openGame = [] → StartsGame p.games.games
  | .took | .handshake _ => p.log.taken.length + p.source.queue.length < 2 ^ 32
  | _ => True

/-- The retained batches have their game's start, except under a table that is not served. -/
structure Whole (p : GamePath Ask) : Prop where
  openGame : StartsGame p.games.openGame
  served : p.served = true → p.games.replayPending = false → StartsGame p.games.retained
  /-- Nor does a connection that ended leave a part without its start. -/
  between : (p.pc = .offline ∨ ∃ request, p.pc = .exchange request .hello) →
    StartsGame p.games.retained

/-- What leaves the batches and the declared table alone. -/
theorem Whole.frame (h : p.Whole) (hg : p'.games = p.games) (hs : p'.served = p.served)
    (hpc : (p'.pc = .offline ∨ ∃ request, p'.pc = .exchange request .hello) →
      p.pc = .offline ∨ ∃ request, p.pc = .exchange request .hello) : p'.Whole :=
  ⟨hg ▸ h.openGame, by rw [hg, hs]; exact h.served, fun h' => hg ▸ h.between (hpc h')⟩

/-- Retained batches with their game's start, at a place in a session. -/
theorem Whole.of_retained (hr : StartsGame p.games.retained) : p.Whole :=
  ⟨hr.of_append, fun _ _ => hr, fun _ => hr⟩

/-- A worker at a place in a session is neither offline nor at its Hello. -/
theorem not_between_of_quiet {pc : Pc Ask} (hq : pc.quiet) :
    ¬ (pc = .offline ∨ ∃ request, pc = .exchange request .hello) := by
  rintro (rfl | ⟨request, rfl⟩) <;> cases hq

/-- Popping a batch unsent leaves the open game, and only a table not served loses its start.

**Proof sketch.** The open game is not touched. Under a served table only a batch of an earlier
epoch is dropped, and a replayed one is of the declared epoch, so it was a fresh one. -/
theorem Whole.dropFront (h : p.Whole) (ht : p.Tracked) {flush : Bool} {front : GamePost}
    {rest : List GamePost} (hpc : p.pc = .sendGames flush) (hg : p.games.games = front :: rest)
    (hd : p.link.haveDeclared = true)
    (hw : front.epoch < p.link.declared.epoch ∨ p.served = false) {q : GamePath Ask}
    (hgames : q.games = p.games.popGame) (hs : q.served = p.served)
    (hq : q.pc = p.pc) : q.Whole := by
  refine ⟨hgames ▸ h.openGame, fun hs' hr => ?_, fun hpc' => ?_⟩
  · rw [hs] at hs'
    rcases Nat.eq_zero_or_pos p.games.replayQueued with hn | hn
    · rw [hgames, Games.retained_popGame_fresh hn]
      exact h.served hs' (ht.sending flush hpc hd)
    · have := ht.epoch hd (ht.sending flush hpc hd) front (mem_retained_of_replayed hg hn)
      rcases hw with hw | hw
      · omega
      · simp [hw] at hs'
  · rw [hq, hpc] at hpc'
    simp at hpc'

/-- Every move under the condition keeps the start of the game.

**Proof sketch.** By the kind of the move. When a connection ends, the condition gives the start of
what is retained, or the open game has it. A replay that is put into the queue, or taken back, is
the open game from its start on. An acknowledged batch begins the game or goes on with one that has
its start; and a new table, or a refusal, retains nothing. -/
theorem Whole.moves (h : p.Whole) (ht : p.Tracked) (hc : ReplayWhole p m)
    (hm : p.Moves m p') : p'.Whole := by
  have hsound := ht.sound.takeSourceGames p.source.queue
  cases hm with
  | posted | committed | evicted => exact h.frame rfl rfl id
  | connected payload hpc => exact .of_retained (h.between (.inl hpc))
  | failed hpc => exact .of_retained (h.between (.inl hpc))
  | ended hpc =>
    refine .of_retained ?_
    rcases Nat.eq_zero_or_pos p.games.replayQueued with hn | hn
    · exact (Games.retained_of_zero hn).symm ▸ h.openGame
    · show StartsGame (p.games.openGame ++ p.games.games.take p.games.replayQueued)
      cases ho : p.games.openGame with
      | nil =>
        rw [List.nil_append]
        have hgames : StartsGame (p.games.games.take p.games.replayQueued ++ p.games.fresh) :=
          Games.games_eq ▸ hc hn ho
        exact hgames.of_append
      | cons q l =>
        have := h.openGame
        rw [ho] at this
        exact this
  | handshake ack request hpc =>
    have hr := h.between (.inr ⟨request, hpc⟩)
    rw [← Games.retained_takeSourceGames ht.sound p.source.queue,
      ← Games.retained_handshake hsound,
      ← Games.eraseFragment_retained (Games.handshake_replayQueued hsound)] at hr
    exact .of_retained hr
  | took flush hpc =>
    by_cases hw : p.games.replayPending = true ∧ p.link.haveDeclared = true
    · have hn := hsound.pending hw.1
      have hgames : (p.takeGames flush).games =
          (p.games.takeSourceGames p.source.queue).insertReplay p.link.declared := if_pos hw
      refine .of_retained ?_
      rw [hgames]
      rcases Games.retained_insertReplay hn p.link.declared with hr | ⟨hr, -⟩
      · exact hr ▸ .nil
      · rw [hr, Games.retained_of_zero hn]
        exact h.openGame
    · have hgames : (p.takeGames flush).games = p.games.takeSourceGames p.source.queue :=
        if_neg hw
      refine ⟨hgames ▸ h.openGame, fun hs hr => ?_, fun hpc' => by simp [takeGames] at hpc'⟩
      rw [hgames, Games.retained_takeSourceGames ht.sound]
      rw [hgames] at hr
      exact h.served hs hr
  | redeclared pc hpc hq | left flush pc hpc hq | leftUnserved flush pc hpc hq =>
    exact h.frame rfl rfl fun hb => absurd hb (not_between_of_quiet hq)
  | dropped flush front rest hpc hg hd he => exact h.dropFront ht hpc hg hd (.inl he) rfl rfl rfl
  | droppedUnserved flush front rest hpc hg hd he hs hc' =>
    exact h.dropFront ht hpc hg hd (.inr (by simp [GamePath.served, hs])) rfl rfl rfl
  | sent flush front rest hpc hg hd he hs => exact h.frame rfl rfl (by simp [sendFront, send])
  | acked flush request front rest hpc hg =>
    obtain ⟨hs, hr, -⟩ := ht.awaiting request flush hpc
    obtain ⟨-, he⟩ := ht.epoch_front hpc hg
    have hstart := h.served hs hr
    refine .of_retained ?_
    rw [gameAcked_games]
    rcases Nat.eq_zero_or_pos p.games.replayQueued with hn | hn
    · rw [Games.retained_acknowledged_fresh ht.sound hn _ he]
      rcases Games.extended_cases p.games.retained front with
        hx | ⟨-, -, ⟨hfs, hx⟩ | ⟨-, hne, hx⟩⟩ <;> rw [hx]
      · exact .nil
      · simpa [StartsGame] using hfs
      · intro q hq
        rw [List.head?_append_of_ne_nil _ hne] at hq
        exact hstart q hq
    · rcases Games.retained_acknowledged_replayed ht.sound hg hn p.link.declared.identity with
        hx | ⟨-, hfs, hx⟩
      · exact hx ▸ hstart
      · have := hstart front (by simp [hx])
        simp [hfs] at this
  | refused flush request front rest hpc hg =>
    obtain ⟨-, he⟩ := ht.epoch_front hpc hg
    refine .of_retained ?_
    rw [gameRefused_games, Games.retained_refused ht.sound.ops he]
    exact .nil
  | declaring payload hpc => exact h.frame rfl rfl (by simp [send])
  | declared now request hpc =>
    have hquiet := quiet_declareAcked p now
    by_cases hnew : p.link.newTable now = true
    · refine .of_retained ?_
      simp [declareAcked, hnew, Games.retained_newTable, StartsGame.nil]
    · have hgames : (p.declareAcked now).games = p.games := by simp [declareAcked, hnew]
      refine ⟨hgames ▸ h.openGame, fun hs hr => ?_,
        fun hb => absurd hb (not_between_of_quiet hquiet)⟩
      rw [hgames] at hr ⊢
      -- a table served as before, or a session's first Declare with no replay under way
      cases hd : p.link.haveDeclared with
      | true => exact h.served ((served_declareAcked hd hnew).2 ▸ hs) hr
      | false =>
        obtain ⟨hn, ho⟩ := ht.opening hd (by simp [hpc]) (by simp [hpc])
        rw [Games.retained_of_zero hn]
        exact h.openGame
  | moved seq pc hpc =>
    rcases hpc with rfl | ⟨-, hq⟩
    · exact h.frame rfl rfl id
    · exact h.frame rfl rfl fun hb => absurd hb (not_between_of_quiet hq)

end GamePath

/-! ## What is retained of the open game -/

/-- Two batches are of one game: no batch taken begins a game between them. -/
def SameGame (taken : List GamePost) (a b : GamePost) : Prop :=
  ∀ r ∈ taken, r.starts = true → (r.serial ≤ a.serial ↔ r.serial ≤ b.serial)

namespace GamePath

variable {Ask : Type} {p p' : GamePath Ask} {m : Move}

/-- **The open game is a gap-free run of one game**, and the counters count it. -/
structure RetainsGame (p : GamePath Ask) : Prop where
  /-- Its first batch begins the game. -/
  start : StartsGame p.games.openGame
  /-- No other batch begins one. -/
  noOtherStart : ∀ q ∈ p.games.openGame.tail, q.starts = false
  /-- No batch ends it. -/
  noEnd : ∀ q ∈ p.games.openGame, q.ends = false
  /-- All batches are of the epoch of the game last acknowledged. -/
  oneEpoch : ∀ q ∈ p.games.openGame, q.epoch = p.games.gameOpenEpoch
  /-- The batch ids increase. -/
  ids : p.games.openGame.Pairwise fun a b => a.batch.batchId < b.batch.batchId
  /-- It is all that was taken between its first and its last batch. -/
  gapFree : p.games.openGame <:+: p.log.taken
  /-- Its op count. -/
  ops : p.games.openGameOps = opsOf p.games.openGame
  /-- The op count is bounded. -/
  room : p.games.openGameOps ≤ maxQueuedGameOps
  /-- A replay is queued as a whole. -/
  queued : p.games.replayQueued ≤ p.games.games.length
  /-- The batches counted as replayed were acknowledged before. -/
  replayed : ∀ q ∈ p.games.games.take p.games.replayQueued, .acked q ∈ p.log.events
  /-- The batches behind them never were, nor refused. -/
  unanswered : ∀ q ∈ p.games.games.drop p.games.replayQueued,
    .acked q ∉ p.log.events ∧ .refused q ∉ p.log.events
  /-- No batch of the game was ever refused. -/
  unrefused : ∀ r, .refused r ∈ p.log.events → ∀ q ∈ p.games.openGame,
    ¬ SameGame p.log.taken r q

/-- The invariants make the open game such a run.

**Proof sketch.** The batches of the open game stand together in the order they were taken, so their
ids increase and nothing is missing between them. That its first batch begins the game is `Whole`. A
refused batch of its game would have been taken after its start; but whatever was refused was taken
before all that is retained. -/
theorem retainsGame (hs : p.Sorted) (hn : p.Numbered) (hw : p.Whole)
    (hlen : p.log.taken.length < 2 ^ 32) : p.RetainsGame := by
  have hsub : ∀ q ∈ p.games.openGame, q ∈ p.games.retained :=
    fun q hq => List.mem_append_left _ hq
  have hinfix : p.games.openGame <:+: p.log.taken := by
    obtain ⟨done, skipped, heq, -⟩ := hs.tracked.placed
    refine ⟨done, p.games.games.take p.games.replayQueued ++ skipped ++ p.games.fresh, ?_⟩
    simp [heq, Games.retained]
  refine ⟨hw.openGame, fun q hq => ?_, fun q hq => hs.tracked.sound.ends q (hsub q hq),
    fun q hq => hs.tracked.sound.epoch q (hsub q hq), ?_, hinfix, hs.tracked.sound.ops, ?_,
    hs.tracked.sound.queued, fun q hq => hs.settled.retained q (List.mem_append_right _ hq),
    fun q hq => ⟨fun hm => ?_, fun hm => ?_⟩, fun r hr q hq hsame => ?_⟩
  · refine hs.tracked.sound.starts q ?_
    have hne : p.games.openGame ≠ [] := by
      rintro ho
      simp [ho] at hq
    rw [Games.retained, List.tail_append_of_ne_nil hne]
    exact List.mem_append_left _ hq
  · have hids : (p.log.taken.map (·.batch.batchId)).Pairwise (· < ·) :=
      hn.ids ▸ pairwise_batchIds hlen
    exact (List.pairwise_map.mp hids).sublist hinfix.sublist
  · have := hs.tracked.sound.room
    rw [Games.retained, opsOf_append] at this
    rw [hs.tracked.sound.ops]
    omega
  · exact absurd (hs.settled.fresh _ hm q rfl q hq) (lt_irrefl _)
  · exact absurd (hs.settled.fresh _ hm q rfl q hq) (lt_irrefl _)
  · -- the game's start would have been taken before the refused batch
    cases ho : p.games.openGame with
    | nil => simp [ho] at hq
    | cons first l =>
      have hfirst : first ∈ p.games.retained := hsub first (by simp [ho])
      have hstart : first.starts = true := hw.openGame first (by simp [ho])
      have hle : first.serial ≤ q.serial := by
        have hpair := hs.tracked.placed.pairwise hs.ordered.taken
        rw [Games.retained, ho] at hpair
        rw [ho] at hq
        rcases List.mem_cons.mp hq with rfl | hq
        · exact le_rfl
        · exact ((List.pairwise_cons.mp hpair).1 q (by simp [hq])).serial.le
      have hlt := hs.settled.refused r hr first hfirst
      have := (hsame first (hs.tracked.mem_taken (.inl hfirst)) hstart).mpr hle
      omega

/-- The invariants of a run whose steps keep replays whole.

**Proof sketch.** The three invariants are kept by every move, and the condition bounds the number
of batches at the two moves that take some. -/
theorem whole (h : system.Reaches ReplayWhole p) :
    p.Sorted ∧ p.Numbered ∧ p.Whole ∧ p.log.taken.length < 2 ^ 32 := by
  refine h.invariant
    (I := fun p => p.Sorted ∧ p.Numbered ∧ p.Whole ∧ p.log.taken.length < 2 ^ 32) ?_ ?_
  · intro p hp
    refine ⟨sorted_init hp, ?_, ?_, ?_⟩ <;> obtain ⟨d, rfl⟩ := hp
    · exact ⟨rfl, rfl⟩
    · exact .of_retained .nil
    · exact Nat.two_pow_pos 32
  · intro p m p' ⟨hs, hn, hw, hlen⟩ hc hm
    refine ⟨hs.moves hm, hn.moves hs.tracked hm, hw.moves hs.tracked hc hm, ?_⟩
    cases hm with
    | took flush hpc =>
      show (p.log.taken ++ numberedFrom _ _).length < _
      rw [List.length_append, length_numberedFrom]
      exact hc
    | handshake ack request hpc =>
      show (noteDropped _ _).taken.length < _
      rw [noteDropped_taken]
      show (p.log.taken ++ numberedFrom _ _).length < _
      rw [List.length_append, length_numberedFrom]
      exact hc
    | _ => exact hlen

end GamePath

/-- **The open game is kept whole.** In every state of a run of the worker in which no session
ends with the rest of a replay whose start was dropped, the open game is a gap-free run of one
game.

**Proof sketch.** Every run of the worker is a run of moves of the game path (`simulation`), on
which the batches taken are numbered on, what is retained stays in order, and the retained batches
keep the start of their game (`whole`). Together these are what is stated (`retainsGame`). -/
theorem retains_game (cfg : Config) {s : State}
    (h : (system cfg).Reaches (Held cfg GamePath.ReplayWhole) s) : s.path.RetainsGame := by
  obtain ⟨hs, hn, hw, hlen⟩ := GamePath.whole ((simulation cfg _).reaches h)
  exact GamePath.retainsGame hs hn hw hlen

/-- Three batches of a game are acknowledged and the connection ends. The next one ends too, when
the first of them was acknowledged again. -/
def cutReplayRun : List Act :=
  [.commit startBatch, .commit ballBatch, .commit ballBatch,
    .connect (some []), helloAckOf 1 Wire.capAuthoredTables, .go, .go, .go, ackOf 2,
    .go, .go, ackOf 3, .go, ackOf 4, .go, ackOf 5, .go, .go, .go, .cut,
    .connect (some []), helloAckOf 1 Wire.capAuthoredTables, .go, .go, .go, ackOf 2,
    .go, .go, ackOf 3, .go, .cut]

/-- The next connection. -/
def takeBackRun : List Act := [.connect (some []), helloAckOf 1 Wire.capAuthoredTables]

/-- Whatever comes next meets the condition. -/
def GamePath.ReplayWholeNow {Ask : Type} (p : GamePath Ask) : Prop :=
  (0 < p.games.replayQueued → p.games.openGame = [] → StartsGame p.games.games) ∧
    p.log.taken.length + p.source.queue.length < 2 ^ 32

instance {Ask : Type} (p : GamePath Ask) : Decidable p.ReplayWholeNow := by
  unfold GamePath.ReplayWholeNow GamePath.StartsGame
  infer_instance

/-- Then every step holds to the condition. -/
theorem GamePath.ReplayWholeNow.held {s : State} (h : s.path.ReplayWholeNow) (a : Act) :
    Held {} GamePath.ReplayWhole s a := by
  refine .of_moves (fun m _ _ => ?_) a
  cases m with
  | ended => exact h.1
  | took | handshake => exact h.2
  | _ => trivial

/-- Two batches of the replay are left queued then, and the handshake after takes them back behind
the first: the open game is whole again. -/
theorem retains_game_cutReplayRun : ∃ s s',
    Runs.runOf (step {}) (start (tableOf 1 0)) cutReplayRun = some s ∧
    s.path.games.openGame.length = 1 ∧ s.path.games.replayQueued = 2 ∧
    Runs.runOf (step {}) s takeBackRun = some s' ∧
    s'.path.games.openGame.length = 3 ∧ s'.path.RetainsGame := by
  have hrun : (Runs.runOf (step {}) (start (tableOf 1 0)) cutReplayRun).any (fun s =>
      decide (s.path.games.openGame.length = 1 ∧ s.path.games.replayQueued = 2) &&
        Runs.holdsAlong (step {}) (fun s _ => decide s.path.ReplayWholeNow) s takeBackRun &&
        (Runs.runOf (step {}) s takeBackRun).any
          (·.path.games.openGame.length == 3)) = true := by
    decide +kernel
  have halong : Runs.holdsAlong (step {}) (fun s _ => decide s.path.ReplayWholeNow)
      (start (tableOf 1 0)) cutReplayRun = true := by
    decide +kernel
  obtain ⟨s, hs, hcut⟩ := (Option.any_eq_true _ _).mp hrun
  obtain ⟨hcut, hnext⟩ := Bool.and_eq_true_iff.mp hcut
  obtain ⟨hcut, hnextAlong⟩ := Bool.and_eq_true_iff.mp hcut
  obtain ⟨s', hs', hlen⟩ := (Option.any_eq_true _ _).mp hnext
  obtain ⟨hopen, hqueued⟩ := of_decide_eq_true hcut
  have hcheck : ∀ (s : State) (a : Act), decide s.path.ReplayWholeNow = true →
      Held {} GamePath.ReplayWhole s a := fun _ a h => (of_decide_eq_true h).held a
  have hreach : (system {}).Reaches (Held {} GamePath.ReplayWhole) s :=
    Runs.System.Reaches.runOf hcheck cutReplayRun (.init ⟨tableOf 1 0, rfl⟩) halong hs
  have hreach' : (system {}).Reaches (Held {} GamePath.ReplayWhole) s' :=
    Runs.System.Reaches.runOf hcheck takeBackRun hreach hnextAlong hs'
  exact ⟨s, s', hs, hopen, hqueued, hs', by simpa using hlen, retains_game {} hreach'⟩

/-- Three batches of a game are acknowledged. The next daemon serves no authored tables, so the
replay's first batch is popped unsent; then a new declaration is posted, and the connection ends
while it is sent. The handshake after takes the other two back as the open game. -/
def brokenRun : List Act :=
  [.commit startBatch, .commit ballBatch, .commit ballBatch,
    .connect (some []), helloAckOf 1 Wire.capAuthoredTables, .go, .go, .go, ackOf 2,
    .go, .go, ackOf 3, .go, ackOf 4, .go, ackOf 5, .go, .go, .go, .cut,
    .connect (some []), helloAckOf 1 0, .go, .go, .go, ackOf 2, .go, .go,
    .post { tableOf 1 0 with surfaceGeneration := 1 }, .go, .go, .go, .go, .go, .go, .go, .cut,
    .connect (some []), helloAckOf 1 Wire.capAuthoredTables]

/-- **The open game may lack its start**, after a replay that a daemon without authored tables cut
short. -/
theorem not_retains_game : ∃ s, (system {}).Reachable s ∧ ¬ s.path.RetainsGame := by
  have hrun : (Runs.runOf (step {}) (start (tableOf 1 0)) brokenRun).any
      (·.path.games.openGame.head?.any (!·.starts)) = true := by decide +kernel
  obtain ⟨s, hs, hhead⟩ := (Option.any_eq_true _ _).mp hrun
  obtain ⟨q, hq, hstart⟩ := (Option.any_eq_true _ _).mp hhead
  refine ⟨s, Runs.reachable_of_runOf ⟨tableOf 1 0, rfl⟩ hs, fun h => ?_⟩
  simp [h.start q hq] at hstart

end Worker
