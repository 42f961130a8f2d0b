import ScorbitPlugin.Worker.Games

set_option relaxedAutoImplicit false
set_option autoImplicit false

/-!
# The batches the worker holds: what each function keeps

The batches taken from the source and still held are the retained ones, acknowledged already and
kept for a replay, and the fresh ones, not yet answered. The retained batches are the open game
followed by what of its replay is still queued.

## Main definitions

* `Worker.Games.retained`, `Worker.Games.fresh` — the two parts.
* `Worker.Games.Sound` — the counters match the batches, and the retained batches are one game's.

## Main results

* `Worker.GamePost.decode_encode` — a committed batch is sent, and read back.
* `Worker.Games.Sound.insertReplay`, `Worker.Games.Sound.handshake`, … — each function keeps the
  batches sound.
* `Worker.Games.acknowledged_fresh`, `Worker.Games.acknowledged_replayed` — what an
  acknowledgement does to the retained batches.
-/

namespace Worker

/-! ## Committed batches -/

namespace GamePost

variable (post : GamePost) (id : UInt32)

/-- Numbering a batch keeps its epoch. -/
@[simp] theorem numbered_epoch : (post.numbered id).epoch = post.epoch := rfl

/-- It keeps the identity it was committed under. -/
@[simp] theorem numbered_identity : (post.numbered id).identity = post.identity := rfl

/-- It keeps the serial. -/
@[simp] theorem numbered_serial : (post.numbered id).serial = post.serial := rfl

/-- It keeps the ops. -/
@[simp] theorem numbered_ops : (post.numbered id).batch.ops = post.batch.ops := rfl

/-- The number becomes the batch id. -/
@[simp] theorem numbered_batchId : (post.numbered id).batch.batchId = id := rfl

/-- A numbered batch begins a game if it did before. -/
@[simp] theorem numbered_starts : (post.numbered id).starts = post.starts := rfl

/-- It ends a game if it did before. -/
@[simp] theorem numbered_ends : (post.numbered id).ends = post.ends := rfl

/-- It counts as many ops. -/
@[simp] theorem numbered_opCount : (post.numbered id).opCount = post.opCount := rfl

/-- A committed batch follows the rules for batches. -/
theorem valid : Wire.validGameBatch post.batch = true :=
  (Bool.and_eq_true_iff.mp post.sound).1

/-- The ops of a committed batch have no fields but those sent, and a bounded mode. -/
theorem valid_op {op : Wire.GameOp} (h : op ∈ post.batch.ops) :
    op.mode.length ≤ maxModeBytes ∧ op.carried = op := by
  have hall := List.all_eq_true.mp (Bool.and_eq_true_iff.mp post.sound).2 op h
  simpa using hall

/-- A committed batch is carried as it is. -/
theorem carried_batch : post.batch.carried = post.batch := by
  have hops : post.batch.ops.map Wire.GameOp.carried = post.batch.ops :=
    (List.map_congr_left fun op h => (post.valid_op h).2).trans (List.map_id _)
  simp [Wire.GameBatch.carried, hops]

/-- A committed batch is never refused by the encoder. -/
theorem encode_ne_nil : post.batch.encode ≠ [] :=
  Wire.GameBatch.encode_ne_nil_of_short post.valid fun _ h => (post.valid_op h).1

/-- **A committed batch reaches a daemon as it was committed.** -/
theorem decode_encode : Wire.GameBatch.decode post.batch.encode = some post.batch := by
  rw [Wire.GameBatch.coding.decode_encode post.encode_ne_nil, post.carried_batch]

end GamePost

/-! ## Numbering -/

/-- As many batches are numbered as there were. -/
@[simp] theorem length_numberedFrom (id : UInt32) (posts : List GamePost) :
    (numberedFrom id posts).length = posts.length := by
  induction posts generalizing id with
  | nil => rfl
  | cons post posts ih => simp [numberedFrom, ih]

/-- A numbered batch is one of the batches, but for its id. -/
theorem mem_numberedFrom {id : UInt32} {posts : List GamePost} {q : GamePost}
    (h : q ∈ numberedFrom id posts) : ∃ post ∈ posts, ∃ id, q = post.numbered id := by
  induction posts generalizing id with
  | nil => simp [numberedFrom] at h
  | cons post posts ih =>
    rcases List.mem_cons.mp h with rfl | h
    · exact ⟨post, by simp, id, rfl⟩
    · obtain ⟨r, hr, id, rfl⟩ := ih h
      exact ⟨r, by simp [hr], id, rfl⟩

/-- A batch is one of the numbered ones, with its id. -/
theorem exists_mem_numberedFrom {posts : List GamePost} {q : GamePost} (h : q ∈ posts)
    (id : UInt32) : ∃ i, q.numbered i ∈ numberedFrom id posts := by
  induction posts generalizing id with
  | nil => cases h
  | cons post posts ih =>
    rcases List.mem_cons.mp h with rfl | h
    · exact ⟨id, List.mem_cons_self⟩
    · exact (ih h (id + 1)).imp fun _ => List.mem_cons_of_mem _

/-- No batches hold no ops. -/
@[simp] theorem opsOf_nil : opsOf [] = 0 := rfl

/-- The ops of batches, batch by batch. -/
@[simp] theorem opsOf_cons (post : GamePost) (posts : List GamePost) :
    opsOf (post :: posts) = post.opCount + opsOf posts := by simp [opsOf]

/-- The ops of two queues add up. -/
@[simp] theorem opsOf_append (posts posts' : List GamePost) :
    opsOf (posts ++ posts') = opsOf posts + opsOf posts' := by simp [opsOf]

/-! ## Retained and fresh batches -/

namespace Games

variable {g : Games} {front : GamePost} {rest : List GamePost}

/-- The acknowledged batches of the open game, the replayed ones included. -/
def retained (g : Games) : List GamePost := g.openGame ++ g.games.take g.replayQueued

/-- The batches never answered. -/
def fresh (g : Games) : List GamePost := g.games.drop g.replayQueued

/-- The counters match the batches, and the retained batches are a part of one game. -/
structure Sound (g : Games) : Prop where
  /-- The replay is at the front of the queue. -/
  queued : g.replayQueued ≤ g.games.length
  /-- No replay is queued while one is pending. -/
  pending : g.replayPending = true → g.replayQueued = 0
  /-- The op count of the open game. -/
  ops : g.openGameOps = opsOf g.openGame
  /-- The retained batches fit. -/
  room : opsOf g.retained ≤ maxQueuedGameOps
  /-- The retained batches are of the epoch of the game last acknowledged. -/
  epoch : ∀ q ∈ g.retained, q.epoch = g.gameOpenEpoch
  /-- No retained batch but the first begins a game. -/
  starts : ∀ q ∈ g.retained.tail, q.starts = false
  /-- No retained batch ends a game. -/
  ends : ∀ q ∈ g.retained, q.ends = false

/-- The worker starts with no batches. -/
theorem Sound.initial : Sound {} := by
  constructor <;> simp [retained]

/-- `DropOpenGame` leaves of the retained batches those queued for a replay. -/
@[simp] theorem retained_dropOpenGame : g.dropOpenGame.retained = g.games.take g.replayQueued := rfl

/-- It leaves the fresh batches. -/
@[simp] theorem fresh_dropOpenGame : g.dropOpenGame.fresh = g.fresh := rfl

/-- The queue is what of the replay is queued, and the fresh batches. -/
theorem games_eq : g.games = g.games.take g.replayQueued ++ g.fresh :=
  (List.take_append_drop _ _).symm

/-- Without a replay queued, the retained batches are the open game. -/
theorem retained_of_zero (h : g.replayQueued = 0) : g.retained = g.openGame := by simp [retained, h]

/-- Without a replay queued, the fresh batches are the queue. -/
theorem fresh_of_zero (h : g.replayQueued = 0) : g.fresh = g.games := by simp [fresh, h]

/-- The front batch of a replay is a retained one. -/
theorem retained_of_replayed (hg : g.games = front :: rest) {n : ℕ} (hn : g.replayQueued = n + 1) :
    g.retained = g.openGame ++ front :: rest.take n := by simp [retained, hg, hn]

/-- **A part of the retained batches is sound**, under counters that match it. -/
theorem Sound.part (h : g.Sound) {g' : Games} (hq : g'.replayQueued ≤ g'.games.length)
    (hp : g'.replayPending = true → g'.replayQueued = 0) (ho : g'.openGameOps = opsOf g'.openGame)
    (hs : g'.retained <:+ g.retained)
    (he : g'.retained ≠ [] → g'.gameOpenEpoch = g.gameOpenEpoch) : g'.Sound where
  queued := hq
  pending := hp
  ops := ho
  room := by
    obtain ⟨l, hl⟩ := hs
    have := h.room
    rw [← hl, opsOf_append] at this
    omega
  epoch q hqm := (he (List.ne_nil_of_mem hqm)).symm ▸ h.epoch q (hs.subset hqm)
  starts q hqm := by
    obtain ⟨l, hl⟩ := hs
    refine h.starts q ?_
    rw [← hl]
    cases l with
    | nil => exact hqm
    | cons x l => exact List.mem_append_right _ (List.mem_of_mem_tail hqm)
  ends q hqm := h.ends q (hs.subset hqm)

/-! ## Taking from the source -/

/-- What is taken from the source is not retained yet. -/
theorem retained_takeSourceGames (h : g.Sound) (taken : List GamePost) :
    (g.takeSourceGames taken).retained = g.retained := by
  simp [retained, takeSourceGames, List.take_append_of_le_length h.queued]

/-- It comes behind the fresh batches, with the next ids. -/
theorem fresh_takeSourceGames (h : g.Sound) (taken : List GamePost) :
    (g.takeSourceGames taken).fresh = g.fresh ++ numberedFrom g.nextBatchId taken := by
  simp [fresh, takeSourceGames, List.drop_append_of_le_length h.queued]

/-- Taking batches keeps the counters. -/
theorem Sound.takeSourceGames (h : g.Sound) (taken : List GamePost) :
    (g.takeSourceGames taken).Sound := by
  have hr := retained_takeSourceGames h taken
  refine h.part ?_ h.pending h.ops (hr ▸ List.suffix_rfl) fun _ => rfl
  have := h.queued
  simp only [Games.takeSourceGames, List.length_append]
  omega

/-! ## Popping and discarding -/

/-- Popping the front of a replay, with no open game, leaves the rest of it. -/
theorem retained_popGame_replayed (hg : g.games = front :: rest) (hn : 0 < g.replayQueued)
    (ho : g.openGame = []) : g.retained = front :: g.popGame.retained := by
  obtain ⟨n, hn⟩ : ∃ n, g.replayQueued = n + 1 := ⟨g.replayQueued - 1, by omega⟩
  rw [retained_of_replayed hg hn]
  simp [retained, popGame, hg, hn, ho]

/-- To pop a replayed batch leaves the fresh ones. -/
theorem fresh_popGame_replayed (hg : g.games = front :: rest) (hn : 0 < g.replayQueued) :
    g.popGame.fresh = g.fresh := by
  obtain ⟨n, hn⟩ : ∃ n, g.replayQueued = n + 1 := ⟨g.replayQueued - 1, by omega⟩
  simp [fresh, popGame, hg, hn]

/-- To pop a fresh batch leaves the retained ones. -/
theorem retained_popGame_fresh (hn : g.replayQueued = 0) : g.popGame.retained = g.retained := by
  simp [retained, popGame, hn]

/-- It is the first of the fresh ones that goes. -/
theorem fresh_popGame_fresh (hg : g.games = front :: rest) (hn : g.replayQueued = 0) :
    g.fresh = front :: g.popGame.fresh := by
  simp [fresh, popGame, hg, hn]

/-- Popping leaves fewer fresh batches. -/
theorem mem_fresh_of_popGame {q : GamePost} (hq : q ∈ g.popGame.fresh) : q ∈ g.fresh := by
  simp only [fresh, popGame, List.drop_tail] at hq ⊢
  exact (List.drop_suffix_drop_left _ (by omega)).subset hq

/-- Popping the front batch unsent keeps the batches sound, when no open game would be left
without it. -/
theorem Sound.popGame (h : g.Sound) (hg : g.games = front :: rest)
    (ho : 0 < g.replayQueued → g.openGame = []) : g.popGame.Sound := by
  have hq := h.queued
  simp only [hg, List.length_cons] at hq
  refine h.part ?_ ?_ h.ops ?_ fun _ => rfl
  · simp only [Games.popGame, hg, List.tail_cons]
    omega
  · intro hp
    simp [Games.popGame, h.pending hp]
  · rcases Nat.eq_zero_or_pos g.replayQueued with hn | hn
    · exact (retained_popGame_fresh hn).symm ▸ List.suffix_rfl
    · rw [retained_popGame_replayed hg hn (ho hn)]
      exact List.suffix_cons _ _

/-- A discarded replay leaves the open game alone. -/
theorem retained_discardQueuedReplay : g.discardQueuedReplay.retained = g.openGame := by
  simp [retained, discardQueuedReplay]

/-- The fresh batches stay. -/
theorem fresh_discardQueuedReplay (h : g.replayQueued ≤ g.games.length) :
    g.discardQueuedReplay.fresh = g.fresh := by
  simp [fresh, discardQueuedReplay, h]

/-- A new table leaves nothing retained. -/
theorem retained_newTable : g.dropOpenGame.discardQueuedReplay.retained = [] := by
  rw [retained_discardQueuedReplay]
  rfl

/-- A new table keeps the fresh batches. -/
theorem fresh_newTable (h : g.Sound) : g.dropOpenGame.discardQueuedReplay.fresh = g.fresh :=
  fresh_discardQueuedReplay h.queued

/-- It keeps the counters. -/
theorem Sound.newTable (h : g.Sound) : g.dropOpenGame.discardQueuedReplay.Sound := by
  refine h.part (Nat.zero_le _) (fun _ => rfl) rfl ?_ ?_ <;> rw [retained_newTable]
  · exact List.nil_suffix
  · exact fun hne => absurd rfl hne

/-! ## The replay -/

/-- `InsertReplay` moves the whole open game to the queue. -/
theorem insertReplay_openGame (g : Games) (d : DeclareSnapshot) :
    (g.insertReplay d).openGame = [] := by
  unfold insertReplay
  split
  · rfl
  · split <;> rfl

/-- No replay is pending after it. -/
@[simp] theorem insertReplay_replayPending (g : Games) (d : DeclareSnapshot) :
    (g.insertReplay d).replayPending = false := by
  unfold insertReplay
  split
  · rfl
  · split <;> rfl

/-- The epoch of the game last acknowledged stays. -/
@[simp] theorem insertReplay_gameOpenEpoch (g : Games) (d : DeclareSnapshot) :
    (g.insertReplay d).gameOpenEpoch = g.gameOpenEpoch := by
  unfold insertReplay
  split
  · rfl
  · split <;> rfl

/-- No id is given out. -/
@[simp] theorem insertReplay_nextBatchId (g : Games) (d : DeclareSnapshot) :
    (g.insertReplay d).nextBatchId = g.nextBatchId := by
  unfold insertReplay
  split
  · rfl
  · split <;> rfl

/-- The identity of the open game stays. -/
@[simp] theorem insertReplay_openGameIdentity (g : Games) (d : DeclareSnapshot) :
    (g.insertReplay d).openGameIdentity = g.openGameIdentity := by
  unfold insertReplay
  split
  · rfl
  · split <;> rfl

/-- **The replay goes to the table it was played on, or nowhere.** -/
theorem retained_insertReplay (hn : g.replayQueued = 0) (d : DeclareSnapshot) :
    (g.insertReplay d).retained = [] ∨
      ((g.insertReplay d).retained = g.retained ∧ (∃ first ∈ g.retained, first.epoch = d.epoch) ∧
        g.openGameIdentity = d.identity) := by
  unfold insertReplay
  split
  · exact .inl (by simp [hn])
  · rename_i first hfirst
    split
    · rename_i heq
      refine .inr ⟨?_, ⟨first, ?_, heq.1⟩, heq.2⟩
      · simp [retained, hn, dropOpenGame]
      · exact List.mem_append_left _ (List.mem_of_mem_head? hfirst)
    · exact .inl (by simp [hn])

/-- The fresh batches come behind the replay. -/
theorem fresh_insertReplay (hn : g.replayQueued = 0) (d : DeclareSnapshot) :
    (g.insertReplay d).fresh = g.fresh := by
  unfold insertReplay
  split
  · rfl
  · split
    · simp [fresh, hn, dropOpenGame]
    · rfl

/-- The counters follow the replay to the queue.

**Proof sketch.** The replay is all of the retained batches or none of them, and each of its
branches sets the two counters alike. -/
theorem Sound.insertReplay (h : g.Sound) (hn : g.replayQueued = 0) (d : DeclareSnapshot) :
    (g.insertReplay d).Sound := by
  have hr := retained_insertReplay hn d
  refine h.part ?_ (by simp) ?_ ?_ (by simp)
  · unfold Games.insertReplay
    split
    · exact h.queued
    · split
      · simp [dropOpenGame]
      · exact h.queued
  · unfold Games.insertReplay
    split
    · rfl
    · split <;> rfl
  · rcases hr with hr | ⟨hr, -⟩
    · exact hr ▸ List.nil_suffix
    · exact hr ▸ List.suffix_rfl

/-- Taking a replay back leaves its batches in the open game. -/
theorem takeBackReplay_eq (n : ℕ) (hn : n ≤ g.games.length) : g.takeBackReplay n = { g with
    games := g.games.drop n
    openGame := g.openGame ++ g.games.take n
    openGameOps := g.openGameOps + opsOf (g.games.take n)
    replayQueued := 0 } := by
  induction n generalizing g with
  | zero => simp [takeBackReplay]
  | succ n ih =>
    unfold takeBackReplay
    split
    · rename_i hg
      simp [hg] at hn
    · rename_i post rest hg
      rw [ih (by simpa [hg] using hn)]
      simp [hg, Nat.add_assoc]

/-- After a handshake no replay is queued. -/
@[simp] theorem handshake_replayQueued (h : g.Sound) : g.handshake.replayQueued = 0 := by
  simp [handshake, takeBackReplay_eq _ h.queued]

/-- One is pending just when there is an open game. -/
@[simp] theorem handshake_replayPending (g : Games) :
    g.handshake.replayPending = !g.handshake.openGame.isEmpty := by
  simp [handshake]

/-- A handshake takes a replay cut short back and retains the same batches. -/
theorem retained_handshake (h : g.Sound) : g.handshake.retained = g.retained := by
  simp [handshake, takeBackReplay_eq _ h.queued, retained]

/-- It leaves the fresh ones. -/
theorem fresh_handshake (h : g.Sound) : g.handshake.fresh = g.fresh := by
  simp [handshake, takeBackReplay_eq _ h.queued, fresh]

/-- It leaves the epoch of the game last acknowledged. -/
@[simp] theorem handshake_gameOpenEpoch (h : g.Sound) :
    g.handshake.gameOpenEpoch = g.gameOpenEpoch := by
  simp [handshake, takeBackReplay_eq _ h.queued]

/-- It gives out no id. -/
@[simp] theorem handshake_nextBatchId (h : g.Sound) : g.handshake.nextBatchId = g.nextBatchId := by
  simp [handshake, takeBackReplay_eq _ h.queued]

/-- It leaves the identity of the open game. -/
@[simp] theorem handshake_openGameIdentity (h : g.Sound) :
    g.handshake.openGameIdentity = g.openGameIdentity := by
  simp [handshake, takeBackReplay_eq _ h.queued]

/-- It keeps the counters. -/
theorem Sound.handshake (h : g.Sound) : g.handshake.Sound := by
  refine h.part ?_ ?_ ?_ ?_ ?_
  · simp [h]
  · simp [h]
  · simp [Games.handshake, takeBackReplay_eq _ h.queued, h.ops]
  · exact (retained_handshake h).symm ▸ List.suffix_rfl
  · simp [h]

/-! ## The fragment -/

/-- What `Handshake` erases was not retained. -/
@[simp] theorem eraseFragment_retained (hn : g.replayQueued = 0) :
    g.eraseFragment.retained = g.retained := by
  unfold eraseFragment
  split
  · simp [retained, hn]
  · rfl

/-- The erased fragment is in front of what stays. -/
theorem fresh_eraseFragment (hn : g.replayQueued = 0) :
    g.fresh = g.fragment ++ g.eraseFragment.fresh := by
  unfold eraseFragment fragment
  split
  · simp [fresh, hn]
  · rfl

/-- It is not of the open game. -/
@[simp] theorem eraseFragment_openGame (g : Games) : g.eraseFragment.openGame = g.openGame := by
  unfold eraseFragment
  split <;> rfl

/-- The op count of the open game stays. -/
@[simp] theorem eraseFragment_openGameOps (g : Games) :
    g.eraseFragment.openGameOps = g.openGameOps := by
  unfold eraseFragment
  split <;> rfl

/-- So does its identity. -/
@[simp] theorem eraseFragment_openGameIdentity (g : Games) :
    g.eraseFragment.openGameIdentity = g.openGameIdentity := by
  unfold eraseFragment
  split <;> rfl

/-- So does the epoch of the game last acknowledged. -/
@[simp] theorem eraseFragment_gameOpenEpoch (g : Games) :
    g.eraseFragment.gameOpenEpoch = g.gameOpenEpoch := by
  unfold eraseFragment
  split <;> rfl

/-- A pending replay stays pending. -/
@[simp] theorem eraseFragment_replayPending (g : Games) :
    g.eraseFragment.replayPending = g.replayPending := by
  unfold eraseFragment
  split <;> rfl

/-- As many batches of a replay are queued. -/
@[simp] theorem eraseFragment_replayQueued (g : Games) :
    g.eraseFragment.replayQueued = g.replayQueued := by
  unfold eraseFragment
  split <;> rfl

/-- No id is given back. -/
@[simp] theorem eraseFragment_nextBatchId (g : Games) :
    g.eraseFragment.nextBatchId = g.nextBatchId := by
  unfold eraseFragment
  split <;> rfl

/-- The counters still match. -/
theorem Sound.eraseFragment (h : g.Sound) (hn : g.replayQueued = 0) : g.eraseFragment.Sound := by
  have hr := eraseFragment_retained hn
  refine h.part ?_ ?_ ?_ (hr ▸ List.suffix_rfl) fun _ => by simp
  · simp [hn]
  · simp [hn]
  · simp [h.ops]

/-- The erased fragment is of a later epoch than anything retained. -/
theorem epoch_lt_of_mem_fragment (h : g.Sound) (hn : g.replayQueued = 0)
    (hmono : (g.retained ++ g.fresh).Pairwise fun a b => a.epoch ≤ b.epoch)
    (hne : g.retained ≠ []) {q : GamePost} (hq : q ∈ g.fragment) : g.gameOpenEpoch < q.epoch := by
  obtain ⟨a, ha⟩ := List.exists_mem_of_ne_nil _ hne
  rw [fresh_of_zero hn] at hmono
  unfold fragment frontIsFragment at hq
  cases hg : g.games with
  | nil => simp [hg] at hq
  | cons front l =>
    simp only [hg, List.head?_cons] at hq hmono
    split_ifs at hq with hf
    · have hmem := (List.takeWhile_prefix _).subset hq
      have hfront := (List.pairwise_append.mp hmono).2.2 a ha front (by simp)
      have hle : front.epoch ≤ q.epoch := by
        rcases List.mem_cons.mp hmem with rfl | hmem
        · exact le_rfl
        · exact (List.pairwise_cons.mp (List.pairwise_append.mp hmono).2.1).1 q hmem
      have hdiff : front.epoch ≠ g.gameOpenEpoch := by simpa using hf
      have := h.epoch a ha
      omega
    · cases hq

/-! ## Answers -/

/-- A game kept for a replay only while it fits. -/
def fitting (posts : List GamePost) : List GamePost :=
  if opsOf posts ≤ maxQueuedGameOps then posts else []

/-- A game that fits is kept. -/
theorem fitting_of_le {posts : List GamePost} (h : opsOf posts ≤ maxQueuedGameOps) :
    fitting posts = posts := if_pos h

/-- An outgrown game is not. -/
theorem fitting_of_lt {posts : List GamePost} (h : maxQueuedGameOps < opsOf posts) :
    fitting posts = [] := if_neg (Nat.not_le.mpr h)

/-- The retained game after one more of its batches was acknowledged. -/
def extended (posts : List GamePost) (post : GamePost) : List GamePost :=
  if post.ends then []
  else if post.starts then fitting [post]
  else if posts = [] then [] else fitting (posts ++ [post])

/-- What an acknowledgement leaves of an open game. -/
theorem extended_cases (posts : List GamePost) (post : GamePost) :
    extended posts post = [] ∨ (post.ends = false ∧ opsOf (extended posts post) ≤ maxQueuedGameOps ∧
      ((post.starts = true ∧ extended posts post = [post]) ∨
        (post.starts = false ∧ posts ≠ [] ∧ extended posts post = posts ++ [post]))) := by
  unfold extended fitting
  split_ifs with he hs hf hn hf <;> simp_all

/-- The open epoch after an acknowledgement. -/
def openedEpoch (epoch : ℕ) (post : GamePost) : ℕ :=
  if post.ends then 0 else if post.starts then post.epoch else epoch

/-- The end of `RetainAcknowledged` drops the game, or adds the batch to it. -/
theorem keep_eq (h : g.openGameOps = opsOf g.openGame) (post : GamePost) :
    let kept := if post.ends then [] else fitting (g.openGame ++ [post])
    g.keep post = { g with openGame := kept, openGameOps := opsOf kept } := by
  have hsum : opsOf (g.openGame ++ [post]) = g.openGameOps + post.opCount := by simp [h]
  unfold keep
  by_cases he : post.ends
  · simp [he, dropOpenGame]
  · simp only [he, Bool.false_eq_true, if_false]
    by_cases hr : g.openGameOps + post.opCount ≤ maxQueuedGameOps
    · rw [if_neg (by omega), fitting_of_le (by omega), hsum]
    · rw [if_pos (by omega), fitting_of_lt (by omega)]
      rfl

/-- **What `RetainAcknowledged` retains**, of a batch of the open game's epoch.

**Proof sketch.** A batch that starts a game begins the retained ones anew. Any other joins an open
game, and nothing where there is none. -/
theorem retainAcknowledged_eq (h : g.openGameOps = opsOf g.openGame) (identity : ℕ)
    (he : ∀ q ∈ g.openGame, front.epoch = q.epoch) :
    g.retainAcknowledged identity front = { g with
      openGame := extended g.openGame front
      openGameOps := opsOf (extended g.openGame front)
      openGameIdentity := if front.starts then identity else g.openGameIdentity } := by
  unfold retainAcknowledged extended
  by_cases hs : front.starts
  · have hk := keep_eq (g := { g.dropOpenGame with openGameIdentity := identity }) rfl front
    simp only [hs, if_true]
    exact hk
  · simp only [hs, Bool.false_eq_true, if_false]
    cases hg : g.openGame with
    | nil =>
      simp only [List.head?_nil, ite_true, ite_self]
      rw [← hg, show opsOf g.openGame = g.openGameOps from h.symm]
    | cons first rest =>
      have hf : front.epoch = first.epoch := he first (by simp [hg])
      have hk := keep_eq h front
      simp only [List.head?_cons, hf, ne_eq, not_true_eq_false, if_false]
      rw [hg] at hk
      simpa using hk

/-- **What an acknowledgement does**, for a batch of the open game's epoch. -/
theorem acknowledged_eq (h : g.openGameOps = opsOf g.openGame) (identity : ℕ)
    (he : ∀ q ∈ g.openGame, front.epoch = q.epoch) :
    g.acknowledged identity front = { g with
      games := g.games.tail
      openGame := extended g.openGame front
      openGameOps := opsOf (extended g.openGame front)
      openGameIdentity := if front.starts then identity else g.openGameIdentity
      gameOpenEpoch := openedEpoch g.gameOpenEpoch front
      replayQueued := g.replayQueued - 1 } := by
  have hr := retainAcknowledged_eq
    (g := { g with gameOpenEpoch := openedEpoch g.gameOpenEpoch front }) h identity he
  show (retainAcknowledged { g with gameOpenEpoch := openedEpoch g.gameOpenEpoch front } identity
    front).popGame = _
  rw [hr]
  rfl

/-- The batches of the open game are of the front batch's epoch, when the front is replayed. -/
theorem Sound.epoch_front (h : g.Sound) (hg : g.games = front :: rest) (hn : 0 < g.replayQueued) :
    ∀ q ∈ g.openGame, front.epoch = q.epoch := by
  obtain ⟨n, hn⟩ : ∃ n, g.replayQueued = n + 1 := ⟨g.replayQueued - 1, by omega⟩
  have hr := retained_of_replayed hg hn
  intro q hq
  rw [h.epoch front (by simp [hr]), h.epoch q (by simp [hr, hq])]

/-- A replayed batch that is acknowledged stays retained, unless it lacks its game's start.

**Proof sketch.** With batches of its game before it, the acknowledged one joins them, and with none
and its game's start it begins them: either way it is where it was retained. Without the start it is
not retained any more. -/
theorem retained_acknowledged_replayed (h : g.Sound) (hg : g.games = front :: rest)
    (hn : 0 < g.replayQueued) (identity : ℕ) :
    (g.acknowledged identity front).retained = g.retained ∨
      (g.openGame = [] ∧ front.starts = false ∧
        g.retained = front :: (g.acknowledged identity front).retained) := by
  obtain ⟨n, hn⟩ : ∃ n, g.replayQueued = n + 1 := ⟨g.replayQueued - 1, by omega⟩
  have hr := retained_of_replayed hg hn
  have hmem : front ∈ g.retained := by simp [hr]
  have hends := h.ends front hmem
  have hroom := h.room
  have he := h.epoch_front hg (by omega)
  rw [acknowledged_eq h.ops identity he]
  cases hopen : g.openGame with
  | nil =>
    rw [hr, hopen, List.nil_append, opsOf_cons] at hroom
    cases hs : front.starts with
    | true =>
      refine .inl ?_
      have hext : extended g.openGame front = [front] := by
        simp only [extended, hends, hs, Bool.false_eq_true, if_false, if_true]
        exact fitting_of_le (by rw [opsOf_cons, opsOf_nil]; omega)
      rw [hopen] at hext
      simp [retained, hext, hg, hn, hopen]
    | false =>
      refine .inr ⟨rfl, rfl, ?_⟩
      simp [retained, extended, hends, hs, hg, hn, hopen]
  | cons first l =>
    have hs : front.starts = false := h.starts front (by simp [hr, hopen])
    rw [hr, hopen, opsOf_append, opsOf_cons front] at hroom
    have hext : extended g.openGame front = g.openGame ++ [front] := by
      simp only [extended, hends, hs, hopen, Bool.false_eq_true, if_false, reduceCtorEq]
      refine fitting_of_le ?_
      rw [opsOf_append, opsOf_cons front, opsOf_nil]
      omega
    refine .inl ?_
    rw [hopen] at hext
    simp [retained, hext, hg, hn, hopen]

/-- An acknowledged batch of a replay was not fresh. -/
theorem fresh_acknowledged_replayed (h : g.Sound) (hg : g.games = front :: rest)
    (hn : 0 < g.replayQueued) (identity : ℕ) :
    (g.acknowledged identity front).fresh = g.fresh := by
  rw [acknowledged_eq h.ops identity (h.epoch_front hg hn)]
  exact fresh_popGame_replayed hg hn

/-- A fresh batch that is acknowledged extends the retained game. -/
theorem retained_acknowledged_fresh (h : g.Sound) (hn : g.replayQueued = 0) (identity : ℕ)
    (he : ∀ q ∈ g.openGame, front.epoch = q.epoch) :
    (g.acknowledged identity front).retained = extended g.retained front := by
  rw [acknowledged_eq h.ops identity he]
  simp [retained, hn]

/-- An acknowledged batch that was fresh is the first of them. -/
theorem fresh_acknowledged_fresh (h : g.Sound) (hg : g.games = front :: rest)
    (hn : g.replayQueued = 0) (identity : ℕ) (he : ∀ q ∈ g.openGame, front.epoch = q.epoch) :
    g.fresh = front :: (g.acknowledged identity front).fresh := by
  rw [acknowledged_eq h.ops identity he]
  simp [fresh, hn, hg]

/-- An acknowledgement keeps the counters.

**Proof sketch.** What is retained after is the game so far with the batch (`acknowledged_eq`), so
its ops are counted, it is of one epoch, and nothing of it ends a game. The batch leaves the queue,
and the replay if it was of it. -/
theorem Sound.acknowledged (h : g.Sound) (hg : g.games = front :: rest) (identity : ℕ)
    (he : ∀ q ∈ g.openGame, front.epoch = q.epoch) : (g.acknowledged identity front).Sound := by
  have heq := acknowledged_eq h.ops identity he
  have hopened : (g.acknowledged identity front).gameOpenEpoch =
      openedEpoch g.gameOpenEpoch front := by rw [heq]
  have hqueued : (g.acknowledged identity front).replayQueued ≤
      (g.acknowledged identity front).games.length := by
    have := h.queued
    simp only [heq, hg, List.length_cons, List.tail_cons] at this ⊢
    omega
  have hpending : (g.acknowledged identity front).replayPending = true →
      (g.acknowledged identity front).replayQueued = 0 := by
    intro hp
    simp only [heq] at hp ⊢
    rw [h.pending hp]
  have hops : (g.acknowledged identity front).openGameOps =
      opsOf (g.acknowledged identity front).openGame := by rw [heq]
  rcases Nat.eq_zero_or_pos g.replayQueued with hn | hn
  · have hr := retained_acknowledged_fresh h hn identity he
    have hcases := extended_cases g.retained front
    rw [← hr] at hcases
    rcases hcases with hnil | ⟨hends, hroom, ⟨hs, hone⟩ | ⟨hs, hne, happ⟩⟩
    · exact h.part hqueued hpending hops (hnil ▸ List.nil_suffix) fun hne => absurd hnil hne
    · refine ⟨hqueued, hpending, hops, hroom, ?_, ?_, ?_⟩ <;>
        simp [hone, hopened, openedEpoch, hends, hs]
    · have hoe : openedEpoch g.gameOpenEpoch front = g.gameOpenEpoch := by
        simp [openedEpoch, hends, hs]
      have hfe : front.epoch = g.gameOpenEpoch := by
        obtain ⟨q, hq⟩ := List.exists_mem_of_ne_nil _ hne
        rw [he q (by rwa [retained_of_zero hn] at hq), h.epoch q hq]
      refine ⟨hqueued, hpending, hops, hroom, ?_, ?_, ?_⟩
      · rw [happ, hopened, hoe]
        simp only [List.mem_append, List.mem_singleton]
        rintro q (hq | rfl)
        · exact h.epoch q hq
        · exact hfe
      · rw [happ, List.tail_append_of_ne_nil hne]
        simp only [List.mem_append, List.mem_singleton]
        rintro q (hq | rfl)
        · exact h.starts q hq
        · exact hs
      · rw [happ]
        simp only [List.mem_append, List.mem_singleton]
        rintro q (hq | rfl)
        · exact h.ends q hq
        · exact hends
  · have hmem : front ∈ g.retained := by
      obtain ⟨n, hn⟩ : ∃ n, g.replayQueued = n + 1 := ⟨g.replayQueued - 1, by omega⟩
      simp [retained_of_replayed hg hn]
    have hopen : openedEpoch g.gameOpenEpoch front = g.gameOpenEpoch := by
      simp [openedEpoch, h.ends front hmem, h.epoch front hmem]
    refine h.part hqueued hpending hops ?_ fun _ => hopened.trans hopen
    rcases retained_acknowledged_replayed h hg hn identity with hr | ⟨-, -, hr⟩
    · exact hr ▸ List.suffix_rfl
    · exact hr ▸ List.suffix_cons _ _

/-- An acknowledgement retains nothing but what was retained and the batch itself. -/
theorem mem_retained_acknowledged (h : g.Sound) (hg : g.games = front :: rest) (identity : ℕ)
    (he : ∀ q ∈ g.openGame, front.epoch = q.epoch) {q : GamePost}
    (hq : q ∈ (g.acknowledged identity front).retained) : q ∈ g.retained ∨ q = front := by
  rcases Nat.eq_zero_or_pos g.replayQueued with hn | hn
  · rw [retained_acknowledged_fresh h hn identity he] at hq
    rcases extended_cases g.retained front with hr | ⟨-, -, ⟨-, hr⟩ | ⟨-, -, hr⟩⟩ <;>
      simp_all
  · rcases retained_acknowledged_replayed h hg hn identity with hr | ⟨-, -, hr⟩
    · exact .inl (hr ▸ hq)
    · exact .inl (hr ▸ List.mem_cons_of_mem _ hq)

/-- **What a refusal does**, of a batch of the open game's epoch.

**Proof sketch.** An open game is of the batch's epoch, so it is dropped; when none is open,
dropping it changes nothing. -/
theorem refused_eq (h : g.openGameOps = opsOf g.openGame)
    (he : ∀ q ∈ g.openGame, front.epoch = q.epoch) :
    g.refused front =
      if g.replayQueued > 0 then g.dropOpenGame.popGame.discardQueuedReplay
      else g.dropOpenGame.popGame := by
  unfold refused
  cases hg : g.openGame with
  | nil =>
    have hd : g = g.dropOpenGame := by
      rw [hg] at h
      cases g
      simp_all [dropOpenGame]
    rw [← hd]
    rfl
  | cons first l =>
    have hf : front.epoch = first.epoch := he first (by simp [hg])
    simp [hf]

/-- A refused batch ends the open game: nothing is retained. -/
theorem retained_refused (h : g.openGameOps = opsOf g.openGame)
    (he : ∀ q ∈ g.openGame, front.epoch = q.epoch) : (g.refused front).retained = [] := by
  rw [refused_eq h he]
  split
  · simp [popGame, dropOpenGame, discardQueuedReplay, retained]
  · rename_i hn
    have hn : g.replayQueued = 0 := by omega
    simp [popGame, dropOpenGame, retained, hn]

/-- What was left of a replay is no longer queued. -/
theorem refused_replayQueued (h : g.openGameOps = opsOf g.openGame)
    (he : ∀ q ∈ g.openGame, front.epoch = q.epoch) : (g.refused front).replayQueued = 0 := by
  rw [refused_eq h he]
  split
  · rfl
  · simp only [popGame, dropOpenGame]
    omega

/-- A refused batch of a replay was not fresh. -/
theorem fresh_refused_replayed (h : g.Sound) (hg : g.games = front :: rest)
    (hn : 0 < g.replayQueued) : (g.refused front).fresh = g.fresh := by
  rw [refused_eq h.ops (h.epoch_front hg hn), if_pos hn, fresh_discardQueuedReplay]
  · exact fresh_popGame_replayed (g := g.dropOpenGame) hg hn
  · have := h.queued
    simp only [hg, List.length_cons] at this
    simp only [popGame, dropOpenGame, hg, List.tail_cons]
    omega

/-- A refused batch that was fresh is the first of them. -/
theorem fresh_refused_fresh (h : g.Sound) (hg : g.games = front :: rest) (hn : g.replayQueued = 0)
    (he : ∀ q ∈ g.openGame, front.epoch = q.epoch) :
    g.fresh = front :: (g.refused front).fresh := by
  rw [refused_eq h.ops he, if_neg (by omega)]
  exact fresh_popGame_fresh (g := g.dropOpenGame) hg hn

/-- A refusal keeps the counters. -/
theorem Sound.refused (h : g.Sound) (he : ∀ q ∈ g.openGame, front.epoch = q.epoch) :
    (g.refused front).Sound := by
  have hr := retained_refused h.ops he
  have hn := refused_replayQueued h.ops he
  refine h.part (hn ▸ Nat.zero_le _) (fun _ => hn) ?_ (hr ▸ List.nil_suffix)
    fun hne => absurd hr hne
  rw [refused_eq h.ops he]
  split <;> rfl

end Games

end Worker
