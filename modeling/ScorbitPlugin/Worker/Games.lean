import ScorbitPlugin.Wire.GameLayouts

set_option relaxedAutoImplicit false
set_option autoImplicit false

/-!
# The game batches the worker holds

The fields of `SocketWorker` that carry an authored table's committed batches from the source to
the daemon, and the functions that move batches between them.

`GamePost.identity` and `GamePost.serial` are history: the identity in force at the source and the
number of earlier commits when the batch was committed. No function reads them.

## Main definitions

* `Worker.DeclareSnapshot`, `Worker.GamePost` — what the source posts.
* `Worker.Games` — `m_games`, `m_openGame` and their counters.
* `Worker.Games.retainAcknowledged` … `Worker.Games.takeSourceGames` — the functions of the
  same names.
* `Worker.Games.insertReplay`, `Worker.Games.takeBackReplay`, `Worker.Games.eraseFragment` — the
  replay's steps in `SendGames` and `Handshake`.
-/

namespace Worker

/-- `DeclareSnapshot`: a declaration with the fields that are not on the wire. -/
structure DeclareSnapshot where
  declare : Wire.Declare := {}
  epoch : ℕ := 0
  surfaceGeneration : ℕ := 0
  identity : ℕ := 0
deriving DecidableEq, Repr

/-- `MAX_MODE_BYTES`, the script binding's bound on a mode's name. -/
def maxModeBytes : ℕ := 128

/-- What `ScriptCommit` puts in a batch: ops that make a valid batch, each as the script binding
builds it, with no fields but those its kind names and a bounded mode. -/
def committable (ops : List Wire.GameOp) : Bool :=
  Wire.validGameBatch { ops := ops }
    && ops.all fun op => op.mode.length ≤ maxModeBytes && op.carried == op

/-- `GamePost`: a committed batch, tagged with the epoch of the Declare it follows. -/
structure GamePost where
  epoch : ℕ
  batch : Wire.GameBatch
  identity : ℕ
  serial : ℕ
  sound : committable batch.ops = true
deriving DecidableEq, Repr

/-- The batch begins with `GAME_START`. -/
def GamePost.starts (post : GamePost) : Bool := post.batch.startsGame

/-- The batch ends with `GAME_END`. -/
def GamePost.ends (post : GamePost) : Bool := post.batch.endsGame

/-- The number of ops in a batch. -/
def GamePost.opCount (post : GamePost) : ℕ := post.batch.ops.length

/-- The batch with its id set. -/
def GamePost.numbered (post : GamePost) (id : UInt32) : GamePost :=
  { post with batch := { post.batch with batchId := id } }

/-- The batches with ids counted on from the given one, which wraps as a `uint32_t` does. -/
def numberedFrom (id : UInt32) : List GamePost → List GamePost
  | [] => []
  | post :: posts => post.numbered id :: numberedFrom (id + 1) posts

/-- The ops of several batches. -/
def opsOf (posts : List GamePost) : ℕ := (posts.map GamePost.opCount).sum

/-- `MAX_QUEUED_GAME_OPS`. -/
def maxQueuedGameOps : ℕ := 16384

/-- The game path's fields of `SocketWorker`. -/
structure Games where
  /-- `m_games`: taken from the source and not yet answered, oldest first. -/
  games : List GamePost := []
  /-- `m_openGame`: the acknowledged batches of the game still open. -/
  openGame : List GamePost := []
  openGameOps : ℕ := 0
  openGameIdentity : ℕ := 0
  gameOpenEpoch : ℕ := 0
  /-- `m_replayPending`: the open game goes again once the table is declared. -/
  replayPending : Bool := false
  /-- `m_replayQueued`: how many batches at the front of `games` are being replayed. -/
  replayQueued : ℕ := 0
  nextBatchId : UInt32 := 1
deriving DecidableEq, Repr

namespace Games

/-- `DropOpenGame`. -/
def dropOpenGame (g : Games) : Games := { g with openGame := [], openGameOps := 0 }

/-- `PopGame`. -/
def popGame (g : Games) : Games :=
  { g with games := g.games.tail, replayQueued := g.replayQueued - 1 }

/-- `DiscardQueuedReplay`. -/
def discardQueuedReplay (g : Games) : Games :=
  { g with games := g.games.drop (min g.replayQueued g.games.length), replayQueued := 0 }

/-- The end of `RetainAcknowledged`: an ended or outgrown game is dropped, any other kept. -/
def keep (g : Games) (post : GamePost) : Games :=
  if post.ends then g.dropOpenGame
  else if g.openGameOps + post.opCount > maxQueuedGameOps then g.dropOpenGame
  else { g with openGameOps := g.openGameOps + post.opCount, openGame := g.openGame ++ [post] }

/-- `RetainAcknowledged`, under the declared identity. -/
def retainAcknowledged (g : Games) (identity : ℕ) (post : GamePost) : Games :=
  if post.starts then { g.dropOpenGame with openGameIdentity := identity }.keep post
  else
    match g.openGame.head? with
    | none => g
    -- without its `GAME_START` a fragment is not worth replaying
    | some first => if post.epoch ≠ first.epoch then g else g.keep post

/-- `TakeSourceGames`: the batches of the source, each with the next id. -/
def takeSourceGames (g : Games) (taken : List GamePost) : Games :=
  { g with
    games := g.games ++ numberedFrom g.nextBatchId taken
    nextBatchId := g.nextBatchId + UInt32.ofNat taken.length }

/-- The first lines of `SendGames`: the open game goes to the front of the queue, if the declared
table is the one it was played on. -/
def insertReplay (g : Games) (declared : DeclareSnapshot) : Games :=
  match g.openGame.head? with
  | none => { g with replayPending := false }.dropOpenGame
  | some first =>
    if first.epoch = declared.epoch ∧ g.openGameIdentity = declared.identity then
      { g with
        replayPending := false
        games := g.openGame ++ g.games
        replayQueued := g.openGame.length }.dropOpenGame
    else { g with replayPending := false }.dropOpenGame

/-- The loop of `Handshake` that takes a replay cut short back into the open game, from the
current `replayQueued`. -/
def takeBackReplay (g : Games) : ℕ → Games
  | 0 => { g with replayQueued := 0 }
  | n + 1 =>
    match g.games with
    | [] => { g with replayQueued := 0 }
    | post :: rest =>
      takeBackReplay { g with
        openGameOps := g.openGameOps + post.opCount
        openGame := g.openGame ++ [post]
        games := rest } n

/-- The front batch does not continue the game last acknowledged, in `Handshake`. -/
def frontIsFragment (g : Games) : Bool :=
  match g.games.head? with
  | none => true
  | some front => front.epoch != g.gameOpenEpoch

/-- The batches `Handshake` erases: never acknowledged, and before the first `GAME_START`. -/
def fragment (g : Games) : List GamePost :=
  if g.frontIsFragment then g.games.takeWhile (!·.starts) else []

/-- `Handshake` without the batches it erases. -/
def eraseFragment (g : Games) : Games :=
  if g.frontIsFragment then { g with games := g.games.dropWhile (!·.starts) } else g

/-- The game path's part of `Handshake`, up to the erased fragment. -/
def handshake (g : Games) : Games :=
  let back := g.takeBackReplay g.replayQueued
  { back with replayPending := !back.openGame.isEmpty }

/-- `SendGames` after an acknowledgement of `front`. -/
def acknowledged (g : Games) (identity : ℕ) (front : GamePost) : Games :=
  let opened := if front.starts then front.epoch else g.gameOpenEpoch
  let opened := if front.ends then 0 else opened
  ({ g with gameOpenEpoch := opened }.retainAcknowledged identity front).popGame

/-- `SendGames` after a refusal of `front`: its game is no longer whole. -/
def refused (g : Games) (front : GamePost) : Games :=
  let kept :=
    match g.openGame.head? with
    | none => g
    | some first => if front.epoch = first.epoch then g.dropOpenGame else g
  if g.replayQueued > 0 then kept.popGame.discardQueuedReplay else kept.popGame

end Games

end Worker
