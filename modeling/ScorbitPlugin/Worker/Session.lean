import ScorbitPlugin.Wire.Message
import ScorbitPlugin.Worker.Batches

set_option relaxedAutoImplicit false
set_option autoImplicit false

/-!
# A session's game path

Where the worker stands in `Handshake` and `Serve`, what the connection negotiated and declared,
and the game path's part of each step of `src/SocketWorker.cpp`: `Connect`, `Handshake`,
`MaybeDeclare`, `SendGames` and `Disconnect`. One step makes at most one access to what the API
thread also touches, so any API call may come between two steps.

`GameLog` is history: the batches committed and taken, and what became of each. No function reads
it.

## Main definitions

* `Worker.Config`, `Worker.Link` — what the worker was given, and its connection.
* `Worker.Pc` — where the worker stands.
* `Worker.GamePath` — the source, the connection and the batches.
* `Worker.GamePath.sendGames`, `Worker.GamePath.declareAcked`, … — the steps.
-/

namespace Worker

open Codec

/-- What the worker was constructed with: its configuration and which targets are not null. -/
structure Config where
  pluginVersion : Bytes := []
  pluginApiCommit : Bytes := []
  instanceId : UInt64 := 0
  authoredTables : Bool := true
  memory : Bool := true
  overlay : Bool := true
  readBack : Bool := true
deriving DecidableEq, Repr

/-- `OwnCapabilities`. -/
def Config.ownCapabilities (cfg : Config) : UInt32 :=
  Wire.capIdentifyFrames
    ||| (if cfg.memory then Wire.capMemoryRead ||| Wire.capMemoryWrite else 0)
    ||| (if cfg.overlay then Wire.capOverlay else 0)
    ||| (if cfg.authoredTables then Wire.capAuthoredTables else 0)
    ||| (if cfg.authoredTables && cfg.readBack then
          Wire.capLeaderboards ||| Wire.capPlayers ||| Wire.capPlayerPictures else 0)

/-- The API thread's side: the declaration in force, the one posted and not yet taken, and the
committed batches not yet taken. -/
structure Source where
  inForce : DeclareSnapshot := {}
  latch : Option DeclareSnapshot := none
  queue : List GamePost := []
deriving DecidableEq, Repr

/-- What the worker keeps of its connection. -/
structure Link where
  seq : UInt32 := 0
  current : DeclareSnapshot := {}
  declared : DeclareSnapshot := {}
  haveDeclared : Bool := false
  peerMinor : UInt16 := 0
  peerCapabilities : UInt32 := 0
deriving DecidableEq, Repr

namespace Link

/-- `AuthoredAllowed`. -/
def authoredAllowed (l : Link) : Bool :=
  l.peerMinor ≥ 1 && l.peerCapabilities &&& Wire.capAuthoredTables != 0

/-- `ReadBackAllowed`. -/
def readBackAllowed (cfg : Config) (l : Link) (capability : UInt32) : Bool :=
  let offered (c : UInt32) : Bool :=
    l.peerMinor ≥ 2 && cfg.ownCapabilities &&& c != 0 && l.peerCapabilities &&& c != 0
  if capability = Wire.capPlayerPictures && !offered Wire.capPlayers then false
  else offered capability

/-- `Identifies`. -/
def identifies (l : Link) (d : Wire.Declare) : Bool :=
  !d.romId.isEmpty || (!d.tablePath.isEmpty && d.tableKind == Wire.tableAuthored
    && !d.machineUuid.isEmpty && l.authoredAllowed)

/-- `TableIdentified`. -/
def tableIdentified (l : Link) : Bool := l.haveDeclared && l.identifies l.declared.declare

/-- `SendGames`' `authored` for a declaration: an authored table, to a daemon that serves them. -/
def serves (l : Link) (d : DeclareSnapshot) : Bool :=
  d.declare.tableKind == Wire.tableAuthored && l.authoredAllowed

/-- `MaybeDeclare`'s `newTable`. -/
def newTable (l : Link) (now : DeclareSnapshot) : Bool :=
  l.haveDeclared
    && (now.epoch != l.declared.epoch || Wire.newIdentity l.declared.declare now.declare)

/-- The Declare as it goes out: without its Scorbit machine to a daemon without authored tables. -/
def asSent (l : Link) (d : Wire.Declare) : Wire.Declare :=
  if d.tableKind = Wire.tableAuthored ∧ !l.authoredAllowed then
    { d with
      tableKind := Wire.tableRom, machineUuid := [], tableFullPath := [], vpxAppPath := []
      prefsPath := [] }
  else d

end Link

/-- What an exchange's reply goes to. -/
inductive Awaiting (Ask : Type)
  | hello
  /-- `SendGames`, called by `MaybeDeclare` when `flush`, else by `Serve`. -/
  | game (flush : Bool)
  | declare (now : DeclareSnapshot)
  | scores (ask : Ask)
  | ping
deriving DecidableEq, Repr

/-- Where the worker stands. -/
inductive Pc (Ask : Type)
  | offline
  /-- The top of `Serve`'s loop. -/
  | serve
  | maybeDeclare
  | takeGames (flush : Bool)
  | sendGames (flush : Bool)
  /-- `MaybeDeclare` after the table change's flush. -/
  | declare
  | loseQueued
  | takeRequests
  | sendScores
  /-- `Serve`'s wait for a message. -/
  | idle
  | exchange (request : Wire.Message) (k : Awaiting Ask)
deriving DecidableEq, Repr

/-- What became of a batch, and what was declared. -/
inductive GameEvent
  /-- Sent, under the Declare last acknowledged. -/
  | sent (post : GamePost) (declared : DeclareSnapshot)
  | acked (post : GamePost)
  | refused (post : GamePost)
  /-- Discarded without being sent. -/
  | dropped (post : GamePost)
  | declared (now : DeclareSnapshot)
  | ended
deriving DecidableEq, Repr

/-- The batches committed and taken, oldest first, and the events, newest first. -/
structure GameLog where
  committed : List GamePost := []
  taken : List GamePost := []
  events : List GameEvent := []
deriving DecidableEq, Repr

/-- The event is recorded. -/
def GameLog.note (log : GameLog) (e : GameEvent) : GameLog :=
  { log with events := e :: log.events }

/-- The game path: the source, the connection, the batches and where the worker stands. -/
structure GamePath (Ask : Type) where
  source : Source := {}
  link : Link := {}
  games : Games := {}
  pc : Pc Ask := .offline
  log : GameLog := {}
deriving DecidableEq, Repr

namespace GamePath

variable {Ask : Type} (p : GamePath Ask)

/-! ## The API thread -/

/-- The API thread posts a declaration. -/
def post (d : DeclareSnapshot) : GamePath Ask :=
  { p with source := { p.source with inForce := d, latch := some d } }

/-- The batch as the source queues it under the declaration in force. -/
def committing (batch : Wire.GameBatch) (h : committable batch.ops = true) : GamePost where
  epoch := p.source.inForce.epoch
  batch := batch
  identity := p.source.inForce.identity
  serial := p.log.committed.length
  sound := h

/-- The script commits a batch. -/
def commit (batch : Wire.GameBatch) (h : committable batch.ops = true) : GamePath Ask :=
  { p with
    source := { p.source with queue := p.source.queue ++ [p.committing batch h] }
    log := { p.log with committed := p.log.committed ++ [p.committing batch h] } }

/-- A bounded source drops a queued batch. -/
def evict (i : ℕ) : GamePath Ask :=
  { p with source := { p.source with queue := p.source.queue.eraseIdx i } }

/-! ## The worker -/

/-- `TakeDeclare`. -/
def takeDeclare : GamePath Ask :=
  { p with
    source := { p.source with latch := none }
    link := { p.link with current := p.source.latch.getD p.link.current } }

/-- `Exchange` up to its wait. -/
def send (type : UInt16) (payload : Bytes) (k : Awaiting Ask) : GamePath Ask :=
  { p with
    link := { p.link with seq := p.link.seq + 1 }
    pc := .exchange ⟨⟨type, 0, p.link.seq + 1⟩, payload⟩ k }

/-- `Disconnect`. -/
def disconnect : GamePath Ask := { p with pc := .offline, log := p.log.note .ended }

/-- What `Connect` resets. -/
def connected : GamePath Ask :=
  { p with link := { p.link with seq := 0, haveDeclared := false, declared := {} } }

/-- The payload of `Hello`. -/
def helloPayload (cfg : Config) (token : Bytes) : Bytes :=
  Wire.Hello.encode
    { pluginVersion := cfg.pluginVersion, vpxRevision := p.link.current.declare.vpxRevision
      pluginApiCommit := cfg.pluginApiCommit, token := token, instanceId := cfg.instanceId
      capabilities := cfg.ownCapabilities }

/-- `Connect` and `Handshake` up to the wait for the HelloAck. -/
def connect (cfg : Config) (token : Bytes) : GamePath Ask :=
  let p := p.connected.takeDeclare
  p.send Wire.typeHello (p.helloPayload cfg token) .hello

/-- `TakeSourceGames`. -/
def takeSourceGames : GamePath Ask :=
  { p with
    source := { p.source with queue := [] }
    games := p.games.takeSourceGames p.source.queue
    log := { p.log with
      taken := p.log.taken ++ numberedFrom p.games.nextBatchId p.source.queue } }

/-- The erased batches, as events. -/
def noteDropped (log : GameLog) (posts : List GamePost) : GameLog :=
  posts.foldl (fun log post => log.note (.dropped post)) log

/-- `Handshake` after an accepted HelloAck. -/
def handshake (ack : Wire.HelloAck) : GamePath Ask :=
  let p := p.takeSourceGames
  let games := p.games.handshake
  { p with
    link := { p.link with peerMinor := ack.protoMinor, peerCapabilities := ack.capabilities }
    games := games.eraseFragment
    pc := .serve
    log := noteDropped p.log games.fragment }

/-- The start of `MaybeDeclare`: a table change first sends what the old table committed. -/
def maybeDeclare : GamePath Ask :=
  let p := p.takeDeclare
  if p.link.haveDeclared ∧ p.link.current.epoch ≠ p.link.declared.epoch then
    { p with pc := .takeGames true }
  else { p with pc := .declare }

/-- The first lines of `SendGames`. -/
def takeGames (flush : Bool) : GamePath Ask :=
  let p := p.takeSourceGames
  { p with
    games := if p.games.replayPending ∧ p.link.haveDeclared then
        p.games.insertReplay p.link.declared else p.games
    pc := .sendGames flush }

/-- `SendGames` returns. -/
def leaveGames (flush : Bool) : GamePath Ask :=
  { p with pc := if flush then .declare else .takeRequests }

/-- `SendGames` pops its front batch unsent. -/
def dropFront (front : GamePost) : GamePath Ask :=
  { p with games := p.games.popGame, log := p.log.note (.dropped front) }

/-- `SendGames` sends its front batch. -/
def sendFront (flush : Bool) (front : GamePost) (payload : Bytes) : GamePath Ask :=
  { p.send Wire.typeGame payload (.game flush) with
    log := p.log.note (.sent front p.link.declared) }

/-- One turn of `SendGames`' loop, up to the wait for the reply. -/
def sendGames (flush : Bool) : GamePath Ask :=
  match p.games.games with
  | [] => p.leaveGames flush
  | front :: _ =>
    if !p.link.haveDeclared then p.leaveGames flush
    else if front.epoch > p.link.declared.epoch then p.leaveGames flush
    else
      let authored := p.link.serves p.link.declared
      let unserved := front.epoch == p.link.declared.epoch && !authored
      -- the authored Declare this batch follows may have been posted meanwhile
      let p := if unserved then p.takeDeclare else p
      if unserved ∧ p.link.current ≠ p.link.declared then p.leaveGames flush
      else
        let payload := if authored then front.batch.encode else []
        if front.epoch < p.link.declared.epoch ∨ payload = [] then p.dropFront front
        else p.sendFront flush front payload

/-- `SendGames` with its front batch acknowledged. -/
def gameAcked (flush : Bool) (front : GamePost) : GamePath Ask :=
  { p with
    games := p.games.acknowledged p.link.declared.identity front
    pc := .sendGames flush
    log := p.log.note (.acked front) }

/-- `SendGames` with its front batch refused. -/
def gameRefused (flush : Bool) (front : GamePost) : GamePath Ask :=
  { p with
    games := p.games.refused front
    pc := .sendGames flush
    log := p.log.note (.refused front) }

/-- What an acknowledgement does to the batches. -/
@[simp] theorem gameAcked_games (flush : Bool) (front : GamePost) :
    (p.gameAcked flush front).games = p.games.acknowledged p.link.declared.identity front := rfl

/-- What a refusal does to them. -/
@[simp] theorem gameRefused_games (flush : Bool) (front : GamePost) :
    (p.gameRefused flush front).games = p.games.refused front := rfl

/-- `SendGames` with the reply to its front batch. -/
def gameAnswered (flush : Bool) (reply : Wire.Message) : GamePath Ask :=
  match p.games.games with
  | [] => p
  | front :: _ =>
    if !reply.header.isError then p.gameAcked flush front else p.gameRefused flush front

/-- `MaybeDeclare` after the flush, up to the wait for the reply. -/
def sendDeclare : GamePath Ask :=
  if p.link.haveDeclared ∧ p.link.current = p.link.declared then { p with pc := .takeGames false }
  else
    p.send Wire.typeDeclare
      (Wire.Declare.encode (p.link.asSent p.link.current.declare) p.link.peerMinor)
      (.declare p.link.current)

/-- `MaybeDeclare` with an acknowledgement. -/
def declareAcked (now : DeclareSnapshot) : GamePath Ask :=
  let newTable := p.link.newTable now
  { p with
    link := { p.link with declared := now, haveDeclared := true }
    games := if newTable then p.games.dropOpenGame.discardQueuedReplay else p.games
    pc := if newTable ∧ now.epoch = p.link.declared.epoch then .loseQueued else .takeGames false
    log := p.log.note (.declared now) }

end GamePath

end Worker
