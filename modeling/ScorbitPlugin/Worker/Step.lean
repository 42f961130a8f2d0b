import ScorbitPlugin.Runs.System
import ScorbitPlugin.Worker.ReadBack
import ScorbitPlugin.Worker.Session

set_option relaxedAutoImplicit false
set_option autoImplicit false

/-!
# The worker's steps

The worker beside the API thread and the daemon: each step is a call of the API thread, a step of
the worker up to its next access to what the two threads share, a message from the daemon, or the
end of the connection. A connection may end wherever the source gives up on it: in any exchange,
for whatever reason, and in `Serve` between two rounds.

Not modelled, since nothing here reads it: logging, status and history, the overlay, the memory
bridge and the players' read-back. A message for one of these has no effect; when its answer ends
the connection, that is a cut.

## Main definitions

* `Worker.State` — the game path and the leaderboard requests.
* `Worker.Act` — what can happen.
* `Worker.step` — one step.
* `Worker.system` — the worker from its start under a first declaration.
-/

namespace Worker

open Codec

/-- The state of the worker and of what it shares with the API thread. -/
structure State where
  path : GamePath TopScoresAsk := {}
  scores : Scores := {}
deriving DecidableEq, Repr

/-- What can happen. -/
inductive Act
  /-- The API thread posts a declaration. -/
  | post (d : DeclareSnapshot)
  /-- The script commits a batch. -/
  | commit (batch : Wire.GameBatch)
  /-- A bounded source drops a queued batch. -/
  | evict (i : ℕ)
  /-- The script asks for a leaderboard. -/
  | request (epoch : ℕ) (req : Wire.TopScoresRequest) (identity : ℕ)
  /-- The script takes the results. -/
  | takeResults
  /-- The worker connects, with the token it read. -/
  | connect (token : Option Bytes)
  /-- The worker goes on. -/
  | go
  /-- A message arrives. -/
  | recv (msg : Wire.Message)
  /-- `Serve` has been idle for long enough to ping. -/
  | ping
  /-- The connection ends. -/
  | cut
deriving DecidableEq, Repr

namespace State

variable (cfg : Config) (s : State)

/-- The worker goes on at the given place. -/
def goto (pc : Pc TopScoresAsk) : State := { s with path := { s.path with pc := pc } }

/-- A round of the worker's loop ends: `Disconnect`. -/
def disconnect : State where
  path := s.path.disconnect
  scores := if cfg.readBack then s.scores.endReadBacks true else s.scores

/-- The HelloAck of an accepted Hello. -/
def helloAck (reply : Wire.Message) : Option Wire.HelloAck :=
  if reply.header.isError then none
  else if reply.header.type ≠ Wire.typeHelloAck ∧ reply.header.type ≠ Wire.typeHello then none
  else (Wire.HelloAck.decode reply.payload).filter (·.protoMajor == Wire.protoMajor)

/-- The top of `Serve`'s loop. -/
def serve : State :=
  let available := s.path.link.tableIdentified
    && s.path.link.readBackAllowed cfg Wire.capLeaderboards
  { path := { s.path with pc := .maybeDeclare }
    scores := if cfg.readBack then s.scores.setLeaderboards available else s.scores }

/-- `MaybeDeclare` after the flush: admission closes before a Declare that identifies no table. -/
def sendDeclare : State where
  path := s.path.sendDeclare
  scores :=
    if (s.path.link.haveDeclared ∧ s.path.link.current = s.path.link.declared)
        ∨ !cfg.readBack ∨ s.path.link.identifies s.path.link.current.declare then s.scores
    else s.scores.setLeaderboards false

/-- `MaybeDeclare` with the reply. -/
def declareAnswered (now : DeclareSnapshot) (reply : Wire.Message) : State :=
  if reply.header.isError then s.disconnect cfg
  else
    { path := s.path.declareAcked now
      scores := if s.path.link.newTable now ∧ cfg.readBack then s.scores.endReadBacks false
        else s.scores }

/-- `LoseQueuedRequests`. -/
def loseQueued : State where
  path := { s.path with pc := .takeGames false }
  scores := if cfg.readBack then
      s.scores.loseQueuedRequests s.path.link.declared.epoch s.path.link.declared.identity
    else s.scores

/-- The first lines of `SendTopScoresRequests`. -/
def takeRequests : State :=
  if cfg.readBack then
    { path := { s.path with pc := .sendScores }, scores := s.scores.takeRequests }
  else s.goto .idle

/-- The result an ask gets without being sent, when it does: its table has gone, the daemon serves
no leaderboards, no table is identified, or the request does not encode. -/
def turnedAway (ask : TopScoresAsk) : Option ℕ :=
  if ask.epoch < s.path.link.declared.epoch ∨ ask.identity < s.path.link.declared.identity then
    some scoresLost
  else if !s.path.link.readBackAllowed cfg Wire.capLeaderboards then some scoresUnsupported
  else if !s.path.link.tableIdentified then some scoresNotDeclared
  else if ask.request.encode = [] then some scoresMalformed
  else none

/-- One turn of `SendTopScoresRequests`' loop, up to the wait for the reply. -/
def sendScores : State :=
  match s.scores.asks with
  | [] => s.goto .idle
  | ask :: rest =>
    if !s.path.link.haveDeclared ∨ ask.epoch > s.path.link.declared.epoch
        ∨ (ask.epoch = s.path.link.declared.epoch
          ∧ ask.identity > s.path.link.declared.identity) then s.goto .idle
    else
      let popped := { s.scores with asks := rest }
      match s.turnedAway cfg ask with
      | some result => { s with scores := popped.postScores ask.epoch ask.id result }
      | none =>
        { path := s.path.send Wire.typeTopScoresRequest ask.request.encode (.scores ask)
          scores := popped.register ask.id ask.epoch }

/-- `SendTopScoresRequests` with the reply. -/
def scoresAnswered (ask : TopScoresAsk) (reply : Wire.Message) : State :=
  let s := s.goto .sendScores
  if reply.header.isError then
    { s with scores := s.scores.refused ask (Wire.ErrorPayload.codeOf reply.payload) }
  else s

/-- An exchange's reply arrives. -/
def resume (k : Awaiting TopScoresAsk) (reply : Wire.Message) : State :=
  match k with
  | .hello =>
    match helloAck reply with
    | none => s.disconnect cfg
    | some ack => { s with path := s.path.handshake ack }
  | .game flush => { s with path := s.path.gameAnswered flush reply }
  | .declare now => s.declareAnswered cfg now reply
  | .scores ask => s.scoresAnswered ask reply
  | .ping => s.goto .serve

/-- `Dispatch`: the leaderboard requests after a message that is no response, `none` when it ends
the connection. -/
def dispatch (msg : Wire.Message) : Option Scores :=
  if msg.header.type = Wire.typeTopScores
      ∧ s.path.link.readBackAllowed cfg Wire.capLeaderboards then
    some (s.scores.answerTopScores msg.payload)
  else if msg.header.type = Wire.typeBye then none
  else some s.scores

/-- A message that is no response is dispatched, and the worker goes on at `pc`. -/
def dispatched (msg : Wire.Message) (pc : Pc TopScoresAsk) : State :=
  match s.dispatch cfg msg with
  | none => s.disconnect cfg
  | some scores => { s.goto pc with scores := scores }

/-- A message arrives: the awaited reply, a stale response, or a request. -/
def recv (msg : Wire.Message) : Option State :=
  match s.path.pc with
  | .exchange request k =>
    if msg.answers request then some (s.resume cfg k msg)
    else if msg.header.isResponse then some s
    else some (s.dispatched cfg msg (.exchange request k))
  | .idle =>
    if msg.header.isResponse then some (s.goto .serve) else some (s.dispatched cfg msg .serve)
  | _ => none

/-- The worker goes on. -/
def go : Option State :=
  match s.path.pc with
  | .serve => some (s.serve cfg)
  | .maybeDeclare => some { s with path := s.path.maybeDeclare }
  | .takeGames flush => some { s with path := s.path.takeGames flush }
  | .sendGames flush => some { s with path := s.path.sendGames flush }
  | .declare => some (s.sendDeclare cfg)
  | .loseQueued => some (s.loseQueued cfg)
  | .takeRequests => some (s.takeRequests cfg)
  | .sendScores => some (s.sendScores cfg)
  | .idle => some (s.goto .serve)
  | .offline | .exchange .. => none

/-- The connection can end here. -/
def breakable : Bool :=
  match s.path.pc with
  | .serve | .idle | .exchange .. => true
  | _ => false

end State

/-- One step. A source's epochs and identities never decrease, and it commits what a script can
commit. -/
def step (cfg : Config) (s : State) : Act → Option State
  | .post d =>
    if s.path.source.inForce.epoch ≤ d.epoch ∧ s.path.source.inForce.identity ≤ d.identity then
      some { s with path := s.path.post d }
    else none
  | .commit batch =>
    if h : committable batch.ops then some { s with path := s.path.commit batch h } else none
  | .evict i => some { s with path := s.path.evict i }
  | .request epoch req identity => some { s with scores := s.scores.request epoch req identity }
  | .takeResults => some { s with scores := s.scores.takeResults }
  | .connect token =>
    if s.path.pc = .offline then
      match token with
      | none => some ({ s with path := s.path.connected }.disconnect cfg)
      | some token => some { s with path := s.path.connect cfg token }
    else none
  | .go => s.go cfg
  | .recv msg => s.recv cfg msg
  | .ping =>
    if s.path.pc = .idle then some { s with path := s.path.send Wire.typePing [] .ping } else none
  | .cut => if s.breakable then some (s.disconnect cfg) else none

/-- The worker before its first connection, under the source's first declaration. -/
def start (d : DeclareSnapshot) : State where
  path := { source := { inForce := d, latch := some d } }

/-- The worker, its API thread and its daemons. -/
def system (cfg : Config) : Runs.System State Act :=
  .ofStep (fun s => ∃ d, s = start d) (step cfg)

/-! ## Tables, batches and a daemon's messages -/

/-- An authored table under an epoch and an identity; the identity names the machine. -/
def tableOf (epoch identity : ℕ) : DeclareSnapshot where
  declare :=
    { tablePath := [1], tableKind := Wire.tableAuthored, machineUuid := [UInt8.ofNat identity] }
  epoch := epoch
  identity := identity

/-- A batch that begins a game. -/
def startBatch : Wire.GameBatch := { ops := [{ kind := Wire.gameStart, value := 1 }] }

/-- A batch in the middle of a game. -/
def ballBatch : Wire.GameBatch := { ops := [{ kind := Wire.gameBall, value := 2 }] }

/-- The HelloAck of a daemon with a minor and capabilities, to a connection's first message. -/
def helloAckOf (minor : UInt16) (capabilities : UInt32) : Act :=
  .recv
    { header := { type := Wire.typeHelloAck, flags := Wire.flagResponse, seq := 1 }
      payload := Wire.HelloAck.encode
        { protoMajor := Wire.protoMajor, protoMinor := minor, capabilities := capabilities } }

/-- The acknowledgement of a connection's message. -/
def ackOf (seq : UInt32) : Act := .recv { header := { flags := Wire.flagResponse, seq := seq } }

end Worker
