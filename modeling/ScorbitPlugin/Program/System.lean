import ScorbitPlugin.Program.Script
import ScorbitPlugin.Runs.Refinement
import ScorbitPlugin.Source.GameQueue
import ScorbitPlugin.Worker.Moves
import ScorbitPlugin.Worker.Tracking

set_option relaxedAutoImplicit false
set_option autoImplicit false

/-!
# The whole program

A table's script and VPX on the API thread, the session source with its Declare latch and its queue
of batches, and the worker on a thread of its own, in any order of their steps. The worker gets to
see of the source what is in the latch and in the queue.

A function of the API thread hands over at most one declaration or one commit, so it is one step.

## Main definitions

* `Program.State`, `Program.step` — the program's state and its steps.
* `Program.State.seen` — the worker with what it sees of the source.

## Main results

* `Program.ownStep` — the worker's thread posts and commits nothing.
-/

namespace Program

open Codec Source

/-! ## The program -/

/-- The whole program. -/
structure State where
  /-- The session source, with what it posted and pushed. -/
  trail : Trail := {}
  /-- `m_declares`. -/
  latch : Option Worker.DeclareSnapshot := none
  /-- `m_games`, with what was pushed and taken. -/
  run : Source.Run := {}
  /-- The identity each batch was committed under; no function reads them. -/
  identities : List ℕ := []
  /-- The calls the script made; no function reads them. -/
  called : List ScriptCall := []
  worker : Worker.State := {}

/-- What VPX and the emulator tell the API thread. -/
inductive HostEvent
  | gameStart (info : Option HostPaths) (seen : Seen)
  | gameEnd (seen : Seen)
  | setRomId (romId : Bytes) (seen : Seen)
  /-- A rendered frame, or the plugin's timer. -/
  | updateDeclare (seen : Seen)

/-- A host's event is one of the session source. -/
def HostEvent.event : HostEvent → Event
  | gameStart info seen => .gameStart info seen
  | gameEnd seen => .gameEnd seen
  | setRomId romId seen => .setRomId romId seen
  | updateDeclare seen => .updateDeclare seen

/-- What can happen. -/
inductive Act
  | host (e : HostEvent)
  /-- `Scorbit.Declare`; a null string is an empty one. -/
  | declare (machineId : Option Bytes) (seen : Seen)
  | script (c : ScriptCall)
  /-- `RequestTopScores`. -/
  | requestTopScores (scope period vpinFilter limit : Worker.ScriptNumber) (since : Option Bytes)
  /-- The script drains its read-backs. -/
  | takeResults
  | worker (a : Worker.Act)

/-- The steps of the worker's thread and of its connection. -/
def ofWorker : Worker.Act → Bool
  | .connect _ | .go | .recv _ | .ping | .cut => true
  | .post _ | .commit _ | .evict _ | .request .. | .takeResults => false

/-- A queued batch as the worker gets it. That a script can commit it is checked here, and always
so. -/
def gamePost (identities : List ℕ) (e : Entry) : Option Worker.GamePost :=
  if h : Worker.committable e.post.batch.ops = true then
    some { epoch := e.post.epoch, batch := e.post.batch, identity := identities.getD e.place 0
           serial := e.place, sound := h }
  else none

namespace State

variable (platform : Platform) (cfg : Worker.Config) (p : State)

/-- The worker, with what it sees of the source. -/
def seen : Worker.State :=
  { p.worker with path := { p.worker.path with
      source :=
        { inForce := p.trail.source.posted
          latch := p.latch
          queue := p.run.queue.queue.filterMap (gamePost p.identities) }
      log := { p.worker.path.log with
        committed := p.run.committed.filterMap (gamePost p.identities) } } }

/-- An event of the session source: the latch holds what it posts, and the queue gets what it
pushes. -/
def api (e : Event) : State :=
  let trail := p.trail.step platform e
  let posts := (trail.commits.drop p.trail.commits.length).flatMap Prod.fst
  { p with
    trail := trail
    latch := ((trail.declares.drop p.trail.declares.length).getLast?).or p.latch
    run := p.run.call Worker.maxQueuedGameOps (.push posts)
    identities := p.identities ++ posts.map fun _ => trail.source.identity }

/-- A script's call, up to its commit. -/
def buffer (c : ScriptCall) : State :=
  let p := { p with called := p.called ++ [c] }
  match c.op with
  | some (.ok op) => p.api platform (.scriptGameOp op)
  | _ => p

/-- A script's call. -/
def script (c : ScriptCall) : State :=
  if c.commits then (p.buffer platform c).api platform .scriptCommit else p.buffer platform c

/-- The worker's step, as the source sees it: `TakeDeclare` empties the latch, and `TakeGames` the
queue. -/
def wrote (w : Worker.State) : State :=
  { p with
    worker := w
    latch := w.path.source.latch
    run := if w.path.source.queue.isEmpty then p.run.call Worker.maxQueuedGameOps .takeAll
      else p.run }

end State

/-- One step. -/
def step (platform : Platform) (cfg : Worker.Config) (p : State) : Act → Option State
  | .host e => some (p.api platform e.event)
  | .declare machineId seen => some (p.api platform (.declareMachine (machineId.getD []) seen))
  | .script c => some (p.script platform c)
  | .requestTopScores scope period vpinFilter limit since =>
    match topScoresRequest scope period vpinFilter limit since with
    | .ok request =>
      -- `ScriptRequestTopScores`
      (Worker.step cfg p.seen
        (.request p.trail.source.epoch request p.trail.source.identity)).map fun w =>
          { p with worker := w }
    | .error _ => some p
  | .takeResults => (Worker.step cfg p.seen .takeResults).map fun w => { p with worker := w }
  | .worker a => if ofWorker a then (Worker.step cfg p.seen a).map p.wrote else none

/-- The program from its construction: the source posts a first declaration, and the worker is not
connected. -/
def start (platform : Platform) (seen : Seen) : State where
  trail := Trail.update platform {} {} seen
  latch := some (VpxSessionSource.snapshot platform {} seen)

/-- The program. -/
def system (platform : Platform) (cfg : Worker.Config) : Runs.System State Act :=
  .ofStep (fun p => ∃ seen, p = start platform seen) (step platform cfg)

/-! ## The worker's steps -/

section Worker

variable {cfg : Worker.Config} {p p' : Worker.GamePath Worker.TopScoresAsk} {s s' : Worker.State}

/-- What a step of the worker's thread does to what it shares with the API thread. -/
structure OwnStep (p p' : Worker.GamePath Worker.TopScoresAsk) : Prop where
  inForce : p'.source.inForce = p.source.inForce
  committed : p'.log.committed = p.log.committed
  taken : (p'.source.queue = p.source.queue ∧ p'.log.taken = p.log.taken) ∨
    (p'.source.queue = [] ∧
      ∃ id, p'.log.taken = p.log.taken ++ Worker.numberedFrom id p.source.queue)

/-- A step that takes nothing. -/
theorem OwnStep.same (hf : p'.source.inForce = p.source.inForce)
    (hq : p'.source.queue = p.source.queue) (hc : p'.log.committed = p.log.committed)
    (ht : p'.log.taken = p.log.taken) : OwnStep p p' :=
  ⟨hf, hc, .inl ⟨hq, ht⟩⟩

/-- A handshake takes what the source has. -/
theorem ownStep_handshake (ack : Wire.HelloAck) : OwnStep p (p.handshake ack) where
  inForce := rfl
  committed := Worker.GamePath.noteDropped_committed _ _
  taken := .inr ⟨rfl, p.games.nextBatchId, Worker.GamePath.noteDropped_taken _ _⟩

/-- `SendGames` takes nothing of the source. -/
theorem ownStep_sendGames (flush : Bool) : OwnStep p (p.sendGames flush) := by
  unfold Worker.GamePath.sendGames
  split
  · exact .same rfl rfl rfl rfl
  · split
    · exact .same rfl rfl rfl rfl
    · split
      · exact .same rfl rfl rfl rfl
      · dsimp only
        split_ifs <;> exact .same rfl rfl rfl rfl

/-- Nor does the answer to a batch. -/
theorem ownStep_gameAnswered (flush : Bool) (reply : Wire.Message) :
    OwnStep p (p.gameAnswered flush reply) := by
  unfold Worker.GamePath.gameAnswered
  split
  · exact .same rfl rfl rfl rfl
  · split <;> exact .same rfl rfl rfl rfl

/-- A reply is no step of the API thread's. -/
theorem ownStep_resume (k : Worker.Awaiting Worker.TopScoresAsk) (reply : Wire.Message) :
    OwnStep s.path (s.resume cfg k reply).path := by
  cases k with
  | hello =>
    unfold Worker.State.resume
    cases Worker.State.helloAck reply with
    | none => exact .same rfl rfl rfl rfl
    | some ack => exact ownStep_handshake ack
  | game flush => exact ownStep_gameAnswered flush reply
  | declare now =>
    show OwnStep s.path (s.declareAnswered cfg now reply).path
    unfold Worker.State.declareAnswered
    split <;> exact .same rfl rfl rfl rfl
  | scores ask =>
    show OwnStep s.path (s.scoresAnswered ask reply).path
    unfold Worker.State.scoresAnswered
    dsimp only
    split <;> exact .same rfl rfl rfl rfl
  | ping => exact .same rfl rfl rfl rfl

/-- A message that is dispatched takes nothing. -/
theorem ownStep_dispatched (msg : Wire.Message) (pc : Worker.Pc Worker.TopScoresAsk) :
    OwnStep s.path (s.dispatched cfg msg pc).path := by
  unfold Worker.State.dispatched
  split <;> exact .same rfl rfl rfl rfl

/-- The worker goes on.

**Proof sketch.** By the place: the declaration and the queue are taken where the source does it,
and everywhere else the source is left. -/
theorem ownStep_go (h : s.go cfg = some s') : OwnStep s.path s'.path := by
  unfold Worker.State.go at h
  split at h
  case h_1 | h_6 | h_9 =>
    obtain rfl := Option.some.inj h
    exact .same rfl rfl rfl rfl
  case h_2 =>
    obtain rfl := Option.some.inj h
    show OwnStep s.path s.path.maybeDeclare
    unfold Worker.GamePath.maybeDeclare
    dsimp only
    split <;> exact .same rfl rfl rfl rfl
  case h_3 flush =>
    obtain rfl := Option.some.inj h
    exact ⟨rfl, rfl, .inr ⟨rfl, s.path.games.nextBatchId, rfl⟩⟩
  case h_4 flush hpc =>
    obtain rfl := Option.some.inj h
    exact ownStep_sendGames flush
  case h_5 =>
    obtain rfl := Option.some.inj h
    show OwnStep s.path s.path.sendDeclare
    unfold Worker.GamePath.sendDeclare
    split <;> exact .same rfl rfl rfl rfl
  case h_7 =>
    obtain rfl := Option.some.inj h
    unfold Worker.State.takeRequests
    split <;> exact .same rfl rfl rfl rfl
  case h_8 =>
    obtain rfl := Option.some.inj h
    unfold Worker.State.sendScores
    split
    · exact .same rfl rfl rfl rfl
    · split
      · exact .same rfl rfl rfl rfl
      · split <;> exact .same rfl rfl rfl rfl
  case h_10 | h_11 => cases h

/-- A message arrives. -/
theorem ownStep_recv {msg : Wire.Message} (h : s.recv cfg msg = some s') :
    OwnStep s.path s'.path := by
  unfold Worker.State.recv at h
  split at h
  case h_1 request k hpc =>
    split at h
    · obtain rfl := Option.some.inj h
      exact ownStep_resume k msg
    · split at h
      · obtain rfl := Option.some.inj h
        exact .same rfl rfl rfl rfl
      · obtain rfl := Option.some.inj h
        exact ownStep_dispatched msg _
  case h_2 hpc =>
    split at h
    · obtain rfl := Option.some.inj h
      exact .same rfl rfl rfl rfl
    · obtain rfl := Option.some.inj h
      exact ownStep_dispatched msg _
  case h_3 => cases h

/-- **The worker's thread posts and commits nothing**, and it takes all that is queued or
nothing.

**Proof sketch.** By the step: a connection, the worker going on, a message, an idle ping, and the
end of a connection; each leaves what was posted and committed, and takes the whole queue or none.
-/
theorem ownStep {a : Worker.Act} (ha : ofWorker a = true) (h : Worker.step cfg s a = some s') :
    OwnStep s.path s'.path := by
  cases a with
  | connect token =>
    obtain ⟨-, h⟩ := Option.ite_none_right_eq_some.mp h
    cases token with
    | none =>
      obtain rfl := Option.some.inj h
      exact .same rfl rfl rfl rfl
    | some token =>
      obtain rfl := Option.some.inj h
      exact .same rfl rfl rfl rfl
  | go => exact ownStep_go h
  | recv msg => exact ownStep_recv h
  | ping =>
    obtain ⟨-, h⟩ := Option.ite_none_right_eq_some.mp h
    obtain rfl := Option.some.inj h
    exact .same rfl rfl rfl rfl
  | cut =>
    obtain ⟨-, h⟩ := Option.ite_none_right_eq_some.mp h
    obtain rfl := Option.some.inj h
    exact .same rfl rfl rfl rfl
  | post | commit | evict | request | takeResults => cases ha

end Worker

end Program
