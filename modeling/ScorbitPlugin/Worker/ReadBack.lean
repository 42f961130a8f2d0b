import ScorbitPlugin.Wire.Message

set_option relaxedAutoImplicit false
set_option autoImplicit false

/-!
# Leaderboard requests

The two-way channel of `src/ReadBack.cpp` between the script and the worker, and the worker's own
requests: those it took and has not sent, and those it sent and has no result for.

`Ledger` is history: the requests that got an id and the results posted, in order. No function
reads it. The channel's calls are atomic; consecutive `PostResult` calls of the worker are one
step, since between them it reads nothing and touches nothing else.

## Main definitions

* `Worker.ReadBackChannel` — the channel, with `request`, `takeRequests`, `close`, `postResult`.
* `Worker.Scores` — the channel with `m_asks` and `m_pendingScores`.
* `Worker.Scores.endReadBacks`, `Worker.Scores.loseQueuedRequests`,
  `Worker.Scores.answerTopScores` — the functions of the same names.
-/

namespace Worker

open Codec

/-- `SCORES_NOT_DECLARED`. -/
def scoresNotDeclared : ℕ := 5

/-- `SCORES_UNSUPPORTED`. -/
def scoresUnsupported : ℕ := 6

/-- `SCORES_MALFORMED`. -/
def scoresMalformed : ℕ := 7

/-- `SCORES_LOST`. -/
def scoresLost : ℕ := 8

/-- `MAX_QUEUED`. -/
def maxQueued : ℕ := 16

/-- `MAX_PENDING_SCORES`. -/
def maxPendingScores : ℕ := 64

/-- `TopScoresAsk`: a request with the epoch and identity it was asked under. -/
structure TopScoresAsk where
  epoch : ℕ := 0
  identity : ℕ := 0
  request : Wire.TopScoresRequest := {}
deriving DecidableEq, Repr

/-- The ask's request id. -/
def TopScoresAsk.id (ask : TopScoresAsk) : UInt32 := ask.request.requestId

/-- `TopScoresPost`: one result for the script. -/
structure TopScoresPost where
  epoch : ℕ := 0
  requestId : UInt32 := 0
  result : ℕ := 0
  ageS : UInt32 := 0
  entries : List Wire.TopScoreEntry := []
deriving DecidableEq, Repr

/-- `ReadBackChannel`, its leaderboard part. -/
structure ReadBackChannel where
  leaderboards : Bool := false
  nextId : UInt32 := 1
  requests : List TopScoresAsk := []
  results : List TopScoresPost := []
deriving DecidableEq, Repr

namespace ReadBackChannel

/-- `Request`: the id given out, `0` for none, and the channel after. -/
def request (c : ReadBackChannel) (epoch : ℕ) (req : Wire.TopScoresRequest) (identity : ℕ) :
    UInt32 × ReadBackChannel :=
  if !c.leaderboards || c.requests.length ≥ maxQueued then (0, c)
  else
    (c.nextId, { c with
      nextId := if c.nextId ≥ 0x7FFFFFFF then 1 else c.nextId + 1
      requests := c.requests ++ [⟨epoch, identity, { req with requestId := c.nextId }⟩] })

/-- `TakeRequests`: the queued requests go to the end of `out`. -/
def takeRequests (c : ReadBackChannel) (out : List TopScoresAsk) :
    List TopScoresAsk × ReadBackChannel :=
  (out ++ c.requests, { c with requests := [] })

/-- `SetLeaderboards`. -/
def setLeaderboards (c : ReadBackChannel) (available : Bool) : ReadBackChannel :=
  { c with leaderboards := available }

/-- `Close`: no more requests, and the queued ones go to the end of `out`. -/
def close (c : ReadBackChannel) (out : List TopScoresAsk) :
    List TopScoresAsk × ReadBackChannel :=
  (out ++ c.requests, { c with leaderboards := false, requests := [] })

/-- `PostResult`: the oldest result makes room. -/
def postResult (c : ReadBackChannel) (post : TopScoresPost) : ReadBackChannel :=
  { c with results :=
      (if c.results.length ≥ maxQueued then c.results.tail else c.results) ++ [post] }

/-- `TakeResults`: the results go to the end of `out`. -/
def takeResults (c : ReadBackChannel) (out : List TopScoresPost) :
    List TopScoresPost × ReadBackChannel :=
  (out ++ c.results, { c with results := [] })

end ReadBackChannel

/-- The requests that got an id, and the results posted. -/
structure Ledger where
  handed : List TopScoresAsk := []
  posted : List TopScoresPost := []
deriving DecidableEq, Repr

/-- The leaderboard requests on their way: in the channel, taken, and sent. -/
structure Scores where
  channel : ReadBackChannel := {}
  /-- `m_asks`. -/
  asks : List TopScoresAsk := []
  /-- `m_pendingScores`, by increasing id. -/
  pendingScores : List (UInt32 × ℕ) := []
  ledger : Ledger := {}
deriving DecidableEq, Repr

/-- `m_pendingScores[id] = epoch`. -/
def insertPending (id : UInt32) (epoch : ℕ) : List (UInt32 × ℕ) → List (UInt32 × ℕ)
  | [] => [(id, epoch)]
  | p :: l =>
    if id < p.1 then (id, epoch) :: p :: l
    else if id = p.1 then (id, epoch) :: l
    else p :: insertPending id epoch l

/-- `m_pendingScores.find(id)`: the epoch the request was asked under. -/
def findPending (id : UInt32) (pending : List (UInt32 × ℕ)) : Option ℕ :=
  (pending.find? (·.1 == id)).map Prod.snd

/-- `m_pendingScores.erase(id)`. -/
def erasePending (id : UInt32) (pending : List (UInt32 × ℕ)) : List (UInt32 × ℕ) :=
  pending.filter (·.1 != id)

namespace Scores

/-- The script's `Request`. -/
def request (s : Scores) (epoch : ℕ) (req : Wire.TopScoresRequest) (identity : ℕ) : Scores :=
  let (id, channel) := s.channel.request epoch req identity
  { s with
    channel := channel
    ledger := if id = 0 then s.ledger else
      { s.ledger with handed :=
          s.ledger.handed ++ [⟨epoch, identity, { req with requestId := id }⟩] } }

/-- The script's `TakeResults`. -/
def takeResults (s : Scores) : Scores := { s with channel := (s.channel.takeResults []).2 }

/-- `SetLeaderboards`. -/
def setLeaderboards (s : Scores) (available : Bool) : Scores :=
  { s with channel := s.channel.setLeaderboards available }

/-- `TakeRequests`, into `m_asks`. -/
def takeRequests (s : Scores) : Scores :=
  let (asks, channel) := s.channel.takeRequests s.asks
  { s with asks := asks, channel := channel }

/-- One `PostResult`. -/
def postResult (s : Scores) (post : TopScoresPost) : Scores :=
  { s with
    channel := s.channel.postResult post
    ledger := { s.ledger with posted := s.ledger.posted ++ [post] } }

/-- `PostScores`: a result decided here. -/
def postScores (s : Scores) (epoch : ℕ) (id : UInt32) (result : ℕ) : Scores :=
  s.postResult { epoch := epoch, requestId := id, result := result }

/-- `PostScores` for each ask, with one result. -/
def postAsks (s : Scores) (asks : List TopScoresAsk) (result : ℕ) : Scores :=
  asks.foldl (fun s ask => s.postScores ask.epoch ask.id result) s

/-- `PostScores` for each pending request. -/
def postPending (s : Scores) (pending : List (UInt32 × ℕ)) (result : ℕ) : Scores :=
  pending.foldl (fun s p => s.postScores p.2 p.1 result) s

/-- The part of `EndReadBacks` for a connection that ended: admission closes and every request
taken or queued is answered lost. -/
def closeAsks (s : Scores) : Scores :=
  let (asks, channel) := s.channel.close s.asks
  { { s with channel := channel }.postAsks asks scoresLost with asks := [] }

/-- `EndReadBacks`. -/
def endReadBacks (s : Scores) (lost : Bool) : Scores :=
  let s := if lost then s.closeAsks else s
  { s.postPending s.pendingScores scoresLost with pendingScores := [] }

/-- The request was asked of an older identity of the declared epoch. -/
def asksOld (epoch identity : ℕ) (ask : TopScoresAsk) : Bool :=
  ask.epoch == epoch && ask.identity < identity

/-- `LoseQueuedRequests`, for the declared epoch and identity. -/
def loseQueuedRequests (s : Scores) (epoch identity : ℕ) : Scores :=
  let s := s.takeRequests
  { s.postAsks (s.asks.filter (asksOld epoch identity)) scoresLost with
    asks := s.asks.filter (!asksOld epoch identity ·) }

/-- `SendTopScoresRequests` before it registers a request: the oldest pending one makes room. -/
def makeRoom (s : Scores) : Scores :=
  match s.pendingScores with
  | [] => s
  | oldest :: rest =>
    if s.pendingScores.length ≥ maxPendingScores then
      { s.postScores oldest.2 oldest.1 scoresLost with pendingScores := rest }
    else s

/-- `SendTopScoresRequests` just before it sends. -/
def register (s : Scores) (id : UInt32) (epoch : ℕ) : Scores :=
  let s := s.makeRoom
  { s with pendingScores := insertPending id epoch s.pendingScores }

/-- The result a refused request is answered with. -/
def refusedResult (code : UInt16) : ℕ :=
  if code = Wire.errNotDeclared then scoresNotDeclared
  else if code = Wire.errUnsupportedOperation ∨ code = Wire.errUnsupportedType then
    scoresUnsupported
  else if code = Wire.errMalformed then scoresMalformed
  else Wire.topScoresFailed.toNat

/-- `SendTopScoresRequests` after a refusal: unless a result already came, it is the answer. -/
def refused (s : Scores) (ask : TopScoresAsk) (code : UInt16) : Scores :=
  match findPending ask.id s.pendingScores with
  | none => s
  | some _ =>
    { s with pendingScores := erasePending ask.id s.pendingScores }.postScores ask.epoch ask.id
      (refusedResult code)

/-- `AnswerTopScores`: a result for a pending request is handed over; one that does not decode is
answered malformed when its id can be read. -/
def answerTopScores (s : Scores) (payload : Bytes) : Scores :=
  match Wire.TopScores.decode payload with
  | some scores =>
    match findPending scores.requestId s.pendingScores with
    | none => s
    | some epoch =>
      { s with pendingScores := erasePending scores.requestId s.pendingScores }.postResult
        { epoch := epoch, requestId := scores.requestId, result := scores.result.toNat
          ageS := scores.ageS, entries := scores.entries }
  | none =>
    match Wire.Reader.run Wire.Reader.u32 payload with
    | none => s
    | some id =>
      match findPending id s.pendingScores with
      | none => s
      | some epoch =>
        { s.postScores epoch id scoresMalformed with
          pendingScores := erasePending id s.pendingScores }

end Scores

end Worker
