import ScorbitPlugin.Memory.Requests
import ScorbitPlugin.Runs.System

set_option relaxedAutoImplicit false
set_option autoImplicit false

/-!
# The memory bridge

`src/MemoryBridge.cpp` between its two sides: the calls of the worker, `Subscribe`, `Poll`,
`ReadDirect`, `Write` and `Clear`, and the API thread's `SetGameRunning`, `SetAddressSpace` and
`Service`. A step is what one thread does in one hold of the mutex, or one access to an atomic, or
what it does to data that is its own; the three phases of `Service` are three steps, and so are
the two of a game's end. `Service` finding the mutex taken does nothing, which is no step.

Any number of calls may be under way at once, each at its own place; one worker thread, which
makes one call after another, is a case of it. A request is known by the number of the call that
made it. `History` is what happened; no function reads it.

## Main definitions

* `Memory.Bridge` — the data the threads share.
* `Memory.Call`, `Memory.Api` — where a call stands, and the API thread.
* `Memory.step`, `Memory.system` — the steps, and the bridge from its start.
-/

namespace Memory

open Codec

/-- A `Service` pass that read a snapshot in full: the subscription it was made for, the game that
ran, and the reads. -/
structure Pass where
  subscriptionId : ℕ
  ranges : List Wire.MemoryRange
  game : ℕ
  read : ReadFn
  /-- The calls of `read` before the first of them. -/
  calls : ℕ
  blocks : List Wire.MemoryBlock

/-- A set of ranges with its subscription id. -/
structure Installed where
  /-- A `uint64_t` of the source. -/
  id : ℕ := 0
  ranges : List Wire.MemoryRange := []
deriving DecidableEq, Repr

/-- What happened, as far as it is claimed anything of. -/
inductive Event
  /-- The host's write function was called, while the address space was `space`. -/
  | hostWrite (call : ℕ) (ops : List Wire.WriteOp) (applied : UInt32) (space : ℕ)
  /-- A `Write` returned. -/
  | wrote (call : ℕ) (result : Result)
  /-- A `Poll` that began during `game` and found the subscription `looked` returned, while
  `installed` was the subscription. -/
  | polled (call : ℕ) (game : ℕ) (looked installed : Installed) (reply : Option Wire.PollReply)
deriving DecidableEq, Repr

/-- What happened, newest first; the games begun; the set each subscription id stood for; and the
ids that were installed. -/
structure History where
  events : List Event := []
  passes : List Pass := []
  game : ℕ := 0
  sets : ℕ → Option (List Wire.MemoryRange) := fun id => if id = 0 then some [] else none
  installs : List ℕ := [0]

/-- The data the threads share, and the requests that were made, each under the number of its call.
The two subscription ids are `uint64_t` counters of the source, numbers here. -/
structure Bridge where
  requests : ℕ → Request := fun _ => {}
  queue : List ℕ := []
  ranges : List Wire.MemoryRange := []
  subscriptionId : ℕ := 0
  nextSubscriptionId : ℕ := 1
  nextSnapshot : Wire.PollReply := {}
  snapshot : Option Snapshot := none
  gameRunning : Bool := false
  writesUnsupported : Bool := false
  addressSpace : ℕ := 0
  history : History := {}

/-- Where a call stands: what it does next. -/
inductive Call
  | unused
  /-- `Subscribe`, about to look whether a game runs. -/
  | subscribe (ranges : List Wire.MemoryRange)
  /-- `Subscribe`, about to empty the subscription. -/
  | reset
  /-- `Subscribe`, about to take an id. -/
  | number (ranges : List Wire.MemoryRange)
  /-- `ReadDirect`, about to look whether a game runs. -/
  | readDirect (address length : UInt32)
  /-- `Write`, about to look at the address space. -/
  | write (ops : List Wire.WriteOp)
  /-- `Write`, about to look whether the host can write. -/
  | writeSupported (ops : List Wire.WriteOp)
  /-- `Write`, about to look whether a game runs. -/
  | writeGame (ops : List Wire.WriteOp)
  | clear
  /-- `Submit`, about to queue its request. -/
  | submit
  /-- `Submit`, waiting. -/
  | wait
  /-- `Poll`, about to look whether a game runs. -/
  | poll
  /-- `Poll`, about to look at the subscription. -/
  | pollLook (game : ℕ)
  /-- `Poll`, about to read the snapshot. -/
  | pollRead (game : ℕ) (looked : Installed)
  | returned
deriving DecidableEq, Repr

/-- Where the API thread stands. -/
inductive Api
  | idle
  /-- `Service` took the queue, and the subscription of then. -/
  | answering (s : Service) (work : List ℕ) (taken : Installed)
  /-- `Service` published its snapshot. -/
  | completing (work : List ℕ)
  /-- `SetGameRunning` ended a game. -/
  | ending

namespace History

/-- An event is recorded. -/
def note (h : History) (e : Event) : History := { h with events := e :: h.events }

/-- A subscription id stands for a set. -/
def assign (h : History) (id : ℕ) (ranges : List Wire.MemoryRange) : History :=
  { h with sets := fun i => if i = id then some ranges else h.sets i }

/-- An id is installed. -/
def install (h : History) (id : ℕ) : History := { h with installs := id :: h.installs }

end History

namespace Bridge

variable (b : Bridge)

/-- A request changes. -/
def setRequest (c : ℕ) (r : Request) : Bridge :=
  { b with requests := fun c' => if c' = c then r else b.requests c' }

/-- An event is recorded. -/
def note (e : Event) : Bridge := { b with history := b.history.note e }

/-! ## Under the mutex -/

/-- `ResetSubscription`. -/
def resetSubscription : Bridge :=
  { b with
    ranges := []
    subscriptionId := b.nextSubscriptionId
    nextSubscriptionId := b.nextSubscriptionId + 1
    history := (b.history.assign b.nextSubscriptionId []).install b.nextSubscriptionId }

/-- `Clear`. -/
def clear : Bridge := { b with writesUnsupported := false }.resetSubscription

/-- `Complete` installs a subscription. -/
def installs (r : Request) : Bool :=
  !r.abandoned && r.kind == .subscribe && r.subscriptionId > b.subscriptionId

/-- `Complete` of one request. -/
def completeOne (c : ℕ) : Bridge :=
  let r := b.requests c
  let b :=
    if r.kind = .write ∧ r.result = .unsupported then { b with writesUnsupported := true } else b
  let b :=
    if b.installs r then
      { b with
        ranges := r.accepted
        subscriptionId := r.subscriptionId
        history := b.history.install r.subscriptionId }
    else b
  b.setRequest c { r with done := true }

/-- `Complete`. -/
def complete (requests : List ℕ) : Bridge := requests.foldl completeOne b

/-- A request is answered without a game. -/
def answerNoGame (c : ℕ) : Bridge :=
  let r := (b.requests c).answerNoGame
  { b.setRequest c r with
    history := if r.kind = .subscribe then b.history.assign r.subscriptionId [] else b.history }

/-- A game begins, when none runs. -/
def startGame : Bridge :=
  { b with
    gameRunning := true
    history := if b.gameRunning then b.history else { b.history with game := b.history.game + 1 } }

/-! ## The API thread -/

/-- `m_gameRunning` is stored. -/
def storeGameRunning (running : Bool) : Bridge :=
  if running then b.startGame else { b with gameRunning := false }

/-- `SetGameRunning(false)` under the mutex: whatever is queued is answered. -/
def endGame : Bridge :=
  let pending := b.queue
  let b := pending.foldl answerNoGame { b with gameRunning := false, queue := [] }
  b.complete pending

/-- `PublishSnapshot`. -/
def publish (rangesId : ℕ) (complete : Bool) : Bridge :=
  { b with snapshot := publishSnapshot b.nextSnapshot rangesId complete b.snapshot }

/-- `SetGameRunning(false)` after it: no snapshot outlives the game. -/
def publishEnd : Bridge :=
  { b with
    nextSnapshot := { b.nextSnapshot with playerRunning := 0, blocks := [] } }.publish 0 false

/-- `Service` takes the queue. -/
def takeQueue (s : Service) : Bridge :=
  { b.storeGameRunning s.gameRunning with
    queue := []
    requests := fun c =>
      if c ∈ b.queue then { b.requests c with taken := true } else b.requests c }

/-- `Service` answers a request: what the host did is recorded, and the set its id stands for. -/
def answerOne (s : Service) (calls c : ℕ) : Bridge × ℕ :=
  let a := (b.requests c).answer s b.addressSpace calls
  let history :=
    if a.request.kind = .subscribe then
      b.history.assign a.request.subscriptionId a.request.accepted
    else b.history
  let history :=
    match a.applied with
    | none => history
    | some applied => history.note (.hostWrite c a.request.ops applied b.addressSpace)
  ({ b.setRequest c a.request with history := history }, a.calls)

/-- The subscription a snapshot is read for, after an answered request. -/
def followed (r : Request) (current : Installed) : Installed :=
  if r.kind = .subscribe ∧ r.subscriptionId > current.id then ⟨r.subscriptionId, r.accepted⟩
  else current

/-- `Service` answers what it took. -/
def answerAll (s : Service) : List ℕ → Bridge → ℕ → Installed → Bridge × ℕ × Installed
  | [], b, calls, current => (b, calls, current)
  | c :: work, b, calls, current =>
    let (b, calls) := b.answerOne s calls c
    answerAll s work b calls (followed (b.requests c) current)

/-- `Service` reads the snapshot and publishes it. -/
def snapshotFor (s : Service) (calls : ℕ) (current : Installed) : Bridge :=
  let (next, complete) := takeSnapshot b.nextSnapshot s current.ranges calls
  let history :=
    if complete then
      { b.history with passes :=
          ⟨current.id, current.ranges, b.history.game, s.read, calls, next.blocks⟩
            :: b.history.passes }
    else b.history
  { b with nextSnapshot := next, history := history }.publish current.id complete

/-- The second phase of `Service`. -/
def serve (s : Service) (work : List ℕ) (taken : Installed) : Bridge :=
  let (b, calls, current) := answerAll s work b 0 taken
  b.snapshotFor s calls current

/-! ## The worker -/

/-- A call takes a subscription id for its request. -/
def number (c : ℕ) (ranges : List Wire.MemoryRange) : Bridge :=
  { b.setRequest c
      { kind := .subscribe, ranges := ranges, subscriptionId := b.nextSubscriptionId } with
    nextSubscriptionId := b.nextSubscriptionId + 1 }

/-- `Submit` up to its wait: the bridge, and what it returns unless it waits. -/
def submit (c : ℕ) : Bridge × Option Result :=
  if !b.gameRunning then
    let b := (b.answerNoGame c).complete [c]
    (b, some (b.requests c).result)
  else if b.queue.length ≥ queueLimit then (b, some .busy)
  else ({ b with queue := b.queue ++ [c] }, none)

/-- `Submit` gives up on its request. -/
def abandon (c : ℕ) : Bridge :=
  { b.setRequest c { b.requests c with abandoned := true } with
    queue := b.queue.filter (· != c) }

/-- What a `Write` returns is recorded. -/
def wrote (c : ℕ) (result : Result) : Bridge :=
  if (b.requests c).kind = .write then b.note (.wrote c result) else b

end Bridge

end Memory
