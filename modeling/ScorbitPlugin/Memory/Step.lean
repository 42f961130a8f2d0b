import ScorbitPlugin.Memory.Bridge

set_option relaxedAutoImplicit false
set_option autoImplicit false

/-!
# The steps of the memory bridge

The calls of the worker and the three steps of a `Service` in any interleaving. A call that waits
may find its deadline passed at any time, and a `Poll` its snapshot torn; a stopping worker ends
every wait.

## Main definitions

* `Memory.State` — the shared data, the calls and the API thread.
* `Memory.Act` — what can happen.
* `Memory.step`, `Memory.system` — the steps, and the bridge from its start.
-/

namespace Memory

open Codec

/-- The state of the bridge, of its calls and of the API thread. -/
structure State where
  bridge : Bridge := {}
  calls : ℕ → Call := fun _ => .unused
  started : ℕ := 0
  /-- The worker is not stopping. -/
  running : Bool := true
  api : Api := .idle

/-- What can happen. -/
inductive Act
  | subscribe (ranges : List Wire.MemoryRange)
  | poll
  | readDirect (address length : UInt32)
  | write (ops : List Wire.WriteOp)
  | clear
  /-- A call goes on. -/
  | advance (c : ℕ)
  /-- A waiting call's deadline has passed. -/
  | timeout (c : ℕ)
  /-- A `Poll` finds its snapshot torn. -/
  | torn (c : ℕ)
  | stop
  | setGameRunning (running : Bool)
  | setAddressSpace (space : ℕ)
  | service (s : Service)
  /-- The API thread goes on in `Service`, or in `SetGameRunning`. -/
  | phase

/-- `Subscribe`'s checks. -/
def checkSubscribe (ranges : List Wire.MemoryRange) : Option Result :=
  if ranges.length > Wire.maxSubscribeRanges then some .tooLarge
  else if ranges.any fun range => wraps range.address range.length then some .outOfRange
  else if (ranges.map (·.length.toNat)).sum > Wire.maxSubscribeBytes then some .tooLarge
  else none

/-- `ReadDirect`'s checks. -/
def checkReadDirect (address length : UInt32) : Option Result :=
  if length.toNat > Wire.maxReadDirectBytes then some .tooLarge
  else if length = 0 ∨ wraps address length then some .outOfRange
  else none

/-- `Write`'s checks of the ops alone. -/
def checkWrite (ops : List Wire.WriteOp) : Option Result :=
  if ops.length > Wire.maxWriteOps then some .tooLarge
  else if ops = [] then some .outOfRange
  else if ops.any fun op => wraps op.address (UInt32.ofNat op.bytes.length) then some .outOfRange
  else none

namespace State

variable (s : State)

/-- A call goes to a place, the bridge being as given. -/
def goto (c : ℕ) (b : Bridge) (call : Call) : State :=
  { s with bridge := b, calls := fun c' => if c' = c then call else s.calls c' }

/-- A new call. -/
def start (call : Call) : State := { s.goto s.started s.bridge call with started := s.started + 1 }

/-- A `Write` returns before it made a request. -/
def refuse (c : ℕ) (result : Result) : State := s.goto c (s.bridge.note (.wrote c result)) .returned

/-- A call returns from `Submit`. -/
def leave (c : ℕ) (b : Bridge) (result : Result) : State := s.goto c (b.wrote c result) .returned

/-- `Submit` up to its wait. -/
def submit (c : ℕ) : State :=
  match s.bridge.submit c with
  | (b, none) => s.goto c b .wait
  | (b, some result) => s.leave c b result

/-- `Submit` gives up. -/
def abandon (c : ℕ) : State := s.leave c (s.bridge.abandon c) .busy

/-- `Poll` with what it read of the snapshot. -/
def polled (c game : ℕ) (looked : Installed) (read : Option Snapshot) : State :=
  let installed : Installed := ⟨s.bridge.subscriptionId, s.bridge.ranges⟩
  let reply : Option Wire.PollReply :=
    if looked.ranges.isEmpty then
      some { frame := (read.map (·.header.frame)).getD 0
             playerRunning := (read.map (·.header.playerRunning)).getD 0 }
    else read.bind (·.poll looked.id)
  s.goto c (s.bridge.note (.polled c game looked installed reply)) .returned

/-- A call goes on. -/
def advance (c : ℕ) : Option State :=
  let b := s.bridge
  match s.calls c with
  | .unused | .returned => none
  | .subscribe ranges => some (s.goto c b (if b.gameRunning then .number ranges else .reset))
  | .reset => some (s.goto c b.resetSubscription .returned)
  | .number ranges => some (s.goto c (b.number c ranges) .submit)
  | .readDirect address length =>
    some (if b.gameRunning then
        s.goto c (b.setRequest c { kind := .readDirect, address := address, length := length })
          .submit
      else s.goto c b .returned)
  | .write ops =>
    some (if beyondSpace ops b.addressSpace then s.refuse c .outOfRange
      else s.goto c b (.writeSupported ops))
  | .writeSupported ops =>
    some (if b.writesUnsupported then s.refuse c .unsupported else s.goto c b (.writeGame ops))
  | .writeGame ops =>
    some (if b.gameRunning then s.goto c (b.setRequest c { kind := .write, ops := ops }) .submit
      else s.refuse c .noGame)
  | .clear => some (s.goto c b.clear .returned)
  | .submit => some (s.submit c)
  | .wait =>
    if (b.requests c).done then some (s.leave c b (b.requests c).result)
    else if !s.running then some (s.abandon c)
    else none
  | .poll => some (s.goto c b (if b.gameRunning then .pollLook b.history.game else .returned))
  | .pollLook game => some (s.goto c b (.pollRead game ⟨b.subscriptionId, b.ranges⟩))
  | .pollRead game looked => some (s.polled c game looked b.snapshot)

/-- A waiting call's deadline has passed: a write already taken is waited for all the same. -/
def timeout (c : ℕ) : Option State :=
  let r := s.bridge.requests c
  if s.calls c = .wait ∧ ¬ r.done ∧ ¬ (s.running ∧ r.kind = .write ∧ r.taken) then
    some (s.abandon c)
  else none

/-- A `Poll` finds its snapshot torn. -/
def torn (c : ℕ) : Option State :=
  match s.calls c with
  | .pollRead game looked => some (s.polled c game looked none)
  | _ => none

/-- The API thread goes on. -/
def phase : Option State :=
  match s.api with
  | .idle => none
  | .answering service work taken =>
    some { s with bridge := s.bridge.serve service work taken, api := .completing work }
  | .completing work => some { s with bridge := s.bridge.complete work, api := .idle }
  | .ending => some { s with bridge := s.bridge.publishEnd, api := .idle }

/-- The API thread is between two calls. -/
def apiIdle : Bool :=
  match s.api with
  | .idle => true
  | _ => false

end State

/-- One step. The bytes of a write op can be counted in 32 bits; they are on the wire in 16. -/
def step (s : State) : Act → Option State
  | .subscribe ranges =>
    some (s.start (match checkSubscribe ranges with
      | some _ => .returned
      | none => if ranges.isEmpty then .reset else .subscribe ranges))
  | .poll => some (s.start .poll)
  | .readDirect address length =>
    some (s.start (match checkReadDirect address length with
      | some _ => .returned
      | none => .readDirect address length))
  | .write ops =>
    if ops.all fun op => op.bytes.length < 2 ^ 32 then
      some (match checkWrite ops with
        | some result => (s.start .unused).refuse s.started result
        | none => s.start (.write ops))
    else none
  | .clear => some (s.start .clear)
  | .advance c => s.advance c
  | .timeout c => s.timeout c
  | .torn c => s.torn c
  | .stop => some { s with running := false }
  | .setGameRunning running =>
    if s.apiIdle then
      some (if running then { s with bridge := s.bridge.startGame }
        else { s with bridge := s.bridge.endGame, api := .ending })
    else none
  | .setAddressSpace space =>
    if s.apiIdle then some { s with bridge := { s.bridge with addressSpace := space } } else none
  | .service service =>
    if s.apiIdle then
      some
        { s with
          bridge := s.bridge.takeQueue service
          api := .answering service s.bridge.queue ⟨s.bridge.subscriptionId, s.bridge.ranges⟩ }
    else none
  | .phase => s.phase

/-- The bridge, from its start. -/
def system : Runs.System State Act := .ofStep (· = {}) step

end Memory
