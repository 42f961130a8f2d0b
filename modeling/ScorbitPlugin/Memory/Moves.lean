import Mathlib.Data.List.Nodup
import Mathlib.Logic.Relation
import ScorbitPlugin.Memory.Step

set_option relaxedAutoImplicit false
set_option autoImplicit false

/-!
# What a step of the memory bridge does

A step of the bridge is a sequence of moves, each of them about one call or one request: a request
is made, queued, taken, answered, completed. Who holds a request, and what the API thread is about
to do, is seen from its place in `Service` and `SetGameRunning`.

## Main definitions

* `Memory.Hold`, `Memory.Phase`, `Memory.Core` — the bridge with who holds which request.
* `Memory.Move` — what can happen to one call, one request or the snapshot.
* `Memory.Filed` — where the requests can be.

## Main results

* `Memory.Filed.move` — the moves keep the requests there.
-/

namespace Memory

open Relation

/-- Who holds a request: nobody does, or it is held unanswered, or answered and not completed.
It is `locked` when it is held for no longer than one hold of the mutex. -/
inductive Hold
  | free
  | asked (locked : Bool)
  | answered (locked : Bool)
deriving DecidableEq, Repr

/-- Held within one hold of the mutex. -/
def Hold.locked : Hold → Bool
  | .free => false
  | .asked locked | .answered locked => locked

/-- What the API thread is about to publish. -/
inductive Phase
  | none
  | serving (gameRunning : Bool)
  | ending
deriving DecidableEq, Repr

/-- The bridge, the calls, who holds a request, and what the API thread is about. -/
@[ext] structure Core where
  bridge : Bridge := {}
  calls : ℕ → Call := fun _ => .unused
  running : Bool := true
  hold : ℕ → Hold := fun _ => .free
  phase : Phase := .none
  /-- The subscription the next snapshot is read for. -/
  following : Installed := {}
  /-- The frame of the latest `Service`. -/
  frame : UInt64 := 0

namespace Core

variable (k : Core)

/-- A call goes to a place. -/
def place (c : ℕ) (b : Bridge) (call : Call) : Core :=
  { k with bridge := b, calls := fun c' => if c' = c then call else k.calls c' }

/-- A request is held otherwise. -/
def keep (c : ℕ) (hold : Hold) (b : Bridge) : Core :=
  { k with bridge := b, hold := fun c' => if c' = c then hold else k.hold c' }

/-- The queue is taken. -/
def take (locked : Bool) (b : Bridge) : Core :=
  { k with
    bridge := b
    hold := fun c => if c ∈ k.bridge.queue then .asked locked else k.hold c }

end Core

/-- A call that has made no request. -/
def Call.early : Call → Bool
  | .submit | .wait | .returned => false
  | _ => true

/-- A call begins. -/
inductive Begins : Call → Prop
  | refused : Begins .returned
  | empty : Begins .reset
  | subscribe {ranges : List Wire.MemoryRange} (h : checkSubscribe ranges = none) :
      Begins (.subscribe ranges)
  | readDirect (address length : UInt32) : Begins (.readDirect address length)
  | write {ops : List Wire.WriteOp} (hsize : ∀ op ∈ ops, op.bytes.length < 2 ^ 32)
      (h : checkWrite ops = none) : Begins (.write ops)
  | clear : Begins .clear
  | poll : Begins .poll

/-- A call goes on without a request. -/
inductive Advances (b : Bridge) : Call → Call → Prop
  | number (ranges : List Wire.MemoryRange) : Advances b (.subscribe ranges) (.number ranges)
  | empty (ranges : List Wire.MemoryRange) : Advances b (.subscribe ranges) .reset
  | noDirect (address length : UInt32) : Advances b (.readDirect address length) .returned
  | supported (ops : List Wire.WriteOp) : Advances b (.write ops) (.writeSupported ops)
  | game (ops : List Wire.WriteOp) : Advances b (.writeSupported ops) (.writeGame ops)
  | look (h : b.gameRunning = true) : Advances b .poll (.pollLook b.history.game)
  | noPoll : Advances b .poll .returned
  | looked (game : ℕ) :
      Advances b (.pollLook game) (.pollRead game ⟨b.subscriptionId, b.ranges⟩)

/-- What a `Poll` answers with what it read of the snapshot. -/
def pollReply (looked : Installed) (read : Option Snapshot) : Option Wire.PollReply :=
  if looked.ranges.isEmpty then
    some { frame := (read.map (·.header.frame)).getD 0
           playerRunning := (read.map (·.header.playerRunning)).getD 0 }
  else read.bind (·.poll looked.id)

/-- When a call may begin, and a `Service`, and whether the worker may stop. -/
structure Rules where
  begins : Core → Call → Prop := fun _ _ => True
  serves : Core → Service → Prop := fun _ _ => True
  stops : Prop := True

/-- What can happen to one call, one request or the snapshot, under rules. -/
inductive Move (R : Rules) : Core → Core → Prop
  | begin {k : Core} {c : ℕ} {call : Call} (h : k.calls c = .unused) (hb : Begins call)
      (hmay : R.begins k call) : Move R k (k.place c k.bridge call)
  | go {k : Core} {c : ℕ} {call : Call} (h : Advances k.bridge (k.calls c) call) :
      Move R k (k.place c k.bridge call)
  | refuse {k : Core} {c : ℕ} {result : Result} (h : (k.calls c).early = true)
      (hok : result ≠ .ok) (hmay : k.calls c = .unused → R.begins k .returned) :
      Move R k (k.place c (k.bridge.note (.wrote c result)) .returned)
  | reset {k : Core} {c : ℕ} (h : k.calls c = .reset) :
      Move R k (k.place c k.bridge.resetSubscription .returned)
  | clear {k : Core} {c : ℕ} (h : k.calls c = .clear) :
      Move R k (k.place c k.bridge.clear .returned)
  | number {k : Core} {c : ℕ} {ranges : List Wire.MemoryRange} (h : k.calls c = .number ranges) :
      Move R k (k.place c (k.bridge.number c ranges) .submit)
  | readDirect {k : Core} {c : ℕ} {address length : UInt32}
      (h : k.calls c = .readDirect address length) :
      Move R k (k.place c
        (k.bridge.setRequest c { kind := .readDirect, address := address, length := length })
        .submit)
  | write {k : Core} {c : ℕ} {ops : List Wire.WriteOp} (h : k.calls c = .writeGame ops) :
      Move R k (k.place c (k.bridge.setRequest c { kind := .write, ops := ops }) .submit)
  | enqueue {k : Core} {c : ℕ} (h : k.calls c = .submit) :
      Move R k (k.place c { k.bridge with queue := k.bridge.queue ++ [c] } .wait)
  | full {k : Core} {c : ℕ} (h : k.calls c = .submit) :
      Move R k (k.place c (k.bridge.wrote c .busy) .returned)
  | hand {k : Core} {c : ℕ} (h : k.calls c = .submit) :
      Move R k ((k.place c k.bridge .wait).keep c (.asked true) k.bridge)
  | leave {k : Core} {c : ℕ} (h : k.calls c = .wait) (hdone : (k.bridge.requests c).done = true) :
      Move R k (k.place c (k.bridge.wrote c (k.bridge.requests c).result) .returned)
  | abandon {k : Core} {c : ℕ} (h : k.calls c = .wait)
      (hdone : (k.bridge.requests c).done = false) (hlocked : (k.hold c).locked = false)
      (hwrite : k.running = true →
        ¬((k.bridge.requests c).kind = .write ∧ (k.bridge.requests c).taken = true)) :
      Move R k (k.place c ((k.bridge.abandon c).wrote c .busy) .returned)
  | polled {k : Core} {c game : ℕ} {looked : Installed} {read : Option Snapshot}
      (h : k.calls c = .pollRead game looked) (hread : read = none ∨ read = k.bridge.snapshot) :
      Move R k (k.place c
        (k.bridge.note (.polled c game looked ⟨k.bridge.subscriptionId, k.bridge.ranges⟩
          (pollReply looked read))) .returned)
  | stop {k : Core} (h : R.stops) : Move R k { k with running := false }
  | startGame {k : Core} (h : k.phase = .none) :
      Move R k { k with bridge := k.bridge.startGame }
  | endGame {k : Core} (h : k.phase = .none) :
      Move R k { k.take true { k.bridge with gameRunning := false, queue := [] } with
        phase := .ending }
  | space {k : Core} (space : ℕ) :
      Move R k { k with bridge := { k.bridge with addressSpace := space } }
  | service {k : Core} {s : Service} (h : k.phase = .none) (hserves : R.serves k s) :
      Move R k { k.take false (k.bridge.takeQueue s) with
        phase := .serving s.gameRunning
        following := ⟨k.bridge.subscriptionId, k.bridge.ranges⟩
        frame := s.frame }
  | answer {k : Core} {s : Service} {calls c : ℕ} {locked : Bool} {following : Installed}
      (h : k.hold c = .asked locked)
      (hgame : s.gameRunning = true → s.frame = k.frame ∧ locked = false)
      (hfollow : following = k.following ∨
        following = Bridge.followed ((k.bridge.answerOne s calls c).1.requests c) k.following) :
      Move R k
        { k.keep c (.answered locked) (k.bridge.answerOne s calls c).1 with
          following := following }
  | finish {k : Core} {c : ℕ} {locked : Bool} (h : k.hold c = .answered locked)
      (hphase : locked = false → k.phase = .none) :
      Move R k (k.keep c .free (k.bridge.completeOne c))
  | pass {k : Core} {s : Service} {calls : ℕ} (h : k.phase = .serving s.gameRunning)
      (hframe : s.frame = k.frame) :
      Move R k { k with
        bridge := k.bridge.snapshotFor s calls k.following, phase := .none, following := {} }
  | close {k : Core} (h : k.phase = .ending) :
      Move R k { k with bridge := k.bridge.publishEnd, phase := .none }

/-! ## What the moves keep -/

namespace Request

variable (r : Request) (s : Service) (space calls : ℕ)

/-- An answer changes what is answered, and nothing else of a request. -/
theorem answer_keeps : ∃ accepted reply writeReply result,
    (r.answer s space calls).request =
      { r with
        accepted := accepted, reply := reply, writeReply := writeReply, result := result } := by
  unfold Request.answer answerWrite answerSubscribe answerReadDirect written
  repeat' split
  all_goals exact ⟨_, _, _, _, rfl⟩

/-- An answer leaves the kind of its request. -/
@[simp] theorem kind_answer : (r.answer s space calls).request.kind = r.kind := by
  obtain ⟨_, _, _, _, h⟩ := r.answer_keeps s space calls
  rw [h]

/-- An answer leaves the ranges asked for. -/
@[simp] theorem ranges_answer : (r.answer s space calls).request.ranges = r.ranges := by
  obtain ⟨_, _, _, _, h⟩ := r.answer_keeps s space calls
  rw [h]

/-- An answer leaves the subscription id. -/
@[simp] theorem subscriptionId_answer :
    (r.answer s space calls).request.subscriptionId = r.subscriptionId := by
  obtain ⟨_, _, _, _, h⟩ := r.answer_keeps s space calls
  rw [h]

/-- An answer leaves the ops. -/
@[simp] theorem ops_answer : (r.answer s space calls).request.ops = r.ops := by
  obtain ⟨_, _, _, _, h⟩ := r.answer_keeps s space calls
  rw [h]

/-- An answer leaves `done`: that is set when the request is completed. -/
@[simp] theorem done_answer : (r.answer s space calls).request.done = r.done := by
  obtain ⟨_, _, _, _, h⟩ := r.answer_keeps s space calls
  rw [h]

/-- An answer leaves it taken or not. -/
@[simp] theorem taken_answer : (r.answer s space calls).request.taken = r.taken := by
  obtain ⟨_, _, _, _, h⟩ := r.answer_keeps s space calls
  rw [h]

/-- An answer leaves it abandoned or not. -/
@[simp] theorem abandoned_answer : (r.answer s space calls).request.abandoned = r.abandoned := by
  obtain ⟨_, _, _, _, h⟩ := r.answer_keeps s space calls
  rw [h]

end Request

namespace Bridge

variable (b : Bridge) (c : ℕ)

/-- A `Write` that returns changes no request. -/
@[simp] theorem requests_wrote (result : Result) : (b.wrote c result).requests = b.requests := by
  unfold wrote note
  split <;> rfl

/-- A `Write` that returns leaves the queue. -/
@[simp] theorem queue_wrote (result : Result) : (b.wrote c result).queue = b.queue := by
  unfold wrote note
  split <;> rfl

/-- What completing a request changes. -/
theorem completeOne_eq : b.completeOne c =
    { b with
      requests := fun c' =>
        if c' = c then { b.requests c with done := true } else b.requests c'
      ranges := if b.installs (b.requests c) then (b.requests c).accepted else b.ranges
      subscriptionId :=
        if b.installs (b.requests c) then (b.requests c).subscriptionId else b.subscriptionId
      writesUnsupported :=
        b.writesUnsupported || decide
          ((b.requests c).kind = .write ∧ (b.requests c).result = .unsupported)
      history :=
        if b.installs (b.requests c) then b.history.install (b.requests c).subscriptionId
        else b.history } := by
  unfold completeOne setRequest installs
  by_cases hw : (b.requests c).kind = .write ∧ (b.requests c).result = .unsupported
  · simp [hw]
  · by_cases hi : (!(b.requests c).abandoned && (b.requests c).kind == Kind.subscribe &&
        decide ((b.requests c).subscriptionId > b.subscriptionId)) = true
    · simp only [if_neg hw, if_pos hi, decide_eq_false hw, Bool.or_false]
    · simp only [if_neg hw, if_neg hi, decide_eq_false hw, Bool.or_false]

/-- Completing a request marks it done. -/
@[simp] theorem requests_completeOne (c' : ℕ) : (b.completeOne c).requests c' =
    if c' = c then { b.requests c with done := true } else b.requests c' := by
  rw [completeOne_eq]

/-- To complete a request leaves the queue. -/
@[simp] theorem queue_completeOne : (b.completeOne c).queue = b.queue := by
  rw [completeOne_eq]

/-- Answering a request changes that request. -/
@[simp] theorem requests_answerOne (s : Service) (calls c' : ℕ) :
    (b.answerOne s calls c).1.requests c' =
      if c' = c then ((b.requests c).answer s b.addressSpace calls).request
      else b.requests c' := rfl

/-- To answer a request leaves the queue. -/
@[simp] theorem queue_answerOne (s : Service) (calls : ℕ) :
    (b.answerOne s calls c).1.queue = b.queue := rfl

/-- A snapshot changes no request. -/
@[simp] theorem requests_snapshotFor (s : Service) (calls : ℕ) (current : Installed) :
    (b.snapshotFor s calls current).requests = b.requests := rfl

/-- A snapshot leaves the queue. -/
@[simp] theorem queue_snapshotFor (s : Service) (calls : ℕ) (current : Installed) :
    (b.snapshotFor s calls current).queue = b.queue := rfl

/-- The start of a game is none of the events. -/
@[simp] theorem events_startGame : b.startGame.history.events = b.history.events := by
  unfold startGame
  dsimp only
  split <;> rfl

/-- To take the queue is no event. -/
@[simp] theorem events_takeQueue (s : Service) :
    (b.takeQueue s).history.events = b.history.events := by
  unfold takeQueue storeGameRunning
  dsimp only
  split
  · exact b.events_startGame
  · rfl

/-- To complete a request is no event. -/
@[simp] theorem events_completeOne : (b.completeOne c).history.events = b.history.events := by
  rw [completeOne_eq]
  dsimp only
  split <;> rfl

/-- A snapshot is no event. -/
@[simp] theorem events_snapshotFor (s : Service) (calls : ℕ) (current : Installed) :
    (b.snapshotFor s calls current).history.events = b.history.events := by
  unfold snapshotFor publish
  dsimp only
  split <;> rfl

/-- Answering records that the host was called.

**Proof sketch.** By whether the answer applied anything: only then is the host's call noted,
whichever way the request went on. -/
theorem events_answerOne (s : Service) (calls : ℕ) :
    (b.answerOne s calls c).1.history.events =
      match ((b.requests c).answer s b.addressSpace calls).applied with
      | none => b.history.events
      | some applied =>
        .hostWrite c (b.requests c).ops applied b.addressSpace :: b.history.events := by
  unfold answerOne
  dsimp only
  rw [Request.ops_answer]
  cases ((b.requests c).answer s b.addressSpace calls).applied with
  | none =>
    dsimp only
    split <;> rfl
  | some applied =>
    dsimp only [History.note]
    split <;> rfl

/-- Returning is recorded of a write. -/
theorem events_wrote (result : Result) : (b.wrote c result).history.events =
    if (b.requests c).kind = .write then .wrote c result :: b.history.events
    else b.history.events := by
  unfold wrote
  split <;> rfl

/-- The start of a game installs no subscription. -/
theorem installs_startGame : b.startGame.history.installs = b.history.installs := by
  unfold startGame
  dsimp only
  split <;> rfl

/-- The start of a game is no pass. -/
theorem passes_startGame : b.startGame.history.passes = b.history.passes := by
  unfold startGame
  dsimp only
  split <;> rfl

/-- A game that starts is another one. -/
theorem game_startGame : b.startGame.history.game =
    if b.gameRunning then b.history.game else b.history.game + 1 := by
  unfold startGame
  dsimp only
  split <;> rfl

end Bridge

/-! ## Requests -/

/-- Where a request is, whether it is queued, who holds it and where its call stands. -/
structure FiledAt (inQueue : Prop) (hold : Hold) (call : Call) (r : Request) : Prop where
  /-- A queued request is as it was made. -/
  queued : inQueue → call = .wait ∧ hold = .free ∧ r.taken = false ∧ r.done = false ∧
    r.abandoned = false
  /-- A held request is waited for, unless it was given up on. -/
  held : hold ≠ .free → r.done = false ∧
    (call = .wait ∧ r.abandoned = false ∨ call = .returned ∧ r.abandoned = true)
  /-- It was taken, if it is held for long. -/
  taken : hold ≠ .free → hold.locked = false → r.taken = true
  submitted : call = .submit → r.taken = false ∧ r.done = false ∧ r.abandoned = false
  early : call.early = true → r = {}
  waiting : call = .wait → inQueue ∨ hold ≠ .free ∨ r.done = true
  abandoned : r.abandoned = true → call = .returned

/-- Where the requests are. -/
structure Filed (k : Core) : Prop where
  nodup : k.bridge.queue.Nodup
  filedAt : ∀ c, FiledAt (c ∈ k.bridge.queue) (k.hold c) (k.calls c) (k.bridge.requests c)

namespace FiledAt

variable {inQueue : Prop} {hold : Hold} {call : Call} {r : Request}

/-- Before its request is queued a call's request is nowhere. -/
theorem out (h : FiledAt inQueue hold call r) (hcall : call.early = true ∨ call = .submit) :
    ¬ inQueue ∧ hold = .free := by
  have hwait : call ≠ .wait := by
    rintro rfl
    simp [Call.early] at hcall
  have hreturned : call ≠ .returned := by
    rintro rfl
    simp [Call.early] at hcall
  refine ⟨fun hq => hwait (h.queued hq).1, ?_⟩
  by_contra hne
  rcases (h.held hne).2 with ⟨h', -⟩ | ⟨h', -⟩
  · exact hwait h'
  · exact hreturned h'

/-- A call that waits for nothing any more returns. -/
theorem returns (_ : FiledAt inQueue hold call r) (hqueued : ¬ inQueue) (hfree : hold = .free) :
    FiledAt inQueue hold .returned r where
  queued hq := absurd hq hqueued
  held hne := absurd hfree hne
  taken hne := absurd hfree hne
  submitted := nofun
  early := nofun
  waiting := nofun
  abandoned _ := rfl

/-- A call goes on before it makes a request. -/
theorem goes {call' : Call} (h : FiledAt inQueue hold call r) (hcall : call.early = true)
    (hcall' : call'.early = true) : FiledAt inQueue hold call' r := by
  obtain ⟨hqueued, hfree⟩ := h.out (.inl hcall)
  have hr : r = {} := h.early hcall
  refine ⟨fun hq => absurd hq hqueued, fun hne => absurd hfree hne, fun hne => absurd hfree hne,
    ?_, fun _ => hr, ?_, ?_⟩
  · rintro rfl
    cases hcall'
  · rintro rfl
    cases hcall'
  · rw [hr]
    nofun

/-- A call makes a request. -/
theorem makes {r' : Request} (h : FiledAt inQueue hold call r) (hcall : call.early = true)
    (hr : r'.taken = false ∧ r'.done = false ∧ r'.abandoned = false) :
    FiledAt inQueue hold .submit r' := by
  obtain ⟨hqueued, hfree⟩ := h.out (.inl hcall)
  refine ⟨fun hq => absurd hq hqueued, fun hne => absurd hfree hne, fun hne => absurd hfree hne,
    fun _ => hr, nofun, nofun, ?_⟩
  rw [hr.2.2]
  nofun

/-- A request is queued. -/
theorem enqueues (h : FiledAt inQueue hold .submit r) : FiledAt True hold .wait r := by
  obtain ⟨-, hfree⟩ := h.out (.inr rfl)
  obtain ⟨htaken, hdone, habandoned⟩ := h.submitted rfl
  refine ⟨fun _ => ⟨rfl, hfree, htaken, hdone, habandoned⟩, fun hne => absurd hfree hne,
    fun hne => absurd hfree hne, nofun, nofun, fun _ => .inl trivial, ?_⟩
  rw [habandoned]
  nofun

/-- A call answers its request itself. -/
theorem hands (h : FiledAt inQueue hold .submit r) : FiledAt inQueue (.asked true) .wait r := by
  obtain ⟨hqueued, -⟩ := h.out (.inr rfl)
  obtain ⟨-, hdone, habandoned⟩ := h.submitted rfl
  refine ⟨fun hq => absurd hq hqueued, fun _ => ⟨hdone, .inl ⟨rfl, habandoned⟩⟩, nofun, nofun,
    nofun, fun _ => .inr (.inl nofun), ?_⟩
  rw [habandoned]
  nofun

/-- A queued request is taken. -/
theorem takes (h : FiledAt True hold call r) (locked : Bool) :
    FiledAt False (.asked locked) call { r with taken := r.taken || !locked } := by
  obtain ⟨rfl, -, -, hdone, habandoned⟩ := h.queued trivial
  refine ⟨nofun, fun _ => ⟨hdone, .inl ⟨rfl, habandoned⟩⟩, fun _ hlocked => ?_, nofun, nofun,
    fun _ => .inr (.inl nofun), ?_⟩
  · obtain rfl : locked = false := hlocked
    exact Bool.or_true _
  · dsimp only
    rw [habandoned]
    nofun

/-- A request that nobody queued is not in the queue when it is emptied. -/
theorem untaken (h : FiledAt inQueue hold call r) (hqueued : ¬ inQueue) :
    FiledAt False hold call r :=
  ⟨nofun, h.held, h.taken, h.submitted, h.early,
    fun hwait => (h.waiting hwait).imp_left fun hq => absurd hq hqueued, h.abandoned⟩

/-- A held request is answered.

**Proof sketch.** A held request is not queued; its answer changes none of the flags that the filing
is about. -/
theorem answers {locked : Bool} {r' : Request} (h : FiledAt inQueue (.asked locked) call r)
    (htaken : r'.taken = r.taken) (hdone : r'.done = r.done)
    (habandoned : r'.abandoned = r.abandoned) :
    FiledAt inQueue (.answered locked) call r' := by
  have hheld := h.held nofun
  refine ⟨fun hq => (nomatch (h.queued hq).2.1), fun _ => ?_, fun _ hl => ?_, ?_, ?_,
    fun _ => .inr (.inl nofun), ?_⟩
  · rw [hdone, habandoned]
    exact hheld
  · rw [htaken]
    exact h.taken nofun hl
  · rintro rfl
    simp at hheld
  · intro he
    obtain ⟨-, ⟨rfl, -⟩ | ⟨rfl, -⟩⟩ := hheld
    · cases he
    · cases he
  · rw [habandoned]
    exact h.abandoned

/-- An answered request is completed. -/
theorem finishes {locked : Bool} (h : FiledAt inQueue (.answered locked) call r) :
    FiledAt inQueue .free call { r with done := true } := by
  obtain ⟨-, hheld⟩ := h.held nofun
  refine ⟨fun hq => (nomatch (h.queued hq).2.1), fun hne => absurd rfl hne,
    fun hne => absurd rfl hne, ?_, ?_, fun _ => .inr (.inr rfl), h.abandoned⟩
  · rintro rfl
    simp at hheld
  · intro he
    obtain ⟨rfl, -⟩ | ⟨rfl, -⟩ := hheld
    · cases he
    · cases he

/-- A call gives up on its request. -/
theorem abandons (h : FiledAt inQueue hold .wait r) (hdone : r.done = false) :
    FiledAt False hold .returned { r with abandoned := true } :=
  ⟨nofun, fun _ => ⟨hdone, .inr ⟨rfl, rfl⟩⟩, h.taken, nofun, nofun, nofun, fun _ => rfl⟩

end FiledAt

namespace Filed

variable {k : Core}

/-- What a move of one call does to the requests. -/
theorem of_place (hf : Filed k) {c : ℕ} {b : Bridge} {call : Call}
    (hqueue : b.queue = k.bridge.queue) (hrequests : ∀ c' ≠ c, b.requests c' = k.bridge.requests c')
    (hc : FiledAt (c ∈ k.bridge.queue) (k.hold c) call (b.requests c)) :
    Filed (k.place c b call) := by
  refine ⟨hqueue ▸ hf.nodup, fun c' => ?_⟩
  dsimp only [Core.place]
  rw [hqueue]
  by_cases h : c' = c
  · subst h
    rw [if_pos rfl]
    exact hc
  · rw [if_neg h, hrequests c' h]
    exact hf.filedAt c'

/-- What a move of one request does to the requests. -/
theorem of_keep (hf : Filed k) {c : ℕ} {b : Bridge} {hold : Hold}
    (hqueue : b.queue = k.bridge.queue) (hrequests : ∀ c' ≠ c, b.requests c' = k.bridge.requests c')
    (hc : FiledAt (c ∈ k.bridge.queue) hold (k.calls c) (b.requests c)) :
    Filed (k.keep c hold b) := by
  refine ⟨hqueue ▸ hf.nodup, fun c' => ?_⟩
  dsimp only [Core.keep]
  rw [hqueue]
  by_cases h : c' = c
  · subst h
    rw [if_pos rfl]
    exact hc
  · rw [if_neg h, hrequests c' h]
    exact hf.filedAt c'

/-- What emptying the queue does to the requests. -/
theorem of_take (hf : Filed k) {b : Bridge} {locked : Bool} (hqueue : b.queue = [])
    (hrequests : ∀ c, b.requests c = if c ∈ k.bridge.queue then
      { k.bridge.requests c with taken := (k.bridge.requests c).taken || !locked }
      else k.bridge.requests c) : Filed (k.take locked b) := by
  refine ⟨hqueue ▸ List.nodup_nil, fun c => ?_⟩
  have hat := hf.filedAt c
  dsimp only [Core.take]
  rw [hqueue, hrequests, eq_false (List.not_mem_nil (a := c))]
  by_cases h : c ∈ k.bridge.queue
  · rw [if_pos h, if_pos h]
    rw [eq_true h] at hat
    exact hat.takes locked
  · rw [if_neg h, if_neg h]
    exact hat.untaken h

/-- **The moves keep the requests filed.**

**Proof sketch.** By the move. A call's request is empty until it is made, then queued, held,
answered and done, each by the lemma of that transition; a call that returns leaves it where it is.
-/
theorem move {R : Rules} {k' : Core} (h : Move R k k') (hf : Filed k) : Filed k' := by
  cases h with
  | @begin c call h hb hmay =>
    have hat := hf.filedAt c
    have he : (k.calls c).early = true := by rw [h]; rfl
    obtain ⟨hout, hfree⟩ := hat.out (.inl he)
    refine hf.of_place rfl (fun _ _ => rfl) ?_
    cases hb with
    | refused => exact hat.returns hout hfree
    | _ => exact hat.goes he rfl
  | @go c call h =>
    have hat := hf.filedAt c
    refine hf.of_place rfl (fun _ _ => rfl) ?_
    generalize k.calls c = old at h hat
    cases h with
    | noDirect | noPoll =>
      obtain ⟨hout, hfree⟩ := hat.out (.inl rfl)
      exact hat.returns hout hfree
    | _ => exact hat.goes rfl rfl
  | @refuse c result h _ _ =>
    have hat := hf.filedAt c
    obtain ⟨hout, hfree⟩ := hat.out (.inl h)
    exact hf.of_place rfl (fun _ _ => rfl) (hat.returns hout hfree)
  | @reset c h | @clear c h | @polled c _ _ _ h =>
    have hat := hf.filedAt c
    obtain ⟨hout, hfree⟩ := hat.out (.inl (by rw [h]; rfl))
    exact hf.of_place rfl (fun _ _ => rfl) (hat.returns hout hfree)
  | @number c _ h | @readDirect c _ _ h | @write c _ h =>
    refine hf.of_place rfl (fun c' hne => if_neg hne) ?_
    refine (hf.filedAt c).makes (by rw [h]; rfl) ?_
    simp [Bridge.number, Bridge.setRequest]
  | @enqueue c h =>
    have hat := hf.filedAt c
    rw [h] at hat
    obtain ⟨hout, -⟩ := hat.out (.inr rfl)
    refine ⟨hf.nodup.append (List.nodup_singleton c) (by simpa using hout), fun c' => ?_⟩
    dsimp only [Core.place]
    by_cases hc : c' = c
    · subst hc
      rw [if_pos rfl, eq_true (List.mem_append_right _ List.mem_cons_self)]
      exact hat.enqueues
    · rw [if_neg hc]
      simpa [hc] using hf.filedAt c'
  | @full c h =>
    have hat := hf.filedAt c
    obtain ⟨hout, hfree⟩ := hat.out (.inr h)
    refine hf.of_place (by simp) (fun _ _ => by simp) ?_
    rw [Bridge.requests_wrote]
    exact hat.returns hout hfree
  | @hand c h =>
    have hat := hf.filedAt c
    refine ⟨hf.nodup, fun c' => ?_⟩
    dsimp only [Core.place, Core.keep]
    by_cases hc : c' = c
    · subst hc
      rw [if_pos rfl, if_pos rfl]
      rw [h] at hat
      exact hat.hands
    · rw [if_neg hc, if_neg hc]
      exact hf.filedAt c'
  | @leave c h hdone =>
    have hat := hf.filedAt c
    have hout : c ∉ k.bridge.queue := by
      intro hq
      have := (hat.queued hq).2.2.2.1
      simp [hdone] at this
    have hfree : k.hold c = .free := by
      by_contra hne
      have := (hat.held hne).1
      simp [hdone] at this
    refine hf.of_place (by simp) (fun _ _ => by simp) ?_
    rw [Bridge.requests_wrote]
    exact hat.returns hout hfree
  | @abandon c h hdone =>
    have hat := hf.filedAt c
    rw [h] at hat
    refine ⟨?_, fun c' => ?_⟩
    · simpa [Core.place, Bridge.abandon] using hf.nodup.filter _
    · dsimp only [Core.place]
      rw [Bridge.requests_wrote, Bridge.queue_wrote]
      dsimp only [Bridge.abandon, Bridge.setRequest]
      by_cases hc : c' = c
      · subst hc
        have hout : (c' ∈ k.bridge.queue.filter (· != c')) = False := by simp
        rw [if_pos rfl, if_pos rfl, hout]
        exact hat.abandons hdone
      · rw [if_neg hc, if_neg hc]
        simpa [hc] using hf.filedAt c'
  | endGame h =>
    have htake : Filed (k.take true { k.bridge with gameRunning := false, queue := [] }) :=
      hf.of_take rfl fun c => by simp
    exact ⟨htake.nodup, htake.filedAt⟩
  | @service s h =>
    have htake : Filed (k.take false (k.bridge.takeQueue s)) := by
      refine hf.of_take rfl fun c => ?_
      simp [Bridge.takeQueue]
    exact ⟨htake.nodup, htake.filedAt⟩
  | @answer s calls c locked following h _ hfollow =>
    have hat := hf.filedAt c
    rw [h] at hat
    have hkeep : Filed (k.keep c (.answered locked) (k.bridge.answerOne s calls c).1) := by
      refine hf.of_keep rfl (fun c' hne => by simp [hne]) ?_
      rw [Bridge.requests_answerOne, if_pos rfl]
      exact hat.answers (by simp) (by simp) (by simp)
    exact ⟨hkeep.nodup, hkeep.filedAt⟩
  | @finish c locked h _ =>
    have hat := hf.filedAt c
    rw [h] at hat
    refine hf.of_keep (by simp) (fun c' hne => by simp [hne]) ?_
    rw [Bridge.requests_completeOne, if_pos rfl]
    exact hat.finishes
  | _ => exact ⟨hf.nodup, hf.filedAt⟩

end Filed
end Memory
