import ScorbitPlugin.Overlay.Bitmap
import ScorbitPlugin.Runs.System

set_option relaxedAutoImplicit false
set_option autoImplicit false

/-!
# The overlay cache

`Overlay::Cache` of `src/OverlayCache.h`: the socket worker and the API thread write the overlay's
state under a mutex and publish it as a record. The worker waits for the mutex; the API thread only
tries it, and queues its op when it fails or when others already wait. What the record's readers see
is one value of a seqlock (`Handoff.never_mixed`), so that a write of it is one step here.

## Main definitions

* `Overlay.Record` — what is published.
* `Overlay.Cache` — the cache, where its two writers stand, and the history of its ops.
* `Overlay.Cache.step`, `Overlay.Cache.system` — the steps of both, and of the clock.
* `Overlay.Shows`, `Overlay.OneOrder` — a record is that of a state; the ops were applied in order.

## Main results

* `Overlay.one_order` — whenever no writer is active, the record is that of one order of the ops.
-/

namespace Overlay

open Codec

/-! ## The record -/

/-- The pixels that a record has room for. -/
def maxPixels : ℕ := maxWidth.toNat * maxHeight.toNat

/-- `Record`. -/
structure Record where
  width : UInt32 := 0
  height : UInt32 := 0
  enabled : UInt32 := 0
  untilHidden : UInt32 := 0
  hideAt : Time := 0
  pixels : Bytes := List.replicate maxPixels 0
deriving DecidableEq

/-- `Record::Visible`. -/
def Record.visible (r : Record) (now : Time) : Bool :=
  r.enabled != 0 && r.width != 0 && (r.untilHidden != 0 || now < r.hideAt)

/-- The record of a state, in the buffer of another. -/
def Record.fill (r : Record) (s : State) : Record where
  width := s.width
  height := s.height
  enabled := if s.enabled = true then 1 else 0
  untilHidden := if s.untilHidden = true then 1 else 0
  hideAt := s.hideAt
  pixels := s.pixels ++ r.pixels.drop s.pixels.length

/-- **A record is that of a state**, as far as its width and height say. -/
structure Shows (r : Record) (s : State) : Prop where
  width : r.width = s.width
  height : r.height = s.height
  enabled : r.enabled = if s.enabled = true then 1 else 0
  untilHidden : r.untilHidden = if s.untilHidden = true then 1 else 0
  hideAt : r.hideAt = s.hideAt
  pixels : r.pixels.take (r.width.toNat * r.height.toNat) = s.pixels

/-- A record that is filled in is that of the state. -/
theorem shows_fill (r : Record) (s : State) : Shows (r.fill s) s := by
  refine ⟨rfl, rfl, rfl, rfl, rfl, ?_⟩
  show (s.pixels ++ r.pixels.drop s.pixels.length).take (s.width.toNat * s.height.toNat) = s.pixels
  rw [← s.whole, List.take_left']
  rfl

/-- The pixels beyond those of the state are not needed. -/
theorem Shows.take {r : Record} {s : State} (h : Shows r s) :
    Shows { r with pixels := r.pixels.take s.pixels.length } s := by
  refine ⟨h.width, h.height, h.enabled, h.untilHidden, h.hideAt, ?_⟩
  show (r.pixels.take s.pixels.length).take (r.width.toNat * r.height.toNat) = s.pixels
  rw [List.take_take, s.whole, h.width, h.height, Nat.min_self]
  have hpixels := h.pixels
  rw [h.width, h.height] at hpixels
  exact hpixels

/-- **The record is visible when the state is.** -/
theorem Shows.visible {r : Record} {s : State} (h : Shows r s) (now : Time) :
    r.visible now = s.visible now := by
  have hflag : ∀ b : Bool, ((if b = true then 1 else 0 : UInt32) != 0) = b := by decide
  unfold Record.visible State.visible
  rw [h.enabled, h.width, h.untilHidden, h.hideAt, hflag, hflag, s.isEmpty_pixels]
  rfl

/-! ## The ops -/

/-- `PENDING_LIMIT`. -/
def pendingLimit : ℕ := 8

/-- `Op`. -/
structure Op where
  upload : Bool := false
  bytes : Bytes := []
  enable : Bool := false
  durationMs : UInt32 := 0
  at_ : Time := 0
deriving DecidableEq

/-- `Apply`. -/
def Op.apply (op : Op) (s : State) : State :=
  if op.upload = true then (s.store (some op.bytes)).1
  else s.control op.enable op.durationMs op.at_

/-- An op in the history: its effect, whose it is, and how many were applied when it arrived. -/
structure Issued where
  effect : Effect
  worker : Bool
  arrived : ℕ
deriving DecidableEq

/-- An op of the API thread, with its entry. -/
structure Posted where
  op : Op
  entry : Issued
deriving DecidableEq

/-- `Store`, `Control` and `Clear`, as the worker calls them. -/
inductive WorkerCall
  | store (payload : Payload)
  | control (enable : Bool) (durationMs : UInt32)
  | clear
deriving DecidableEq

/-- The op of a call, with the clock that a control reads. -/
def WorkerCall.effect (now : Time) : WorkerCall → Effect
  | .store payload => .store payload
  | .control enable durationMs => .control enable durationMs now
  | .clear => .clear

/-- The call of an op. -/
def Effect.call : Effect → WorkerCall
  | .store payload => .store payload
  | .control enable durationMs _ => .control enable durationMs
  | .clear => .clear

/-- The effect of a call is the call's. -/
@[simp] theorem WorkerCall.call_effect (c : WorkerCall) (now : Time) : (c.effect now).call = c := by
  cases c <;> rfl

/-- The call changes nothing: what it gives is not stored. -/
def WorkerCall.idle : WorkerCall → Bool
  | .store payload => check payload != .stored
  | _ => false

/-! ## The two writers -/

/-- Where `Publish` stands, and the release of the mutex after it. -/
inductive Publish
  | fill
  | write
  | unlock
deriving DecidableEq, Repr

/-- Where the socket worker stands. -/
inductive Worker
  | idle
  | waiting (c : WorkerCall) (arrived : ℕ)
  | holding (c : WorkerCall) (arrived : ℕ)
  | publishing (p : Publish)
deriving DecidableEq

/-- Where the API thread stands. -/
inductive Api
  | idle
  /-- In `Post`, before it looks at the queue. -/
  | posting (p : Posted)
  | holding (p : Posted)
  /-- In `DrainPending`, before it looks at the queue. -/
  | draining
  /-- In its loop. -/
  | applying
  | publishing (p : Publish)
deriving DecidableEq

/-- The worker owns the mutex. -/
def Worker.holds : Worker → Bool
  | .holding _ _ | .publishing _ => true
  | _ => false

/-- The API thread owns the mutex. -/
def Api.holds : Api → Bool
  | .holding _ | .applying | .publishing _ => true
  | _ => false

/-- The call that the worker has not applied yet. -/
def Worker.unapplied : Worker → List WorkerCall
  | .waiting c _ | .holding c _ => [c]
  | _ => []

/-- The cache and its history. -/
structure Cache where
  state : State := .blank
  scratch : Record := {}
  published : Record := { pixels := [] }
  pending : List Posted := []
  worker : Worker := .idle
  api : Api := .idle
  /-- `Clock::now()`. -/
  now : Time := 0
  /-- The ops in the order in which they were applied. -/
  order : List Issued := []
  /-- The worker's calls. -/
  called : List WorkerCall := []
  /-- The ops that the API thread was given, and those it accepted. -/
  arrivals : List Issued := []
  accepted : List Issued := []
  /-- Those it refused, and how many waited then. -/
  refused : List (Issued × ℕ) := []

namespace Cache

/-- `m_writer` is locked. -/
def held (s : Cache) : Bool := s.worker.holds || s.api.holds

/-- `Publish` up to its write. -/
def fill (s : Cache) : Cache := { s with scratch := s.scratch.fill s.state }

/-- The write of `Publish`, when the record has room. -/
def write (s : Cache) : Cache :=
  if s.state.pixels.length ≤ maxPixels then
    { s with
      published := { s.scratch with pixels := s.scratch.pixels.take s.state.pixels.length } }
  else s

/-- `Publish`, step by step. -/
def publish (s : Cache) : Publish → Cache
  | .fill => s.fill
  | .write => s.write
  | .unlock => s

/-- The cache when it is constructed. -/
def start : Cache := (fill {}).write

/-- An op is refused. -/
def refuse (s : Cache) (e : Issued) : Cache :=
  { s with api := .idle, refused := s.refused ++ [(e, s.pending.length)] }

/-- `PostUpload`, up to `Post`. -/
def postUpload (s : Cache) (payload : Payload) : Cache :=
  let entry : Issued := ⟨.store payload, false, s.order.length⟩
  let s' := { s with arrivals := s.arrivals ++ [entry] }
  if check payload ≠ .stored ∨ s.pending.length ≥ pendingLimit then s'.refuse entry
  else { s' with api := .posting ⟨{ upload := true, bytes := trim payload }, entry⟩ }

/-- `PostControl`, up to `Post`. -/
def postControl (s : Cache) (enable : Bool) (durationMs : UInt32) : Cache :=
  let entry : Issued := ⟨.control enable durationMs s.now, false, s.order.length⟩
  { s with
    arrivals := s.arrivals ++ [entry]
    api := .posting ⟨{ enable := enable, durationMs := durationMs, at_ := s.now }, entry⟩ }

/-- `Post`, up to its first step under the mutex: `try_to_lock` may fail when it is free. -/
def post (s : Cache) (p : Posted) (lucky : Bool) : Cache :=
  if s.pending = [] ∧ lucky = true ∧ s.held = false then { s with api := .holding p }
  else if s.pending.length ≥ pendingLimit then s.refuse p.entry
  else { s with
    api := .idle
    pending := s.pending ++ [p]
    accepted := s.accepted ++ [p.entry] }

/-- `Apply` of an op of the API thread. -/
def applyOp (s : Cache) (p : Posted) : Cache :=
  { s with state := p.op.apply s.state, order := s.order ++ [p.entry] }

/-- A step of the worker. -/
def workerStep (s : Cache) : Option Cache :=
  match s.worker with
  | .idle => none
  | .waiting c arrived =>
    if s.held = true then none else some { s with worker := .holding c arrived }
  | .holding c arrived =>
    some { s with
      state := s.state.apply (c.effect s.now)
      worker := .publishing (if c.idle = true then .unlock else .fill)
      order := s.order ++ [⟨c.effect s.now, true, arrived⟩] }
  | .publishing .fill => some { s.publish .fill with worker := .publishing .write }
  | .publishing .write => some { s.publish .write with worker := .publishing .unlock }
  | .publishing .unlock => some { s.publish .unlock with worker := .idle }

/-- A step of the API thread. -/
def apiStep (s : Cache) (lucky : Bool) : Option Cache :=
  match s.api with
  | .idle => none
  | .posting p => some (s.post p lucky)
  | .holding p =>
    some { s.applyOp p with
      api := .publishing .fill
      accepted := s.accepted ++ [p.entry] }
  | .draining =>
    some (if s.pending ≠ [] ∧ lucky = true ∧ s.held = false then { s with api := .applying }
      else { s with api := .idle })
  | .applying =>
    match s.pending with
    | [] => some { s with api := .publishing .fill }
    | p :: rest => some { s.applyOp p with pending := rest }
  | .publishing .fill => some { s.publish .fill with api := .publishing .write }
  | .publishing .write => some { s.publish .write with api := .publishing .unlock }
  | .publishing .unlock => some { s.publish .unlock with api := .idle }

/-- What may happen next. -/
inductive Act
  | tick (elapsed : ℕ)
  | call (c : WorkerCall)
  | worker
  | postUpload (payload : Payload)
  | postControl (enable : Bool) (durationMs : UInt32)
  | drain
  | api (lucky : Bool)
deriving DecidableEq

/-- The step function. A call begins when its thread is at none. -/
def step (s : Cache) : Act → Option Cache
  | .tick elapsed => some { s with now := s.now + elapsed }
  | .call c =>
    if s.worker = .idle then
      some { s with worker := .waiting c s.order.length, called := s.called ++ [c] }
    else none
  | .worker => s.workerStep
  | .postUpload payload => if s.api = .idle then some (s.postUpload payload) else none
  | .postControl enable durationMs =>
    if s.api = .idle then some (s.postControl enable durationMs) else none
  | .drain => if s.api = .idle then some { s with api := .draining } else none
  | .api lucky => s.apiStep lucky

/-- The cache in use. -/
def system : Runs.System Cache Act := .ofStep (· = start) step

/-! ## The moves -/

/-- An op does what its entry says, and its entry is of the API thread and of the past. -/
structure Faithful (p : Posted) (applied : ℕ) : Prop where
  apply : ∀ s : State, p.op.apply s = s.apply p.entry.effect
  worker : p.entry.worker = false
  arrived : p.entry.arrived ≤ applied

/-- What may be refused: an upload that is not stored, or any op when as many wait. -/
def Refusable (e : Issued) (waiting : ℕ) : Prop :=
  (∃ payload, e.effect = .store payload ∧ check payload ≠ .stored) ∨ pendingLimit ≤ waiting

/-- The steps of the cache, each with what was so before it. -/
inductive Move (s : Cache) : Cache → Prop
  | tick (elapsed : ℕ) : Move s { s with now := s.now + elapsed }
  | call (c : WorkerCall) (h : s.worker = .idle) :
      Move s { s with worker := .waiting c s.order.length, called := s.called ++ [c] }
  | lock {c : WorkerCall} {n : ℕ} (h : s.worker = .waiting c n) (hfree : s.held = false) :
      Move s { s with worker := .holding c n }
  | apply {c : WorkerCall} {n : ℕ} (h : s.worker = .holding c n) :
      Move s { s with
        state := s.state.apply (c.effect s.now)
        worker := .publishing (if c.idle = true then .unlock else .fill)
        order := s.order ++ [⟨c.effect s.now, true, n⟩] }
  | fill (h : s.worker = .publishing .fill) :
      Move s { s.fill with worker := .publishing .write }
  | write (h : s.worker = .publishing .write) :
      Move s { s.write with worker := .publishing .unlock }
  | unlock (h : s.worker = .publishing .unlock) : Move s { s with worker := .idle }
  | turnAway {e : Issued} (h : s.api = .idle) (hmay : Refusable e s.pending.length) :
      Move s (refuse { s with arrivals := s.arrivals ++ [e] } e)
  | arrive {p : Posted} (h : s.api = .idle) (hp : Faithful p s.order.length) :
      Move s { s with arrivals := s.arrivals ++ [p.entry], api := .posting p }
  | tryLock {p : Posted} (h : s.api = .posting p) (hnone : s.pending = [])
      (hfree : s.held = false) : Move s { s with api := .holding p }
  | full {p : Posted} (h : s.api = .posting p) (hlimit : pendingLimit ≤ s.pending.length) :
      Move s (s.refuse p.entry)
  | queue {p : Posted} (h : s.api = .posting p) :
      Move s { s with
        api := .idle
        pending := s.pending ++ [p]
        accepted := s.accepted ++ [p.entry] }
  | applyPosted {p : Posted} (h : s.api = .holding p) :
      Move s { s.applyOp p with
        api := .publishing .fill
        accepted := s.accepted ++ [p.entry] }
  | drain (h : s.api = .idle) : Move s { s with api := .draining }
  | drainLock (h : s.api = .draining) (hfree : s.held = false) : Move s { s with api := .applying }
  | drainSkip (h : s.api = .draining) : Move s { s with api := .idle }
  | drainApply {p : Posted} {rest : List Posted} (h : s.api = .applying)
      (hp : s.pending = p :: rest) : Move s { s.applyOp p with pending := rest }
  | drainDone (h : s.api = .applying) (hnone : s.pending = []) :
      Move s { s with api := .publishing .fill }
  | apiFill (h : s.api = .publishing .fill) : Move s { s.fill with api := .publishing .write }
  | apiWrite (h : s.api = .publishing .write) :
      Move s { s.write with api := .publishing .unlock }
  | apiUnlock (h : s.api = .publishing .unlock) : Move s { s with api := .idle }

/-- An upload that is posted has all its pixels. -/
theorem faithful_upload {payload : Payload} (h : check payload = .stored) (n : ℕ) :
    Faithful ⟨{ upload := true, bytes := trim payload }, ⟨.store payload, false, n⟩⟩ n :=
  ⟨fun s => congrArg Prod.fst (s.store_trim h), rfl, le_rfl⟩

/-- A control that is posted is timed from its arrival. -/
theorem faithful_control (enable : Bool) (durationMs : UInt32) (now : Time) (n : ℕ) :
    Faithful ⟨{ enable := enable, durationMs := durationMs, at_ := now },
      ⟨.control enable durationMs now, false, n⟩⟩ n :=
  ⟨fun _ => rfl, rfl, le_rfl⟩

/-- **Every step is a move.**

**Proof sketch.** By the step and the place of the writer that takes it, each of which is one move.
-/
theorem moves_step {s s' : Cache} {a : Act} (h : step s a = some s') : Move s s' := by
  cases a with
  | tick elapsed =>
    obtain rfl := Option.some.inj h
    exact .tick elapsed
  | call c =>
    simp only [step] at h
    split at h
    · rename_i hidle
      obtain rfl := Option.some.inj h
      exact .call c hidle
    · cases h
  | worker =>
    simp only [step, workerStep] at h
    split at h
    · cases h
    · rename_i c arrived hplace
      split at h
      · cases h
      · rename_i hheld
        obtain rfl := Option.some.inj h
        exact .lock hplace (Bool.eq_false_of_not_eq_true hheld)
    · rename_i hplace
      obtain rfl := Option.some.inj h
      exact .apply hplace
    · rename_i hplace
      obtain rfl := Option.some.inj h
      exact .fill hplace
    · rename_i hplace
      obtain rfl := Option.some.inj h
      exact .write hplace
    · rename_i hplace
      obtain rfl := Option.some.inj h
      exact .unlock hplace
  | postUpload payload =>
    simp only [step] at h
    split at h
    · rename_i hidle
      obtain rfl := Option.some.inj h
      simp only [postUpload]
      split
      · rename_i hrefused
        refine .turnAway hidle ?_
        rcases hrefused with hcheck | hfull
        · exact .inl ⟨payload, rfl, hcheck⟩
        · exact .inr hfull
      · rename_i hmay
        have hcheck : check payload = .stored := by
          by_contra hne
          exact hmay (.inl hne)
        exact .arrive hidle (faithful_upload hcheck _)
    · cases h
  | postControl enable durationMs =>
    simp only [step] at h
    split at h
    · rename_i hidle
      obtain rfl := Option.some.inj h
      exact .arrive hidle (faithful_control enable durationMs s.now _)
    · cases h
  | drain =>
    simp only [step] at h
    split at h
    · rename_i hidle
      obtain rfl := Option.some.inj h
      exact .drain hidle
    · cases h
  | api lucky =>
    simp only [step, apiStep] at h
    split at h
    · cases h
    · rename_i p hplace
      obtain rfl := Option.some.inj h
      simp only [post]
      split
      · rename_i hlock
        exact .tryLock hplace hlock.1 hlock.2.2
      · split
        · rename_i hlimit
          exact .full hplace hlimit
        · exact .queue hplace
    · rename_i hplace
      obtain rfl := Option.some.inj h
      exact .applyPosted hplace
    · rename_i hplace
      obtain rfl := Option.some.inj h
      split
      · rename_i hlock
        exact .drainLock hplace hlock.2.2
      · exact .drainSkip hplace
    · rename_i hplace
      split at h
      · rename_i hnone
        obtain rfl := Option.some.inj h
        exact .drainDone hplace hnone
      · rename_i hsome
        obtain rfl := Option.some.inj h
        exact .drainApply hplace hsome
    · rename_i hplace
      obtain rfl := Option.some.inj h
      exact .apiFill hplace
    · rename_i hplace
      obtain rfl := Option.some.inj h
      exact .apiWrite hplace
    · rename_i hplace
      obtain rfl := Option.some.inj h
      exact .apiUnlock hplace

end Cache

/-! ## The order of the ops -/

/-- The op that the API thread is in the middle of posting. -/
def Api.posted : Api → Option Posted
  | .posting p | .holding p => some p
  | _ => none

namespace Cache

/-- The state that the order of the ops leads to. -/
def ordered (s : Cache) : State := s.order.foldl (fun state e => state.apply e.effect) .blank

/-- No op is before its arrival. -/
def Timely (order : List Issued) : Prop :=
  ∀ (i : ℕ) (e : Issued), order[i]? = some e → e.arrived ≤ i

/-- **There is one order of all ops**: in it the ops of the API thread that were accepted and do not
wait, in the order of their arrival, and the worker's calls but one under way, each once; and none
is before its arrival. -/
structure OneOrder (s : Cache) : Prop where
  api : (s.order.filter fun e => !e.worker) ++ s.pending.map Posted.entry = s.accepted
  arrivals : s.accepted.Sublist s.arrivals
  worker : ((s.order.filter fun e => e.worker).map fun e => e.effect.call) ++ s.worker.unapplied =
    s.called
  arrived : Timely s.order

/-- The history, and what the state is of it. -/
structure Kept (s : Cache) : Prop where
  state : s.state = s.ordered
  order : OneOrder s
  last : ∀ p, s.api.posted = some p →
    ∃ old, s.arrivals = old ++ [p.entry] ∧ s.accepted.Sublist old
  posted : ∀ p, s.api.posted = some p ∨ p ∈ s.pending → Faithful p s.order.length
  /-- An op overtakes none that waits. -/
  alone : ∀ p, s.api = .holding p → s.pending = []
  waiting : ∀ c n, s.worker = .waiting c n ∨ s.worker = .holding c n → n ≤ s.order.length
  refused : ∀ x ∈ s.refused, Refusable x.1 x.2

/-- What the history is made of. -/
def trace (s : Cache) :
    State × List Issued × List WorkerCall × List Issued × List Issued × List Posted ×
      List (Issued × ℕ) :=
  (s.state, s.order, s.called, s.arrivals, s.accepted, s.pending, s.refused)

/-- To publish adds nothing to the trace. -/
theorem trace_write (s : Cache) : s.write.trace = s.trace := by
  unfold write
  split <;> rfl

/-- To publish leaves the worker where it is. -/
theorem worker_write (s : Cache) : s.write.worker = s.worker := by
  unfold write
  split <;> rfl

/-- To publish leaves the API thread where it is. -/
theorem api_write (s : Cache) : s.write.api = s.api := by
  unfold write
  split <;> rfl

/-- A faithful record stays one while effects are added. -/
theorem Faithful.mono {p : Posted} {m n : ℕ} (h : Faithful p m) (hle : m ≤ n) : Faithful p n :=
  ⟨h.apply, h.worker, h.arrived.trans hle⟩

/-- One more op is after its arrival. -/
theorem Timely.concat {order : List Issued} {e : Issued} (h : Timely order)
    (he : e.arrived ≤ order.length) : Timely (order ++ [e]) := by
  intro i x hx
  rcases lt_trichotomy i order.length with hlt | heq | hgt
  · rw [List.getElem?_append_left hlt] at hx
    exact h i x hx
  · subst heq
    obtain rfl : e = x := by simpa using hx
    exact he
  · rw [List.getElem?_eq_none (by simp; omega)] at hx
    cases hx

namespace Kept

variable {s s' : Cache}

/-- The writers go on to other places.

**Proof sketch.** The history is the same, and so is what the worker still has to apply. The API
thread's post is the one it had, or none. -/
theorem of_places (h : Kept s) (htrace : s'.trace = s.trace)
    (hunapplied : s'.worker.unapplied = s.worker.unapplied)
    (hapi : s'.api = s.api ∨ s'.api.posted = none)
    (hwaiting : ∀ c n, s'.worker = .waiting c n ∨ s'.worker = .holding c n →
      s.worker = .waiting c n ∨ s.worker = .holding c n) : Kept s' := by
  simp only [trace, Prod.mk.injEq] at htrace
  obtain ⟨hstate, horder, hcalled, harrivals, haccepted, hpending, hrefused⟩ := htrace
  have hold : ∀ p, s'.api.posted = some p → s.api.posted = some p := by
    intro p hp
    rcases hapi with hsame | hnone
    · rw [← hsame, hp]
    · rw [hnone] at hp
      cases hp
  refine ⟨?_, ⟨?_, ?_, ?_, ?_⟩, fun p hp => ?_, fun p hp => ?_, fun p hp => ?_,
    fun c n hc => ?_, ?_⟩
  · rw [hstate, ordered, horder]
    exact h.state
  · rw [horder, hpending, haccepted]
    exact h.order.api
  · rw [haccepted, harrivals]
    exact h.order.arrivals
  · rw [horder, hunapplied, hcalled]
    exact h.order.worker
  · rw [horder]
    exact h.order.arrived
  · rw [harrivals, haccepted]
    exact h.last p (hold p hp)
  · rw [horder]
    rw [hpending] at hp
    exact h.posted p (hp.imp_left (hold p))
  · rw [hpending]
    rcases hapi with hsame | hnone
    · exact h.alone p (hsame ▸ hp)
    · rw [hp] at hnone
      cases hnone
  · rw [horder]
    exact h.waiting c n (hwaiting c n hc)
  · rw [hrefused]
    exact h.refused

/-- The worker calls. -/
theorem call (h : Kept s) (c : WorkerCall) (hidle : s.worker = .idle) :
    Kept { s with worker := .waiting c s.order.length, called := s.called ++ [c] } := by
  refine ⟨h.state, ⟨h.order.api, h.order.arrivals, ?_, h.order.arrived⟩, h.last, h.posted, h.alone,
    ?_, h.refused⟩
  · have hworker := h.order.worker
    rw [hidle, show Worker.idle.unapplied = [] from rfl, List.append_nil] at hworker
    rw [← hworker]
    rfl
  · rintro c' n (hc | hc)
    · obtain ⟨-, rfl⟩ := Worker.waiting.inj hc
      exact le_rfl
    · cases hc

/-- The worker's op is applied. -/
theorem apply (h : Kept s) {c : WorkerCall} {n : ℕ} (hc : s.worker = .holding c n) (p : Publish) :
    Kept { s with
      state := s.state.apply (c.effect s.now)
      worker := .publishing p
      order := s.order ++ [⟨c.effect s.now, true, n⟩] } := by
  refine ⟨?_, ⟨?_, h.order.arrivals, ?_, ?_⟩, h.last, fun q hq => ?_, h.alone, ?_, h.refused⟩
  · simp only [ordered, List.foldl_append, List.foldl_cons, List.foldl_nil]
    rw [h.state]
    rfl
  · simpa using h.order.api
  · have hworker := h.order.worker
    rw [hc, Worker.unapplied] at hworker
    simpa [Worker.unapplied] using hworker
  · exact h.order.arrived.concat (h.waiting c n (.inr hc))
  · exact (h.posted q hq).mono (by simp)
  · rintro c' n' (hc' | hc') <;> cases hc'

/-- An op of the API thread is applied, as its entry says. -/
theorem ordered_applyOp (h : Kept s) {p : Posted} (hp : Faithful p s.order.length) :
    (s.applyOp p).state = (s.applyOp p).ordered ∧
      ((s.applyOp p).order.filter fun e => !e.worker) =
        (s.order.filter fun e => !e.worker) ++ [p.entry] ∧
      ((s.applyOp p).order.filter fun e => e.worker) = s.order.filter fun e => e.worker := by
  refine ⟨?_, ?_, ?_⟩
  · simp only [applyOp, ordered, List.foldl_append, List.foldl_cons, List.foldl_nil]
    rw [hp.apply, h.state]
    rfl
  · simp [applyOp, hp.worker]
  · simp [applyOp, hp.worker]

/-- What is posted is the last to arrive, and is accepted. -/
theorem sublist_accepted (h : Kept s) {p : Posted} (hp : s.api.posted = some p) :
    (s.accepted ++ [p.entry]).Sublist s.arrivals := by
  obtain ⟨old, harrivals, hsub⟩ := h.last p hp
  rw [harrivals]
  exact hsub.append (List.Sublist.refl _)

/-- **The moves keep the history.**

**Proof sketch.** By the move. A worker's call and a posted op take the next place in the order with
the step that applies them. A posted one is applied at once only while none waits, and those that
wait are applied from the front. What is refused is noted, and the others change places. -/
theorem move (h : Kept s) (hm : Move s s') : Kept s' := by
  cases hm with
  | tick => exact h.of_places rfl rfl (.inl rfl) fun _ _ hc => hc
  | call c hidle => exact h.call c hidle
  | @lock c n hc hfree =>
    refine h.of_places rfl (by rw [hc]; rfl) (.inl rfl) fun c' n' hc' => ?_
    rcases hc' with hc' | hc'
    · cases hc'
    · obtain ⟨rfl, rfl⟩ := Worker.holding.inj hc'
      exact .inl hc
  | apply hc => exact h.apply hc _
  | fill hc | unlock hc =>
    refine h.of_places rfl (by rw [hc]; rfl) (.inl rfl) fun c' n' hc' => ?_
    rcases hc' with hc' | hc' <;> cases hc'
  | write hc =>
    refine h.of_places s.trace_write (by rw [hc]; rfl) (.inl s.api_write) fun c' n' hc' => ?_
    rcases hc' with hc' | hc' <;> cases hc'
  | @turnAway e hidle hmay =>
    refine ⟨h.state, ⟨h.order.api, ?_, h.order.worker, h.order.arrived⟩, ?_, fun q hq => ?_, ?_,
      h.waiting, fun x hx => ?_⟩
    · exact h.order.arrivals.trans (List.sublist_append_left _ _)
    · intro p hp
      cases hp
    · exact h.posted q (.inr (hq.resolve_left (by simp [Cache.refuse, Api.posted])))
    · intro p hp
      cases hp
    · rcases List.mem_append.mp hx with hold | hnew
      · exact h.refused x hold
      · obtain rfl := List.mem_singleton.mp hnew
        exact hmay
  | @arrive p hidle hp =>
    refine ⟨h.state, ⟨h.order.api, ?_, h.order.worker, h.order.arrived⟩, fun q hq => ?_,
      fun q hq => ?_, ?_, h.waiting, h.refused⟩
    · exact h.order.arrivals.trans (List.sublist_append_left _ _)
    · obtain rfl := Option.some.inj hq
      exact ⟨s.arrivals, rfl, h.order.arrivals⟩
    · rcases hq with hq | hq
      · obtain rfl := Option.some.inj hq
        exact hp
      · exact h.posted q (.inr hq)
    · intro q hq
      cases hq
  | @tryLock p hpost hnone hfree =>
    have hin : ∀ q, (Api.holding p).posted = some q → s.api.posted = some q := by
      intro q hq
      rw [hpost]
      exact hq
    exact ⟨h.state, ⟨h.order.api, h.order.arrivals, h.order.worker, h.order.arrived⟩,
      fun q hq => h.last q (hin q hq), fun q hq => h.posted q (hq.imp_left (hin q)),
      fun _ _ => hnone, h.waiting, h.refused⟩
  | @full p hpost hlimit =>
    refine ⟨h.state, ⟨h.order.api, h.order.arrivals, h.order.worker, h.order.arrived⟩, ?_,
      fun q hq => ?_, ?_, h.waiting, fun x hx => ?_⟩
    · intro q hq
      cases hq
    · exact h.posted q (.inr (hq.resolve_left (by simp [Cache.refuse, Api.posted])))
    · intro q hq
      cases hq
    · rcases List.mem_append.mp hx with hold | hnew
      · exact h.refused x hold
      · obtain rfl := List.mem_singleton.mp hnew
        exact .inr hlimit
  | @queue p hpost =>
    have hin : s.api.posted = some p := by
      rw [hpost]
      rfl
    refine ⟨h.state, ⟨?_, h.sublist_accepted hin, h.order.worker, h.order.arrived⟩, ?_,
      fun q hq => ?_, ?_, h.waiting, h.refused⟩
    · simp only [List.map_append, List.map_cons, List.map_nil, ← List.append_assoc]
      rw [h.order.api]
    · intro q hq
      cases hq
    · rcases hq with hq | hq
      · cases hq
      · rcases List.mem_append.mp hq with hold | hnew
        · exact h.posted q (.inr hold)
        · obtain rfl := List.mem_singleton.mp hnew
          exact h.posted q (.inl hin)
    · intro q hq
      cases hq
  | @applyPosted p hpost =>
    have hin : s.api.posted = some p := by
      rw [hpost]
      rfl
    have hp := h.posted p (.inl hin)
    have hnone := h.alone p hpost
    obtain ⟨hstate, hapi, hworker⟩ := h.ordered_applyOp hp
    refine ⟨hstate, ⟨?_, h.sublist_accepted hin, ?_, h.order.arrived.concat hp.arrived⟩, ?_,
      fun q hq => ?_, ?_, fun c n hc => ?_, h.refused⟩
    · have hold := h.order.api
      rw [hnone, List.map_nil, List.append_nil] at hold
      show ((s.applyOp p).order.filter fun e => !e.worker) ++ s.pending.map Posted.entry = _
      rw [hapi, hnone, hold, List.map_nil, List.append_nil]
    · show (((s.applyOp p).order.filter fun e => e.worker).map fun e => e.effect.call) ++ _ = _
      rw [hworker]
      exact h.order.worker
    · intro q hq
      cases hq
    · rcases hq with hq | hq
      · cases hq
      · exact (h.posted q (.inr hq)).mono (by simp [applyOp])
    · intro q hq
      cases hq
    · exact (h.waiting c n hc).trans (by simp [applyOp])
  | drain hidle => exact h.of_places rfl rfl (.inr rfl) fun _ _ hc => hc
  | drainLock | drainSkip | drainDone | apiFill | apiUnlock =>
    exact h.of_places rfl rfl (.inr rfl) fun _ _ hc => hc
  | apiWrite =>
    refine h.of_places s.trace_write (congrArg Worker.unapplied s.worker_write) (.inr rfl)
      fun c n hc => ?_
    rw [← s.worker_write]
    exact hc
  | @drainApply p rest hplace hpending =>
    have hp := h.posted p (.inr (by rw [hpending]; exact List.mem_cons_self))
    obtain ⟨hstate, hapi, hworker⟩ := h.ordered_applyOp hp
    refine ⟨hstate, ⟨?_, h.order.arrivals, ?_, h.order.arrived.concat hp.arrived⟩, h.last,
      fun q hq => ?_, fun q hq => ?_, fun c n hc => ?_, h.refused⟩
    · have hold := h.order.api
      rw [hpending, List.map_cons] at hold
      show ((s.applyOp p).order.filter fun e => !e.worker) ++ rest.map Posted.entry = s.accepted
      rw [hapi, List.append_assoc]
      exact hold
    · show (((s.applyOp p).order.filter fun e => e.worker).map fun e => e.effect.call) ++ _ = _
      rw [hworker]
      exact h.order.worker
    · refine (h.posted q (hq.imp_right fun hmem => ?_)).mono (by simp [applyOp])
      rw [hpending]
      exact List.mem_cons_of_mem _ hmem
    · rw [show s.api = .holding q from hq] at hplace
      cases hplace
    · exact (h.waiting c n hc).trans (by simp [applyOp])

end Kept

/-! ## The record -/

end Cache

/-- The state may be ahead of the record. -/
def Worker.ahead : Worker → Bool
  | .publishing .fill | .publishing .write => true
  | _ => false

/-- The state may be ahead of the record. -/
def Api.ahead : Api → Bool
  | .applying | .publishing .fill | .publishing .write => true
  | _ => false

/-- Without the lock the worker has published all it applied. -/
theorem Worker.ahead_of_not_holds {w : Worker} (h : w.holds = false) : w.ahead = false := by
  cases w with
  | publishing => cases h
  | _ => rfl

/-- So has the API thread. -/
theorem Api.ahead_of_not_holds {a : Api} (h : a.holds = false) : a.ahead = false := by
  cases a with
  | applying | publishing => cases h
  | _ => rfl

namespace Cache

/-- The mutex excludes, and what is published is the state but where a writer is ahead. -/
structure Shown (s : Cache) : Prop where
  exclusive : s.worker.holds = true → s.api.holds = false
  shown : s.worker.ahead = false → s.api.ahead = false → Shows s.published s.state
  filled : s.worker = .publishing .write ∨ s.api = .publishing .write → Shows s.scratch s.state

namespace Shown

variable {s s' : Cache}

/-- The writers go on to other places, and are ahead where they were. -/
theorem of_places (h : Shown s) (hstate : s'.state = s.state) (hscratch : s'.scratch = s.scratch)
    (hpublished : s'.published = s.published)
    (hexclusive : s'.worker.holds = true → s'.api.holds = false)
    (hahead : s'.worker.ahead = false → s'.api.ahead = false →
      s.worker.ahead = false ∧ s.api.ahead = false)
    (hfilled : s'.worker = .publishing .write ∨ s'.api = .publishing .write →
      s.worker = .publishing .write ∨ s.api = .publishing .write) : Shown s' := by
  refine ⟨hexclusive, fun hw ha => ?_, fun hat => ?_⟩
  · obtain ⟨hw', ha'⟩ := hahead hw ha
    rw [hpublished, hstate]
    exact h.shown hw' ha'
  · rw [hscratch, hstate]
    exact h.filled (hfilled hat)

/-- The write of what was filled. -/
theorem shows_write (h : Shows s.scratch s.state) : Shows s.write.published s.write.state := by
  have hroom : s.state.pixels.length ≤ maxPixels := s.state.length_le
  unfold Cache.write
  rw [if_pos hroom]
  exact h.take

/-- Who may take the mutex is alone. -/
theorem free (hfree : s.held = false) : s.worker.holds = false ∧ s.api.holds = false := by
  simpa [held] using hfree

/-- A worker that owns the mutex is alone. -/
theorem api_free (h : Shown s) (hw : s.worker.holds = true) :
    s.api.ahead = false ∧ s.api ≠ .publishing .write := by
  have hfree := h.exclusive hw
  refine ⟨Api.ahead_of_not_holds hfree, fun hat => ?_⟩
  rw [hat] at hfree
  cases hfree

/-- An API thread that owns the mutex is alone. -/
theorem worker_free (h : Shown s) (ha : s.api.holds = true) :
    s.worker.holds = false ∧ s.worker.ahead = false ∧ s.worker ≠ .publishing .write := by
  have hfree : s.worker.holds = false := by
    by_contra hne
    have hnot := h.exclusive (Bool.eq_true_of_not_eq_false hne)
    rw [ha] at hnot
    cases hnot
  refine ⟨hfree, Worker.ahead_of_not_holds hfree, fun hat => ?_⟩
  rw [hat] at hfree
  cases hfree

/-- An API thread that owns the mutex goes on, ahead of the record. -/
theorem of_api (h : Shown s) (ha : s.api.holds = true) (hworker : s'.worker = s.worker)
    (hahead : s'.api.ahead = true) (hnot : s'.api ≠ .publishing .write) : Shown s' := by
  obtain ⟨hfree, -, hne⟩ := h.worker_free ha
  refine ⟨fun hw => ?_, fun _ ha => ?_, fun hat => ?_⟩
  · rw [hworker, hfree] at hw
    cases hw
  · rw [hahead] at ha
    cases ha
  · rcases hat with hat | hat
    · exact absurd (hworker ▸ hat) hne
    · exact absurd hat hnot

/-- **The moves keep the record.**

**Proof sketch.** By the move. A writer is ahead from the step that applies to the step that writes,
while it has the lock, so the other is not ahead then; what it fills and writes is the state. -/
theorem move (h : Shown s) (hm : Move s s') : Shown s' := by
  cases hm with
  | tick => exact ⟨h.exclusive, h.shown, h.filled⟩
  | call c hidle =>
    refine h.of_places rfl rfl rfl (by simp [Worker.holds]) (fun _ ha => ⟨?_, ha⟩) ?_
    · rw [hidle]
      rfl
    · exact fun hat => .inr (hat.resolve_left (by simp))
  | @lock c n hc hfree =>
    refine h.of_places rfl rfl rfl (fun _ => (free hfree).2) (fun _ ha => ⟨?_, ha⟩) ?_
    · exact Worker.ahead_of_not_holds (free hfree).1
    · exact fun hat => .inr (hat.resolve_left (by simp))
  | @apply c n hc =>
    have hholds : s.worker.holds = true := by
      rw [hc]
      rfl
    obtain ⟨hahead, hnot⟩ := h.api_free hholds
    refine ⟨fun _ => h.exclusive hholds, fun hw _ => ?_, fun hat => ?_⟩
    · have hidle : c.idle = true := by
        by_contra hne
        simp [hne, Worker.ahead] at hw
      have hsame : s.state.apply (c.effect s.now) = s.state := by
        cases c with
        | store payload => exact State.store_of_ne (by simpa [WorkerCall.idle] using hidle)
        | control | clear => cases hidle
      show Shows s.published (s.state.apply (c.effect s.now))
      rw [hsame]
      exact h.shown (by rw [hc]; rfl) hahead
    · rcases hat with hat | hat
      · split at hat <;> cases hat
      · exact absurd hat hnot
  | fill hc =>
    have hholds : s.worker.holds = true := by
      rw [hc]
      rfl
    refine ⟨fun _ => h.exclusive hholds, fun hw => ?_, fun _ => shows_fill _ _⟩
    cases hw
  | write hc =>
    have hholds : s.worker.holds = true := by
      rw [hc]
      rfl
    obtain ⟨hahead, hnot⟩ := h.api_free hholds
    refine ⟨fun _ => ?_, fun _ _ => shows_write (h.filled (.inl hc)), fun hat => ?_⟩
    · show s.write.api.holds = false
      rw [s.api_write]
      exact h.exclusive hholds
    · rcases hat with hat | hat
      · cases hat
      · exact absurd (s.api_write ▸ hat) hnot
  | unlock hc =>
    refine h.of_places rfl rfl rfl (by simp [Worker.holds]) (fun _ ha => ⟨?_, ha⟩) ?_
    · rw [hc]
      rfl
    · exact fun hat => .inr (hat.resolve_left (by simp))
  | turnAway hplace | arrive hplace | drain hplace | full hplace | queue hplace | drainSkip hplace
  | apiUnlock hplace =>
    refine h.of_places rfl rfl rfl (fun _ => rfl) (fun hw _ => ⟨hw, ?_⟩) ?_
    · rw [hplace]
      rfl
    · exact fun hat => .inl (hat.resolve_right (by simp [Cache.refuse]))
  | @tryLock p hplace hnone hfree =>
    refine h.of_places rfl rfl rfl (fun hw => ?_) (fun hw _ => ⟨hw, ?_⟩) ?_
    · rw [(free hfree).1] at hw
      cases hw
    · rw [hplace]
      rfl
    · exact fun hat => .inl (hat.resolve_right (by simp))
  | drainLock hplace hfree =>
    refine h.of_places rfl rfl rfl (fun hw => ?_) (fun _ ha => by cases ha) ?_
    · rw [(free hfree).1] at hw
      cases hw
    · exact fun hat => .inl (hat.resolve_right (by simp))
  | applyPosted hplace | drainDone hplace =>
    exact h.of_api (by rw [hplace]; rfl) rfl rfl (by simp)
  | drainApply hplace =>
    refine h.of_api (by rw [hplace]; rfl) rfl ?_ ?_
    · show s.api.ahead = true
      rw [hplace]
      rfl
    · show s.api ≠ .publishing .write
      simp [hplace]
  | apiFill hplace =>
    obtain ⟨hfree, hahead, hnot⟩ := h.worker_free (by rw [hplace]; rfl)
    refine ⟨fun hw => ?_, fun _ ha => ?_, fun _ => shows_fill _ _⟩
    · rw [show s.worker.holds = true from hw] at hfree
      cases hfree
    · cases ha
  | apiWrite hplace =>
    obtain ⟨hfree, hahead, hnot⟩ := h.worker_free (by rw [hplace]; rfl)
    refine ⟨fun hw => ?_, fun _ _ => shows_write (h.filled (.inr hplace)), fun hat => ?_⟩
    · rw [show s.worker.holds = true from s.worker_write ▸ hw] at hfree
      cases hfree
    · rcases hat with hat | hat
      · exact absurd (s.worker_write ▸ hat) hnot
      · cases hat

end Shown

/-! ## The runs -/

/-- Nothing was done before the first op. -/
theorem kept_empty : Kept {} := by
  refine ⟨rfl, ⟨rfl, List.Sublist.refl _, rfl, ?_⟩, ?_, ?_, fun _ _ => rfl, ?_, ?_⟩
  · intro i e he
    cases he
  · intro p hp
    cases hp
  · rintro p (hp | hp) <;> cases hp
  · rintro c n (hc | hc) <;> cases hc
  · intro x hx
    cases hx

/-- The cache that is constructed shows the empty state. -/
theorem start_sound : Kept start ∧ Shown start := by
  constructor
  · refine kept_empty.of_places (trace_write _) ?_ (.inl (api_write _)) fun c n hc => ?_
    · exact congrArg Worker.unapplied (worker_write _)
    · rwa [show start.worker = ({} : Cache).worker from worker_write _] at hc
  · have hworker : start.worker = .idle := worker_write _
    have hapi : start.api = .idle := api_write _
    refine ⟨fun _ => ?_, fun _ _ => Shown.shows_write (shows_fill _ _), fun hat => ?_⟩
    · rw [hapi]
      rfl
    · rw [hworker, hapi] at hat
      rcases hat with hat | hat <;> cases hat

/-- Both invariants hold of every reachable cache. -/
theorem sound_of_reachable {s : Cache} (h : system.Reachable s) : Kept s ∧ Shown s := by
  refine h.invariant (I := fun s => Kept s ∧ Shown s) ?_ ?_
  · rintro s rfl
    exact start_sound
  · intro s a s' hs _ hstep
    have hm := moves_step hstep
    exact ⟨hs.1.move hm, hs.2.move hm⟩

/-- What was applied stays in the order. -/
theorem Move.order {s s' : Cache} (hm : Move s s') : s.order <+: s'.order := by
  cases hm with
  | apply | applyPosted | drainApply => exact List.prefix_append _ _
  | write | apiWrite =>
    have hsame : s.write.order = s.order := by
      unfold Cache.write
      split <;> rfl
    exact hsame.symm ▸ List.prefix_refl _
  | _ => exact List.prefix_refl _

end Cache

open Cache in
/-- **The cache applies the ops in order, once**: in every run of the worker and of the API thread,
whatever `try_to_lock` answers, there is one order of the ops, which only grows; whenever the mutex
is free the record is that of the state which the order leads to, and is visible when that is; and
an op is refused only when it is an upload that is not stored or when as many as may wait do.

**Proof sketch.** What the queue holds is what was accepted and is not in the order yet, and an op
that is applied at once finds it empty (`Kept.alone`), so no op overtakes another (`Kept.move`). The
mutex excludes, so the record that one writer fills is still that of the state when it is written
(`Shown.move`). -/
theorem one_order {s : Cache} (h : system.Reachable s) :
    OneOrder s ∧
      (s.held = false → Shows s.published s.ordered ∧
        ∀ now, s.published.visible now = s.ordered.visible now) ∧
      (∀ x ∈ s.refused, Refusable x.1 x.2) ∧
      ∀ a s', step s a = some s' → s.order <+: s'.order := by
  obtain ⟨hkept, hshown⟩ := sound_of_reachable h
  refine ⟨hkept.order, fun hfree => ?_, hkept.refused, fun a s' hs => (moves_step hs).order⟩
  obtain ⟨hw, ha⟩ := Shown.free hfree
  have hshows : Shows s.published s.ordered := by
    rw [← hkept.state]
    exact hshown.shown (Worker.ahead_of_not_holds hw) (Api.ahead_of_not_holds ha)
  exact ⟨hshows, hshows.visible⟩

/-! ## A run -/

/-- An upload of ten by ten pixels. -/
def tenByTen : Bytes := 10 :: 10 :: List.replicate 100 3

/-- An upload and a control of the API thread wait while the worker clears, and 150 ms later they
are drained. -/
def drainingRun : List Cache.Act :=
  [.call .clear, .worker, .postUpload (some tenByTen), .api true, .postControl true 100, .api true,
    .worker, .worker, .worker, .worker, .tick 150000000, .drain, .api true] ++
    List.replicate 6 (.api true)

/-- The record is that of the three ops, timed from the arrival of the control. -/
theorem one_order_drainingRun : ∃ s, Runs.runOf Cache.step Cache.start drainingRun = some s ∧
    s.order.map (fun e => e.effect) = [.clear, .store (some tenByTen), .control true 100 0] ∧
    Shows s.published s.ordered ∧
    s.published.visible 50000000 = true ∧ s.published.visible 150000000 = false := by
  have hrun : (Runs.runOf Cache.step Cache.start drainingRun).any (fun s =>
      decide (s.held = false ∧
        s.order.map (fun e => e.effect) = [.clear, .store (some tenByTen), .control true 100 0] ∧
        s.ordered.visible 50000000 = true ∧ s.ordered.visible 150000000 = false)) = true := by
    decide +kernel
  obtain ⟨s, hs, hfacts⟩ := (Option.any_eq_true _ _).mp hrun
  obtain ⟨hfree, horder, hbefore, hafter⟩ := of_decide_eq_true hfacts
  obtain ⟨-, hshown, -⟩ := one_order (Runs.reachable_of_runOf rfl hs)
  obtain ⟨hshows, hvisible⟩ := hshown hfree
  exact ⟨s, hs, horder, hshows, (hvisible _).trans hbefore, (hvisible _).trans hafter⟩

end Overlay
