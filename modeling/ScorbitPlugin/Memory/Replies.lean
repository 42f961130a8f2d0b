import ScorbitPlugin.Memory.DirectRead
import ScorbitPlugin.Memory.Limits
import ScorbitPlugin.Memory.Records

set_option relaxedAutoImplicit false
set_option autoImplicit false

/-!
# What a call of the bridge gives back

`Subscribe`, `Poll`, `ReadDirect` and `Write` of `src/MemoryBridge.cpp` as their caller sees them:
the result, and what is left in the reference the caller passed. What a call gives back is read off
the step that ends it, in any run of the bridge.

## Main definitions

* `Memory.Asked`, `Memory.Handed` — a call, and what it gives back.
* `Memory.State.returns` — what a step gives back to a call that it ends.
* `Memory.Hands` — a call gives something back in some run.

## Main results

* `Memory.returns_iff` — a call ends exactly in the steps that give something back.
* `Memory.sendable_of_hands` — what a call gives back can be encoded.
-/

namespace Memory

open Codec

/-! ## Calls and what they give back -/

/-- A call of the bridge. -/
inductive Asked
  | subscribe (ranges : List Wire.MemoryRange)
  | poll
  | readDirect (address length : UInt32)
  | write (ops : List Wire.WriteOp)
deriving DecidableEq, Repr

/-- The call begins. -/
def Asked.act : Asked → Act
  | .subscribe ranges => .subscribe ranges
  | .poll => .poll
  | .readDirect address length => .readDirect address length
  | .write ops => .write ops

/-- What a call gives back: its result, and what it left in `accepted` or in `out`, of which each
call has one. -/
structure Handed where
  result : Result
  accepted : List Wire.MemoryRange := []
  polled : Wire.PollReply := {}
  read : Wire.ReadDirectReply := {}
  written : Wire.WriteReply := {}
deriving DecidableEq, Repr

/-- What a call gives back of its request: the answer only with `Result::Ok`. -/
def Request.handed (r : Request) (result : Result) : Handed :=
  if result = .ok then
    { result := .ok, accepted := r.accepted, read := r.reply, written := r.writeReply }
  else { result := result }

/-- What a `Poll` gives back. -/
def handedPoll : Option Wire.PollReply → Handed
  | some reply => { result := .ok, polled := reply }
  | none => { result := .busy }

namespace State

variable (s : State)

/-- What a call gives back when it goes on and ends. -/
def advanceReturns (c : ℕ) : Option Handed :=
  let b := s.bridge
  match s.calls c with
  | .reset => some { result := .ok }
  | .readDirect _ _ | .poll => if b.gameRunning then none else some { result := .noGame }
  | .write ops => if beyondSpace ops b.addressSpace then some { result := .outOfRange } else none
  | .writeSupported _ => if b.writesUnsupported then some { result := .unsupported } else none
  | .writeGame _ => if b.gameRunning then none else some { result := .noGame }
  | .submit =>
    match b.submit c with
    | (_, none) => none
    | (b, some result) => some ((b.requests c).handed result)
  | .wait =>
    if (b.requests c).done then some ((b.requests c).handed (b.requests c).result)
    else some { result := .busy }
  | .pollRead _ looked => some (handedPoll (pollReply looked b.snapshot))
  | _ => none

/-- What a step gives back to a call that it ends. -/
def returns (c : ℕ) : Act → Option Handed
  | .subscribe ranges =>
    if c = s.started then (checkSubscribe ranges).map ({ result := · }) else none
  | .readDirect address length =>
    if c = s.started then (checkReadDirect address length).map ({ result := · }) else none
  | .write ops => if c = s.started then (checkWrite ops).map ({ result := · }) else none
  | .advance c' => if c' = c then s.advanceReturns c else none
  | .timeout c' => if c' = c then some { result := .busy } else none
  | .torn c' =>
    match s.calls c with
    | .pollRead _ looked => if c' = c then some (handedPoll (pollReply looked none)) else none
    | _ => none
  | _ => none

end State

/-- The call gives this back in some run of the bridge: at once, or after others went on too. -/
inductive Hands (asked : Asked) (handed : Handed) : Prop
  | atOnce {s s' : State} (h : system.Reachable s) (hs : step s asked.act = some s')
      (hreturns : s.returns s.started asked.act = some handed) : Hands asked handed
  | later {s s₁ s₂ s' : State} {a : Act} (h : system.Reachable s)
      (hs : step s asked.act = some s₁)
      (hrun : (system.onFrom s₁).Reaches (fun t _ => t.calls s.started ≠ .returned) s₂)
      (hlast : step s₂ a = some s') (hreturns : s₂.returns s.started a = some handed) :
      Hands asked handed

/-! ## A call ends when something is given back -/

variable {s s' : State} {c : ℕ}

/-- A call that goes on ends when it is given something back.

**Proof sketch.** By where the call stands. Each case of the source either gives something back and
comes to `returned`, or goes on. -/
theorem advanceReturns_iff (h : s.advance c = some s') (hclear : s.calls c ≠ .clear) :
    (s.advanceReturns c).isSome ↔ s'.calls c = .returned := by
  have hgoto : ∀ (b : Bridge) (call : Call), (s.goto c b call).calls c = call :=
    fun _ _ => if_pos rfl
  unfold State.advance at h
  unfold State.advanceReturns
  cases hcall : s.calls c with
  | unused | returned => simp [hcall] at h
  | clear => exact absurd hcall hclear
  | submit =>
    rw [hcall] at h
    dsimp only at h
    obtain rfl := Option.some.inj h
    unfold State.submit
    dsimp only
    rcases s.bridge.submit c with ⟨b, _ | result⟩
    · simp [hgoto]
    · simp [State.leave, hgoto]
  | wait =>
    rw [hcall] at h
    dsimp only at h ⊢
    split at h
    · rename_i hdone
      obtain rfl := Option.some.inj h
      simp [hdone, State.leave, hgoto]
    · rename_i hdone
      split at h
      · obtain rfl := Option.some.inj h
        simp [hdone, State.abandon, State.leave, hgoto]
      · cases h
  | readDirect | write | writeSupported | writeGame | subscribe | poll =>
    rw [hcall] at h
    dsimp only at h ⊢
    obtain rfl := Option.some.inj h
    split <;> simp_all [State.refuse]
  | reset | number | pollLook | pollRead =>
    rw [hcall] at h
    dsimp only at h ⊢
    obtain rfl := Option.some.inj h
    simp [State.polled, hgoto]

/-- **A call ends exactly in the steps that give it something back**, but for `Clear`, which gives
back nothing.

**Proof sketch.** By the step. A call that begins may be refused at once, one that goes on is
`advanceReturns_iff`, a timeout and a torn read end the call they are about; no other step moves a
call. -/
theorem returns_iff {a : Act} (h : step s a = some s') (hcall : s.calls c ≠ .returned)
    (hclear : s.calls c ≠ .clear) : (s.returns c a).isSome ↔ s'.calls c = .returned := by
  -- the call that begins is the one with the next number
  have hstart : ∀ call : Call, (s.start call).calls c = .returned ↔
      c = s.started ∧ call = .returned := by
    intro call
    show (if c = s.started then call else s.calls c) = .returned ↔ _
    split <;> simp_all
  have hgoto : ∀ (c' : ℕ) (b : Bridge) (call : Call), (s.goto c' b call).calls c = .returned ↔
      c' = c ∧ call = .returned := by
    intro c' b call
    show (if c = c' then call else s.calls c) = .returned ↔ _
    split <;> simp_all [eq_comm]
  cases a with
  | subscribe ranges =>
    obtain rfl := Option.some.inj h
    rw [hstart]
    cases hcheck : checkSubscribe ranges <;> simp [State.returns, hcheck]
    split <;> simp
  | readDirect address length =>
    obtain rfl := Option.some.inj h
    rw [hstart]
    cases hcheck : checkReadDirect address length <;> simp [State.returns, hcheck]
  | poll | clear =>
    obtain rfl := Option.some.inj h
    rw [hstart]
    simp [State.returns]
  | write ops =>
    obtain ⟨-, h⟩ := Option.ite_none_right_eq_some.mp h
    obtain rfl := Option.some.inj h
    cases hcheck : checkWrite ops with
    | none =>
      rw [hstart]
      simp [State.returns, hcheck]
    | some result =>
      by_cases hc : c = s.started
      · simp [State.returns, hcheck, hc, State.refuse, State.goto]
      · simp [State.returns, hc, State.refuse, State.start, State.goto, hcall]
  | advance c' =>
    by_cases hc : c' = c
    · subst hc
      simpa [State.returns] using advanceReturns_iff h hclear
    · obtain ⟨-, b, call, rfl, -⟩ := advance_goto h
      rw [hgoto]
      simp [State.returns, hc]
  | timeout c' =>
    obtain ⟨-, h⟩ := Option.ite_none_right_eq_some.mp h
    obtain rfl := Option.some.inj h
    rw [State.abandon, State.leave, hgoto]
    simp [State.returns]
  | torn c' =>
    simp only [step, State.torn] at h
    split at h
    · rename_i game looked hread
      obtain rfl := Option.some.inj h
      rw [State.polled, hgoto]
      by_cases hc : c' = c
      · subst hc
        simp [State.returns, hread]
      · simp only [State.returns, hc, false_and, if_false]
        split <;> simp
    · cases h
  | stop =>
    obtain rfl := Option.some.inj h
    simpa [State.returns] using hcall
  | setGameRunning | setAddressSpace | service =>
    obtain ⟨-, h⟩ := Option.ite_none_right_eq_some.mp h
    obtain rfl := Option.some.inj h
    simp only [State.returns, Option.isSome_none, Bool.false_eq_true, false_iff]
    intro hreturned
    refine hcall (Eq.trans ?_ hreturned)
    first | rfl | (split <;> rfl)
  | phase =>
    simp only [step, State.phase] at h
    split at h
    · cases h
    all_goals
      obtain rfl := Option.some.inj h
      simpa [State.returns] using hcall

/-! ## What can be sent -/

/-- What a request asks for is within the limits, and its answer can be encoded. -/
structure Request.Sendable (r : Request) : Prop where
  ranges : Admitted r.ranges
  accepted : r.accepted.Sublist r.ranges
  length : r.length.toNat ≤ Wire.maxReadDirectBytes
  reply : Wire.ReadDirectReply.encode r.reply ≠ []

/-- A reply without bytes can be encoded. -/
theorem encode_emptyReply : Wire.ReadDirectReply.encode {} ≠ [] := by decide +kernel

namespace Request.Sendable

variable {r : Request}

/-- A request that only says what it asks for. -/
theorem of_blank (hranges : Admitted r.ranges) (hlength : r.length.toNat ≤ Wire.maxReadDirectBytes)
    (haccepted : r.accepted = []) (hreply : r.reply = {}) : r.Sendable where
  ranges := hranges
  accepted := haccepted ▸ List.nil_sublist _
  length := hlength
  reply := hreply ▸ encode_emptyReply

/-- Its answer can be encoded: a subscription leaves ranges out, and a read is no longer than what
was asked for.

**Proof sketch.** By the kind of the request: the accepted ranges are some of those asked, a read is
no longer than its length, and a write has no data to return. -/
theorem answer (h : r.Sendable) (s : Service) (space calls : ℕ) :
    (r.answer s space calls).request.Sendable := by
  cases hkind : r.kind with
  | subscribe =>
    have hsub := sublist_answer hkind s space calls
    unfold Request.answer at hsub ⊢
    rw [hkind] at hsub ⊢
    dsimp only [Request.answerSubscribe] at hsub ⊢
    split
    · exact ⟨h.ranges, List.nil_sublist _, h.length, h.reply⟩
    · rename_i hgame
      rw [if_neg hgame] at hsub
      exact ⟨h.ranges, hsub, h.length, h.reply⟩
  | readDirect =>
    unfold Request.answer
    rw [hkind]
    dsimp only [Request.answerReadDirect]
    split
    · exact ⟨h.ranges, h.accepted, h.length, h.reply⟩
    · have hloop : Request.readChunks s.read r.address r.length
          ((List.range ((r.length.toNat + Wire.readChunkBytes - 1) / Wire.readChunkBytes)).map
            (· * Wire.readChunkBytes)) calls [] [] = _ := (r.chunked s calls).readChunks_eq
      rw [hloop]
      exact ⟨h.ranges, h.accepted, h.length, (r.chunked s calls).encode_reply h.length s.frame⟩
  | write =>
    unfold Request.answer
    rw [hkind]
    dsimp only [Request.answerWrite, Request.written]
    repeat' split
    all_goals exact ⟨h.ranges, h.accepted, h.length, h.reply⟩

end Request.Sendable

/-- Direct reads begin within their limit. -/
def withinLimits : Rules where
  begins _ call := ∀ address length, call = .readDirect address length →
    length.toNat ≤ Wire.maxReadDirectBytes

/-- `ReadDirect` refuses what is beyond the limit before it looks at anything. -/
theorem allows_withinLimits (s : State) (a : Act) : withinLimits.Allows s a := by
  refine ⟨fun call hcall address length heq => ?_, fun _ _ => trivial, fun _ => trivial⟩
  subst heq
  cases a with
  | readDirect address' length' =>
    have hbegun := Option.some.inj hcall
    cases hcheck : checkReadDirect address' length' with
    | some result => simp [hcheck] at hbegun
    | none =>
      simp only [hcheck, Call.readDirect.injEq] at hbegun
      obtain ⟨rfl, rfl⟩ := hbegun
      unfold checkReadDirect at hcheck
      split at hcheck
      · cases hcheck
      · rename_i hlimit
        exact Nat.le_of_not_lt hlimit
  | subscribe ranges =>
    have hbegun := Option.some.inj hcall
    cases hcheck : checkSubscribe ranges <;> simp [hcheck] at hbegun
    split at hbegun <;> cases hbegun
  | write ops =>
    have hbegun := Option.some.inj hcall
    cases hcheck : checkWrite ops <;> simp [hcheck] at hbegun
  | poll | clear => cases Option.some.inj hcall
  | _ => cases hcall

/-- Every request's answer can be encoded, and every direct read begun is within its limit. -/
structure Sendable (k : Core) : Prop where
  limited : Limited k
  requests : ∀ c, (k.bridge.requests c).Sendable
  reads : ∀ c address length, k.calls c = .readDirect address length →
    length.toNat ≤ Wire.maxReadDirectBytes

namespace Sendable

variable {k k' : Core}

/-- A call goes on, and may change its own request. -/
theorem of_place (h : Sendable k) {c : ℕ} {b : Bridge} {call : Call}
    (hlimited : Limited (k.place c b call))
    (hrequests : ∀ c', c' ≠ c → b.requests c' = k.bridge.requests c')
    (hrequest : (b.requests c).Sendable)
    (hreads : ∀ address length, call = .readDirect address length →
      length.toNat ≤ Wire.maxReadDirectBytes) : Sendable (k.place c b call) := by
  refine ⟨hlimited, fun c' => ?_, fun c' address length hcall => ?_⟩
  · by_cases hc : c' = c
    · exact hc ▸ hrequest
    · exact (hrequests c' hc).symm ▸ h.requests c'
  · dsimp only [Core.place] at hcall
    split at hcall
    · exact hreads address length hcall
    · exact h.reads c' address length hcall

/-- Nothing changes about the calls, and every request is still one that can be answered. -/
theorem of_frame (h : Sendable k) (hlimited : Limited k') (hcalls : k'.calls = k.calls)
    (hrequests : ∀ c, (k'.bridge.requests c).Sendable) : Sendable k' :=
  ⟨hlimited, hrequests, fun c address length hcall => h.reads c address length (hcalls ▸ hcall)⟩

/-- **The moves keep the requests so that they can be answered.**

**Proof sketch.** By the move. A request is made with ranges and lengths that were checked, answered
as `answer` says, and its fields stay until the call returns with them. -/
theorem move (h : Sendable k) (hm : Move withinLimits k k') : Sendable k' := by
  have hlimited := h.limited.move hm
  cases hm with
  | @begin c call hcall hb hmay =>
    exact h.of_place hlimited (fun _ _ => rfl) (h.requests c) hmay
  | @go c call hadvance =>
    refine h.of_place hlimited (fun _ _ => rfl) (h.requests c) ?_
    rintro address length rfl
    generalize k.calls c = old at hadvance
    cases hadvance
  | @refuse c | @reset c | @clear c | @enqueue c | @polled c =>
    exact h.of_place hlimited (fun _ _ => rfl) (h.requests c) nofun
  | @number c ranges hcall =>
    refine h.of_place hlimited (fun c' hc => if_neg hc) ?_ nofun
    rw [show (k.bridge.number c ranges).requests c = _ from if_pos rfl]
    exact .of_blank (h.limited.calls c ranges (.inr hcall)) (Nat.zero_le _) rfl rfl
  | @readDirect c address length hcall =>
    refine h.of_place hlimited (fun c' hc => if_neg hc) ?_ nofun
    rw [show (k.bridge.setRequest c _).requests c = _ from if_pos rfl]
    exact .of_blank admitted_nil (h.reads c address length hcall) rfl rfl
  | @write c ops hcall =>
    refine h.of_place hlimited (fun c' hc => if_neg hc) ?_ nofun
    rw [show (k.bridge.setRequest c _).requests c = _ from if_pos rfl]
    exact .of_blank admitted_nil (Nat.zero_le _) rfl rfl
  | @full c | @leave c =>
    refine h.of_place hlimited (fun c' _ => ?_) ?_ nofun
    · rw [Bridge.requests_wrote]
    · rw [Bridge.requests_wrote]
      exact h.requests c
  | @abandon c =>
    have hr := h.requests c
    refine h.of_place hlimited (fun c' hc => ?_) ?_ nofun
    · rw [Bridge.requests_wrote]
      exact if_neg hc
    · rw [Bridge.requests_wrote, show (k.bridge.abandon c).requests c = _ from if_pos rfl]
      exact ⟨hr.ranges, hr.accepted, hr.length, hr.reply⟩
  | @hand c =>
    have hplace : Sendable (k.place c k.bridge .wait) :=
      h.of_place ⟨hlimited.sets, hlimited.requests, hlimited.calls⟩ (fun _ _ => rfl)
        (h.requests c) nofun
    exact ⟨hlimited, hplace.requests, hplace.reads⟩
  | stop | space | startGame | endGame | close | pass =>
    exact h.of_frame hlimited rfl h.requests
  | @service s =>
    refine h.of_frame hlimited rfl fun c => ?_
    have hr := h.requests c
    dsimp only [Core.take, Bridge.takeQueue]
    split
    · exact ⟨hr.ranges, hr.accepted, hr.length, hr.reply⟩
    · exact hr
  | @answer s calls c =>
    refine h.of_frame hlimited rfl fun c' => ?_
    dsimp only [Core.keep]
    rw [Bridge.requests_answerOne]
    split
    · exact (h.requests c).answer s _ calls
    · exact h.requests c'
  | @finish c =>
    refine h.of_frame hlimited rfl fun c' => ?_
    have hr := h.requests c
    dsimp only [Core.keep]
    rw [Bridge.requests_completeOne]
    split
    · exact ⟨hr.ranges, hr.accepted, hr.length, hr.reply⟩
    · exact h.requests c'

/-- At the start nothing was asked for. -/
theorem start : Sendable {} where
  limited := .start
  requests _ := .of_blank admitted_nil (Nat.zero_le _) rfl rfl
  reads := nofun

end Sendable

/-- **In every run** every request's answer can be encoded. -/
theorem sendable_of_reachable {s : State} (h : system.Reachable s) : Sendable (core s) :=
  (holds_of_reaches (R := withinLimits) (fun s a _ _ => allows_withinLimits s a) Sendable.start
    (fun _ _ _ hi hm => hi.move hm) h).2

/-- **In every run** the record published fits the buffer.

**Proof sketch.** A run's invariant: only `PublishSnapshot` changes the record, and it refuses one
that is larger than the buffer. -/
theorem size_snapshot_le {s : State} (h : system.Reachable s) {snapshot : Snapshot}
    (hsome : s.bridge.snapshot = some snapshot) : snapshot.size ≤ snapshotBytes := by
  have hall : ∀ snapshot, s.bridge.snapshot = some snapshot → snapshot.size ≤ snapshotBytes := by
    refine h.invariant (I := fun s => ∀ snapshot, s.bridge.snapshot = some snapshot →
      snapshot.size ≤ snapshotBytes) ?_ ?_
    · rintro s rfl snapshot hnone
      cases hnone
    · intro s a s' hi _ hstep snapshot hsome
      rw [snapshot_step hstep] at hsome
      split at hsome
      · exact hi snapshot hsome
      · split at hsome
        · exact hi snapshot hsome
        · rename_i hfits
          obtain rfl := Option.some.inj hsome
          exact Nat.le_of_not_lt hfits
  exact hall snapshot hsome

/-- Blocks taken out of bytes are as many as the heads, and have no more bytes than there are.

**Proof sketch.** By induction on the heads: each block takes as many bytes as its head says, and
these are there. -/
theorem length_takeBlocks {heads : List (UInt32 × UInt32)} {body : Bytes}
    {blocks : List Wire.MemoryBlock} (h : takeBlocks heads body = some blocks) :
    blocks.length = heads.length ∧ (blocks.map (·.bytes.length)).sum ≤ body.length := by
  induction heads generalizing body blocks with
  | nil =>
    obtain rfl := Option.some.inj h
    simp
  | cons head heads ih =>
    simp only [takeBlocks] at h
    split at h
    · cases h
    · rename_i hfits
      obtain ⟨rest, hrest, rfl⟩ := Option.map_eq_some_iff.mp h
      obtain ⟨hlength, hbytes⟩ := ih hrest
      rw [List.length_drop] at hbytes
      simp only [List.length_cons, List.map_cons, List.sum_cons, List.length_take]
      omega

/-- What a `Poll` takes out of a record is no longer than the record.

**Proof sketch.** The heads are eight bytes each and the blocks' bytes come behind them, all of it
out of the body. -/
theorem size_poll {snapshot : Snapshot} {id : ℕ} {reply : Wire.PollReply}
    (h : snapshot.poll id = some reply) :
    (reply.blocks.map fun block => 8 + block.bytes.length).sum ≤ snapshot.body.length := by
  unfold Snapshot.poll at h
  split at h
  · cases h
  · obtain ⟨⟨heads, rest⟩, hheads, h⟩ := Option.bind_eq_some_iff.mp h
    obtain ⟨blocks, hblocks, rfl⟩ := Option.map_eq_some_iff.mp h
    obtain ⟨hcount, hbytes⟩ := length_takeBlocks hblocks
    have hlength := Layout.length_of_get _ hheads
    have hput : ((Layout.vec blockHead snapshot.header.blocks.toNat).put heads).length
        = heads.length * 8 := by
      simp [List.length_flatMap, length_put_blockHead]
    have hsum : (blocks.map fun block => 8 + block.bytes.length).sum
        = blocks.length * 8 + (blocks.map (·.bytes.length)).sum := by
      rw [List.sum_map_add]
      simp
    dsimp only at hcount hbytes ⊢
    omega

/-! ## What a call gives back can be sent -/

/-- What a call gives back can be encoded, whichever of it is sent. -/
structure Handed.Sendable (handed : Handed) : Prop where
  accepted : Wire.Subscription.encode ⟨handed.accepted⟩ ≠ []
  polled : Wire.PollReply.encode handed.polled ≠ []
  read : Wire.ReadDirectReply.encode handed.read ≠ []

/-- Admitted ranges can be encoded. -/
theorem encode_of_admitted {ranges : List Wire.MemoryRange} (h : Admitted ranges) :
    Wire.Subscription.encode ⟨ranges⟩ ≠ [] := by
  have hcount := h.count
  rw [ne_eq, Wire.Subscription.coding.encode_eq_nil_iff, not_not]
  simp only [Wire.Subscription.fits, Wire.Subscription.size, Wire.maxSubscribeRanges,
    show Wire.maxPayloadBytes = 1048564 from rfl] at hcount ⊢
  omega

/-- A reply whose blocks fit the buffer can be encoded. -/
theorem encode_of_size {reply : Wire.PollReply}
    (h : (reply.blocks.map fun block => 8 + block.bytes.length).sum ≤ snapshotBytes) :
    Wire.PollReply.encode reply ≠ [] := by
  have hcount : reply.blocks.length * 8 ≤
      (reply.blocks.map fun block => 8 + block.bytes.length).sum := by
    rw [List.sum_map_add]
    simp
  rw [ne_eq, Wire.PollReply.coding.encode_eq_nil_iff, not_not]
  simp only [Wire.PollReply.fits, Wire.PollReply.size,
    show snapshotBytes = 16920 from rfl, show Wire.maxPayloadBytes = 1048564 from rfl] at h ⊢
  omega

namespace Handed.Sendable

/-- A result alone. -/
theorem of_result (result : Result) : ({ result := result } : Handed).Sendable :=
  ⟨encode_of_admitted admitted_nil, encode_of_size (Nat.zero_le _), encode_emptyReply⟩

/-- What is given back of a request that can be answered. -/
theorem of_request {r : Request} (h : r.Sendable) (result : Result) :
    (r.handed result).Sendable := by
  unfold Request.handed
  split
  · exact ⟨encode_of_admitted (h.ranges.sublist h.accepted), encode_of_size (Nat.zero_le _),
      h.reply⟩
  · exact of_result result

/-- What a `Poll` gives back of a record that fits.

**Proof sketch.** The reply is empty, or what a record that fits gave, which is no longer than the
record (`size_poll`). -/
theorem of_poll {looked : Installed} {read : Option Snapshot}
    (h : ∀ snapshot, read = some snapshot → snapshot.size ≤ snapshotBytes) :
    (handedPoll (pollReply looked read)).Sendable := by
  cases hreply : pollReply looked read with
  | none => exact of_result .busy
  | some reply =>
    refine ⟨encode_of_admitted admitted_nil, encode_of_size ?_, encode_emptyReply⟩
    unfold pollReply at hreply
    split at hreply
    · obtain rfl := Option.some.inj hreply
      exact Nat.zero_le _
    · obtain ⟨snapshot, rfl, hpoll⟩ := Option.bind_eq_some_iff.mp hreply
      have hsize := size_poll hpoll
      have hfits := h snapshot rfl
      unfold Snapshot.size at hfits
      dsimp only [handedPoll]
      omega

end Handed.Sendable

/-- A step of a run gives back only what can be encoded.

**Proof sketch.** The ranges accepted are some of those `Subscribe` let pass, a direct read is no
longer than `ReadDirect` let pass, and a `Poll` takes its blocks out of a record that fits the
buffer; the first two are kept with the requests, the last with what is published. -/
theorem sendable_of_returns {s s' : State} {a : Act} {c : ℕ} {handed : Handed}
    (h : system.Reachable s) (hs : step s a = some s') (hreturns : s.returns c a = some handed) :
    handed.Sendable := by
  have hchecked : ∀ check : Option Result,
      (if c = s.started then check.map (fun result => ({ result := result } : Handed)) else none)
        = some handed → handed.Sendable := by
    intro check hsome
    split at hsome
    · obtain ⟨result, -, rfl⟩ := Option.map_eq_some_iff.mp hsome
      exact .of_result result
    · cases hsome
  have hresult : ∀ {p : Prop} [Decidable p] {result : Result},
      (if p then none else some ({ result := result } : Handed)) = some handed ∨
        (if p then some ({ result := result } : Handed) else none) = some handed →
      handed.Sendable := by
    intro p _ result hsome
    have heq : { result := result } = handed := by
      rcases hsome with hsome | hsome
      · exact Option.some.inj (Option.ite_none_left_eq_some.mp hsome).2
      · exact Option.some.inj (Option.ite_none_right_eq_some.mp hsome).2
    exact heq ▸ .of_result result
  cases a with
  | subscribe | readDirect | write => exact hchecked _ hreturns
  | timeout c' => exact hresult (.inr hreturns)
  | torn c' =>
    simp only [State.returns] at hreturns
    split at hreturns
    · split at hreturns
      · obtain rfl := Option.some.inj hreturns
        exact .of_poll nofun
      · cases hreturns
    · cases hreturns
  | advance c' =>
    simp only [State.returns] at hreturns
    split at hreturns
    · rename_i hc
      subst hc
      have hrequests := (sendable_of_reachable h).requests c'
      have hrequests' := (sendable_of_reachable (h.step trivial hs)).requests c'
      unfold State.advanceReturns at hreturns
      cases hcall : s.calls c' with
      | reset =>
        rw [hcall] at hreturns
        obtain rfl := Option.some.inj hreturns
        exact .of_result .ok
      | readDirect | poll | writeGame =>
        rw [hcall] at hreturns
        exact hresult (.inl hreturns)
      | write | writeSupported =>
        rw [hcall] at hreturns
        exact hresult (.inr hreturns)
      | submit =>
        rw [hcall] at hreturns
        dsimp only at hreturns
        simp only [step, State.advance, hcall, State.submit] at hs
        rcases hsubmit : s.bridge.submit c' with ⟨b, _ | result⟩
        · simp [hsubmit] at hreturns
        · rw [hsubmit] at hreturns hs
          obtain rfl := Option.some.inj hreturns
          obtain rfl := Option.some.inj hs
          have hsame : (core (s.leave c' b result)).bridge.requests = b.requests :=
            Bridge.requests_wrote b c' result
          exact .of_request (hsame ▸ hrequests') result
      | wait =>
        rw [hcall] at hreturns
        dsimp only at hreturns
        split at hreturns
        · obtain rfl := Option.some.inj hreturns
          exact .of_request hrequests _
        · obtain rfl := Option.some.inj hreturns
          exact .of_result .busy
      | pollRead game looked =>
        rw [hcall] at hreturns
        obtain rfl := Option.some.inj hreturns
        exact .of_poll fun snapshot hsome => size_snapshot_le h hsome
      | _ =>
        rw [hcall] at hreturns
        cases hreturns
    · cases hreturns
  | _ => cases hreturns

/-- **In every run what a call gives back can be encoded.** -/
theorem sendable_of_hands {asked : Asked} {handed : Handed} (h : Hands asked handed) :
    handed.Sendable := by
  cases h with
  | atOnce h hs hreturns => exact sendable_of_returns h hs hreturns
  | later h hs hrun hlast hreturns =>
    exact sendable_of_returns (Runs.System.Reaches.onFrom (h.step trivial hs) hrun) hlast hreturns

end Memory
