import ScorbitPlugin.Memory.Moves

set_option relaxedAutoImplicit false
set_option autoImplicit false

/-!
# The runs of the memory bridge

Every step of the bridge is taken apart into its moves, so what the moves keep holds in every run:
`Service` answers what it took one request after the other, `SetGameRunning` answers and completes
what is queued, and a call that finds no game answers itself.

## Main definitions

* `Memory.core` — a state of the bridge with who holds which request.
* `Memory.Rules.Allows` — the rules allow an act.
* `Memory.Sound` — a state whose requests are where they can be.

## Main results

* `Memory.step_moves` — a step is a sequence of moves.
* `Memory.holds_of_reaches` — what the moves keep holds in every run that keeps the rules.
-/

namespace Memory

open Relation

/-! ## The moves of a step -/

namespace Api

/-- The requests the API thread holds. -/
def work : Api → List ℕ
  | .answering _ work _ | .completing work => work
  | _ => []

/-- How it holds a request. -/
def hold : Api → ℕ → Hold
  | .answering _ work _, c => if c ∈ work then .asked false else .free
  | .completing work, c => if c ∈ work then .answered false else .free
  | _, _ => .free

/-- What it is about to publish. -/
def phase : Api → Phase
  | .answering s _ _ => .serving s.gameRunning
  | .ending => .ending
  | _ => .none

/-- The subscription its next snapshot is for. -/
def following : Api → Installed
  | .answering _ _ taken => taken
  | _ => {}

/-- The frame of the latest `Service`, given that of the latest snapshot. -/
def frame : Api → UInt64 → UInt64
  | .answering s _ _, _ => s.frame
  | _, frame => frame

end Api

/-- The bridge of a state, with who holds which request. -/
def core (s : State) : Core where
  bridge := s.bridge
  calls := s.calls
  running := s.running
  hold := s.api.hold
  phase := s.api.phase
  following := s.api.following
  frame := s.api.frame s.bridge.nextSnapshot.frame

/-- The call an act begins, where it begins. -/
def Act.begun : Act → Option Call
  | .subscribe ranges => some (match checkSubscribe ranges with
    | some _ => .returned
    | none => if ranges.isEmpty then .reset else .subscribe ranges)
  | .poll => some .poll
  | .readDirect address length => some (match checkReadDirect address length with
    | some _ => .returned
    | none => .readDirect address length)
  | .write ops => some (match checkWrite ops with
    | some _ => .returned
    | none => .write ops)
  | .clear => some .clear
  | _ => none

/-- The rules allow an act. -/
structure Rules.Allows (R : Rules) (s : State) (a : Act) : Prop where
  begins : ∀ call, a.begun = some call → R.begins (core s) call
  serves : ∀ service, a = .service service → R.serves (core s) service
  stops : a = .stop → R.stops

/-- The requests of a state are where they can be. -/
structure Sound (s : State) : Prop where
  filed : Filed (core s)
  nodup : s.api.work.Nodup
  unused : ∀ c, s.started ≤ c → s.calls c = .unused

/-- A call that goes to a place is a placed call. -/
theorem core_goto (s : State) (c : ℕ) {b : Bridge} (call : Call)
    (h : b.nextSnapshot = s.bridge.nextSnapshot) :
    core (s.goto c b call) = (core s).place c b call := by
  simp only [core, State.goto, Core.place, h]

/-- A service without a game. -/
def noGame : Service where
  read := .filled (fun _ _ _ => 0) fun _ => 0

/-- Without a game a request is answered as `Service` answers it. -/
theorem answerNoGame_eq (b : Bridge) (c : ℕ) :
    b.answerNoGame c = (b.answerOne noGame 0 c).1 := by
  unfold Bridge.answerNoGame Bridge.answerOne Request.answerNoGame Request.answer
  cases hkind : (b.requests c).kind <;>
    simp [noGame, Request.answerWrite, Request.answerSubscribe, Request.answerReadDirect, hkind,
      Bridge.setRequest]

variable {R : Rules}

/-- What all of `c` and `l` are held as, one after the other. -/
theorem hold_cons (c : ℕ) (l : List ℕ) (h : Hold) (hold : ℕ → Hold) :
    (fun c' => if c' ∈ c :: l then h else hold c') =
      fun c' => if c' ∈ l then h else if c' = c then h else hold c' := by
  funext c'
  by_cases hc : c' = c
  · simp [hc]
  · simp [hc]

/-- The others are held as before. -/
theorem Core.hold_keep_of_mem {k : Core} {c : ℕ} {l : List ℕ} {h h' : Hold} {b : Bridge}
    (hc : c ∉ l) (hhold : ∀ c' ∈ c :: l, k.hold c' = h) :
    ∀ c' ∈ l, (k.keep c h' b).hold c' = h := by
  intro c' hc'
  have hne : c' ≠ c := fun heq => hc (heq ▸ hc')
  dsimp only [Core.keep]
  rw [if_neg hne]
  exact hhold c' (List.mem_cons_of_mem _ hc')

/-- `Service` answers what it took.

**Proof sketch.** By induction on the work. The first request is answered in one move, and the rest
is as it was, for no request is twice in the work. -/
theorem moves_answerAll {s : Service} (work : List ℕ) (k : Core) (calls : ℕ)
    (hframe : s.gameRunning = true → s.frame = k.frame) (hnodup : work.Nodup)
    (hhold : ∀ c ∈ work, k.hold c = .asked false) :
    ReflTransGen (Move R) k
      { k with
        bridge := (Bridge.answerAll s work k.bridge calls k.following).1
        hold := fun c => if c ∈ work then .answered false else k.hold c
        following := (Bridge.answerAll s work k.bridge calls k.following).2.2 } := by
  induction work generalizing k calls with
  | nil =>
    simp only [List.not_mem_nil, if_false]
    exact .refl
  | cons c work ih =>
    obtain ⟨hc, hnodup⟩ := List.nodup_cons.mp hnodup
    let k' : Core :=
      { k.keep c (.answered false) (k.bridge.answerOne s calls c).1 with
        following := Bridge.followed ((k.bridge.answerOne s calls c).1.requests c) k.following }
    have hmove : Move R k k' :=
      .answer (hhold c List.mem_cons_self) (fun hgame => ⟨hframe hgame, rfl⟩) (.inr rfl)
    have hrest := ih k' (k.bridge.answerOne s calls c).2 hframe hnodup
      (Core.hold_keep_of_mem (b := (k.bridge.answerOne s calls c).1) hc hhold)
    rw [hold_cons]
    exact .head hmove hrest

/-- What is queued when a game ends is answered.

**Proof sketch.** By induction on the queue: each request is answered by one move, which leaves the
others as they were. -/
theorem moves_noGame (pending : List ℕ) (k : Core) (hnodup : pending.Nodup)
    (hhold : ∀ c ∈ pending, k.hold c = .asked true) :
    ReflTransGen (Move R) k
      { k with
        bridge := pending.foldl Bridge.answerNoGame k.bridge
        hold := fun c => if c ∈ pending then .answered true else k.hold c } := by
  induction pending generalizing k with
  | nil =>
    simp only [List.not_mem_nil, if_false]
    exact .refl
  | cons c pending ih =>
    obtain ⟨hc, hnodup⟩ := List.nodup_cons.mp hnodup
    have hmove : Move R k (k.keep c (.answered true) (k.bridge.answerNoGame c)) := by
      rw [answerNoGame_eq]
      exact .answer (hhold c List.mem_cons_self) nofun (.inl rfl)
    refine .head hmove ((ih _ hnodup (Core.hold_keep_of_mem hc hhold)).trans ?_)
    rw [hold_cons]
    exact .refl

/-- What was answered is completed.

**Proof sketch.** By induction on the requests: each is completed by one move, which leaves the
others as they were. -/
theorem moves_complete {l : Bool} (work : List ℕ) (k : Core)
    (hphase : l = false → k.phase = .none) (hnodup : work.Nodup)
    (hhold : ∀ c ∈ work, k.hold c = .answered l) :
    ReflTransGen (Move R) k
      { k with
        bridge := k.bridge.complete work
        hold := fun c => if c ∈ work then .free else k.hold c } := by
  induction work generalizing k with
  | nil =>
    simp only [List.not_mem_nil, if_false]
    exact .refl
  | cons c work ih =>
    obtain ⟨hc, hnodup⟩ := List.nodup_cons.mp hnodup
    have hrest := ih (k.keep c .free (k.bridge.completeOne c)) hphase hnodup
      (Core.hold_keep_of_mem hc hhold)
    rw [hold_cons]
    exact .head (.finish (hhold c List.mem_cons_self) hphase) hrest

/-- A call's request is answered and completed by the call itself.

**Proof sketch.** Three moves: the call hands its request to itself, answers it and completes it.
The request is free again, as it was. -/
theorem moves_hand (k : Core) {c : ℕ} (h : k.calls c = .submit) (hfree : k.hold c = .free) :
    ReflTransGen (Move R) k
      (k.place c ((k.bridge.answerNoGame c).complete [c]) .wait) := by
  have hanswer : Move R ((k.place c k.bridge .wait).keep c (.asked true) k.bridge)
      (((k.place c k.bridge .wait).keep c (.asked true) k.bridge).keep c (.answered true)
        (k.bridge.answerNoGame c)) := by
    rw [answerNoGame_eq]
    exact .answer (if_pos rfl) nofun (.inl rfl)
  refine .head (.hand h) (.head hanswer (.head (.finish (if_pos rfl) nofun) ?_))
  have hhold : (fun c' => if c' = c then Hold.free
      else if c' = c then .answered true else if c' = c then .asked true else k.hold c') =
      k.hold := by
    funext c'
    by_cases hc : c' = c
    · rw [if_pos hc, hc, hfree]
    · simp only [if_neg hc]
  dsimp only [Core.keep, Core.place]
  rw [hhold]
  exact .refl

/-- A `Write` that returns leaves the next snapshot. -/
@[simp] theorem Bridge.nextSnapshot_wrote (b : Bridge) (c : ℕ) (result : Result) :
    (b.wrote c result).nextSnapshot = b.nextSnapshot := by
  unfold Bridge.wrote Bridge.note
  split <;> rfl

/-- To complete a request leaves the next snapshot. -/
@[simp] theorem Bridge.nextSnapshot_completeOne (b : Bridge) (c : ℕ) :
    (b.completeOne c).nextSnapshot = b.nextSnapshot := by
  rw [completeOne_eq]

/-- So it is with all that are completed. -/
@[simp] theorem Bridge.nextSnapshot_complete (b : Bridge) (l : List ℕ) :
    (b.complete l).nextSnapshot = b.nextSnapshot := by
  induction l generalizing b with
  | nil => rfl
  | cons c l ih => exact (ih (b.completeOne c)).trans (b.nextSnapshot_completeOne c)

/-- The answers to all that is taken leave the next snapshot. -/
@[simp] theorem Bridge.nextSnapshot_answerAll (s : Service) (work : List ℕ) (b : Bridge) (calls : ℕ)
    (current : Installed) :
    (Bridge.answerAll s work b calls current).1.nextSnapshot = b.nextSnapshot := by
  induction work generalizing b calls current with
  | nil => rfl
  | cons c work ih => exact ih _ _ _

/-- A placed call is placed again. -/
theorem Core.place_place (k : Core) (c : ℕ) (b b' : Bridge) (call call' : Call) :
    (k.place c b call).place c b' call' = k.place c b' call' := by
  unfold place
  congr 1
  funext c'
  dsimp only
  split <;> rfl


/-- Between two steps nothing is held for the length of a step. -/
theorem Api.locked_hold (api : Api) (c : ℕ) : (api.hold c).locked = false := by
  cases api with
  | idle => rfl
  | ending => rfl
  | answering =>
    unfold Api.hold
    dsimp only
    split <;> rfl
  | completing =>
    unfold Api.hold
    dsimp only
    split <;> rfl

/-- A call goes on.

**Proof sketch.** By where the call stands. Each step of a call is one move of the core; submitting
and waiting have two outcomes, and the poll that reads is one move to its return. -/
theorem moves_advance {s s' : State} (hs : Sound s) {c : ℕ} (h : s.advance c = some s') :
    ReflTransGen (Move R) (core s) (core s') := by
  unfold State.advance at h
  dsimp only at h
  -- a step that is one move from `s`
  have hone : ∀ {b : Bridge} {call : Call}, some (s.goto c b call) = some s' →
      b.nextSnapshot = s.bridge.nextSnapshot → Move R (core s) ((core s).place c b call) →
      ReflTransGen (Move R) (core s) (core s') := by
    intro b call heq hb hmove
    obtain rfl := Option.some.inj heq
    rw [core_goto s c call hb]
    exact .single hmove
  cases hcall : s.calls c with
  | unused => simp [hcall] at h
  | returned => simp [hcall] at h
  | subscribe ranges =>
    rw [hcall] at h
    dsimp only at h
    refine hone h rfl (.go ?_)
    rw [show (core s).calls c = .subscribe ranges from hcall]
    split
    · exact .number ranges
    · exact .empty ranges
  | reset =>
    rw [hcall] at h
    dsimp only at h
    exact hone h rfl (.reset hcall)
  | number ranges =>
    rw [hcall] at h
    dsimp only at h
    exact hone h rfl (.number hcall)
  | readDirect address length =>
    rw [hcall] at h
    dsimp only at h
    split at h
    · exact hone h rfl (.readDirect hcall)
    · refine hone h rfl (.go ?_)
      rw [show (core s).calls c = .readDirect address length from hcall]
      exact .noDirect address length
  | write ops =>
    rw [hcall] at h
    dsimp only at h
    split at h
    · refine hone h rfl (.refuse ?_ nofun ?_)
      · rw [show (core s).calls c = .write ops from hcall]
        rfl
      · rw [show (core s).calls c = .write ops from hcall]
        nofun
    · refine hone h rfl (.go ?_)
      rw [show (core s).calls c = .write ops from hcall]
      exact .supported ops
  | writeSupported ops =>
    rw [hcall] at h
    dsimp only at h
    split at h
    · refine hone h rfl (.refuse ?_ nofun ?_)
      · rw [show (core s).calls c = .writeSupported ops from hcall]
        rfl
      · rw [show (core s).calls c = .writeSupported ops from hcall]
        nofun
    · refine hone h rfl (.go ?_)
      rw [show (core s).calls c = .writeSupported ops from hcall]
      exact .game ops
  | writeGame ops =>
    rw [hcall] at h
    dsimp only at h
    split at h
    · exact hone h rfl (.write hcall)
    · refine hone h rfl (.refuse ?_ nofun ?_)
      · rw [show (core s).calls c = .writeGame ops from hcall]
        rfl
      · rw [show (core s).calls c = .writeGame ops from hcall]
        nofun
  | clear =>
    rw [hcall] at h
    dsimp only at h
    exact hone h rfl (.clear hcall)
  | submit =>
    rw [hcall] at h
    dsimp only at h
    unfold State.submit at h
    by_cases hgame : s.bridge.gameRunning = true
    · by_cases hfull : s.bridge.queue.length ≥ queueLimit
      · have hsubmit : s.bridge.submit c = (s.bridge, some .busy) := by
          unfold Bridge.submit
          rw [if_neg (by simp [hgame]), if_pos hfull]
        rw [hsubmit] at h
        exact hone h (by simp) (.full hcall)
      · have hsubmit : s.bridge.submit c =
            ({ s.bridge with queue := s.bridge.queue ++ [c] }, none) := by
          unfold Bridge.submit
          rw [if_neg (by simp [hgame]), if_neg hfull]
        rw [hsubmit] at h
        exact hone h rfl (.enqueue hcall)
    · -- the call answers itself
      let b := (s.bridge.answerNoGame c).complete [c]
      have hsubmit : s.bridge.submit c = (b, some (b.requests c).result) := by
        unfold Bridge.submit
        rw [if_pos (by simp [hgame])]
      rw [hsubmit] at h
      obtain rfl := Option.some.inj h
      have hfree : (core s).hold c = .free := ((hs.filed.filedAt c).out (.inr hcall)).2
      have hleave : Move R ((core s).place c b .wait)
          (((core s).place c b .wait).place c (b.wrote c (b.requests c).result) .returned) := by
        refine .leave (if_pos rfl) ?_
        simp [b, Core.place, Bridge.complete]
      have hb : b.nextSnapshot = s.bridge.nextSnapshot := by
        simp [b, Bridge.answerNoGame, Bridge.setRequest]
      rw [Core.place_place] at hleave
      show ReflTransGen (Move R) (core s) (core (s.goto c _ .returned))
      rw [core_goto _ _ _ ((Bridge.nextSnapshot_wrote _ _ _).trans hb)]
      exact (moves_hand (core s) hcall hfree).tail hleave
  | wait =>
    rw [hcall] at h
    dsimp only at h
    split at h
    · rename_i hdone
      exact hone h (by simp) (.leave hcall hdone)
    · rename_i hdone
      split at h
      · rename_i hstop
        refine hone h (by simp [Bridge.abandon, Bridge.setRequest]) (.abandon hcall ?_ ?_ ?_)
        · exact Bool.eq_false_iff.mpr hdone
        · exact s.api.locked_hold c
        · intro hrunning
          rw [show s.running = true from hrunning] at hstop
          cases hstop
      · cases h
  | poll =>
    rw [hcall] at h
    dsimp only at h
    refine hone h rfl (.go ?_)
    rw [show (core s).calls c = .poll from hcall]
    split
    · rename_i hgame
      exact .look hgame
    · exact .noPoll
  | pollLook game =>
    rw [hcall] at h
    dsimp only at h
    refine hone h rfl (.go ?_)
    rw [show (core s).calls c = .pollLook game from hcall]
    exact .looked game
  | pollRead game looked =>
    rw [hcall] at h
    dsimp only at h
    exact hone h rfl (.polled hcall (.inr rfl))

/-- The API thread is between two calls. -/
theorem State.api_of_apiIdle {s : State} (h : s.apiIdle = true) : s.api = .idle := by
  unfold State.apiIdle at h
  split at h
  · assumption
  · cases h

/-- So do the answers without a game. -/
@[simp] theorem Bridge.nextSnapshot_foldl_answerNoGame (pending : List ℕ) (b : Bridge) :
    (pending.foldl Bridge.answerNoGame b).nextSnapshot = b.nextSnapshot := by
  induction pending generalizing b with
  | nil => rfl
  | cons c pending ih => exact ih _

/-- A snapshot has the frame of its `Service`. -/
theorem frame_takeSnapshot (next : Wire.PollReply) (s : Service)
    (ranges : List Wire.MemoryRange) (calls : ℕ) :
    (takeSnapshot next s ranges calls).1.frame = s.frame := by
  unfold takeSnapshot
  dsimp only
  split <;> rfl

/-- A game ends.

**Proof sketch.** The game's end takes the queue, answers every request of it with no game, and
completes them: three kinds of moves after each other, which the core shows in the same order. -/
theorem moves_endGame {s : State} (hs : Sound s) (hapi : s.api = .idle) :
    ReflTransGen (Move R) (core s)
      (core { s with bridge := s.bridge.endGame, api := .ending }) := by
  let k : Core :=
    { (core s).take true { s.bridge with gameRunning := false, queue := [] } with phase := .ending }
  have hend : Move R (core s) k := .endGame (by simp only [core, hapi, Api.phase])
  have hanswer := moves_noGame (R := R) s.bridge.queue k hs.filed.nodup fun c hc => if_pos hc
  have hfinish := moves_complete (R := R) (l := true) s.bridge.queue
    { k with
      bridge := s.bridge.queue.foldl Bridge.answerNoGame k.bridge
      hold := fun c => if c ∈ s.bridge.queue then .answered true else k.hold c }
    nofun hs.filed.nodup fun c hc => if_pos hc
  have htarget : core { s with bridge := s.bridge.endGame, api := .ending } =
      { k with
        bridge := s.bridge.endGame
        hold := fun c => if c ∈ s.bridge.queue then Hold.free
          else if c ∈ s.bridge.queue then .answered true else k.hold c } := by
    refine Core.ext rfl rfl rfl (funext fun c => ?_) rfl ?_ ?_
    · by_cases hc : c ∈ s.bridge.queue
      · exact (if_pos hc).symm
      · simp [hc, k, Core.take, core, hapi, Api.hold]
    · simp only [core, k, Core.take, hapi, Api.following]
    · simp only [k, core, hapi, Core.take, Api.frame, Bridge.endGame, Bridge.nextSnapshot_complete,
        Bridge.nextSnapshot_foldl_answerNoGame]
  rw [htarget]
  exact .head hend (hanswer.trans hfinish)

/-- `Service` answers what it took, and so comes to the subscription its snapshot is for. -/
theorem moves_answers {s : State} (hs : Sound s) {service : Service} {work : List ℕ}
    {taken : Installed} (hapi : s.api = .answering service work taken) :
    ReflTransGen (Move R) (core s)
      { core s with
        bridge := (Bridge.answerAll service work s.bridge 0 taken).1
        hold := fun c => if c ∈ work then .answered false else (core s).hold c
        following := (Bridge.answerAll service work s.bridge 0 taken).2.2 } := by
  have hnodup : work.Nodup := by
    have hnodup := hs.nodup
    rw [hapi] at hnodup
    exact hnodup
  have hframe : service.frame = (core s).frame := by
    simp only [core, hapi, Api.frame]
  have hhold : ∀ c ∈ work, (core s).hold c = .asked false := fun c hc => by
    simp only [core, hapi, Api.hold, if_pos hc]
  have hfollowing : (core s).following = taken := by
    simp only [core, hapi, Api.following]
  have hanswer := moves_answerAll (R := R) work (core s) 0 (fun _ => hframe) hnodup hhold
  rw [hfollowing] at hanswer
  exact hanswer

/-- The second phase of `Service`.

**Proof sketch.** The requests of the work are answered one by one (`moves_answers`), and the pass
that follows takes the snapshot of the set installed last. -/
theorem moves_serve {s : State} (hs : Sound s) {service : Service} {work : List ℕ}
    {taken : Installed} (hapi : s.api = .answering service work taken) :
    ReflTransGen (Move R) (core s)
      (core { s with bridge := s.bridge.serve service work taken, api := .completing work }) := by
  let out := Bridge.answerAll service work s.bridge 0 taken
  have hframe : service.frame = (core s).frame := by
    simp only [core, hapi, Api.frame]
  have hphase : (core s).phase = .serving service.gameRunning := by
    simp only [core, hapi, Api.phase]
  have hpass : Move R
      { core s with
        bridge := out.1
        hold := fun c => if c ∈ work then .answered false else (core s).hold c
        following := out.2.2 }
      { core s with
        bridge := out.1.snapshotFor service out.2.1 out.2.2
        hold := fun c => if c ∈ work then .answered false else (core s).hold c
        phase := .none
        following := {} } := .pass hphase hframe
  have htarget :
      core { s with bridge := s.bridge.serve service work taken, api := .completing work } =
      { core s with
        bridge := out.1.snapshotFor service out.2.1 out.2.2
        hold := fun c => if c ∈ work then .answered false else (core s).hold c
        phase := .none
        following := {} } := by
    refine Core.ext rfl rfl rfl (funext fun c => ?_) rfl rfl ?_
    · by_cases hc : c ∈ work
      · simp [hc, core, Api.hold]
      · simp [hc, core, hapi, Api.hold]
    · exact (frame_takeSnapshot _ _ _ _).trans hframe
  rw [htarget]
  exact (moves_answers hs hapi).tail hpass

/-- The third phase of `Service`.

**Proof sketch.** The requests of the work are held answered and are completed one by one
(`moves_complete`); the bridge that is left is the one of the third phase. -/
theorem moves_completing {s : State} (hs : Sound s) {work : List ℕ}
    (hapi : s.api = .completing work) :
    ReflTransGen (Move R) (core s)
      (core { s with bridge := s.bridge.complete work, api := .idle }) := by
  have hnodup : work.Nodup := by
    have hnodup := hs.nodup
    rw [hapi] at hnodup
    exact hnodup
  have hhold : ∀ c ∈ work, (core s).hold c = .answered false := fun c hc => by
    simp only [core, hapi, Api.hold, if_pos hc]
  have htarget : core { s with bridge := s.bridge.complete work, api := .idle } =
      { core s with
        bridge := s.bridge.complete work
        hold := fun c => if c ∈ work then .free else (core s).hold c } := by
    refine Core.ext rfl rfl rfl (funext fun c => ?_) ?_ ?_ ?_
    · by_cases hc : c ∈ work
      · exact (if_pos hc).symm
      · simp [hc, core, hapi, Api.hold]
    · simp only [core, hapi, Api.phase]
    · simp only [core, hapi, Api.following]
    · simp only [core, hapi, Api.frame, Bridge.nextSnapshot_complete]
  rw [htarget]
  refine moves_complete work (core s) (fun _ => ?_) hnodup hhold
  simp only [core, hapi, Api.phase]

/-- **A step is a sequence of moves.**

**Proof sketch.** By the step. A call's start, a timeout and a torn read are one move each; a call
that goes on is `moves_advance`, and the phases of `Service` and the game's end have lemmas of their
own. -/
theorem step_moves {s s' : State} {a : Act} (hs : Sound s) (hallows : R.Allows s a)
    (h : step s a = some s') : ReflTransGen (Move R) (core s) (core s') := by
  have hbegin : ∀ call, a.begun = some call → Begins call →
      ReflTransGen (Move R) (core s) (core (s.start call)) := by
    intro call hcall hb
    have hm : Move R (core s) (core (s.start call)) :=
      .begin (hs.unused _ le_rfl) hb (hallows.begins call hcall)
    exact .single hm
  cases a with
  | subscribe ranges =>
    obtain rfl := Option.some.inj h
    refine hbegin _ rfl ?_
    cases hcheck : checkSubscribe ranges with
    | some => exact .refused
    | none =>
      dsimp only
      split
      · exact .empty
      · exact .subscribe hcheck
  | poll =>
    obtain rfl := Option.some.inj h
    exact hbegin _ rfl .poll
  | readDirect address length =>
    obtain rfl := Option.some.inj h
    refine hbegin _ rfl ?_
    cases hcheck : checkReadDirect address length with
    | some => exact .refused
    | none => exact .readDirect address length
  | write ops =>
    simp only [step, List.all_eq_true, decide_eq_true_eq] at h
    split at h
    · rename_i hsize
      obtain rfl := Option.some.inj h
      cases hcheck : checkWrite ops with
      | some result =>
        have hok : result ≠ .ok := by
          unfold checkWrite at hcheck
          rintro rfl
          repeat' (split at hcheck; cases hcheck)
          cases hcheck
        dsimp only
        have hstart : s.calls s.started = .unused := hs.unused _ le_rfl
        have hrefuse : Move R (core s)
            ((core s).place s.started (s.bridge.note (.wrote s.started result)) .returned) := by
          refine .refuse ?_ hok fun _ => hallows.begins .returned (by simp [Act.begun, hcheck])
          rw [show (core s).calls s.started = .unused from hstart]
          rfl
        rw [← Core.place_place (core s) s.started s.bridge _ .unused] at hrefuse
        exact .single hrefuse
      | none =>
        exact hbegin (.write ops) (by simp [Act.begun, hcheck]) (.write hsize hcheck)
    · cases h
  | clear =>
    obtain rfl := Option.some.inj h
    exact hbegin _ rfl .clear
  | advance c => exact moves_advance hs h
  | timeout c =>
    simp only [step, State.timeout] at h
    split at h
    · rename_i hc
      obtain ⟨hwait, hdone, hwrite⟩ := hc
      obtain rfl := Option.some.inj h
      have habandon : Move R (core s)
          ((core s).place c ((s.bridge.abandon c).wrote c .busy) .returned) := by
        refine .abandon hwait (Bool.eq_false_iff.mpr hdone) (s.api.locked_hold c) ?_
        exact fun hrunning hheld => hwrite ⟨hrunning, hheld⟩
      show ReflTransGen (Move R) (core s) (core (s.goto c _ .returned))
      rw [core_goto _ _ _ (by simp [Bridge.abandon, Bridge.setRequest])]
      exact .single habandon
    · cases h
  | torn c =>
    simp only [step, State.torn] at h
    split at h
    · rename_i game looked hcall
      obtain rfl := Option.some.inj h
      exact .single (.polled hcall (.inl rfl))
    · cases h
  | stop =>
    obtain rfl := Option.some.inj h
    exact .single (.stop (hallows.stops rfl))
  | setGameRunning running =>
    simp only [step] at h
    split at h
    · rename_i hidle
      have hapi := s.api_of_apiIdle hidle
      obtain rfl := Option.some.inj h
      cases running with
      | true =>
        have hphase : (core s).phase = .none := by
          simp only [core, hapi, Api.phase]
        exact .single (.startGame hphase)
      | false => exact moves_endGame hs hapi
    · cases h
  | setAddressSpace space =>
    simp only [step] at h
    split at h
    · obtain rfl := Option.some.inj h
      exact .single (.space space)
    · cases h
  | service service =>
    simp only [step] at h
    split at h
    · rename_i hidle
      have hapi := s.api_of_apiIdle hidle
      obtain rfl := Option.some.inj h
      have hphase : (core s).phase = .none := by
        simp only [core, hapi, Api.phase]
      have hmove := Move.service hphase (hallows.serves service rfl)
      simp only [core, hapi] at hmove ⊢
      exact .single hmove
    · cases h
  | phase =>
    simp only [step, State.phase] at h
    split at h
    · cases h
    · rename_i service work taken hapi
      obtain rfl := Option.some.inj h
      exact moves_serve hs hapi
    · rename_i work hapi
      obtain rfl := Option.some.inj h
      exact moves_completing hs hapi
    · rename_i hapi
      obtain rfl := Option.some.inj h
      have hphase : (core s).phase = .ending := by
        simp only [core, hapi, Api.phase]
      have hmove := Move.close (R := R) hphase
      simp only [core, hapi] at hmove ⊢
      exact .single hmove

/-! ## Runs -/

/-- What is published, and what the next snapshot is made of. -/
def Bridge.buffers (b : Bridge) : Option Snapshot × Wire.PollReply := (b.snapshot, b.nextSnapshot)

namespace Bridge

variable (b : Bridge) (c : ℕ)

/-- A `Write` that returns leaves the buffers. -/
theorem buffers_wrote (result : Result) : (b.wrote c result).buffers = b.buffers := by
  unfold wrote
  split <;> rfl

/-- To complete requests leaves the buffers. -/
theorem buffers_complete (l : List ℕ) : (b.complete l).buffers = b.buffers := by
  induction l generalizing b with
  | nil => rfl
  | cons c l ih =>
    refine (ih (b.completeOne c)).trans ?_
    rw [completeOne_eq]
    rfl

/-- To queue a request leaves the buffers. -/
theorem buffers_submit : (b.submit c).1.buffers = b.buffers := by
  unfold submit
  split
  · exact buffers_complete _ _
  · split <;> rfl

end Bridge

/-- A call that goes on was begun, and is the one call that moves; it publishes nothing.

**Proof sketch.** By where the call stands: each case leaves in `goto`, with a bridge that has the
snapshot and the next one as they were. -/
theorem advance_goto {s s' : State} {c : ℕ} (h : s.advance c = some s') :
    s.calls c ≠ .unused ∧
      ∃ b call, s' = s.goto c b call ∧ b.buffers = s.bridge.buffers := by
  unfold State.advance at h
  dsimp only at h
  cases hcall : s.calls c with
  | unused => simp [hcall] at h
  | returned => simp [hcall] at h
  | submit =>
    rw [hcall] at h
    dsimp only at h
    obtain rfl := Option.some.inj h
    refine ⟨nofun, ?_⟩
    unfold State.submit
    split
    · rename_i b hsubmit
      refine ⟨b, _, rfl, ?_⟩
      exact (congrArg (fun p => p.1.buffers) hsubmit).symm.trans (s.bridge.buffers_submit c)
    · rename_i b result hsubmit
      refine ⟨_, _, rfl, (Bridge.buffers_wrote _ _ _).trans ?_⟩
      exact (congrArg (fun p => p.1.buffers) hsubmit).symm.trans (s.bridge.buffers_submit c)
  | wait =>
    rw [hcall] at h
    dsimp only at h
    refine ⟨nofun, ?_⟩
    split at h
    · exact ⟨_, _, (Option.some.inj h).symm, Bridge.buffers_wrote _ _ _⟩
    · split at h
      · exact ⟨_, _, (Option.some.inj h).symm, Bridge.buffers_wrote _ _ _⟩
      · cases h
  | readDirect | write | writeSupported | writeGame =>
    rw [hcall] at h
    dsimp only at h
    refine ⟨nofun, ?_⟩
    split at h
    · exact ⟨_, _, (Option.some.inj h).symm, rfl⟩
    · exact ⟨_, _, (Option.some.inj h).symm, rfl⟩
  | _ =>
    rw [hcall] at h
    exact ⟨nofun, _, _, (Option.some.inj h).symm, rfl⟩

/-- What a step does beside the bridge: it moves a call that was begun, begins the next one, or
leaves the calls to the API thread.

**Proof sketch.** By the step. A call that goes on, times out or reads a torn snapshot is moved in
`goto`; one that begins takes the next number; the API thread's steps take the work from the queue,
keep it or finish it. -/
theorem step_calls {s s' : State} {a : Act} (h : step s a = some s') :
    (∃ c b call, s.calls c ≠ .unused ∧ s' = s.goto c b call) ∨
    (∃ b call, s' = { s.goto s.started b call with started := s.started + 1 }) ∨
    (s'.calls = s.calls ∧ s'.started = s.started ∧
      (s'.api.work = s.api.work ∨ s'.api.work = [] ∨ s'.api.work = s.bridge.queue)) := by
  cases a with
  | subscribe | poll | readDirect | clear =>
    exact .inr (.inl ⟨_, _, (Option.some.inj h).symm⟩)
  | stop =>
    obtain rfl := Option.some.inj h
    exact .inr (.inr ⟨rfl, rfl, .inl rfl⟩)
  | write ops =>
    simp only [step] at h
    split at h
    · obtain rfl := Option.some.inj h
      right; left
      cases checkWrite ops with
      | some result =>
        refine ⟨s.bridge.note (.wrote s.started result), .returned, ?_⟩
        dsimp only [State.refuse, State.start, State.goto]
        congr 1
        funext c'
        split <;> rfl
      | none => exact ⟨_, _, rfl⟩
    · cases h
  | advance c =>
    obtain ⟨hc, b, call, heq, -⟩ := advance_goto h
    exact .inl ⟨c, b, call, hc, heq⟩
  | timeout c =>
    simp only [step, State.timeout] at h
    split at h
    · rename_i hc
      refine .inl ⟨c, _, _, ?_, (Option.some.inj h).symm⟩
      rw [hc.1]
      nofun
    · cases h
  | torn c =>
    simp only [step, State.torn] at h
    split at h
    · rename_i hc
      refine .inl ⟨c, _, _, ?_, (Option.some.inj h).symm⟩
      rw [hc]
      nofun
    · cases h
  | setGameRunning running =>
    right; right
    simp only [step] at h
    split at h
    · obtain rfl := Option.some.inj h
      cases running with
      | true => exact ⟨rfl, rfl, .inl rfl⟩
      | false => exact ⟨rfl, rfl, .inr (.inl rfl)⟩
    · cases h
  | setAddressSpace space =>
    right; right
    simp only [step] at h
    split at h
    · obtain rfl := Option.some.inj h
      exact ⟨rfl, rfl, .inl rfl⟩
    · cases h
  | service service =>
    right; right
    simp only [step] at h
    split at h
    · obtain rfl := Option.some.inj h
      exact ⟨rfl, rfl, .inr (.inr rfl)⟩
    · cases h
  | phase =>
    right; right
    simp only [step, State.phase] at h
    split at h
    · cases h
    · rename_i hapi
      obtain rfl := Option.some.inj h
      refine ⟨rfl, rfl, .inl ?_⟩
      rw [hapi]
      rfl
    · obtain rfl := Option.some.inj h
      exact ⟨rfl, rfl, .inr (.inl rfl)⟩
    · obtain rfl := Option.some.inj h
      exact ⟨rfl, rfl, .inr (.inl rfl)⟩

/-- What a move keeps of filed requests, a sequence of moves keeps. -/
theorem keeps_of_moves {I : Core → Prop} (hI : ∀ k k', Filed k → I k → Move R k k' → I k')
    {k k' : Core} (hf : Filed k) (hi : I k) (hmoves : ReflTransGen (Move R) k k') :
    Filed k' ∧ I k' := by
  induction hmoves with
  | refl => exact ⟨hf, hi⟩
  | tail _ hmove ih => exact ⟨ih.1.move hmove, hI _ _ ih.1 ih.2 hmove⟩

/-- What the moves keep of filed requests, a step keeps. -/
theorem Sound.keeps {I : Core → Prop} (hI : ∀ k k', Filed k → I k → Move R k k' → I k')
    {s s' : State} {a : Act} (hs : Sound s) (hi : I (core s)) (hallows : R.Allows s a)
    (h : step s a = some s') : Filed (core s') ∧ I (core s') :=
  keeps_of_moves hI hs.filed hi (step_moves hs hallows h)

/-- Every act is allowed when there are no rules. -/
theorem Rules.allows (s : State) (a : Act) : Rules.Allows {} s a :=
  ⟨fun _ _ => trivial, fun _ _ => trivial, fun _ => trivial⟩

/-- Steps keep states sound.

**Proof sketch.** By what a step moves (`step_calls`): one call that was begun, a new call under the
next number, or the work of the API thread, which is the queue or what it was. -/
theorem Sound.step {s s' : State} {a : Act} (hs : Sound s) (h : step s a = some s') :
    Sound s' := by
  have hfiled : Filed (core s') :=
    (hs.keeps (I := fun _ => True) (fun _ _ _ _ _ => trivial) trivial (Rules.allows s a) h).1
  rcases step_calls h with ⟨c, b, call, hc, rfl⟩ | ⟨b, call, rfl⟩ | ⟨hcalls, hstarted, hwork⟩
  · refine ⟨hfiled, hs.nodup, fun c' hc' => ?_⟩
    have hne : c' ≠ c := by
      rintro rfl
      exact hc (hs.unused c' hc')
    exact (if_neg hne).trans (hs.unused c' hc')
  · refine ⟨hfiled, hs.nodup, fun c' hc' => ?_⟩
    have hlt : s.started + 1 ≤ c' := hc'
    have hne : c' ≠ s.started := by omega
    exact (if_neg hne).trans (hs.unused c' (by omega))
  · refine ⟨hfiled, ?_, fun c' hc' => ?_⟩
    · rcases hwork with hwork | hwork | hwork
      · exact hwork ▸ hs.nodup
      · exact hwork ▸ List.nodup_nil
      · exact hwork ▸ hs.filed.nodup
    · rw [hcalls]
      exact hs.unused c' (hstarted ▸ hc')

/-- Nothing was asked of a bridge at its start. -/
theorem Sound.start : Sound {} where
  filed := ⟨List.nodup_nil, fun _ =>
    ⟨nofun, fun h => absurd rfl h, fun h => absurd rfl h, nofun, fun _ => rfl, nofun, nofun⟩⟩
  nodup := List.nodup_nil
  unused _ _ := rfl

/-- **What holds at the start and is kept by the moves holds in every run that keeps the rules.** -/
theorem holds_of_reaches {ok : State → Act → Prop}
    (hok : ∀ s a, Sound s → ok s a → R.Allows s a)
    {I : Core → Prop} (hinit : I {}) (hI : ∀ k k', Filed k → I k → Move R k k' → I k')
    {s : State} (h : system.Reaches ok s) : Sound s ∧ I (core s) := by
  refine h.invariant (I := fun s => Sound s ∧ I (core s)) ?_ ?_
  · rintro s rfl
    exact ⟨Sound.start, hinit⟩
  · rintro s a s' ⟨hs, hi⟩ ha hstep
    exact ⟨hs.step hstep, (hs.keeps hI hi (hok s a hs ha) hstep).2⟩

end Memory
