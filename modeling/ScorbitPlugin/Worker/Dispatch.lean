import ScorbitPlugin.Worker.Players
import ScorbitPlugin.Worker.Watch

set_option relaxedAutoImplicit false
set_option autoImplicit false

/-!
# Which requests are served

`Dispatch` of `src/SocketWorker.cpp`, which runs in `Serve` and in every exchange, a connection's
Hello included, and what it does to the players. A read-back is served by what was negotiated, and
until the HelloAck of a connection has come that is what an earlier connection's daemon offered.

## Main definitions

* `Worker.handler` — what `Dispatch` does with a type.
* `Worker.PlayerBook.next` — the players after a step of the worker.
* `Worker.Watch.OnlyNegotiated` — what is claimed of a step.
* `Worker.Watch.ServedEarly` — the one case in which it fails.

## Main results

* `Worker.only_negotiated` — it holds of a step of any run exactly when that is not the case.
-/

namespace Worker

open Codec

/-! ## Dispatch -/

/-- `TYPE_FRAME`. -/
def typeFrame : UInt16 := 4

/-- `TYPE_SUBSCRIBE`. -/
def typeSubscribe : UInt16 := 16

/-- `TYPE_POLL`. -/
def typePoll : UInt16 := 17

/-- `TYPE_READ_DIRECT`. -/
def typeReadDirect : UInt16 := 18

/-- `TYPE_WRITE`. -/
def typeWrite : UInt16 := 19

/-- `TYPE_NVRAM`. -/
def typeNvRam : UInt16 := 20

/-- `TYPE_OVERLAY`. -/
def typeOverlay : UInt16 := 32

/-- `TYPE_STATUS`. -/
def typeStatus : UInt16 := 33

/-- What a request is answered by. -/
inductive Handler
  | frame | ping | subscribe | poll | readDirect | write | nvRam | overlay | status | topScores
  | players | playerPicture | bye
  /-- `SendError` with `ERR_UNSUPPORTED_TYPE`. -/
  | unsupported
deriving DecidableEq, Repr

/-- A handler whose target may be missing. -/
def Handler.when (h : Handler) (target : Bool) : Handler := if target then h else .unsupported

/-- `Dispatch`, for a worker that was given a status latch or not. -/
def handler (cfg : Config) (status : Bool) (l : Link) (type : UInt16) : Handler :=
  if type = typeFrame then .frame
  else if type = Wire.typePing then .ping
  else if type = typeSubscribe then Handler.subscribe.when cfg.memory
  else if type = typePoll then Handler.poll.when cfg.memory
  else if type = typeReadDirect then Handler.readDirect.when cfg.memory
  else if type = typeWrite then Handler.write.when cfg.memory
  else if type = typeNvRam then Handler.nvRam.when cfg.memory
  else if type = typeOverlay then Handler.overlay.when cfg.overlay
  else if type = typeStatus then Handler.status.when status
  else if type = Wire.typeTopScores then
    Handler.topScores.when (l.readBackAllowed cfg Wire.capLeaderboards)
  else if type = Wire.typePlayers then
    Handler.players.when (l.readBackAllowed cfg Wire.capPlayers)
  else if type = Wire.typePlayerPicture then
    Handler.playerPicture.when (l.readBackAllowed cfg Wire.capPlayerPictures)
  else if type = Wire.typeBye then .bye
  else .unsupported

/-- The capability of a read-back's type. -/
def readBackCapability (type : UInt16) : Option UInt32 :=
  if type = Wire.typeTopScores then some Wire.capLeaderboards
  else if type = Wire.typePlayers then some Wire.capPlayers
  else if type = Wire.typePlayerPicture then some Wire.capPlayerPictures
  else none

/-- A message that arrives is dispatched: it is no response, and the worker waits for one. -/
def State.dispatches (s : State) (msg : Wire.Message) : Bool :=
  match s.path.pc with
  | .exchange request _ => !msg.answers request && !msg.header.isResponse
  | .idle => !msg.header.isResponse
  | _ => false

/-! ## The players -/

namespace PlayerBook

variable (b : PlayerBook)

/-- What `Dispatch` does to the players. -/
def dispatch (cfg : Config) (l : Link) (msg : Wire.Message) (files : PictureFiles) : PlayerBook :=
  match handler cfg true l msg.header.type with
  | .players => b.answerPlayers l.declared.epoch msg.payload
  | .playerPicture => b.answerPlayerPicture l.declared.epoch msg.payload files
  | _ => b

/-- The worker's connection ends in a step. -/
def ends (s' : State) : Act → Bool
  | .connect _ | .recv _ | .go | .ping | .cut => decide (s'.path.pc = .offline)
  | _ => false

/-- A Declare of another table is acknowledged. -/
def switches (s : State) : Act → Bool
  | .recv msg =>
    match s.path.pc with
    | .exchange request (.declare now) =>
      msg.answers request && !msg.header.isError && s.path.link.newTable now
    | _ => false
  | _ => false

/-- The players after a connection began, or after a message. -/
def received (cfg : Config) (s : State) (a : Act) (files : PictureFiles) : PlayerBook :=
  match a with
  | .connect _ => { b with snapshotDue := true }
  | .recv msg => if s.dispatches msg then b.dispatch cfg s.path.link msg files else b
  | _ => b

/-- The players after a step. -/
def next (cfg : Config) (s : State) (a : Act) (files : PictureFiles) (s' : State) : PlayerBook :=
  let b := b.received cfg s a files
  if cfg.readBack && (ends s' a || switches s a) then b.endReadBacks s'.path.link.declared.epoch
  else b

end PlayerBook

/-! ## What is claimed -/

/-- The state without what an earlier connection negotiated. -/
def State.forget (s : State) : State :=
  if s.path.pc.past then s
  else { s with path := { s.path with
      link := { s.path.link with peerMinor := 0, peerCapabilities := 0 } } }

/-- Only what this connection's own HelloAck offered is served, and nothing else of what was
negotiated has any effect. -/
structure Watch.OnlyNegotiated (cfg : Config) (status : Bool) (w : Watch) (a : Act) : Prop where
  served : ∀ msg capability, a = .recv msg → w.state.dispatches msg = true →
    readBackCapability msg.header.type = some capability →
    handler cfg status w.state.path.link msg.header.type ≠ .unsupported →
    ∃ ack, w.offer = some ack ∧ ack.protoMinor ≥ 2 ∧ ack.capabilities &&& capability ≠ 0 ∧
      (capability = Wire.capPlayerPictures → ack.capabilities &&& Wire.capPlayers ≠ 0)
  /-- The worker goes on as if nothing had been negotiated before. -/
  worker : (step cfg w.state.forget a).map State.forget = (step cfg w.state a).map State.forget
  /-- So do the players. -/
  players : ∀ (b : PlayerBook) (files : PictureFiles) (s' : State),
    b.next cfg w.state.forget a files s' = b.next cfg w.state a files s'

/-- A read-back that an earlier connection's daemon offered arrives while this connection's Hello is
unanswered. -/
def Watch.ServedEarly (cfg : Config) (w : Watch) (a : Act) : Prop :=
  ∃ request msg capability, w.state.path.pc = .exchange request .hello ∧ a = .recv msg ∧
    w.state.dispatches msg = true ∧ readBackCapability msg.header.type = some capability ∧
    w.state.path.link.readBackAllowed cfg capability = true

/-! ## Before a connection's HelloAck -/

/-- A connection's Hello is under way only after the worker was offline, or where it was before.

**Proof sketch.** By the move: only a connection asks `Hello`, and it is made while offline. Every
other goes elsewhere, or stays where it was. -/
theorem GamePath.Moves.hello {Ask : Type} {p p' : GamePath Ask} {m : Move} (hm : p.Moves m p')
    {request : Wire.Message} (h : p'.pc = .exchange request .hello) :
    p.pc = .offline ∨ p.pc = .exchange request .hello := by
  cases hm with
  | posted | committed | evicted => exact .inr h
  | connected payload hpc | failed hpc => exact .inl hpc
  | ended | handshake | took | sent | acked | refused | declaring => cases h
  | dropped flush front rest hpc | droppedUnserved flush front rest hpc =>
    cases hpc.symm.trans h
  | declared now request hpc =>
    simp only [declareAcked] at h
    split at h <;> cases h
  | redeclared pc hpc hq | left flush pc hpc hq | leftUnserved flush pc hpc hq =>
    exact absurd h (Pc.quiet_ne_hello hq)
  | moved seq pc hpc =>
    rcases hpc with rfl | ⟨-, hq⟩
    · exact .inr h
    · exact absurd h (Pc.quiet_ne_hello hq)

/-- A connection's Hello is under way after it began, and after anything but its answer.

**Proof sketch.** The move shows where the worker was: offline, and then only a connection brings it
to its Hello; or at that Hello, which only its answer or the end of the connection leaves. -/
theorem kept_hello {cfg : Config} {s s' : State} {a : Act} {request : Wire.Message}
    (h : step cfg s a = some s') (hpc' : s'.path.pc = .exchange request .hello) :
    (∃ token, a = .connect token) ∨ (s.path.pc = .exchange request .hello ∧
      ∀ msg, a = .recv msg → msg.answers request = false) := by
  obtain ⟨m, hm⟩ := step_moves h
  rcases hm.hello hpc' with ho | hpc
  · -- only a connection takes the worker from where it was offline
    refine .inl ?_
    rcases step_pc h (by simp [ho, hpc']) with hoff | ⟨_, _, hsent, hk⟩ | hgo | ⟨msg, -, hrecv⟩
    · cases hpc'.symm.trans hoff
    · cases a with
      | connect token => exact ⟨token, rfl⟩
      | ping | cut | go | recv => simp [step, State.breakable, State.go, State.recv, ho] at h
      | post d =>
        obtain ⟨-, h⟩ := Option.ite_none_right_eq_some.mp h
        obtain rfl := Option.some.inj h
        cases ho.symm.trans hpc'
      | commit batch =>
        obtain ⟨_, h⟩ := Option.dite_none_right_eq_some.mp h
        obtain rfl := Option.some.inj h
        cases ho.symm.trans hpc'
      | evict | request | takeResults =>
        obtain rfl := Option.some.inj h
        cases ho.symm.trans hpc'
    · simp [State.go, ho] at hgo
    · simp [State.recv, ho] at hrecv
  · refine .inr ⟨hpc, ?_⟩
    rintro msg rfl
    by_contra hans
    have hans : msg.answers request = true := by simpa using hans
    have hs : s.resume cfg .hello msg = s' := by
      simpa [step, State.recv, hpc, hans] using h
    subst hs
    unfold State.resume at hpc'
    cases hack : State.helloAck msg with
    | none => simp [hack, State.disconnect, GamePath.disconnect] at hpc'
    | some ack => simp [hack, GamePath.handshake] at hpc'

/-- **In every run** nothing was offered while a connection's Hello is unanswered.

**Proof sketch.** A run's invariant: a connection forgets the offer, and while its Hello is
unanswered no message sets one. -/
theorem watch_unoffered {cfg : Config} {w : Watch} (h : (watch cfg).Reachable w) :
    ∀ request, w.state.path.pc = .exchange request .hello → w.offer = none := by
  refine h.invariant (I := fun w => ∀ request, w.state.path.pc = .exchange request .hello →
    w.offer = none) ?_ ?_
  · rintro w ⟨d, rfl⟩ request _
    rfl
  · intro w a w' hI _ hs request hpc'
    obtain ⟨s', ht, rfl⟩ := Option.map_eq_some_iff.mp hs
    rcases kept_hello ht hpc' with ⟨token, rfl⟩ | ⟨hpc, hans⟩
    · rfl
    · have hoffer : w.nextOffer a = none ∨ w.nextOffer a = w.offer := by
        unfold Watch.nextOffer
        cases a with
        | recv msg => simp [hpc, hans msg rfl]
        | connect => exact .inl rfl
        | _ => exact .inr rfl
      exact hoffer.elim id fun hsame => hsame.trans (hI request hpc)

/-! ## What a read-back is served by -/

/-- A read-back's type is served when its capability was negotiated.

**Proof sketch.** Each of the types has its own capability, and its handler is given exactly when
that is allowed. -/
theorem handler_readBack {cfg : Config} {status : Bool} {l : Link} {type : UInt16}
    {capability : UInt32} (h : readBackCapability type = some capability) :
    handler cfg status l type ≠ .unsupported ↔ l.readBackAllowed cfg capability = true := by
  have hwhen : ∀ (served : Handler) (b : Bool), served ≠ .unsupported →
      (served.when b ≠ .unsupported ↔ b = true) := by
    intro served b hserved
    cases b <;> simp [Handler.when, hserved]
  unfold readBackCapability at h
  split at h
  · rename_i htype
    obtain rfl := Option.some.inj h
    subst htype
    exact hwhen .topScores _ (by decide)
  · split at h
    · rename_i htype
      obtain rfl := Option.some.inj h
      subst htype
      exact hwhen .players _ (by decide)
    · split at h
      · rename_i htype
        obtain rfl := Option.some.inj h
        subst htype
        exact hwhen .playerPicture _ (by decide)
      · cases h

/-- What a type is answered by depends on its own capability only. -/
theorem handler_congr {cfg : Config} {status : Bool} {l l' : Link} {type : UInt16}
    (h : ∀ capability, readBackCapability type = some capability →
      l.readBackAllowed cfg capability = l'.readBackAllowed cfg capability) :
    handler cfg status l type = handler cfg status l' type := by
  by_cases hscores : type = Wire.typeTopScores
  · subst hscores
    exact congrArg Handler.topScores.when (h _ rfl)
  · by_cases hplayers : type = Wire.typePlayers
    · subst hplayers
      exact congrArg Handler.players.when (h _ rfl)
    · by_cases hpicture : type = Wire.typePlayerPicture
      · subst hpicture
        exact congrArg Handler.playerPicture.when (h _ rfl)
      · simp only [handler, if_neg hscores, if_neg hplayers, if_neg hpicture]

/-- Leaderboards answer when their capability was negotiated, and no other does. -/
theorem dispatch_congr {cfg : Config} {s s' : State} {msg : Wire.Message}
    (hscores : s'.scores = s.scores)
    (h : ∀ capability, readBackCapability msg.header.type = some capability →
      s'.path.link.readBackAllowed cfg capability = s.path.link.readBackAllowed cfg capability) :
    s'.dispatch cfg msg = s.dispatch cfg msg := by
  unfold State.dispatch
  rw [hscores]
  by_cases htype : msg.header.type = Wire.typeTopScores
  · rw [h Wire.capLeaderboards (by rw [htype]; rfl)]
  · simp only [htype, false_and, if_false]

/-- What is served was negotiated at minor 2 or more, pictures with the players.

**Proof sketch.** Both branches ask for the minor and the capability; the first check refuses the
pictures where the players were not offered. -/
theorem offered_of_readBackAllowed {cfg : Config} {l : Link} {capability : UInt32}
    (h : l.readBackAllowed cfg capability = true) :
    l.peerMinor ≥ 2 ∧ l.peerCapabilities &&& capability ≠ 0 ∧
      (capability = Wire.capPlayerPictures → l.peerCapabilities &&& Wire.capPlayers ≠ 0) := by
  simp only [Link.readBackAllowed] at h
  split at h
  · cases h
  · rename_i hplayers
    simp only [Bool.and_eq_true, decide_eq_true_eq, bne_iff_ne] at h
    obtain ⟨⟨hminor, -⟩, hpeer⟩ := h
    refine ⟨hminor, hpeer, ?_⟩
    rintro rfl
    -- pictures are refused before they are asked about when the players were not offered
    have hoffered : l.peerMinor ≥ 2 && cfg.ownCapabilities &&& Wire.capPlayers != 0
        && l.peerCapabilities &&& Wire.capPlayers != 0 := by
      simpa using hplayers
    simp only [Bool.and_eq_true, bne_iff_ne] at hoffered
    exact hoffered.2

/-- Nothing is served to a peer of an older minor. -/
theorem readBackAllowed_of_lt {cfg : Config} {l : Link} (h : l.peerMinor < 2)
    (capability : UInt32) : l.readBackAllowed cfg capability = false := by
  have hminor : ¬ l.peerMinor ≥ 2 := UInt16.not_le.mpr h
  simp [Link.readBackAllowed, hminor]

/-! ## What an earlier connection negotiated -/

section Forget

variable {cfg : Config} {s : State} {a : Act}

/-- Past a connection's Hello there is nothing to forget. -/
theorem forget_of_past (h : s.path.pc.past = true) : s.forget = s := if_pos h

/-- What was negotiated is not where the worker stands. -/
@[simp] theorem forget_pc (s : State) : s.forget.path.pc = s.path.pc := by
  unfold State.forget
  split <;> rfl

/-- Nor is it what was declared. -/
theorem forget_declared (s : State) : s.forget.path.link.declared = s.path.link.declared ∧
    s.forget.path.link.haveDeclared = s.path.link.haveDeclared := by
  unfold State.forget
  split <;> exact ⟨rfl, rfl⟩

/-- Before that the worker is offline or awaits its Hello's answer. -/
theorem of_not_past (h : s.path.pc.past = false) :
    s.path.pc = .offline ∨ ∃ request, s.path.pc = .exchange request .hello := by
  unfold Pc.past at h
  split at h
  · rename_i hpc
    exact .inl hpc
  · rename_i request hpc
    exact .inr ⟨request, hpc⟩
  · cases h

/-- The read-backs that arrive in a step were not negotiated before. -/
def State.Unserved (cfg : Config) (s : State) (a : Act) : Prop :=
  ∀ msg capability, a = .recv msg → s.dispatches msg = true →
    readBackCapability msg.header.type = some capability →
    s.path.link.readBackAllowed cfg capability = false

/-- A message that arrives while the connection's Hello is unanswered. -/
theorem recv_hello {request : Wire.Message} (hpc : s.path.pc = .exchange request .hello)
    (msg : Wire.Message) : s.recv cfg msg = some (
      if msg.answers request then s.resume cfg .hello msg
      else if msg.header.isResponse then s
      else s.dispatched cfg msg (.exchange request .hello)) := by
  simp only [State.recv, hpc]
  split
  · rfl
  · split <;> rfl

/-- Until then what was negotiated is an earlier connection's. -/
theorem forget_of_hello {request : Wire.Message} (hpc : s.path.pc = .exchange request .hello) :
    s.forget = { s with path := { s.path with
      link := { s.path.link with peerMinor := 0, peerCapabilities := 0 } } } := by
  simp [State.forget, hpc, Pc.past]

/-- A message that was not negotiated before is answered as if nothing had been.

**Proof sketch.** The Hello's answer sets what was negotiated, so it is the same after it. Another
message is dispatched by its type, and its handler is one that no negotiation gates (`hunserved`).
-/
theorem forget_recv {request msg : Wire.Message} (hpc : s.path.pc = .exchange request .hello)
    (hunserved : s.Unserved cfg (.recv msg)) :
    (s.forget.recv cfg msg).map State.forget = (s.recv cfg msg).map State.forget := by
  have hforget : s.forget.path.pc = .exchange request .hello := (forget_pc s).trans hpc
  rw [recv_hello hpc, recv_hello hforget, Option.map_some, Option.map_some]
  split
  · rw [forget_of_hello hpc]
    unfold State.resume
    cases State.helloAck msg with
    | none => rfl
    | some ack => rfl
  · rename_i hans
    split
    · simp [State.forget, hpc, Pc.past]
    · rename_i hresponse
      have hdispatch : s.forget.dispatch cfg msg = s.dispatch cfg msg := by
        rw [forget_of_hello hpc]
        refine dispatch_congr rfl fun capability hcapability => ?_
        have harrives : s.dispatches msg = true := by
          simp [State.dispatches, hpc, hans, hresponse]
        rw [hunserved msg capability rfl harrives hcapability]
        exact readBackAllowed_of_lt (show (0 : UInt16) < 2 by decide) capability
      unfold State.dispatched
      rw [hdispatch, forget_of_hello hpc]
      cases s.dispatch cfg msg with
      | none => rfl
      | some scores => rfl

/-- The worker goes on as if nothing had been negotiated before.

**Proof sketch.** By the step. Only a message is looked at for what was negotiated (`forget_recv`);
before the Hello is answered every other step reads nothing of it. -/
theorem forget_step (hpast : s.path.pc.past = false) (hunserved : s.Unserved cfg a) :
    (step cfg s.forget a).map State.forget = (step cfg s a).map State.forget := by
  have hpc := of_not_past hpast
  cases a with
  | recv msg =>
    rcases hpc with ho | ⟨request, hpc⟩
    · simp [step, State.recv, ho]
    · exact forget_recv hpc hunserved
  | post d =>
    clear hpast hunserved
    obtain ⟨⟨source, link, games, pc, log⟩, scores⟩ := s
    simp only [step, apply_ite (Option.map State.forget)]
    rcases hpc with rfl | ⟨request, rfl⟩ <;> rfl
  | commit batch =>
    clear hpast hunserved
    obtain ⟨⟨source, link, games, pc, log⟩, scores⟩ := s
    simp only [step, apply_dite (Option.map State.forget)]
    rcases hpc with rfl | ⟨request, rfl⟩ <;> rfl
  | evict | request | takeResults | go | ping | cut =>
    clear hpast hunserved
    obtain ⟨⟨source, link, games, pc, log⟩, scores⟩ := s
    rcases hpc with rfl | ⟨request, rfl⟩ <;> rfl
  | connect token =>
    clear hpast hunserved
    obtain ⟨⟨source, link, games, pc, log⟩, scores⟩ := s
    rcases hpc with rfl | ⟨request, rfl⟩
    · cases token <;> rfl
    · rfl

/-- The players go on as if nothing had been negotiated before.

**Proof sketch.** What is received is dispatched alike, as its type was not negotiated; nothing is
declared in either state, so neither switches the table. -/
theorem forget_players (hpast : s.path.pc.past = false) (hunserved : s.Unserved cfg a)
    (b : PlayerBook) (files : PictureFiles) (s' : State) :
    b.next cfg s.forget a files s' = b.next cfg s a files s' := by
  obtain ⟨hdeclared, hhave⟩ := forget_declared s
  have hreceived : b.received cfg s.forget a files = b.received cfg s a files := by
    cases a with
    | recv msg =>
      have harrives : s.forget.dispatches msg = s.dispatches msg := by
        simp only [State.dispatches, forget_pc]
      unfold PlayerBook.received
      dsimp only
      rw [harrives]
      cases hdispatches : s.dispatches msg with
      | false => rfl
      | true =>
        have hhandler : handler cfg true s.forget.path.link msg.header.type =
            handler cfg true s.path.link msg.header.type := by
          refine handler_congr fun capability hcapability => ?_
          rw [hunserved msg capability rfl hdispatches hcapability]
          rcases of_not_past hpast with ho | ⟨request, hpc⟩
          · simp [State.dispatches, ho] at hdispatches
          · rw [forget_of_hello hpc]
            exact readBackAllowed_of_lt (show (0 : UInt16) < 2 by decide) capability
        rw [if_pos rfl, if_pos rfl]
        unfold PlayerBook.dispatch
        rw [hhandler, hdeclared]
    | _ => rfl
  have hswitches : PlayerBook.switches s.forget a = PlayerBook.switches s a := by
    unfold PlayerBook.switches
    cases a with
    | recv msg => simp only [forget_pc, Link.newTable, hdeclared, hhave]
    | _ => rfl
  unfold PlayerBook.next
  rw [hreceived, hswitches]

end Forget

/-! ## Main result -/

/-- **Only negotiated read-backs are served**, and nothing else negotiated on an earlier connection
has an effect, in every step of every run but where one arrives early.

**Proof sketch.** Past its Hello a connection is served by what its own HelloAck offered. Before
that the record holds no offer, so a read-back that is served then was offered to an earlier
connection; where none is, the step is the one of a worker that never negotiated anything. -/
theorem only_negotiated {cfg : Config} {w : Watch} (h : (watch cfg).Reachable w) (status : Bool)
    (a : Act) : w.OnlyNegotiated cfg status a ↔ ¬ w.ServedEarly cfg a := by
  constructor
  · rintro honly ⟨request, msg, capability, hpc, rfl, hdispatches, hcapability, hallowed⟩
    have hserved : handler cfg status w.state.path.link msg.header.type ≠ .unsupported :=
      (handler_readBack hcapability).mpr hallowed
    obtain ⟨ack, hack, -⟩ := honly.served msg capability rfl hdispatches hcapability hserved
    rw [watch_unoffered h request hpc] at hack
    cases hack
  · intro hearly
    cases hpast : w.state.path.pc.past with
    | true =>
      have hforget : w.state.forget = w.state := forget_of_past hpast
      refine ⟨?_, by rw [hforget], fun b files s' => by rw [hforget]⟩
      intro msg capability _ _ hcapability hserved
      obtain ⟨ack, hack, hminor, hcaps⟩ := watch_offered h hpast
      obtain ⟨htwo, hoffered, hpictures⟩ :=
        offered_of_readBackAllowed ((handler_readBack hcapability).mp hserved)
      rw [hminor] at htwo
      rw [hcaps] at hoffered hpictures
      exact ⟨ack, hack, htwo, hoffered, hpictures⟩
    | false =>
      have hunserved : w.state.Unserved cfg a := by
        intro msg capability ha hdispatches hcapability
        rcases of_not_past hpast with ho | ⟨request, hpc⟩
        · simp [State.dispatches, ho] at hdispatches
        · by_contra hallowed
          have hallowed := Bool.eq_true_of_not_eq_false hallowed
          exact hearly ⟨request, msg, capability, hpc, ha, hdispatches, hcapability, hallowed⟩
      refine ⟨?_, forget_step hpast hunserved, forget_players hpast hunserved⟩
      intro msg capability ha hdispatches hcapability hserved
      have hallowed := (handler_readBack hcapability).mp hserved
      rw [hunserved msg capability ha hdispatches hcapability] at hallowed
      cases hallowed

/-- A player's claim on the first slot. -/
def claimOf (player : Bytes) : Wire.Players := { slots := [{ player := 1, playerId := player }] }

/-- A daemon's Players. -/
def playersOf (players : Wire.Players) : Act :=
  .recv { header := { type := Wire.typePlayers, seq := 1 }, payload := players.encode }

/-- The capabilities of a daemon that sends players. -/
def playersCaps : UInt32 := Wire.capAuthoredTables ||| Wire.capPlayers

/-- Players arrive while the first Declare of a connection that negotiated them is unanswered. -/
def declaringRun : List Act :=
  [.connect (some []), helloAckOf 2 playersCaps, .go, .go, .go]

/-- They are served. -/
theorem only_negotiated_declaringRun : ∃ w, Runs.runOf (watchStep {})
      { state := start (tableOf 1 0) } declaringRun = some w ∧
    handler {} true w.state.path.link Wire.typePlayers = .players ∧
    w.OnlyNegotiated {} true (playersOf (claimOf [7])) := by
  have hrun : (Runs.runOf (watchStep {}) { state := start (tableOf 1 0) } declaringRun).any
      (fun w => decide (w.state.path.pc.past = true ∧
        handler {} true w.state.path.link Wire.typePlayers = .players)) = true := by
    decide +kernel
  obtain ⟨w, hw, hw'⟩ := (Option.any_eq_true _ _).mp hrun
  obtain ⟨hpast, hhandler⟩ := of_decide_eq_true hw'
  have hreach : (watch {}).Reachable w := Runs.reachable_of_runOf ⟨tableOf 1 0, rfl⟩ hw
  refine ⟨w, hw, hhandler, (only_negotiated hreach true _).mpr ?_⟩
  rintro ⟨request, msg, capability, hpc, -⟩
  simp [hpc, Pc.past] at hpast

/-- A connection negotiates players and is cut; the next one's Hello is unanswered. -/
def reconnectRun : List Act :=
  [.connect (some []), helloAckOf 2 playersCaps, .cut, .connect (some [])]

/-- The next connection's daemon sends Players before its HelloAck: they are served, and take a slot
of the worker's table. -/
theorem not_only_negotiated : ∃ w, (watch {}).Reachable w ∧ w.offer = none ∧
    handler {} true w.state.path.link Wire.typePlayers = .players ∧
    ((({} : PlayerBook).received {} w.state (playersOf (claimOf [7])) {}).table.views 0).playerId
      = [7] ∧
    ¬ w.OnlyNegotiated {} true (playersOf (claimOf [7])) := by
  have hrun : (Runs.runOf (watchStep {}) { state := start (tableOf 1 0) } reconnectRun).any
      (fun w => decide (w.offer = none ∧
        handler {} true w.state.path.link Wire.typePlayers = .players ∧
        ((({} : PlayerBook).received {} w.state (playersOf (claimOf [7])) {}).table.views
          0).playerId = [7] ∧
        w.state.dispatches { header := { type := Wire.typePlayers, seq := 1 }
                             payload := (claimOf [7]).encode } = true)) = true := by
    decide +kernel
  obtain ⟨w, hw, hw'⟩ := (Option.any_eq_true _ _).mp hrun
  obtain ⟨hoffer, hhandler, hview, hdispatches⟩ := of_decide_eq_true hw'
  have hreach : (watch {}).Reachable w := Runs.reachable_of_runOf ⟨tableOf 1 0, rfl⟩ hw
  refine ⟨w, hreach, hoffer, hhandler, hview, fun honly => ?_⟩
  obtain ⟨ack, hack, -⟩ := honly.served _ Wire.capPlayers rfl hdispatches rfl
    (hhandler.trans_ne (by decide))
  cases hoffer.symm.trans hack

end Worker
