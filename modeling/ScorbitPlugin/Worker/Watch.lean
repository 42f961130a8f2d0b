import ScorbitPlugin.Worker.Flow

set_option relaxedAutoImplicit false
set_option autoImplicit false

/-!
# What a session negotiated and declared

The worker with a record beside it of what was said on its connections: the HelloAck accepted on the
one under way, the Declares that went out as they were sent, and the batches the session owes the
daemon. No function of the worker reads the record; it is what its claims are stated with.

## Main definitions

* `Worker.Watch` — the worker and the record.
* `Worker.watch` — the worker's steps, recorded.
* `Worker.Watch.Offered`, `Worker.GamePath.Recorded` — what the record says of the worker.

## Main results

* `Worker.watch_offered`, `Worker.watch_recorded` — it holds in every state of every run.
-/

namespace Worker

open Codec

/-- The worker with the record of its connections. -/
structure Watch where
  state : State
  /-- The HelloAck accepted on the connection under way. -/
  offer : Option Wire.HelloAck := none
  /-- The declarations whose Declare went out, newest first, with the Declare as it was sent. -/
  out : List (DeclareSnapshot × Wire.Declare) := []
  /-- The batches to be sent before another table's Declare may go out. -/
  owed : List GamePost := []

/-- The declaration whose Declare goes out in a step. -/
def GamePath.goesOut {Ask : Type} (p p' : GamePath Ask) : Option DeclareSnapshot :=
  match p.pc, p'.pc with
  | .declare, .exchange _ (.declare now) => some now
  | _, _ => none

/-- The Declares that went out, after a step. -/
def GamePath.nextOut {Ask : Type} (p p' : GamePath Ask)
    (out : List (DeclareSnapshot × Wire.Declare)) : List (DeclareSnapshot × Wire.Declare) :=
  match p.goesOut p' with
  | some now => (now, p.link.asSent now.declare) :: out
  | none => out

/-- The HelloAck accepted on the connection under way, after a step. -/
def Watch.nextOffer (w : Watch) : Act → Option Wire.HelloAck
  | .connect _ => none
  | .recv msg =>
    match w.state.path.pc with
    | .exchange request .hello =>
      if msg.answers request then State.helloAck msg else w.offer
    | _ => w.offer
  | _ => w.offer

/-- A batch committed now is owed: the Declare last acknowledged on the connection is the source's
current one, with no other on its way out, and its table is served as an authored one. -/
def State.owes (s : State) : Bool :=
  decide (s.path.pc ≠ .offline ∧ s.path.link.haveDeclared = true
    ∧ s.path.link.current = s.path.link.declared
    ∧ s.path.link.declared = s.path.source.inForce
    ∧ s.path.link.serves s.path.link.declared = true)

/-- What is owed after a step: nothing once the connection has ended, no batch whose epoch was
declared once more and otherwise, and none that a bounded source dropped. -/
def Watch.nextOwed (w : Watch) (a : Act) (s' : State) : List GamePost :=
  if s'.path.pc = .offline then []
  else
    match a with
    | .post d => w.owed.filter fun q => q.epoch ≠ d.epoch ∨ d = w.state.path.link.declared
    | .commit _ =>
      if w.state.owes then
        w.owed ++ s'.path.log.committed.drop w.state.path.log.committed.length
      else w.owed
    | .evict i => w.owed.filter fun q => w.state.path.source.queue[i]? ≠ some q
    | _ => w.owed

/-- The record after a step. -/
def Watch.next (w : Watch) (a : Act) (s' : State) : Watch where
  state := s'
  offer := w.nextOffer a
  out := w.state.path.nextOut s'.path w.out
  owed := w.nextOwed a s'

/-- One step, recorded. -/
def watchStep (cfg : Config) (w : Watch) (a : Act) : Option Watch :=
  (step cfg w.state a).map (w.next a)

/-- The worker's steps, recorded. -/
def watch (cfg : Config) : Runs.System Watch Act :=
  .ofStep (fun w => ∃ d, w = { state := start d }) (watchStep cfg)

/-- A recorded run is a run. -/
theorem watch_simulation (cfg : Config) : Runs.Simulation (watch cfg) (system cfg)
    (fun _ _ => True) (fun _ _ => True) Watch.state where
  init := by
    rintro w ⟨d, rfl⟩
    exact ⟨d, rfl⟩
  step := by
    intro w a w' _ hs
    obtain ⟨t, ht, rfl⟩ := Option.map_eq_some_iff.mp hs
    exact ⟨a, trivial, ht⟩

/-- What puts the worker somewhere else: the end of a connection, its Hello, an idle ping, the
worker itself, or a message.

**Proof sketch.** By the step. The script's and the API thread's leave the worker where it is; the
end of a connection takes it offline, and the rest are what is listed. -/
theorem step_pc {cfg : Config} {s s' : State} {a : Act} (h : step cfg s a = some s')
    (hne : s'.path.pc ≠ s.path.pc) : s'.path.pc = .offline ∨
      (∃ request k, s'.path.pc = .exchange request k ∧ (k = .hello ∨ k = .ping)) ∨
      s.go cfg = some s' ∨ ∃ msg, a = .recv msg ∧ s.recv cfg msg = some s' := by
  cases a with
  | post d =>
    obtain ⟨-, h⟩ := Option.ite_none_right_eq_some.mp h
    obtain rfl := Option.some.inj h
    exact absurd rfl hne
  | commit batch =>
    obtain ⟨hb, h⟩ := Option.dite_none_right_eq_some.mp h
    obtain rfl := Option.some.inj h
    exact absurd rfl hne
  | evict | request | takeResults =>
    obtain rfl := Option.some.inj h
    exact absurd rfl hne
  | connect token =>
    obtain ⟨-, h⟩ := Option.ite_none_right_eq_some.mp h
    cases token with
    | none =>
      obtain rfl := Option.some.inj h
      exact .inl rfl
    | some token =>
      obtain rfl := Option.some.inj h
      exact .inr (.inl ⟨_, .hello, rfl, .inl rfl⟩)
  | ping =>
    obtain ⟨-, h⟩ := Option.ite_none_right_eq_some.mp h
    obtain rfl := Option.some.inj h
    exact .inr (.inl ⟨_, .ping, rfl, .inr rfl⟩)
  | cut =>
    obtain ⟨-, h⟩ := Option.ite_none_right_eq_some.mp h
    obtain rfl := Option.some.inj h
    exact .inl rfl
  | go => exact .inr (.inr (.inl h))
  | recv msg => exact .inr (.inr (.inr ⟨msg, rfl, h⟩))

/-! ## The HelloAck -/

/-- The worker is past a connection's Hello. -/
def Pc.past {Ask : Type} : Pc Ask → Bool
  | .offline | .exchange _ .hello => false
  | _ => true

/-- The connection under way is served by what its own HelloAck offered. -/
def Watch.Offered (w : Watch) : Prop :=
  w.state.path.pc.past = true → ∃ ack, w.offer = some ack ∧
    w.state.path.link.peerMinor = ack.protoMinor ∧
    w.state.path.link.peerCapabilities = ack.capabilities

/-- Only a handshake changes what was negotiated, and only it leaves a connection's Hello behind. -/
theorem GamePath.Moves.peer {Ask : Type} {p p' : GamePath Ask} {m : Move} (hm : p.Moves m p') :
    (∃ request, p.pc = .exchange request .hello ∧ p'.pc = .serve) ∨
      (p'.link.peerMinor = p.link.peerMinor ∧
        p'.link.peerCapabilities = p.link.peerCapabilities ∧
        (p'.pc.past = true → p.pc.past = true)) := by
  cases hm with
  | handshake ack request hpc => exact .inl ⟨request, hpc, rfl⟩
  | posted | committed | evicted => exact .inr ⟨rfl, rfl, id⟩
  | connected | failed | ended => exact .inr ⟨rfl, rfl, fun h => by cases h⟩
  | redeclared pc hpc | took flush hpc | left flush pc hpc | leftUnserved flush pc hpc
  | dropped flush front rest hpc | droppedUnserved flush front rest hpc
  | sent flush front rest hpc | acked flush request front rest hpc
  | refused flush request front rest hpc | declaring payload hpc | declared now request hpc =>
    exact .inr ⟨rfl, rfl, fun _ => by rw [hpc]; rfl⟩
  | moved seq pc hpc =>
    refine .inr ⟨rfl, rfl, fun h => ?_⟩
    rcases hpc with rfl | ⟨hp, -⟩
    · exact h
    · unfold Pc.past
      split <;> simp_all [Pc.quiet]

/-- A step from a connection's Hello to `Serve` is the handshake with the HelloAck received.

**Proof sketch.** The step is no end of the connection and nothing the worker does by itself, so it
is a message; and that answers the Hello with a HelloAck, or the worker would not be at `Serve`. -/
theorem of_hello {cfg : Config} {s s' : State} {a : Act} {request : Wire.Message}
    (h : step cfg s a = some s') (hpc : s.path.pc = .exchange request .hello)
    (hpc' : s'.path.pc = .serve) : ∃ msg ack, a = .recv msg ∧ msg.answers request = true ∧
      State.helloAck msg = some ack ∧ s'.path = s.path.handshake ack := by
  rcases step_pc h (by simp [hpc, hpc']) with ho | ⟨_, _, ho, -⟩ | hgo | ⟨msg, rfl, hrecv⟩
  · cases hpc'.symm.trans ho
  · cases hpc'.symm.trans ho
  · simp [State.go, hpc] at hgo
  · unfold State.recv at hrecv
    simp only [hpc] at hrecv
    split at hrecv
    · rename_i hans
      obtain rfl := Option.some.inj hrecv
      unfold State.resume at hpc' ⊢
      cases hack : State.helloAck msg with
      | none => simp [hack, State.disconnect, GamePath.disconnect] at hpc'
      | some ack => exact ⟨msg, ack, rfl, hans, hack, rfl⟩
    · split at hrecv
      · obtain rfl := Option.some.inj hrecv
        cases hpc.symm.trans hpc'
      · obtain rfl := Option.some.inj hrecv
        unfold State.dispatched at hpc'
        split at hpc' <;> cases hpc'

/-- Past a connection's Hello the record keeps the HelloAck. -/
theorem Watch.nextOffer_of_past {cfg : Config} {w : Watch} {a : Act} {s' : State}
    (hp : w.state.path.pc.past = true) (hs : step cfg w.state a = some s') :
    w.nextOffer a = w.offer := by
  unfold Watch.nextOffer
  split
  · obtain ⟨ho, -⟩ := Option.ite_none_right_eq_some.mp hs
    simp [ho, Pc.past] at hp
  · split
    · rename_i hpc
      simp [hpc, Pc.past] at hp
    · rfl
  · rfl

/-- Every step keeps a connection served by what its own HelloAck offered. -/
theorem Watch.Offered.next {cfg : Config} {w : Watch} {a : Act} {s' : State} (h : w.Offered)
    (hs : step cfg w.state a = some s') : (w.next a s').Offered := by
  intro hpast
  obtain ⟨m, hm⟩ := step_moves hs
  rcases hm.peer with ⟨request, hpc, hpc'⟩ | ⟨hminor, hcaps, hp⟩
  · obtain ⟨msg, ack, rfl, hans, hack, hpath⟩ := of_hello hs hpc hpc'
    refine ⟨ack, ?_, ?_, ?_⟩
    · simp [Watch.next, Watch.nextOffer, hpc, hans, hack]
    · simp [Watch.next, hpath, GamePath.handshake]
    · simp [Watch.next, hpath, GamePath.handshake]
  · have hw := hp hpast
    obtain ⟨ack, hack, hm, hc⟩ := h hw
    exact ⟨ack, (w.nextOffer_of_past hw hs).trans hack, hminor.trans hm, hcaps.trans hc⟩

/-- **In every run** the connection under way is served by what its own HelloAck offered. -/
theorem watch_offered {cfg : Config} {w : Watch} (h : (watch cfg).Reachable w) : w.Offered := by
  refine h.invariant (I := Watch.Offered) ?_ ?_
  · rintro w ⟨d, rfl⟩
    exact fun hp => by cases hp
  · intro w a w' hI _ hs
    obtain ⟨s', ht, rfl⟩ := Option.map_eq_some_iff.mp hs
    exact hI.next ht

/-! ## The Declares -/

namespace GamePath

variable {Ask : Type} {p p' : GamePath Ask} {m : Move}
  {out : List (DeclareSnapshot × Wire.Declare)}

/-- A Declare goes out in one move only, and then its exchange is under way.

**Proof sketch.** By the kind of the move. All but `declaring` come to an exchange of another kind,
to none, or stay. -/
theorem Moves.goesOut (hm : p.Moves m p') :
    (p.pc = .declare ∧
      ∃ payload, p' = p.send Wire.typeDeclare payload (.declare p.link.current)) ∨
    (p.goesOut p' = none ∧ ∀ request now, p'.pc = .exchange request (.declare now) →
      p.pc = .exchange request (.declare now)) := by
  cases hm with
  | declaring payload hpc => exact .inl ⟨hpc, payload, rfl⟩
  | posted | committed | evicted =>
    refine .inr ⟨?_, fun _ _ h => h⟩
    unfold GamePath.goesOut
    split
    · rename_i hpc hpc'
      cases hpc.symm.trans hpc'
    · rfl
  | connected payload hpc | failed hpc | handshake ack request hpc | took flush hpc
  | dropped flush front rest hpc | droppedUnserved flush front rest hpc | sent flush front rest hpc
  | acked flush request front rest hpc | refused flush request front rest hpc =>
    refine .inr ⟨by simp [GamePath.goesOut, hpc], ?_⟩
    simp [GamePath.send, disconnect, GamePath.handshake, takeGames, dropFront, takeDeclare,
      sendFront, gameAcked, gameRefused, hpc]
  | ended => exact .inr ⟨by simp [GamePath.goesOut, disconnect], by simp [disconnect]⟩
  | declared now request hpc =>
    refine .inr ⟨by simp [GamePath.goesOut, hpc], fun _ _ h => ?_⟩
    simp only [declareAcked] at h
    split at h <;> cases h
  | redeclared pc hpc hq | left flush pc hpc hq | leftUnserved flush pc hpc hq =>
    exact .inr ⟨by simp [GamePath.goesOut, hpc], fun _ _ h => absurd h (Pc.quiet_ne_declare hq)⟩
  | moved seq pc hpc =>
    rcases hpc with rfl | ⟨-, hq⟩
    · refine .inr ⟨?_, fun _ _ h => h⟩
      unfold GamePath.goesOut
      split
      · rename_i hpc hpc'
        cases hpc.symm.trans hpc'
      · rfl
    · refine .inr ⟨?_, fun _ _ h => absurd h (Pc.quiet_ne_declare hq)⟩
      unfold GamePath.goesOut
      split
      · rename_i hpc'
        exact absurd hpc' (Pc.quiet_ne_declare hq)
      · rfl

/-- The Declares that went out, as the worker knows them: the last one is under way or is the
declared one, and their epochs never decrease. -/
structure Recorded (p : GamePath Ask) (out : List (DeclareSnapshot × Wire.Declare)) : Prop where
  declaring : ∀ request now, p.pc = .exchange request (.declare now) →
    out.head? = some (now, p.link.asSent now.declare)
  declared : p.link.haveDeclared = true → p.pc ≠ .offline →
    (∀ request now, p.pc ≠ .exchange request (.declare now)) →
    out.head? = some (p.link.declared, p.link.asSent p.link.declared.declare)
  ordered : out.Pairwise fun later earlier => earlier.1.epoch ≤ later.1.epoch
  bound : ∀ d ∈ out, d.1.epoch ≤ p.link.current.epoch

/-- The declaration last taken is never an older one. -/
theorem Moves.current_upTo (hl : p.Linked) (hm : p.Moves m p') :
    p.link.current.upTo p'.link.current := by
  cases hm with
  | connected | redeclared | leftUnserved | droppedUnserved => exact hl.takeDeclare_upTo.1
  | posted | committed | evicted | failed | ended | handshake | took | left | dropped | sent | acked
  | refused | declaring | declared | moved => exact .refl _

/-- Only an acknowledgement changes the declared table of a connection.

**Proof sketch.** By the kind of the move. A connection's end or start declares nothing, and before
the Hello is answered nothing is declared; the rest keep the declared table. -/
theorem Moves.declared_eq (hl : p.Linked) (hm : p.Moves m p') :
    (∃ request now, p.pc = .exchange request (.declare now) ∧ p' = p.declareAcked now) ∨
    (p'.link.haveDeclared = true → p'.pc ≠ .offline →
      p.link.haveDeclared = true ∧ p'.link.declared = p.link.declared ∧ p.pc ≠ .offline ∧
        (∀ request, p.pc ≠ .exchange request .hello) ∧
        ∀ request now, p.pc = .exchange request (.declare now) → p'.pc = p.pc) := by
  have hhello : p.link.haveDeclared = true → ∀ request, p.pc ≠ .exchange request .hello := by
    intro hd request hpc
    rw [hl.hello request hpc] at hd
    cases hd
  cases hm with
  | declared now request hpc => exact .inl ⟨request, now, hpc, rfl⟩
  | posted | committed | evicted =>
    exact .inr fun hd ho => ⟨hd, rfl, ho, hhello hd, fun _ _ _ => rfl⟩
  | connected | failed => exact .inr fun hd => by cases hd
  | ended => exact .inr fun _ ho => absurd rfl ho
  | handshake ack request hpc => exact .inr fun hd => absurd hpc (hhello hd request)
  | redeclared pc hpc | took flush hpc | left flush pc hpc | leftUnserved flush pc hpc
  | dropped flush front rest hpc | droppedUnserved flush front rest hpc
  | sent flush front rest hpc | acked flush request front rest hpc
  | refused flush request front rest hpc | declaring payload hpc =>
    exact .inr fun hd _ => ⟨hd, rfl, by simp [hpc], hhello hd, by simp [hpc]⟩
  | moved seq pc hpc =>
    rcases hpc with rfl | ⟨hp, -⟩
    · exact .inr fun hd ho => ⟨hd, rfl, ho, hhello hd, fun _ _ _ => rfl⟩
    · refine .inr fun hd _ =>
        ⟨hd, rfl, ?_, hhello hd, fun _ _ h => absurd h (Pc.quiet_ne_declare hp)⟩
      intro ho
      simp [ho, Pc.quiet] at hp

/-- A Declare goes out in one form as long as the connection is served by one daemon. -/
theorem asSent_congr {l l' : Link} (hm : l'.peerMinor = l.peerMinor)
    (hc : l'.peerCapabilities = l.peerCapabilities) (d : Wire.Declare) :
    l'.asSent d = l.asSent d := by
  simp [Link.asSent, Link.authoredAllowed, hm, hc]

/-- Every move keeps the record of the Declares.

**Proof sketch.** By `Moves.goesOut`. A Declare that goes out is put in front, of the current table,
which is no older than those before. Otherwise the record stays, and an exchange under way was under
way. -/
theorem Recorded.moves (h : p.Recorded out) (hl : p.Linked) (hm : p.Moves m p') :
    p'.Recorded (p.nextOut p' out) := by
  rcases hm.goesOut with ⟨hpc, payload, rfl⟩ | ⟨hnone, hkeep⟩
  · have hout : p.nextOut (p.send Wire.typeDeclare payload (.declare p.link.current)) out =
        (p.link.current, p.link.asSent p.link.current.declare) :: out := by
      simp [nextOut, GamePath.goesOut, send, hpc]
    rw [hout]
    refine ⟨?_, ?_, List.pairwise_cons.mpr ⟨h.bound, h.ordered⟩, ?_⟩
    · intro request now heq
      obtain ⟨-, heq⟩ := Pc.exchange.inj heq
      rw [← Awaiting.declare.inj heq]
      rfl
    · exact fun _ _ hne => absurd rfl (hne _ _)
    · intro d hd
      rcases List.mem_cons.mp hd with rfl | hd
      · exact le_rfl
      · exact h.bound d hd
  · have hout : p.nextOut p' out = out := by simp [nextOut, hnone]
    rw [hout]
    have hsent (hne : ∀ request, p.pc ≠ .exchange request .hello) (d : Wire.Declare) :
        p'.link.asSent d = p.link.asSent d := by
      rcases hm.peer with ⟨request, hpc, -⟩ | ⟨hminor, hcaps, -⟩
      · exact absurd hpc (hne request)
      · exact asSent_congr hminor hcaps d
    refine ⟨?_, ?_, h.ordered, fun d hd => (h.bound d hd).trans (hm.current_upTo hl).1⟩
    · intro request now hpc'
      have hpc := hkeep request now hpc'
      rw [hsent (by simp [hpc])]
      exact h.declaring request now hpc
    · intro hd ho hne
      rcases hm.declared_eq hl with ⟨request, now, hpc, rfl⟩ | hkept
      · exact h.declaring request now hpc
      · obtain ⟨hd, heq, ho, hhello, hpc⟩ := hkept hd ho
        rw [hsent hhello, heq]
        refine h.declared hd ho fun request now hdecl => hne request now ?_
        exact (hpc request now hdecl).trans hdecl

end GamePath

/-- **In every run** the record knows the Declares that went out. -/
theorem watch_recorded {cfg : Config} {w : Watch} (h : (watch cfg).Reachable w) :
    w.state.path.Recorded w.out := by
  have hboth : w.state.path.Sorted ∧ w.state.path.Recorded w.out := by
    refine h.invariant (I := fun w => w.state.path.Sorted ∧ w.state.path.Recorded w.out) ?_ ?_
    · rintro w ⟨d, rfl⟩
      refine ⟨GamePath.sorted_init ⟨d, rfl⟩, by simp [start], ?_, .nil, by simp⟩
      exact fun hd => by cases hd
    · intro w a w' hI _ hs
      obtain ⟨s', ht, rfl⟩ := Option.map_eq_some_iff.mp hs
      obtain ⟨m, hm⟩ := step_moves ht
      exact ⟨hI.1.moves hm, hI.2.moves hI.1.linked hm⟩
  exact hboth.2

end Worker
