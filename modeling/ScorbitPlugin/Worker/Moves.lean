import ScorbitPlugin.Worker.Step

set_option relaxedAutoImplicit false
set_option autoImplicit false

/-!
# What a step does to the game path

The steps of the worker sorted by what they do to the batches: each is one move of the game path,
with what the code checked before it. Everything proved about a run's batches goes through these
moves, so the branches of the step function are gone through once, here.

## Main definitions

* `Worker.Move`, `Worker.GamePath.Moves` — the moves and what each does.
* `Worker.Makes` — the move a step of the worker makes.
* `Worker.Held` — a condition on the moves, as one on the worker's steps.

## Main results

* `Worker.step_moves` — every step is a move.
* `Worker.simulation` — every run of the worker is a run of moves.
-/

namespace Worker

open Codec

/-- The moves of the game path. -/
inductive Move
  | posted (d : DeclareSnapshot)
  | committed (batch : Wire.GameBatch)
  | evicted
  | connected
  /-- A connection that ended before its Hello. -/
  | failed
  | ended
  | handshake (ack : Wire.HelloAck)
  | redeclared
  | took
  | left
  /-- A batch of a table no longer declared. -/
  | dropped (front : GamePost)
  /-- A batch of the declared table, when it is not served as an authored one. -/
  | droppedUnserved (front : GamePost)
  | sent (front : GamePost)
  | acked (front : GamePost)
  | refused (front : GamePost)
  | declaring
  | declared (now : DeclareSnapshot)
  /-- The worker goes on, and the batches stay where they are. -/
  | moved

/-- Neither offline, nor in `SendGames`' loop, nor awaiting a reply the game path needs. -/
def Pc.quiet {Ask : Type} : Pc Ask → Bool
  | .offline | .sendGames _ => false
  | .exchange _ .hello | .exchange _ (.game _) | .exchange _ (.declare _) => false
  | _ => true

namespace GamePath

variable {Ask : Type}

/-- What each move does, and what the code checked before it. -/
inductive Moves (p : GamePath Ask) : Move → GamePath Ask → Prop
  | posted (d : DeclareSnapshot) (he : p.source.inForce.epoch ≤ d.epoch)
      (hi : p.source.inForce.identity ≤ d.identity) : Moves p (.posted d) (p.post d)
  | committed (batch : Wire.GameBatch) (h : committable batch.ops = true) :
      Moves p (.committed batch) (p.commit batch h)
  | evicted (i : ℕ) : Moves p .evicted (p.evict i)
  | connected (payload : Bytes) (hpc : p.pc = .offline) :
      Moves p .connected (p.connected.takeDeclare.send Wire.typeHello payload .hello)
  | failed (hpc : p.pc = .offline) : Moves p .failed p.connected.disconnect
  | ended (hpc : p.pc ≠ .offline) : Moves p .ended p.disconnect
  | handshake (ack : Wire.HelloAck) (request : Wire.Message)
      (hpc : p.pc = .exchange request .hello) : Moves p (.handshake ack) (p.handshake ack)
  | redeclared (pc : Pc Ask) (hpc : p.pc = .maybeDeclare) (hq : pc.quiet) :
      Moves p .redeclared { p.takeDeclare with pc := pc }
  | took (flush : Bool) (hpc : p.pc = .takeGames flush) : Moves p .took (p.takeGames flush)
  | left (flush : Bool) (pc : Pc Ask) (hpc : p.pc = .sendGames flush) (hq : pc.quiet)
      (hw : ∀ front rest, p.games.games = front :: rest → p.link.haveDeclared →
        p.link.declared.epoch < front.epoch) : Moves p .left { p with pc := pc }
  | leftUnserved (flush : Bool) (pc : Pc Ask) (hpc : p.pc = .sendGames flush) (hq : pc.quiet)
      (hd : p.link.haveDeclared) (hs : p.link.serves p.link.declared = false) :
      Moves p .left { p.takeDeclare with pc := pc }
  | dropped (flush : Bool) (front : GamePost) (rest : List GamePost)
      (hpc : p.pc = .sendGames flush) (hg : p.games.games = front :: rest)
      (hd : p.link.haveDeclared) (he : front.epoch < p.link.declared.epoch) :
      Moves p (.dropped front) (p.dropFront front)
  | droppedUnserved (flush : Bool) (front : GamePost) (rest : List GamePost)
      (hpc : p.pc = .sendGames flush) (hg : p.games.games = front :: rest)
      (hd : p.link.haveDeclared) (he : front.epoch = p.link.declared.epoch)
      (hs : p.link.serves p.link.declared = false)
      (hc : p.takeDeclare.link.current = p.link.declared) :
      Moves p (.droppedUnserved front) (p.takeDeclare.dropFront front)
  | sent (flush : Bool) (front : GamePost) (rest : List GamePost)
      (hpc : p.pc = .sendGames flush) (hg : p.games.games = front :: rest)
      (hd : p.link.haveDeclared) (he : front.epoch = p.link.declared.epoch)
      (hs : p.link.serves p.link.declared) :
      Moves p (.sent front) (p.sendFront flush front front.batch.encode)
  | acked (flush : Bool) (request : Wire.Message) (front : GamePost) (rest : List GamePost)
      (hpc : p.pc = .exchange request (.game flush)) (hg : p.games.games = front :: rest) :
      Moves p (.acked front) (p.gameAcked flush front)
  | refused (flush : Bool) (request : Wire.Message) (front : GamePost) (rest : List GamePost)
      (hpc : p.pc = .exchange request (.game flush)) (hg : p.games.games = front :: rest) :
      Moves p (.refused front) (p.gameRefused flush front)
  | declaring (payload : Bytes) (hpc : p.pc = .declare) :
      Moves p .declaring (p.send Wire.typeDeclare payload (.declare p.link.current))
  | declared (now : DeclareSnapshot) (request : Wire.Message)
      (hpc : p.pc = .exchange request (.declare now)) :
      Moves p (.declared now) (p.declareAcked now)
  | moved (seq : UInt32) (pc : Pc Ask) (hpc : pc = p.pc ∨ (p.pc.quiet ∧ pc.quiet)) :
      Moves p .moved { p with link := { p.link with seq := seq }, pc := pc }

/-- The game path by itself, from the source's first declaration. -/
def system : Runs.System (GamePath Ask) Move where
  init p := ∃ d, p = { source := { inForce := d, latch := some d } }
  step := Moves

/-- The worker going on elsewhere is a move. -/
theorem Moves.goto {p : GamePath Ask} {pc : Pc Ask} (h : pc = p.pc ∨ (p.pc.quiet ∧ pc.quiet)) :
    p.Moves .moved { p with pc := pc } := .moved p.link.seq pc h

/-- Nothing changing is a move. -/
theorem Moves.still (p : GamePath Ask) : p.Moves .moved p := .goto (.inl rfl)

/-- A message sent for anything but the game path is a move. -/
theorem Moves.send {p : GamePath Ask} {type : UInt16} {payload : Bytes} {k : Awaiting Ask}
    (hp : p.pc.quiet) (h : (Pc.exchange {} k : Pc Ask).quiet) :
    p.Moves .moved (p.send type payload k) := by
  refine .moved _ _ (.inr ⟨hp, ?_⟩)
  cases k <;> simp_all [Pc.quiet]

/-- `SendGames` goes back to one of its two callers. -/
theorem quiet_leaveGames (flush : Bool) :
    (if flush then .declare else .takeRequests : Pc Ask).quiet := by
  cases flush <;> rfl

/-- A turn of `SendGames`' loop is a move.

**Proof sketch.** By the branch of the turn: the loop is left with the queue empty or a front of a
later epoch, a front is dropped, or it is sent. -/
theorem Moves.ofSendGames {p : GamePath Ask} {flush : Bool} (hpc : p.pc = .sendGames flush) :
    ∃ m, p.Moves m (p.sendGames flush) := by
  unfold GamePath.sendGames
  split
  · rename_i hg
    exact ⟨_, .left flush _ hpc (quiet_leaveGames flush) (by simp [hg])⟩
  · rename_i front rest hg
    split
    · rename_i hd
      exact ⟨_, .left flush _ hpc (quiet_leaveGames flush) fun _ _ _ h => by simp [h] at hd⟩
    · split
      · rename_i hlt
        refine ⟨_, .left flush _ hpc (quiet_leaveGames flush) fun front' rest' hg' _ => ?_⟩
        obtain ⟨rfl, -⟩ := List.cons.inj (hg.symm.trans hg')
        exact hlt
      · rename_i hd hle
        have hd : p.link.haveDeclared := by simpa using hd
        by_cases hs : p.link.serves p.link.declared
        · simp only [hs, Bool.not_true, Bool.and_false, Bool.false_eq_true, false_and, if_false,
            if_true]
          split
          · rename_i hw
            exact ⟨_, .dropped flush front rest hpc hg hd (hw.resolve_right front.encode_ne_nil)⟩
          · rename_i hw
            exact ⟨_, .sent flush front rest hpc hg hd (by have := not_or.mp hw; omega) hs⟩
        · by_cases he : front.epoch = p.link.declared.epoch
          · by_cases hc : p.source.latch.getD p.link.current = p.link.declared
            · refine ⟨.droppedUnserved front, ?_⟩
              have := Moves.droppedUnserved flush front rest hpc hg hd he (by simpa using hs) hc
              simpa [hs, he, hc, takeDeclare] using this
            · refine ⟨.left, ?_⟩
              have := Moves.leftUnserved flush _ hpc (quiet_leaveGames flush) hd (by simpa using hs)
              simpa [hs, he, hc, takeDeclare, leaveGames] using this
          · have hlt : front.epoch < p.link.declared.epoch := by omega
            refine ⟨.dropped front, ?_⟩
            have := Moves.dropped flush front rest hpc hg hd hlt
            simpa [hs, he] using this

/-- A reply to a batch is a move. -/
theorem Moves.ofGameAnswered {p : GamePath Ask} {flush : Bool} {request : Wire.Message}
    (hpc : p.pc = .exchange request (.game flush)) (reply : Wire.Message) :
    ∃ m, p.Moves m (p.gameAnswered flush reply) := by
  unfold gameAnswered
  split
  · exact ⟨_, .still p⟩
  · rename_i front rest hg
    split
    · exact ⟨_, .acked flush request front rest hpc hg⟩
    · exact ⟨_, .refused flush request front rest hpc hg⟩

end GamePath

/-! ## Every step is a move -/

section Step

variable {cfg : Config} {s s' : State}

/-- The worker going on elsewhere is a move. -/
theorem moves_goto {pc : Pc TopScoresAsk} (h : s.path.pc.quiet) (hq : pc.quiet) :
    s.path.Moves .moved (s.goto pc).path :=
  .goto (.inr ⟨h, hq⟩)

/-- A message that is no response is a move. -/
theorem moves_dispatched (msg : Wire.Message) {pc : Pc TopScoresAsk} (h : s.path.pc ≠ .offline)
    (hq : pc = s.path.pc ∨ (s.path.pc.quiet ∧ pc.quiet)) :
    ∃ m, s.path.Moves m (s.dispatched cfg msg pc).path := by
  unfold State.dispatched
  split
  · exact ⟨_, .ended h⟩
  · exact ⟨_, .goto hq⟩

/-- A reply is a move. -/
theorem moves_resume {request : Wire.Message} {k : Awaiting TopScoresAsk}
    (hpc : s.path.pc = .exchange request k) (reply : Wire.Message) :
    ∃ m, s.path.Moves m (s.resume cfg k reply).path := by
  have ho : s.path.pc ≠ .offline := by simp [hpc]
  cases k with
  | hello =>
    unfold State.resume
    cases State.helloAck reply with
    | none => exact ⟨_, .ended ho⟩
    | some ack => exact ⟨_, .handshake ack request hpc⟩
  | game flush => exact GamePath.Moves.ofGameAnswered hpc reply
  | declare now =>
    show ∃ m, s.path.Moves m (s.declareAnswered cfg now reply).path
    unfold State.declareAnswered
    split
    · exact ⟨_, .ended ho⟩
    · exact ⟨_, .declared now request hpc⟩
  | scores ask =>
    have hq : s.path.pc.quiet := by simp [hpc, Pc.quiet]
    refine ⟨.moved, ?_⟩
    have hm : s.path.Moves .moved (s.goto .sendScores).path := moves_goto hq rfl
    show s.path.Moves _ (s.scoresAnswered ask reply).path
    unfold State.scoresAnswered
    split <;> exact hm
  | ping => exact ⟨_, moves_goto (by simp [hpc, Pc.quiet]) rfl⟩

/-- The worker going on is a move.

**Proof sketch.** By the place, each of which is one kind of move; those that only go on are
`moved`. -/
theorem moves_go (h : s.go cfg = some s') : ∃ m, s.path.Moves m s'.path := by
  unfold State.go at h
  split at h
  case h_1 hpc =>
    obtain rfl := Option.some.inj h
    exact ⟨_, moves_goto (by simp [hpc, Pc.quiet]) rfl⟩
  case h_2 hpc =>
    obtain rfl := Option.some.inj h
    refine ⟨.redeclared, ?_⟩
    show s.path.Moves _ s.path.maybeDeclare
    simp only [GamePath.maybeDeclare]
    split <;> exact .redeclared _ hpc rfl
  case h_3 flush hpc =>
    obtain rfl := Option.some.inj h
    exact ⟨_, .took flush hpc⟩
  case h_4 flush hpc =>
    obtain rfl := Option.some.inj h
    exact GamePath.Moves.ofSendGames hpc
  case h_5 hpc =>
    obtain rfl := Option.some.inj h
    show ∃ m, s.path.Moves m s.path.sendDeclare
    unfold GamePath.sendDeclare
    split
    · exact ⟨_, moves_goto (by simp [hpc, Pc.quiet]) rfl⟩
    · exact ⟨_, .declaring _ hpc⟩
  case h_6 hpc =>
    obtain rfl := Option.some.inj h
    exact ⟨_, moves_goto (by simp [hpc, Pc.quiet]) rfl⟩
  case h_7 hpc =>
    obtain rfl := Option.some.inj h
    refine ⟨.moved, ?_⟩
    unfold State.takeRequests
    split <;> exact moves_goto (by simp [hpc, Pc.quiet]) rfl
  case h_8 hpc =>
    obtain rfl := Option.some.inj h
    refine ⟨.moved, ?_⟩
    have hq : s.path.pc.quiet := by simp [hpc, Pc.quiet]
    unfold State.sendScores
    split
    · exact moves_goto hq rfl
    · split
      · exact moves_goto hq rfl
      · split
        · exact .still _
        · exact .send hq rfl
  case h_9 hpc =>
    obtain rfl := Option.some.inj h
    exact ⟨_, moves_goto (by simp [hpc, Pc.quiet]) rfl⟩
  case h_10 | h_11 => simp at h

/-- A message is a move. -/
theorem moves_recv {msg : Wire.Message} (h : s.recv cfg msg = some s') :
    ∃ m, s.path.Moves m s'.path := by
  unfold State.recv at h
  split at h
  case h_1 request k hpc =>
    have ho : s.path.pc ≠ .offline := by simp [hpc]
    split at h
    · obtain rfl := Option.some.inj h
      exact moves_resume hpc msg
    · split at h
      · obtain rfl := Option.some.inj h
        exact ⟨_, .still _⟩
      · obtain rfl := Option.some.inj h
        exact moves_dispatched msg ho (.inl hpc.symm)
  case h_2 hpc =>
    have ho : s.path.pc ≠ .offline := by simp [hpc]
    split at h
    · obtain rfl := Option.some.inj h
      exact ⟨_, moves_goto (by simp [hpc, Pc.quiet]) rfl⟩
    · obtain rfl := Option.some.inj h
      exact moves_dispatched msg ho (.inr ⟨by simp [hpc, Pc.quiet], rfl⟩)
  case h_3 => simp at h

/-- **Every step is a move** of the game path.

**Proof sketch.** By the step: the source posts, commits and evicts, a connection begins, fails or
ends, and the worker goes on or gets a message. -/
theorem step_moves {a : Act} (h : step cfg s a = some s') : ∃ m, s.path.Moves m s'.path := by
  cases a with
  | post d =>
    obtain ⟨⟨he, hi⟩, h⟩ := Option.ite_none_right_eq_some.mp h
    obtain rfl := Option.some.inj h
    exact ⟨_, .posted d he hi⟩
  | commit batch =>
    obtain ⟨hb, h⟩ := Option.dite_none_right_eq_some.mp h
    obtain rfl := Option.some.inj h
    exact ⟨_, .committed batch hb⟩
  | evict i =>
    obtain rfl := Option.some.inj h
    exact ⟨_, .evicted i⟩
  | request epoch req identity =>
    obtain rfl := Option.some.inj h
    exact ⟨_, .still _⟩
  | takeResults =>
    obtain rfl := Option.some.inj h
    exact ⟨_, .still _⟩
  | connect token =>
    obtain ⟨hpc, h⟩ := Option.ite_none_right_eq_some.mp h
    cases token with
    | none =>
      obtain rfl := Option.some.inj h
      exact ⟨_, .failed hpc⟩
    | some token =>
      obtain rfl := Option.some.inj h
      exact ⟨_, .connected _ hpc⟩
  | go => exact moves_go h
  | recv msg => exact moves_recv h
  | ping =>
    obtain ⟨hpc, h⟩ := Option.ite_none_right_eq_some.mp h
    obtain rfl := Option.some.inj h
    exact ⟨_, .send (by simp [hpc, Pc.quiet]) rfl⟩
  | cut =>
    obtain ⟨hb, h⟩ := Option.ite_none_right_eq_some.mp h
    obtain rfl := Option.some.inj h
    exact ⟨_, .ended (by intro ho; simp [State.breakable, ho] at hb)⟩

end Step

/-- The step `a` of the worker makes the move `m`. -/
def Makes (cfg : Config) (s : State) (a : Act) (m : Move) : Prop :=
  ∃ s', step cfg s a = some s' ∧ s.path.Moves m s'.path

/-- A condition on moves and the path before them, held to by a step of the worker. -/
def Held (cfg : Config) (cond : GamePath TopScoresAsk → Move → Prop) (s : State) (a : Act) : Prop :=
  ∀ m, Makes cfg s a m → cond s.path m

/-- A condition met by every move that can be made is held to. -/
theorem Held.of_moves {cfg : Config} {cond : GamePath TopScoresAsk → Move → Prop} {s : State}
    (h : ∀ m p', s.path.Moves m p' → cond s.path m) (a : Act) : Held cfg cond s a :=
  fun m ⟨_, _, hm⟩ => h m _ hm

/-- **Every run of the worker is a run of moves**, and a run of steps that hold to a condition is
one of moves that meet it. -/
theorem simulation (cfg : Config) (cond : GamePath TopScoresAsk → Move → Prop) :
    Runs.Simulation (system cfg) GamePath.system (Held cfg cond) cond State.path where
  init := by
    rintro s ⟨d, rfl⟩
    exact ⟨d, rfl⟩
  step := by
    intro s a s' hok hs
    obtain ⟨m, hm⟩ := step_moves hs
    exact ⟨m, hok m ⟨s', hs, hm⟩, hm⟩

end Worker
