import ScorbitPlugin.Worker.Watch

set_option relaxedAutoImplicit false
set_option autoImplicit false

/-!
# Games and Declares

The order of what goes out on the game path. A Game goes out under the Declare it belongs to, and a
table change waits for the batches committed under the old table: from its commit to its sending an
owed batch is in the source's queue or among the fresh ones, the declared table stays its own, and a
Declare of another epoch taken meanwhile finds the worker in the flush that ends with the batch.

## Main definitions

* `Worker.GamePath.Due` — where an owed batch is until it is sent.
* `Worker.Watch.Owing` — every owed batch was sent or is due.
* `Worker.Watch.DeclaresFirst` — what holds of a step that sends a Game or a Declare.

## Main results

* `Worker.declares_first` — it holds of every step of every run.
-/

namespace Worker

open Codec

/-- The batch is one of the fresh ones. -/
def Games.Holds (g : Games) (q : GamePost) : Prop :=
  ∃ r ∈ g.fresh, r.serial = q.serial ∧ r.epoch = q.epoch

/-- Another batch leaves the queue. -/
theorem Games.Holds.less {g g' : Games} {q : GamePost} (h : g.Holds q) (front : GamePost)
    (hf : g.fresh = front :: g'.fresh ∨ g'.fresh = g.fresh)
    (hne : ¬ (front.serial = q.serial ∧ front.epoch = q.epoch)) : g'.Holds q := by
  obtain ⟨r, hr, heq⟩ := h
  rcases hf with hf | hf
  · rw [hf] at hr
    rcases List.mem_cons.mp hr with rfl | hr
    · exact absurd heq hne
    · exact ⟨r, hr, heq⟩
  · exact ⟨r, hf ▸ hr, heq⟩

namespace GamePath

variable {Ask : Type} {p p' : GamePath Ask} {m : Move} {q : GamePost}

/-! ## What the worker knows of the batch under way and of the latch -/

/-- The batch under way was sent, and a posted declaration is the one in force. -/
structure Posted (p : GamePath Ask) : Prop where
  front : ∀ request flush front rest, p.pc = .exchange request (.game flush) →
    p.games.games = front :: rest → ∃ d, .sent front d ∈ p.log.events
  latch : ∀ d, p.source.latch = some d → d = p.source.inForce

/-- Every move keeps the two facts.

**Proof sketch.** By the kind of the move. A batch awaits its answer only after the move that sends
it, which records that. The latch holds what was posted last until the worker takes it. -/
theorem Posted.moves (h : p.Posted) (hm : p.Moves m p') : p'.Posted := by
  cases hm with
  | posted d => exact ⟨h.front, fun e he => (Option.some.inj he).symm⟩
  | committed | evicted => exact ⟨h.front, h.latch⟩
  | connected => exact ⟨by simp [send], by simp [takeDeclare, send]⟩
  | failed | ended => exact ⟨by simp [disconnect], h.latch⟩
  | handshake => exact ⟨by simp [GamePath.handshake], h.latch⟩
  | redeclared pc _ hq | leftUnserved flush pc _ hq =>
    exact ⟨fun _ _ _ _ hpc => absurd hpc (Pc.quiet_ne_game hq), by simp [takeDeclare]⟩
  | took => exact ⟨by simp [takeGames], h.latch⟩
  | left flush pc _ hq => exact ⟨fun _ _ _ _ hpc => absurd hpc (Pc.quiet_ne_game hq), h.latch⟩
  | dropped flush front rest hpc => exact ⟨by simp [dropFront, hpc], h.latch⟩
  | droppedUnserved flush front rest hpc =>
    exact ⟨by simp [dropFront, takeDeclare, hpc], by simp [dropFront, takeDeclare]⟩
  | sent flush front rest hpc hg =>
    refine ⟨fun request flush' front' rest' _ hg' => ?_, h.latch⟩
    obtain ⟨rfl, -⟩ := List.cons.inj (hg.symm.trans hg')
    exact ⟨p.link.declared, List.mem_cons_self⟩
  | acked => exact ⟨by simp [gameAcked], h.latch⟩
  | refused => exact ⟨by simp [gameRefused], h.latch⟩
  | declaring => exact ⟨by simp [send], h.latch⟩
  | declared now =>
    refine ⟨fun request flush front rest hpc => ?_, h.latch⟩
    simp only [declareAcked] at hpc
    split at hpc <;> cases hpc
  | moved seq pc hpc =>
    refine ⟨fun request flush front rest hpc' hg => ?_, h.latch⟩
    rcases hpc with rfl | ⟨-, hq⟩
    · exact h.front request flush front rest hpc' hg
    · exact absurd hpc' (Pc.quiet_ne_game hq)

/-- The events so far stay. -/
theorem Flow.events_suffix (h : Flow p p') : p.log.events <:+ p'.log.events := by
  cases h with
  | still new _ he | discarded new _ he => exact he ▸ List.suffix_append new _
  | took he => exact he ▸ List.suffix_rfl
  | handshake fragment he => exact he ▸ List.suffix_append _ _
  | droppedFresh q he | droppedReplayed q he | ackedFresh q he | ackedReplayed q _ he
  | refused q he => exact he ▸ List.suffix_cons _ _

/-! ## An owed batch -/

/-- The batch was sent. -/
def HasSent (p : GamePath Ask) (q : GamePost) : Prop :=
  ∃ r d, .sent r d ∈ p.log.events ∧ r.serial = q.serial

/-- `SendGames` runs for a table change and comes to the batch. -/
def Flushing (p : GamePath Ask) (q : GamePost) : Prop :=
  p.pc = .takeGames true ∨
    (p.pc = .sendGames true ∨ ∃ request, p.pc = .exchange request (.game true)) ∧ p.games.Holds q

/-- A batch owed and not yet sent: its table is declared and served, it is queued, and a Declare of
another epoch taken meanwhile waits for it. -/
structure Due (p : GamePath Ask) (q : GamePost) : Prop where
  haveDeclared : p.link.haveDeclared = true
  epoch : p.link.declared.epoch = q.epoch
  serves : p.link.serves p.link.declared = true
  latch : ∀ d, p.source.latch = some d → d = p.link.declared ∨ q.epoch < d.epoch
  place : q ∈ p.source.queue ∨ p.games.Holds q
  stage : p.link.current = p.link.declared ∨ (q.epoch < p.link.current.epoch ∧ p.Flushing q)

/-- Outside a flush no other Declare was taken. -/
theorem Due.settled (h : p.Due q) (hn : ¬ p.Flushing q) : p.link.current = p.link.declared :=
  h.stage.resolve_right fun hf => hn hf.2

/-- What leaves the connection, the source and the fresh batches alone.

**Proof sketch.** Each part of the debt is about the connection, the source or a fresh batch, which
the hypotheses keep. -/
theorem Due.frame (h : p.Due q) (hl : { p'.link with seq := p.link.seq } = p.link)
    (hq : p'.source = p.source) (hf : p.games.Holds q → p'.games.Holds q)
    (hs : p.Flushing q → p'.Flushing q) : p'.Due q := by
  have hd : p'.link.haveDeclared = p.link.haveDeclared := by rw [← hl]
  have hd' : p'.link.declared = p.link.declared := by rw [← hl]
  have hc : p'.link.current = p.link.current := by rw [← hl]
  have hserves : p'.link.serves p'.link.declared = p.link.serves p.link.declared := by
    rw [← hl]
    rfl
  refine ⟨hd.trans h.haveDeclared, ?_, hserves.trans h.serves, ?_, ?_, ?_⟩
  · rw [hd', h.epoch]
  · rw [hq, hd']
    exact h.latch
  · rw [hq]
    exact h.place.imp_right hf
  · rw [hc, hd']
    exact h.stage.imp_right fun hst => ⟨hst.1, hs hst.2⟩

/-- The worker goes on elsewhere, outside a flush. -/
theorem Due.onward (h : p.Due q) (hn : ¬ p.Flushing q) (seq : UInt32) (pc : Pc Ask) :
    { p with link := { p.link with seq := seq }, pc := pc : GamePath Ask }.Due q :=
  h.frame rfl rfl id fun hf => absurd hf hn

/-- A declaration is posted. -/
theorem Due.post (h : p.Due q) {d : DeclareSnapshot}
    (hd : d = p.link.declared ∨ q.epoch < d.epoch) :
    (p.post d).Due q where
  haveDeclared := h.haveDeclared
  epoch := h.epoch
  serves := h.serves
  latch e he := by
    obtain rfl := Option.some.inj he
    exact hd
  place := h.place
  stage := h.stage

/-- A batch is committed. -/
theorem Due.commit (h : p.Due q) (batch : Wire.GameBatch) (hb : committable batch.ops = true) :
    (p.commit batch hb).Due q where
  haveDeclared := h.haveDeclared
  epoch := h.epoch
  serves := h.serves
  latch := h.latch
  place := h.place.imp_left (List.mem_append_left _)
  stage := h.stage

/-- A bounded source drops another batch. -/
theorem Due.evict (h : p.Due q) {i : ℕ} (hi : p.source.queue[i]? ≠ some q) : (p.evict i).Due q where
  haveDeclared := h.haveDeclared
  epoch := h.epoch
  serves := h.serves
  latch := h.latch
  place := by
    refine h.place.imp_left fun hq => ?_
    obtain ⟨j, hj⟩ := List.mem_iff_getElem?.mp hq
    refine List.mem_eraseIdx_iff_getElem?.mpr ⟨j, ?_, hj⟩
    rintro rfl
    exact hi hj
  stage := h.stage

/-- The declaration of another table starts a flush.

**Proof sketch.** Without a new declaration, or with one of the same table, the batch waits as
before. One of a later epoch starts a flush, in which it is taken. -/
theorem Due.maybeDeclare (h : p.Due q) (hpc : p.pc = .maybeDeclare) : p.maybeDeclare.Due q := by
  have hcurrent := h.settled (by simp [Flushing, hpc])
  cases hl : p.source.latch with
  | none =>
    have heq : p.maybeDeclare = { p.takeDeclare with pc := .declare } := by
      simp [GamePath.maybeDeclare, takeDeclare, hl, hcurrent]
    rw [heq]
    refine ⟨h.haveDeclared, h.epoch, h.serves, by simp [takeDeclare], h.place, .inl ?_⟩
    simp [takeDeclare, hl, hcurrent]
  | some d =>
    rcases h.latch d hl with rfl | hlt
    · have heq : p.maybeDeclare = { p.takeDeclare with pc := .declare } := by
        simp [GamePath.maybeDeclare, takeDeclare, hl]
      rw [heq]
      refine ⟨h.haveDeclared, h.epoch, h.serves, by simp [takeDeclare], h.place, .inl ?_⟩
      simp [takeDeclare, hl]
    · have heq : p.maybeDeclare = { p.takeDeclare with pc := .takeGames true } := by
        have hne : d.epoch ≠ p.link.declared.epoch := by rw [h.epoch]; omega
        simp [GamePath.maybeDeclare, takeDeclare, hl, h.haveDeclared, hne]
      rw [heq]
      refine ⟨h.haveDeclared, h.epoch, h.serves, by simp [takeDeclare], h.place,
        .inr ⟨?_, .inl rfl⟩⟩
      simpa [takeDeclare, hl] using hlt

/-- The source's batches are taken.

**Proof sketch.** A batch still with the source is numbered and becomes fresh; one that was fresh
stays so. The flush is passed on to the sending. -/
theorem Due.takeGames (h : p.Due q) (hs : p.games.Sound) {flush : Bool}
    (hpc : p.pc = .takeGames flush) : (p.takeGames flush).Due q := by
  have hholds : (p.takeGames flush).games.Holds q := by
    rcases h.place with hq | ⟨r, hr, heq⟩
    · obtain ⟨i, hi⟩ := exists_mem_numberedFrom hq p.games.nextBatchId
      refine ⟨q.numbered i, ?_, rfl, rfl⟩
      rw [fresh_takeGames hs]
      exact List.mem_append_right _ hi
    · refine ⟨r, ?_, heq⟩
      rw [fresh_takeGames hs]
      exact List.mem_append_left _ hr
  refine ⟨h.haveDeclared, h.epoch, h.serves, h.latch, .inr hholds, ?_⟩
  refine h.stage.imp_right fun ⟨hlt, hf⟩ => ⟨hlt, .inr ⟨.inl ?_, hholds⟩⟩
  rcases hf with hf | ⟨hf | ⟨_, hf⟩, -⟩
  · rw [show flush = true by simpa [hpc] using hf]
    rfl
  · cases hpc.symm.trans hf
  · cases hpc.symm.trans hf

/-- A turn of `SendGames`' loop sends the batch, or gets closer to it.

**Proof sketch.** By the branch of the loop's turn. With the queue empty, or a front of a later
epoch, the batch is not in it and no flush waits for it. A front of an older epoch is dropped before
it. One of its own epoch is sent: it is the batch, or the batch is behind it. -/
theorem Due.sendGames (h : p.Due q) (hs : p.Sorted) {flush : Bool} (hpc : p.pc = .sendGames flush) :
    (p.sendGames flush).HasSent q ∨ (p.sendGames flush).Due q := by
  have hflush : p.Flushing q → flush = true ∧ p.games.Holds q := by
    rintro (hf | ⟨hf | ⟨_, hf⟩, hholds⟩)
    · cases hpc.symm.trans hf
    · exact ⟨by simpa [hpc] using hf, hholds⟩
    · cases hpc.symm.trans hf
  unfold GamePath.sendGames
  split
  · rename_i hg
    refine .inr (h.onward (fun hf => ?_) p.link.seq _)
    obtain ⟨r, hr, -⟩ := (hflush hf).2
    simp [Games.fresh, hg] at hr
  · rename_i front rest hg
    simp only [h.haveDeclared, h.serves, Bool.not_true, Bool.and_false, Bool.false_eq_true,
      false_and, if_false, if_true]
    split
    · -- the queue is in commit order, so the batch is of a later epoch than its own
      rename_i hlt
      refine .inr (h.onward (fun hf => ?_) p.link.seq _)
      obtain ⟨r, hr, -, hepoch⟩ := (hflush hf).2
      have hmem : r ∈ front :: rest := hg ▸ List.mem_of_mem_drop hr
      have hpair := hs.tracked.games_pairwise hs.ordered
      rw [hg, List.pairwise_cons] at hpair
      have hdeclared := h.epoch
      rcases List.mem_cons.mp hmem with rfl | hmem
      · omega
      · have := (hpair.1 r hmem).epoch
        omega
    · split
      · rename_i hw
        have hlt : front.epoch < p.link.declared.epoch := hw.resolve_right front.encode_ne_nil
        have hless : p.games.Holds q → p.games.popGame.Holds q := by
          refine fun hq => hq.less front ?_ fun heq => by
            have := h.epoch
            omega
          rcases Nat.eq_zero_or_pos p.games.replayQueued with hn | hn
          · exact .inl (Games.fresh_popGame_fresh hg hn)
          · exact .inr (Games.fresh_popGame_replayed hg hn)
        refine .inr (h.frame rfl rfl hless fun hf => .inr ⟨.inl ?_, hless (hflush hf).2⟩)
        show p.pc = _
        rw [hpc, (hflush hf).1]
      · by_cases hserial : front.serial = q.serial
        · exact .inl ⟨front, p.link.declared, List.mem_cons_self, hserial⟩
        · refine .inr (h.frame rfl rfl id fun hf => .inr ⟨.inr ?_, (hflush hf).2⟩)
          rw [(hflush hf).1]
          exact ⟨_, rfl⟩

/-- The answer to a batch takes it from the queue.

**Proof sketch.** The front that is answered was sent (`Posted`). If it is the batch, that is what
is claimed; else it leaves the queue, acknowledged or refused, and the batch is in it still. -/
theorem Due.gameAnswered (h : p.Due q) (hs : p.Sorted) (hp : p.Posted) {request : Wire.Message}
    {flush : Bool} (hpc : p.pc = .exchange request (.game flush)) (reply : Wire.Message) :
    (p.gameAnswered flush reply).HasSent q ∨ (p.gameAnswered flush reply).Due q := by
  obtain ⟨-, -, front, rest, hg, -⟩ := hs.tracked.awaiting request flush hpc
  obtain ⟨d, hd⟩ := hp.front request flush front rest hpc hg
  obtain ⟨-, hepoch⟩ := hs.tracked.epoch_front hpc hg
  have hsound := hs.tracked.sound
  have hflush : p.Flushing q → flush = true := by
    rintro (hf | ⟨hf | ⟨_, hf⟩, -⟩)
    · cases hpc.symm.trans hf
    · cases hpc.symm.trans hf
    · exact Awaiting.game.inj (Pc.exchange.inj (hpc.symm.trans hf)).2
  have hholds : p.Flushing q → p.games.Holds q := by
    rintro (hf | ⟨-, hf⟩)
    · cases hpc.symm.trans hf
    · exact hf
  unfold GamePath.gameAnswered
  rw [hg]
  by_cases hserial : front.serial = q.serial
  · left
    dsimp only
    split <;> exact ⟨front, d, List.mem_cons_of_mem _ hd, hserial⟩
  · right
    dsimp only
    split
    · have hless : p.games.Holds q → (p.gameAcked flush front).games.Holds q := by
        refine fun hq => hq.less front ?_ fun heq => hserial heq.1
        rcases Nat.eq_zero_or_pos p.games.replayQueued with hn | hn
        · exact .inl (Games.fresh_acknowledged_fresh hsound hg hn _ hepoch)
        · exact .inr (Games.fresh_acknowledged_replayed hsound hg hn _)
      refine h.frame rfl rfl hless fun hf => .inr ⟨.inl ?_, hless (hholds hf)⟩
      rw [hflush hf]
      rfl
    · have hless : p.games.Holds q → (p.gameRefused flush front).games.Holds q := by
        refine fun hq => hq.less front ?_ fun heq => hserial heq.1
        rcases Nat.eq_zero_or_pos p.games.replayQueued with hn | hn
        · exact .inl (Games.fresh_refused_fresh hsound hg hn hepoch)
        · exact .inr (Games.fresh_refused_replayed hsound hg hn)
      refine h.frame rfl rfl hless fun hf => .inr ⟨.inl ?_, hless (hholds hf)⟩
      rw [hflush hf]
      rfl

/-- With an owed batch behind, no Declare goes out. -/
theorem Due.sendDeclare (h : p.Due q) (hpc : p.pc = .declare) :
    p.sendDeclare = { p with pc := .takeGames false } := by
  have hcurrent := h.settled (by simp [Flushing, hpc])
  exact if_pos ⟨h.haveDeclared, hcurrent⟩

/-- The acknowledged declaration is the one already declared.

**Proof sketch.** What was acknowledged is what is declared already, so no table is new and only the
program counter and the log change. -/
theorem Due.declareAcked (h : p.Due q) (hl : p.Linked) {request : Wire.Message}
    {now : DeclareSnapshot} (hpc : p.pc = .exchange request (.declare now)) :
    (p.declareAcked now).Due q := by
  obtain rfl := hl.declaring request now hpc
  have hcurrent := h.settled (by simp [Flushing, hpc])
  have hnew : p.link.newTable p.link.current = false := by
    simp [Link.newTable, Wire.newIdentity, hcurrent]
  have heq : p.declareAcked p.link.current =
      { p with pc := .takeGames false, log := p.log.note (.declared p.link.current) } := by
    have hlink : { p.link with declared := p.link.current, haveDeclared := true } = p.link := by
      have := h.haveDeclared
      rw [hcurrent]
      cases hlk : p.link
      simp_all
    simp only [GamePath.declareAcked, hnew, hlink]
    simp
  rw [heq]
  exact h.frame rfl rfl id fun hf => absurd hf (by simp [Flushing, hpc])

end GamePath

section Step

variable {cfg : Config} {s s' : State} {q : GamePost}

/-- A message that is no response leaves an owed batch where it is. -/
theorem due_dispatched (h : s.path.Due q) (msg : Wire.Message) {pc : Pc TopScoresAsk}
    (hpc : pc = s.path.pc ∨ ¬ s.path.Flushing q)
    (ho : (s.dispatched cfg msg pc).path.pc ≠ .offline) : (s.dispatched cfg msg pc).path.Due q := by
  unfold State.dispatched at ho ⊢
  split
  · rename_i hnone
    simp [hnone, State.disconnect, GamePath.disconnect] at ho
  · rcases hpc with rfl | hn
    · exact h
    · exact h.onward hn s.path.link.seq pc

/-- A reply sends an owed batch, or gets closer to it.

**Proof sketch.** By the exchange. A batch's answer is `Due.gameAnswered`. No Hello is under way, as
the table is declared; a Declare's answer declares what the flush waited for (`Due.declareAcked`),
and the others bring the worker back to its round. -/
theorem due_resume (h : s.path.Due q) (hs : s.path.Sorted) (hp : s.path.Posted)
    {request : Wire.Message} {k : Awaiting TopScoresAsk} (hpc : s.path.pc = .exchange request k)
    (reply : Wire.Message) (ho : (s.resume cfg k reply).path.pc ≠ .offline) :
    (s.resume cfg k reply).path.HasSent q ∨ (s.resume cfg k reply).path.Due q := by
  cases k with
  | hello =>
    have hd := h.haveDeclared
    rw [hs.linked.hello request hpc] at hd
    cases hd
  | game flush => exact h.gameAnswered hs hp hpc reply
  | declare now =>
    right
    change (s.declareAnswered cfg now reply).path.pc ≠ .offline at ho
    show (s.declareAnswered cfg now reply).path.Due q
    unfold State.declareAnswered at ho ⊢
    split
    · rename_i he
      simp [he, State.disconnect, GamePath.disconnect] at ho
    · exact h.declareAcked hs.linked hpc
  | scores ask =>
    right
    have hn : ¬ s.path.Flushing q := by simp [GamePath.Flushing, hpc]
    have hgoto := h.onward hn s.path.link.seq .sendScores
    show (s.scoresAnswered ask reply).path.Due q
    unfold State.scoresAnswered
    split <;> exact hgoto
  | ping =>
    have hn : ¬ s.path.Flushing q := by simp [GamePath.Flushing, hpc]
    exact .inr (h.onward hn s.path.link.seq .serve)

/-- The worker going on sends an owed batch, or gets closer to it.

**Proof sketch.** By the place. On the way to the batch's flush each place goes on to the next;
`takeGames` brings the batch into the queue, and the loop's turn is `Due.sendGames`. -/
theorem due_go (h : s.path.Due q) (hs : s.path.Sorted) (hgo : s.go cfg = some s') :
    s'.path.HasSent q ∨ s'.path.Due q := by
  have hn (hpc : s.path.pc ∈ ([.serve, .declare, .loseQueued, .takeRequests, .sendScores,
      .idle] : List (Pc TopScoresAsk))) : ¬ s.path.Flushing q := by
    rintro (hf | ⟨hf | ⟨_, hf⟩, -⟩) <;> simp [hf] at hpc
  unfold State.go at hgo
  split at hgo
  case h_1 hpc =>
    obtain rfl := Option.some.inj hgo
    exact .inr (h.onward (hn (by simp [hpc])) s.path.link.seq .maybeDeclare)
  case h_2 hpc =>
    obtain rfl := Option.some.inj hgo
    exact .inr (h.maybeDeclare hpc)
  case h_3 flush hpc =>
    obtain rfl := Option.some.inj hgo
    exact .inr (h.takeGames hs.tracked.sound hpc)
  case h_4 flush hpc =>
    obtain rfl := Option.some.inj hgo
    exact h.sendGames hs hpc
  case h_5 hpc =>
    obtain rfl := Option.some.inj hgo
    right
    show s.path.sendDeclare.Due q
    rw [h.sendDeclare hpc]
    exact h.onward (hn (by simp [hpc])) s.path.link.seq (.takeGames false)
  case h_6 hpc =>
    obtain rfl := Option.some.inj hgo
    exact .inr (h.onward (hn (by simp [hpc])) s.path.link.seq (.takeGames false))
  case h_7 hpc =>
    obtain rfl := Option.some.inj hgo
    right
    unfold State.takeRequests
    split
    · exact h.onward (hn (by simp [hpc])) s.path.link.seq .sendScores
    · exact h.onward (hn (by simp [hpc])) s.path.link.seq .idle
  case h_8 hpc =>
    obtain rfl := Option.some.inj hgo
    right
    have hnf := hn (by simp [hpc])
    unfold State.sendScores
    split
    · exact h.onward hnf s.path.link.seq .idle
    · split
      · exact h.onward hnf s.path.link.seq .idle
      · split
        · exact h
        · exact h.onward hnf _ _
  case h_9 hpc =>
    obtain rfl := Option.some.inj hgo
    exact .inr (h.onward (hn (by simp [hpc])) s.path.link.seq .serve)
  case h_10 | h_11 => simp at hgo

/-- **Every step sends an owed batch, or gets closer to it**, as long as its connection lives, its
epoch is not declared otherwise and its source keeps it.

**Proof sketch.** By the step. A post of another table is excluded (`hpost`), a commit adds behind,
an eviction leaves the batch (`hevict`); the worker's own steps are `due_go` and `due_resume`. -/
theorem due_step {a : Act} (h : s.path.Due q) (hstep : step cfg s a = some s')
    (hs : s.path.Sorted) (hp : s.path.Posted) (ho : s.path.pc ≠ .offline)
    (ho' : s'.path.pc ≠ .offline)
    (hpost : ∀ d, a = .post d → q.epoch ≠ d.epoch ∨ d = s.path.link.declared)
    (hevict : ∀ i, a = .evict i → s.path.source.queue[i]? ≠ some q) :
    s'.path.HasSent q ∨ s'.path.Due q := by
  cases a with
  | post d =>
    obtain ⟨⟨hepoch, -⟩, hstep⟩ := Option.ite_none_right_eq_some.mp hstep
    obtain rfl := Option.some.inj hstep
    refine .inr (h.post ((hpost d rfl).symm.imp_right fun hne => ?_))
    have hle : q.epoch ≤ s.path.source.inForce.epoch := h.epoch ▸
      (hs.linked.declared h.haveDeclared).1.trans hs.linked.current.1
    omega
  | commit batch =>
    obtain ⟨hb, hstep⟩ := Option.dite_none_right_eq_some.mp hstep
    obtain rfl := Option.some.inj hstep
    exact .inr (h.commit batch hb)
  | evict i =>
    obtain rfl := Option.some.inj hstep
    exact .inr (h.evict (hevict i rfl))
  | request | takeResults =>
    obtain rfl := Option.some.inj hstep
    exact .inr h
  | connect token => exact absurd (Option.ite_none_right_eq_some.mp hstep).1 ho
  | go => exact due_go h hs hstep
  | recv msg =>
    change s.recv cfg msg = some s' at hstep
    unfold State.recv at hstep
    split at hstep
    case h_1 request k hpc =>
      split at hstep
      · obtain rfl := Option.some.inj hstep
        exact due_resume h hs hp hpc msg ho'
      · split at hstep
        · obtain rfl := Option.some.inj hstep
          exact .inr h
        · obtain rfl := Option.some.inj hstep
          exact .inr (due_dispatched h msg (.inl hpc.symm) ho')
    case h_2 hpc =>
      have hn : ¬ s.path.Flushing q := by simp [GamePath.Flushing, hpc]
      split at hstep
      · obtain rfl := Option.some.inj hstep
        exact .inr (h.onward hn s.path.link.seq .serve)
      · obtain rfl := Option.some.inj hstep
        exact .inr (due_dispatched h msg (.inr hn) ho')
    case h_3 => simp at hstep
  | ping =>
    obtain ⟨hpc, hstep⟩ := Option.ite_none_right_eq_some.mp hstep
    obtain rfl := Option.some.inj hstep
    exact .inr (h.onward (by simp [GamePath.Flushing, hpc]) _ _)
  | cut =>
    obtain ⟨-, hstep⟩ := Option.ite_none_right_eq_some.mp hstep
    obtain rfl := Option.some.inj hstep
    exact absurd rfl ho'

end Step

/-! ## Every step -/

/-- A Game goes out in one move only, under the declared and served table. -/
theorem GamePath.Moves.of_sent {Ask : Type} {p p' : GamePath Ask} {m : Move} (hm : p.Moves m p')
    {q : GamePost} {d : DeclareSnapshot} (he : p'.log.events = .sent q d :: p.log.events) :
    (∃ flush, p.pc = .sendGames flush) ∧ p.link.haveDeclared = true ∧
      p.link.serves p.link.declared = true ∧ q.epoch = p.link.declared.epoch ∧
      d = p.link.declared := by
  cases hm with
  | sent flush front rest hpc hg hd hepoch hs =>
    obtain ⟨heq, -⟩ := List.cons.inj he
    obtain ⟨rfl, rfl⟩ := GameEvent.sent.inj heq
    exact ⟨⟨flush, hpc⟩, hd, hs, hepoch, rfl⟩
  | handshake ack =>
    rw [events_handshake] at he
    cases hf : (p.games.takeSourceGames p.source.queue).handshake.fragment.reverse with
    | nil =>
      rw [hf] at he
      exact absurd he.symm (List.cons_ne_self _ _)
    | cons post posts => simp [hf] at he
  | posted | committed | evicted | connected | redeclared | took | left | leftUnserved | declaring
  | moved => exact absurd he.symm (List.cons_ne_self _ _)
  | failed | ended | dropped | droppedUnserved | acked | refused | declared =>
    cases (List.cons.inj he).1

/-- The Declare a Game goes out under: the one last acknowledged in the session, of the batch's
epoch, sent as an authored table to a daemon that offered authored tables at minor 1 or more, and no
Declare of a later epoch went out before. -/
structure Watch.Under (w : Watch) (q : GamePost) (d : DeclareSnapshot) : Prop where
  last : lastDeclared w.state.path.log.events = some d
  epoch : d.epoch = q.epoch
  authored : ∃ sent, w.out.head? = some (d, sent) ∧ sent.tableKind = Wire.tableAuthored
  offered : ∃ ack, w.offer = some ack ∧ 1 ≤ ack.protoMinor ∧
    ack.capabilities &&& Wire.capAuthoredTables ≠ 0
  latest : ∀ e ∈ w.out, e.1.epoch ≤ q.epoch

/-- What holds of a step that sends a Game or a Declare. -/
structure Watch.DeclaresFirst (w w' : Watch) : Prop where
  game : ∀ q d, w'.state.path.log.events = .sent q d :: w.state.path.log.events → w.Under q d
  /-- What is owed goes out before a Declare does. -/
  declare : ∀ now, w.state.path.goesOut w'.state.path = some now →
    ∀ q ∈ w.owed, w.state.path.HasSent q

/-- Every owed batch was sent or is due, and nothing is owed without a connection. -/
structure Watch.Owing (w : Watch) : Prop where
  offline : w.state.path.pc = .offline → w.owed = []
  due : ∀ q ∈ w.owed, w.state.path.HasSent q ∨ w.state.path.Due q

/-- A batch committed under the declared and served table is due. -/
theorem due_commit {s : State} (h : s.owes = true) (hp : s.path.Posted) (batch : Wire.GameBatch)
    (hb : committable batch.ops = true) :
    (s.path.commit batch hb).Due (s.path.committing batch hb) := by
  obtain ⟨-, hd, hcurrent, hforce, hserves⟩ := of_decide_eq_true h
  refine ⟨hd, ?_, hserves, fun d hl => .inl ?_, .inl ?_, .inl hcurrent⟩
  · show s.path.link.declared.epoch = s.path.source.inForce.epoch
    rw [hforce]
  · exact (hp.latch d hl).trans hforce.symm
  · exact List.mem_append_right _ List.mem_cons_self

/-- What is owed after a step was owed before it, or was committed in it.

**Proof sketch.** By what is owed after each kind of step: a post and an eviction keep those they do
not concern, a commit may add its batch, and all else keeps them. -/
theorem Watch.mem_nextOwed {cfg : Config} {w : Watch} {a : Act} {s' : State}
    (hs : step cfg w.state a = some s') {q : GamePost} (hq : q ∈ w.nextOwed a s') :
    s'.path.pc ≠ .offline ∧
    ((q ∈ w.owed ∧ (∀ d, a = .post d → q.epoch ≠ d.epoch ∨ d = w.state.path.link.declared) ∧
      ∀ i, a = .evict i → w.state.path.source.queue[i]? ≠ some q) ∨
    (w.state.owes = true ∧ ∃ batch hb, s'.path = w.state.path.commit batch hb ∧
      q = w.state.path.committing batch hb)) := by
  unfold Watch.nextOwed at hq
  split at hq
  · cases hq
  · rename_i ho
    refine ⟨ho, ?_⟩
    split at hq
    · rename_i d
      obtain ⟨hq, hd⟩ := List.mem_filter.mp hq
      exact .inl ⟨hq, fun e he => Act.post.inj he ▸ of_decide_eq_true hd, by simp⟩
    · rename_i batch
      split at hq
      · rename_i howes
        rcases List.mem_append.mp hq with hq | hq
        · exact .inl ⟨hq, by simp, by simp⟩
        · obtain ⟨hb, hs⟩ := Option.dite_none_right_eq_some.mp hs
          obtain rfl := Option.some.inj hs
          refine .inr ⟨howes, batch, hb, rfl, ?_⟩
          simpa [GamePath.commit] using hq
      · exact .inl ⟨hq, by simp, by simp⟩
    · rename_i i
      obtain ⟨hq, hi⟩ := List.mem_filter.mp hq
      exact .inl ⟨hq, by simp, fun j hj => Act.evict.inj hj ▸ of_decide_eq_true hi⟩
    · rename_i hpost _ hevict
      exact .inl ⟨hq, fun d hd => absurd hd (hpost d), fun i hi => absurd hi (hevict i)⟩

/-- Every step keeps every owed batch sent or due.

**Proof sketch.** A batch owed before was sent, stays sent, or is still due after the step
(`due_step`); one committed in this step is due from now on (`due_commit`). -/
theorem Watch.Owing.next {cfg : Config} {w : Watch} {a : Act} {s' : State} (h : w.Owing)
    (hsorted : w.state.path.Sorted) (hp : w.state.path.Posted)
    (hs : step cfg w.state a = some s') : (w.next a s').Owing where
  offline ho := if_pos ho
  due q hq := by
    obtain ⟨ho, ⟨hq, hpost, hevict⟩ | ⟨howes, batch, hb, hpath, rfl⟩⟩ := w.mem_nextOwed hs hq
    · have hlive : w.state.path.pc ≠ .offline := by
        intro hoff
        rw [h.offline hoff] at hq
        cases hq
      rcases h.due q hq with ⟨r, d, hr, heq⟩ | hdue
      · obtain ⟨m, hm⟩ := step_moves hs
        exact .inl ⟨r, d, (hm.flow hsorted.tracked).events_suffix.subset hr, heq⟩
      · exact due_step hdue hs hsorted hp hlive ho hpost hevict
    · right
      show s'.path.Due _
      rw [hpath]
      exact due_commit howes hp batch hb

/-- **In every run** every owed batch was sent or is due. -/
theorem watch_owing {cfg : Config} {w : Watch} (h : (watch cfg).Reachable w) :
    w.state.path.Sorted ∧ w.state.path.Posted ∧ w.Owing := by
  refine h.invariant (I := fun w => w.state.path.Sorted ∧ w.state.path.Posted ∧ w.Owing) ?_ ?_
  · rintro w ⟨d, rfl⟩
    exact ⟨GamePath.sorted_init ⟨d, rfl⟩, ⟨by simp [start], by simp [start]⟩,
      ⟨fun _ => rfl, by simp⟩⟩
  · rintro w a w' ⟨hsorted, hp, ho⟩ - hs
    obtain ⟨s', ht, rfl⟩ := Option.map_eq_some_iff.mp hs
    obtain ⟨m, hm⟩ := step_moves ht
    exact ⟨hsorted.moves hm, hp.moves hm, ho.next hsorted hp ht⟩

/-- A Declare goes out from `MaybeDeclare` only. -/
theorem path_of_goesOut {cfg : Config} {s s' : State} {a : Act} (h : step cfg s a = some s')
    {now : DeclareSnapshot} (hout : s.path.goesOut s'.path = some now) :
    s.path.pc = .declare ∧ s'.path = s.path.sendDeclare ∧ s'.path.pc ≠ .takeGames false := by
  unfold GamePath.goesOut at hout
  split at hout
  · rename_i hpc hpc'
    rcases step_pc h (by simp [hpc, hpc']) with ho | ⟨_, k, ho, hk⟩ | hgo | ⟨msg, rfl, hrecv⟩
    · cases hpc'.symm.trans ho
    · obtain ⟨-, rfl⟩ := Pc.exchange.inj (hpc'.symm.trans ho)
      rcases hk with hk | hk <;> cases hk
    · simp only [State.go, hpc] at hgo
      obtain rfl := Option.some.inj hgo
      exact ⟨hpc, rfl, by simp [hpc']⟩
    · simp [State.recv, hpc] at hrecv
  · cases hout

/-- **Games and Declares are ordered.** In every run a Game goes out only under the Declare last
acknowledged in its session, which has the batch's epoch and went out as an authored table to a
daemon that offered authored tables, and after no Declare of a later epoch; and no Declare goes out
before every batch committed while the declared table was the source's current one, as long as the
connection lives, the source drops none of them and their epoch is not declared otherwise.

**Proof sketch.** `SendGames` checks the front batch against the declared table, which is the newest
one that went out. An owed batch is in commit order behind batches of its own or an earlier epoch,
so the loop neither stops before it nor drops it; and `MaybeDeclare` reaches its Declare with the
batch still unsent only under the table already declared, for which it sends none. -/
theorem declares_first (cfg : Config) {w w' : Watch} {a : Act} (h : (watch cfg).Reachable w)
    (hs : (watch cfg).step w a w') : w.DeclaresFirst w' := by
  obtain ⟨hsorted, hp, ho⟩ := watch_owing h
  obtain ⟨s', ht, rfl⟩ := Option.map_eq_some_iff.mp hs
  constructor
  · intro q d he
    obtain ⟨m, hm⟩ := step_moves ht
    obtain ⟨⟨flush, hpc⟩, hd, hserves, hepoch, rfl⟩ := hm.of_sent he
    have hrec := watch_recorded h
    have hhead := hrec.declared hd (by simp [hpc]) (by simp [hpc])
    obtain ⟨ack, hack, hminor, hcaps⟩ := watch_offered h (by simp [Pc.past, hpc])
    obtain ⟨hkind, hallowed⟩ := Bool.and_eq_true_iff.mp hserves
    refine ⟨hsorted.declared hd (by simp [hpc]), hepoch.symm, ⟨_, hhead, ?_⟩, ⟨ack, hack, ?_⟩, ?_⟩
    · simpa [Link.asSent, hallowed] using hkind
    · simpa [Link.authoredAllowed, hminor, hcaps] using hallowed
    · intro e he
      obtain ⟨rest, hout⟩ := List.head?_eq_some_iff.mp hhead
      have hordered := hrec.ordered
      rw [hout] at he hordered
      rcases List.mem_cons.mp he with rfl | he
      · exact hepoch.ge
      · exact ((List.pairwise_cons.mp hordered).1 e he).trans hepoch.ge
  · intro now hout q hq
    obtain ⟨hpc, hpath, hne⟩ := path_of_goesOut ht hout
    refine (ho.due q hq).resolve_right fun hdue => hne ?_
    rw [hpath, hdue.sendDeclare hpc]

/-- A table is declared, a game is started on it, and another table is posted: the worker sends the
batch in the flush and comes to the other table's Declare. -/
def flushRun : List Act :=
  [.connect (some []), helloAckOf 1 Wire.capAuthoredTables, .go, .go, .go, ackOf 2, .go, .go, .go,
    .go, .commit startBatch, .post (tableOf 2 0), .go, .go, .go, .go, .go, ackOf 3, .go]

/-- The batch is owed, and it was sent when the Declare goes out. -/
theorem declares_first_flushRun : ∃ w w', Runs.runOf (watchStep {})
      { state := start (tableOf 1 0) } flushRun = some w ∧ (watch {}).step w .go w' ∧
    w.state.path.goesOut w'.state.path = some (tableOf 2 0) ∧ w.owed.map (·.serial) = [0] ∧
    w.DeclaresFirst w' := by
  have hrun : (Runs.runOf (watchStep {}) { state := start (tableOf 1 0) } flushRun).any (fun w =>
      (watchStep {} w .go).any fun w' => decide
        (w.state.path.goesOut w'.state.path = some (tableOf 2 0) ∧
          w.owed.map (·.serial) = [0])) = true := by
    decide +kernel
  obtain ⟨w, hw, hstep⟩ := (Option.any_eq_true _ _).mp hrun
  obtain ⟨w', hw', hout⟩ := (Option.any_eq_true _ _).mp hstep
  obtain ⟨hout, howed⟩ := of_decide_eq_true hout
  have hreach : (watch {}).Reachable w := Runs.reachable_of_runOf ⟨tableOf 1 0, rfl⟩ hw
  exact ⟨w, w', hw, hw', hout, howed, declares_first {} hreach hw'⟩

end Worker
