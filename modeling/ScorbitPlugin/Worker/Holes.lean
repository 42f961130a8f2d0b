import ScorbitPlugin.Worker.Flow

set_option relaxedAutoImplicit false
set_option autoImplicit false

/-!
# No hole inside a delivered game

The worker drops a batch of a table that is no longer declared, or that is not served as an
authored one, and does not remember that the batch's game is broken: the game's later batches are
sent when a later Declare, or a later session, serves the table. So no game is sent with a hole
provided that, whenever batches of a served table come up to be sent, none continues a game that
lost a batch.

## Main definitions

* `Worker.Lost`, `Worker.Continues`, `Worker.HoleFree` — what is claimed of the batches sent.
* `Worker.GamePath.NoneBroken` — the condition on the steps.

## Main results

* `Worker.hole_free` — it holds in every state of the runs under the condition.
* `Worker.not_hole_free` — and fails in one of the others.
-/

namespace Worker

open Codec

/-- The worker discarded the batch, and the daemon never answered it. -/
def Lost (events : List GameEvent) (q : GamePost) : Prop :=
  .dropped q ∈ events ∧ .acked q ∉ events ∧ .refused q ∉ events

/-- The batch `r` was committed after `q` and before the next batch that begins a game. -/
def Continues (committed : List GamePost) (q r : GamePost) : Prop :=
  q.serial < r.serial ∧ ∀ x ∈ committed, x.starts = true → q.serial < x.serial → r.serial < x.serial

instance (committed : List GamePost) (q r : GamePost) : Decidable (Continues committed q r) :=
  inferInstanceAs (Decidable (_ ∧ _))

/-- No lost batch's game is continued by the batch. -/
def Unbroken (log : GameLog) (r : GamePost) : Prop :=
  ∀ q, Lost log.events q → ¬ Continues log.committed q r

/-- No batch was sent after one of its game's earlier batches was lost. The events are newest
first. -/
def HoleFree (committed : List GamePost) : List GameEvent → Prop
  | [] => True
  | .sent r _ :: older => (∀ q, Lost older q → ¬ Continues committed q r) ∧ HoleFree committed older
  | _ :: older => HoleFree committed older

/-- Another commit ends games, and continues none of the earlier batches'. -/
theorem Continues.of_commit {committed : List GamePost} {post q r : GamePost}
    (h : Continues (committed ++ [post]) q r) : Continues committed q r :=
  ⟨h.1, fun x hx => h.2 x (List.mem_append_left _ hx)⟩

/-- A commit makes no hole.

**Proof sketch.** By induction on the events. A batch continues no more than before when another one
is committed behind it. -/
theorem HoleFree.commit {committed : List GamePost} {events : List GameEvent}
    (h : HoleFree committed events) (post : GamePost) : HoleFree (committed ++ [post]) events := by
  induction events with
  | nil => trivial
  | cons e events ih =>
    cases e with
    | sent r d => exact ⟨fun q hq hc => h.1 q hq hc.of_commit, ih h.2⟩
    | _ => exact ih h

/-- Nor do batches that are dropped. -/
theorem HoleFree.of_dropped {committed posts : List GamePost} {events : List GameEvent}
    (h : HoleFree committed events) : HoleFree committed (posts.map .dropped ++ events) := by
  induction posts with
  | nil => exact h
  | cons post posts ih => exact ih

/-- A batch is lost by being dropped, or was lost before. -/
theorem Lost.of_append {new events : List GameEvent} {q : GamePost} (h : Lost (new ++ events) q) :
    .dropped q ∈ new ∨ Lost events q := by
  obtain ⟨hd, ha, hr⟩ := h
  rcases List.mem_append.mp hd with hd | hd
  · exact .inl hd
  · exact .inr ⟨hd, fun hm => ha (List.mem_append_right _ hm),
      fun hm => hr (List.mem_append_right _ hm)⟩

/-- An event that drops nothing loses nothing. -/
theorem Lost.of_cons {e : GameEvent} {events : List GameEvent} {q : GamePost}
    (h : Lost (e :: events) q) (he : ∀ q, e ≠ .dropped q) : Lost events q := by
  have happend : Lost ([e] ++ events) q := h
  rcases happend.of_append with hd | h
  · exact absurd (List.mem_singleton.mp hd).symm (he q)
  · exact h

namespace GamePath

variable {Ask : Type} {p p' : GamePath Ask} {m : Move}

/-- **The condition**: no fresh batch of a served table's epoch continues a game that lost a batch,
when the table's Declare is acknowledged, when its batches are taken from the source, and when a
batch of an earlier table is dropped in front of them. -/
def NoneBroken (p : GamePath Ask) : Move → Prop
  | .declared now => p.link.serves now = true →
      ∀ r ∈ p.games.games.drop p.games.replayQueued, r.epoch = now.epoch → Unbroken p.log r
  | .took => p.served = true →
      ∀ r ∈ p.source.queue, r.epoch = p.link.declared.epoch → Unbroken p.log r
  | .dropped front => p.served = true →
      ∀ r ∈ p.games.games.drop p.games.replayQueued, r.epoch = p.link.declared.epoch →
        ¬ Continues p.log.committed front r
  | _ => True

/-- No retained batch, and no fresh one of a served table, continues a game that lost a batch. -/
structure Intact (p : GamePath Ask) : Prop where
  retained : ∀ r ∈ p.games.retained, Unbroken p.log r
  fresh : p.served = true → ∀ r ∈ p.games.fresh, r.epoch = p.link.declared.epoch → Unbroken p.log r
  sent : HoleFree p.log.committed p.log.events

/-- **What a move must show**: the batches lost by it are continued by none that stays, and none
that stays continued a game broken before.

**Proof sketch.** What is lost now was lost before, and is continued by nothing that is held, or was
lost by the move, and the hypothesis says the same. -/
theorem Intact.of_lost (hc : p'.log.committed = p.log.committed)
    (hlost : ∀ q, Lost p'.log.events q → Lost p.log.events q ∨
      ((∀ r ∈ p'.games.retained, ¬ Continues p.log.committed q r) ∧
        (p'.served = true → ∀ r ∈ p'.games.fresh, r.epoch = p'.link.declared.epoch →
          ¬ Continues p.log.committed q r)))
    (hr : ∀ r ∈ p'.games.retained, Unbroken p.log r)
    (hf : p'.served = true → ∀ r ∈ p'.games.fresh, r.epoch = p'.link.declared.epoch →
      Unbroken p.log r)
    (he : HoleFree p.log.committed p'.log.events) : p'.Intact := by
  refine ⟨fun r hm q hq => ?_, fun hs r hm hep q hq => ?_, hc ▸ he⟩ <;> rw [hc]
  · rcases hlost q hq with hq | ⟨hq, -⟩
    · exact hr r hm q hq
    · exact hq r hm
  · rcases hlost q hq with hq | ⟨-, hq⟩
    · exact hf hs r hm hep q hq
    · exact hq hs r hm hep

/-- What leaves the batches and the declared table alone, and loses nothing. -/
theorem Intact.frame (h : p.Intact) (hc : p'.log.committed = p.log.committed)
    (hlost : ∀ q, Lost p'.log.events q → Lost p.log.events q)
    (hg : p'.games = p.games)
    (hl : p'.served = true → p.served = true ∧ p'.link.declared = p.link.declared)
    (he : HoleFree p.log.committed p'.log.events) : p'.Intact := by
  refine .of_lost hc (fun q hq => .inl (hlost q hq)) (hg ▸ h.retained) (fun hs => ?_) he
  obtain ⟨hs, hd⟩ := hl hs
  rw [hg, hd]
  exact h.fresh hs

/-- A batch popped unsent: a fresh one comes after everything retained, a replayed one was
answered.

**Proof sketch.** Of the batches lost now only the front one is new. A retained batch came before a
fresh front one and cannot continue it; a replayed front one was answered before, so it is not lost.
For the fresh batches this is the condition. -/
theorem Intact.dropFront (h : p.Intact) (hs : p.Sorted) {flush : Bool} {front : GamePost}
    {rest : List GamePost} (hpc : p.pc = .sendGames flush) (hg : p.games.games = front :: rest)
    (hd : p.link.haveDeclared = true)
    (hw : front.epoch < p.link.declared.epoch ∨ p.served = false)
    (hnone : p.served = true → ∀ r ∈ p.games.fresh, r.epoch = p.link.declared.epoch →
      ¬ Continues p.log.committed front r)
    (hgames : p'.games = p.games.popGame) (hlog : p'.log = p.log.note (.dropped front))
    (hserved : p'.served = p.served) (hdeclared : p'.link.declared = p.link.declared) :
    p'.Intact := by
  have ht := hs.tracked
  obtain ⟨-, -, hsuf⟩ := ht.dropFront hs.ordered.taken hpc hg hd hw
  have hfresh : ∀ r ∈ p'.games.fresh, r ∈ p.games.fresh := fun r hr =>
    Games.mem_fresh_of_popGame (hgames ▸ hr)
  have hret : ∀ r ∈ p'.games.retained, r ∈ p.games.retained := fun r hr =>
    hsuf.subset (hgames ▸ hr)
  refine .of_lost (by rw [hlog]; rfl) (fun q hq => ?_) (fun r hr => h.retained r (hret r hr))
    (fun hs' r hr he => h.fresh (hserved ▸ hs') r (hfresh r hr) (hdeclared ▸ he))
    (by rw [hlog]; exact h.sent)
  rw [hlog] at hq
  have happend : Lost ([.dropped front] ++ p.log.events) q := hq
  rcases happend.of_append with hq' | hq'
  · obtain rfl := GameEvent.dropped.inj (List.mem_singleton.mp hq')
    refine .inr ⟨fun r hr hcont => ?_, fun hs' r hr he => ?_⟩
    · rcases Nat.eq_zero_or_pos p.games.replayQueued with hn | hn
      · have hb := ht.placed.before hs.ordered.taken (hret r hr)
          (by rw [Games.fresh_of_zero hn, hg]; exact List.mem_cons_self ..)
        have := hb.serial
        have := hcont.1
        omega
      · exact hq.2.1 (List.mem_cons_of_mem _
          (hs.settled.retained _ (mem_retained_of_replayed hg hn)))
    · exact hnone (hserved ▸ hs') r (hfresh r hr) (hdeclared ▸ he)
  · exact .inl hq'

/-- A handshake's fragment comes after everything retained.

**Proof sketch.** The batches the handshake drops were queued behind all that is retained, so none
that stays continues them; and no table is served yet. -/
theorem Intact.handshake (h : p.Intact) (hs : p.Sorted) (hd : p.link.haveDeclared = false)
    (ack : Wire.HelloAck) : (p.handshake ack).Intact := by
  have ht := hs.tracked
  have hserved : (p.handshake ack).served = false := by
    simp [served, GamePath.handshake, takeSourceGames, hd]
  have hret := retained_handshake ht.sound ack
  refine .of_lost (noteDropped_committed _ _) (fun q hq => ?_) (hret ▸ h.retained)
    (fun hs' => by simp [hserved] at hs') ?_
  · rw [events_handshake] at hq
    rcases Lost.of_append hq with hq' | hq'
    · refine .inr ⟨fun r hr hcont => ?_, fun hs' => by simp [hserved] at hs'⟩
      obtain ⟨q', hmem, heq⟩ := List.mem_map.mp hq'
      obtain rfl := GameEvent.dropped.inj heq
      have hmem := List.mem_append_left (p.handshake ack).games.fresh (List.mem_reverse.mp hmem)
      rw [← fresh_handshake ht.sound] at hmem
      have hb : r.Before q' := by
        rw [hret] at hr
        rcases List.mem_append.mp hmem with hf | hn
        · exact ht.placed.before hs.ordered.taken hr hf
        · exact hs.ordered.lt_numbered (ht.mem_taken (.inl hr)) hn
      have := hb.serial
      have := hcont.1
      omega
    · exact .inl hq'
  · rw [events_handshake]
    exact h.sent.of_dropped

/-- `SendGames` takes batches that continue no broken game.

**Proof sketch.** The batches taken join the fresh ones, and the condition covers them. Those
retained were retained before, if they still are. -/
theorem Intact.took (h : p.Intact) (hs : p.Sorted) (hc : NoneBroken p .took) (flush : Bool) :
    (p.takeGames flush).Intact := by
  have ht := hs.tracked
  refine .of_lost (p := p) rfl (fun _ => .inl) (fun r hr => ?_) (fun hserved r hr he => ?_) h.sent
  · rcases retained_takeGames ht.sound flush with hret | hret <;> rw [hret] at hr
    · exact h.retained r hr
    · cases hr
  · rw [fresh_takeGames ht.sound] at hr
    rcases List.mem_append.mp hr with hr | hr
    · exact h.fresh hserved r hr he
    · obtain ⟨r, hmem, _, rfl⟩ := mem_numberedFrom hr
      exact hc hserved r hmem he

/-- A batch sent under a served table continues no broken game. -/
theorem Intact.front (h : p.Intact) (hserved : p.served = true) {front : GamePost}
    {rest : List GamePost} (hg : p.games.games = front :: rest)
    (he : front.epoch = p.link.declared.epoch) : Unbroken p.log front := by
  rcases Nat.eq_zero_or_pos p.games.replayQueued with hn | hn
  · exact h.fresh hserved front (by rw [Games.fresh_of_zero hn, hg]; exact List.mem_cons_self ..) he
  · exact h.retained front (mem_retained_of_replayed hg hn)

/-- Every move under the condition breaks no game that is still to be sent.

**Proof sketch.** By the kind of the move. A commit lets no batch continue more than it did. A batch
that is sent continues no lost one, because it was fresh or retained. An answered batch is not lost;
and a Declare that is acknowledged leaves fresh batches that the condition covers. -/
theorem Intact.moves (h : p.Intact) (hs : p.Sorted) (hc : NoneBroken p m) (hm : p.Moves m p') :
    p'.Intact := by
  have ht := hs.tracked
  cases hm with
  | committed batch hb =>
    refine ⟨fun r hr q hq hcont => h.retained r hr q hq hcont.of_commit,
      fun hs r hr he q hq hcont => h.fresh hs r hr he q hq hcont.of_commit, h.sent.commit _⟩
  | posted | evicted => exact h.frame rfl (fun _ => id) rfl (fun hs => ⟨hs, rfl⟩) h.sent
  | connected payload hpc =>
    exact h.frame rfl (fun _ => id) rfl (fun hs => by cases hs) h.sent
  | failed hpc =>
    exact h.frame rfl (fun q hq => hq.of_cons (by simp)) rfl (fun hs => by cases hs) h.sent
  | ended hpc =>
    exact h.frame rfl (fun q hq => hq.of_cons (by simp)) rfl (fun hs => ⟨hs, rfl⟩) h.sent
  | handshake ack request hpc => exact h.handshake hs (hs.linked.hello request hpc) ack
  | took flush hpc => exact h.took hs hc flush
  | redeclared | left | leftUnserved | declaring | moved =>
    exact h.frame rfl (fun _ => id) rfl (fun hs => ⟨hs, rfl⟩) h.sent
  | dropped flush front rest hpc hg hd he =>
    exact h.dropFront hs hpc hg hd (.inl he) hc rfl rfl rfl rfl
  | droppedUnserved flush front rest hpc hg hd he hs' hc' =>
    have hu : p.served = false := by simp [served, hs']
    exact h.dropFront hs hpc hg hd (.inr hu) (fun hs' => by simp [hu] at hs') rfl rfl rfl rfl
  | sent flush front rest hpc hg hd he hs' =>
    have hserved : p.served = true := by simp [served, hd, hs']
    exact h.frame rfl (fun q hq => hq.of_cons (by simp)) rfl (fun hs => ⟨hs, rfl⟩)
      ⟨h.front hserved hg he, h.sent⟩
  | acked flush request front rest hpc hg =>
    obtain ⟨hserved, -⟩ := ht.awaiting request flush hpc
    obtain ⟨hfe, he⟩ := ht.epoch_front hpc hg
    refine .of_lost (p := p) rfl (fun q hq => .inl (hq.of_cons (by simp))) (fun r hr => ?_)
      (fun _ r hr => h.fresh hserved r (ht.mem_fresh_gameAcked hpc hg hr)) h.sent
    rcases Games.mem_retained_acknowledged ht.sound hg _ he hr with hr | rfl
    · exact h.retained r hr
    · exact h.front hserved hg hfe
  | refused flush request front rest hpc hg =>
    obtain ⟨hserved, -⟩ := ht.awaiting request flush hpc
    obtain ⟨-, he⟩ := ht.epoch_front hpc hg
    refine .of_lost (p := p) rfl (fun q hq => .inl (hq.of_cons (by simp))) (fun r hr => ?_)
      (fun _ r hr => h.fresh hserved r (ht.mem_fresh_gameRefused hpc hg hr)) h.sent
    rw [gameRefused_games, Games.retained_refused ht.sound.ops he] at hr
    cases hr
  | declared now request hpc =>
    have hserves : (p.declareAcked now).served = true → p.link.serves now = true := by
      simp [served, GamePath.declareAcked, Link.serves, Link.authoredAllowed]
    have hgames : (∀ r ∈ (p.declareAcked now).games.retained, r ∈ p.games.retained) ∧
        (p.declareAcked now).games.fresh = p.games.fresh := by
      by_cases hnew : p.link.newTable now = true
      · simp [declareAcked, hnew, Games.retained_newTable, Games.fresh_newTable ht.sound]
      · simp [declareAcked, hnew]
    exact .of_lost (p := p) rfl (fun q hq => .inl (hq.of_cons (by simp)))
      (fun r hr => h.retained r (hgames.1 r hr))
      (fun hs' r hr => hc (hserves hs') r (hgames.2.symm ▸ hr : r ∈ p.games.fresh)) h.sent

end GamePath

/-- **No hole inside a delivered game**, in every run of the worker in which no batch of a served
table comes up to be sent that continues a game with a lost batch: not when its Declare is
acknowledged, not when it is taken, and not behind a batch that is dropped.

**Proof sketch.** Every run of the worker is a run of moves of the game path. The invariant says
that no retained batch, and no fresh one of a served table, continues a lost one. A batch that is
sent is one of these at that moment. -/
theorem hole_free (cfg : Config) {s : State}
    (h : (system cfg).Reaches (Held cfg GamePath.NoneBroken) s) :
    HoleFree s.path.log.committed s.path.log.events := by
  have hall : s.path.Sorted ∧ s.path.Intact := by
    refine ((simulation cfg _).reaches h).invariant
      (I := fun p => p.Sorted ∧ p.Intact) (fun p hp => ⟨GamePath.sorted_init hp, ?_⟩)
      fun p m p' hI hc hm => ⟨hI.1.moves hm, hI.2.moves hI.1 hc hm⟩
    obtain ⟨d, rfl⟩ := hp
    constructor <;> simp [GamePath.served, Games.retained, HoleFree]
  exact hall.2.sent

/-- A game's first batch is dropped by a session with a daemon that serves no authored tables, and
the next game's is sent in a session with one that does. -/
def freshStartRun : List Act :=
  [.commit startBatch, .connect (some []), helloAckOf 1 0, .go, .go, .go, ackOf 2, .go, .go, .go,
    .go, .go, .cut, .commit startBatch, .connect (some []), helloAckOf 1 Wire.capAuthoredTables,
    .go, .go, .go, ackOf 2, .go, .go]

/-- No batch held continues a dropped one, and none is of an earlier table. -/
def noneBroken (s : State) (_ : Act) : Bool :=
  ((s.path.games.games ++ s.path.source.queue).all fun r => s.path.log.events.all fun
    | .dropped q => !decide (Continues s.path.log.committed q r)
    | _ => true)
  && s.path.games.games.head?.all (s.path.link.declared.epoch ≤ ·.epoch)

/-- The second game is sent, without a hole. -/
theorem hole_free_freshStartRun : ∃ s,
    Runs.runOf (step {}) (start (tableOf 1 0)) freshStartRun = some s ∧
      (s.path.log.events.filter fun e => e matches .dropped ..).length = 1 ∧
      (s.path.log.events.filter fun e => e matches .sent ..).length = 1 ∧
      HoleFree s.path.log.committed s.path.log.events := by
  have hrun : (Runs.runOf (step {}) (start (tableOf 1 0)) freshStartRun).any (fun s =>
      (s.path.log.events.filter fun e => e matches .dropped ..).length == 1 &&
        (s.path.log.events.filter fun e => e matches .sent ..).length == 1) = true := by
    decide +kernel
  obtain ⟨s, hs, hlen⟩ := (Option.any_eq_true _ _).mp hrun
  simp only [Bool.and_eq_true, beq_iff_eq] at hlen
  refine ⟨s, hs, hlen.1, hlen.2, hole_free {} ?_⟩
  have hcheck : ∀ (s : State) (a : Act), noneBroken s a = true →
      Held {} GamePath.NoneBroken s a := by
    intro s a hc
    simp only [noneBroken, Bool.and_eq_true, List.all_eq_true] at hc
    have hunbroken : ∀ r ∈ s.path.games.games ++ s.path.source.queue, Unbroken s.path.log r := by
      intro r hr q hq
      simpa using hc.1 r hr _ hq.1
    refine .of_moves (fun m p' hm => ?_) a
    cases hm with
    | took => exact fun _ r hr _ => hunbroken r (List.mem_append_right _ hr)
    | declared =>
      exact fun _ r hr _ => hunbroken r (List.mem_append_left _ (List.mem_of_mem_drop hr))
    | dropped flush front rest hpc hg hd he =>
      have := hc.2
      simp only [hg, List.head?_cons, Option.all_some, decide_eq_true_eq] at this
      omega
    | _ => trivial
  exact Runs.System.Reaches.runOf hcheck freshStartRun (.init ⟨tableOf 1 0, rfl⟩)
    (by decide +kernel) hs

/-- A game's first batch is acknowledged, its second is dropped by a session with a daemon that
serves no authored tables, and its third is sent in a session with one that does. -/
def holeRun : List Act :=
  [.commit startBatch, .connect (some []), helloAckOf 1 Wire.capAuthoredTables, .go, .go, .go,
    ackOf 2, .go, .go, ackOf 3, .go, .go, .go, .cut,
    .commit ballBatch, .connect (some []), helloAckOf 1 0, .go, .go, .go, ackOf 2, .go, .go, .go,
    .go, .go, .go, .cut,
    .commit ballBatch, .connect (some []), helloAckOf 1 Wire.capAuthoredTables, .go, .go, .go,
    ackOf 2, .go, .go]

/-- **A game may be sent with a hole**: what a session without authored tables dropped is not
remembered by the next. -/
theorem not_hole_free : ∃ s, (system {}).Reachable s ∧
    ¬ HoleFree s.path.log.committed s.path.log.events := by
  have hrun : (Runs.runOf (step {}) (start (tableOf 1 0)) holeRun).any (fun s => decide
      (∃ r ∈ s.path.log.taken, ∃ q ∈ s.path.log.taken,
        s.path.log.events.head? = some (.sent r s.path.link.declared) ∧
        .dropped q ∈ s.path.log.events ∧ .acked q ∉ s.path.log.events ∧
        .refused q ∉ s.path.log.events ∧ Continues s.path.log.committed q r)) = true := by
    decide +kernel
  obtain ⟨s, hs, hany⟩ := (Option.any_eq_true _ _).mp hrun
  obtain ⟨r, -, q, -, hhead, hdropped, hacked, hrefused, hcont⟩ := of_decide_eq_true hany
  refine ⟨s, Runs.reachable_of_runOf ⟨tableOf 1 0, rfl⟩ hs, fun h => ?_⟩
  obtain ⟨older, he⟩ := List.head?_eq_some_iff.mp hhead
  rw [he] at h hdropped hacked hrefused
  refine h.1 q ⟨?_, ?_, ?_⟩ hcont
  · exact (List.mem_cons.mp hdropped).resolve_left (by simp)
  · exact fun hm => hacked (List.mem_cons_of_mem _ hm)
  · exact fun hm => hrefused (List.mem_cons_of_mem _ hm)

end Worker
