import ScorbitPlugin.Worker.Placement

set_option relaxedAutoImplicit false
set_option autoImplicit false

/-!
# How batches move on

What a move does to the retained and the fresh batches, with the events it records: a batch is
settled when it is acknowledged, refused or dropped, and settled batches come before all fresh
ones.

## Main definitions

* `Worker.GameEvent.settled` — the batch an event settles.
* `Worker.GamePath.Flow` — what a move does to the two parts.
* `Worker.GamePath.Settled` — the events and the two parts agree.

## Main results

* `Worker.GamePath.Moves.flow` — every move is a flow.
* `Worker.GamePath.settled` — the agreement holds in every state of every run.
-/

namespace Worker

open Codec

/-- The batch an event settles. -/
def GameEvent.settled : GameEvent → Option GamePost
  | .acked post | .refused post | .dropped post => some post
  | _ => none

namespace GamePath

variable {Ask : Type} {p p' : GamePath Ask} {m : Move}

/-- What a move does to the retained and the fresh batches. -/
inductive Flow (p p' : GamePath Ask) : Prop
  /-- Nothing moves on. -/
  | still (new : List GameEvent) (hnew : ∀ e ∈ new, e.settled = none)
      (he : p'.log.events = new ++ p.log.events) (ht : p'.log.taken = p.log.taken)
      (hr : p'.games.retained = p.games.retained) (hf : p'.games.fresh = p.games.fresh)
  /-- The source's batches are taken, and the replay goes or does not. -/
  | took (he : p'.log.events = p.log.events)
      (ht : p'.log.taken = p.log.taken ++ numberedFrom p.games.nextBatchId p.source.queue)
      (hr : p'.games.retained = p.games.retained ∨ p'.games.retained = [])
      (hf : p'.games.fresh =
        p.games.fresh ++ numberedFrom p.games.nextBatchId p.source.queue)
  /-- The source's batches are taken, and a fragment is erased. -/
  | handshake (fragment : List GamePost)
      (he : p'.log.events = fragment.reverse.map .dropped ++ p.log.events)
      (ht : p'.log.taken = p.log.taken ++ numberedFrom p.games.nextBatchId p.source.queue)
      (hr : p'.games.retained = p.games.retained)
      (hf : p.games.fresh ++ numberedFrom p.games.nextBatchId p.source.queue =
        fragment ++ p'.games.fresh)
  /-- A new table is declared. -/
  | discarded (new : List GameEvent) (hnew : ∀ e ∈ new, e.settled = none)
      (he : p'.log.events = new ++ p.log.events) (ht : p'.log.taken = p.log.taken)
      (hr : p'.games.retained = []) (hf : p'.games.fresh = p.games.fresh)
  | droppedFresh (q : GamePost) (he : p'.log.events = .dropped q :: p.log.events)
      (ht : p'.log.taken = p.log.taken) (hr : p'.games.retained = p.games.retained)
      (hf : p.games.fresh = q :: p'.games.fresh)
  | droppedReplayed (q : GamePost) (he : p'.log.events = .dropped q :: p.log.events)
      (ht : p'.log.taken = p.log.taken) (hr : p.games.retained = q :: p'.games.retained)
      (hf : p'.games.fresh = p.games.fresh)
  | ackedFresh (q : GamePost) (he : p'.log.events = .acked q :: p.log.events)
      (ht : p'.log.taken = p.log.taken)
      (hr : p'.games.retained = Games.extended p.games.retained q)
      (hf : p.games.fresh = q :: p'.games.fresh)
  | ackedReplayed (q : GamePost) (hq : q ∈ p.games.retained)
      (he : p'.log.events = .acked q :: p.log.events) (ht : p'.log.taken = p.log.taken)
      (hr : p'.games.retained = p.games.retained ∨
        (q.starts = false ∧ p.games.retained = q :: p'.games.retained))
      (hf : p'.games.fresh = p.games.fresh)
  | refused (q : GamePost) (he : p'.log.events = .refused q :: p.log.events)
      (ht : p'.log.taken = p.log.taken) (hr : p'.games.retained = [])
      (hf : p.games.fresh = q :: p'.games.fresh ∨
        (q ∈ p.games.retained ∧ p'.games.fresh = p.games.fresh))

/-- The front batch is a replayed one, or the first fresh one. -/
theorem mem_retained_of_replayed {g : Games} {front : GamePost} {rest : List GamePost}
    (hg : g.games = front :: rest) (hn : 0 < g.replayQueued) : front ∈ g.retained := by
  obtain ⟨n, hn⟩ : ∃ n, g.replayQueued = n + 1 := ⟨g.replayQueued - 1, by omega⟩
  simp [Games.retained_of_replayed hg hn]

/-- A batch popped unsent flows on. -/
theorem Flow.ofDropFront (h : p.Tracked) {flush : Bool} {front : GamePost} {rest : List GamePost}
    (hpc : p.pc = .sendGames flush) (hg : p.games.games = front :: rest)
    (hd : p.link.haveDeclared = true)
    (hw : front.epoch < p.link.declared.epoch ∨ p.served = false)
    (hgames : p'.games = p.games.popGame) (ht : p'.log.taken = p.log.taken)
    (he : p'.log.events = .dropped front :: p.log.events) : Flow p p' := by
  rcases Nat.eq_zero_or_pos p.games.replayQueued with hn | hn
  · refine .droppedFresh front he ht ?_ ?_
    · rw [hgames, Games.retained_popGame_fresh hn]
    · rw [hgames]
      exact Games.fresh_popGame_fresh hg hn
  · have hr := h.sending flush hpc hd
    have ho : p.games.openGame = [] := by
      rcases hw with hw | hw
      · have := h.epoch hd hr front (mem_retained_of_replayed hg hn)
        omega
      · exact h.unserved hd hr hw
    refine .droppedReplayed front he ht ?_ ?_
    · rw [hgames]
      exact Games.retained_popGame_replayed hg hn ho
    · rw [hgames, Games.fresh_popGame_replayed hg hn]

/-- **Every move is a flow.**

**Proof sketch.** By the kind of the move: most change no batch, and the others are a flow each. -/
theorem Moves.flow (h : p.Tracked) (hm : p.Moves m p') : Flow p p' := by
  cases hm with
  | ended | failed => exact .still [.ended] (by simp [GameEvent.settled]) rfl rfl rfl rfl
  | sent flush front =>
    exact .still [.sent front p.link.declared] (by simp [GameEvent.settled]) rfl rfl rfl rfl
  | posted | committed | evicted | connected | redeclared | left | leftUnserved | declaring
  | moved => exact .still [] (by simp) rfl rfl rfl rfl
  | handshake ack request hpc =>
    exact .handshake _ (events_handshake p ack) (noteDropped_taken _ _)
      (retained_handshake h.sound ack) (fresh_handshake h.sound ack)
  | took flush hpc =>
    exact .took rfl rfl (retained_takeGames h.sound flush) (fresh_takeGames h.sound flush)
  | dropped flush front rest hpc hg hd he => exact .ofDropFront h hpc hg hd (.inl he) rfl rfl rfl
  | droppedUnserved flush front rest hpc hg hd he hs' hc =>
    exact .ofDropFront h hpc hg hd (.inr (by simp [served, hs'])) rfl rfl rfl
  | acked flush request front rest hpc hg =>
    obtain ⟨-, he⟩ := h.epoch_front hpc hg
    rcases Nat.eq_zero_or_pos p.games.replayQueued with hn | hn
    · exact .ackedFresh front rfl rfl (Games.retained_acknowledged_fresh h.sound hn _ he)
        (Games.fresh_acknowledged_fresh h.sound hg hn _ he)
    · refine .ackedReplayed front (mem_retained_of_replayed hg hn) rfl rfl ?_
        (Games.fresh_acknowledged_replayed h.sound hg hn _)
      exact (Games.retained_acknowledged_replayed h.sound hg hn _).imp_right fun hr => hr.2
  | refused flush request front rest hpc hg =>
    obtain ⟨-, he⟩ := h.epoch_front hpc hg
    refine .refused front rfl rfl (Games.retained_refused h.sound.ops he) ?_
    rcases Nat.eq_zero_or_pos p.games.replayQueued with hn | hn
    · exact .inl (Games.fresh_refused_fresh h.sound hg hn he)
    · exact .inr ⟨mem_retained_of_replayed hg hn, Games.fresh_refused_replayed h.sound hg hn⟩
  | declared now request hpc =>
    by_cases hnew : p.link.newTable now = true
    · refine .discarded [.declared now] (by simp [GameEvent.settled]) rfl rfl ?_ ?_
      · simp [declareAcked, hnew, Games.retained_newTable]
      · simp [declareAcked, hnew, Games.fresh_newTable h.sound]
    · refine .still [.declared now] (by simp [GameEvent.settled]) rfl rfl ?_ ?_ <;>
        simp [declareAcked, hnew]

/-- The events and the two parts agree. -/
structure Settled (p : GamePath Ask) : Prop where
  /-- A settled batch was taken. -/
  taken : ∀ e ∈ p.log.events, ∀ q, e.settled = some q → q ∈ p.log.taken
  /-- A settled batch was committed before every fresh one. -/
  fresh : ∀ e ∈ p.log.events, ∀ q, e.settled = some q → ∀ r ∈ p.games.fresh, q.serial < r.serial
  /-- A retained batch was acknowledged. -/
  retained : ∀ q ∈ p.games.retained, .acked q ∈ p.log.events
  /-- A refused batch was committed before everything retained. -/
  refused : ∀ q, .refused q ∈ p.log.events → ∀ r ∈ p.games.retained, q.serial < r.serial

/-- A numbered batch of the source was committed after every batch taken. -/
theorem Ordered.lt_numbered (h : p.Ordered) {q r : GamePost} (hq : q ∈ p.log.taken)
    {id : UInt32} (hr : r ∈ numberedFrom id p.source.queue) : q.Before r := by
  obtain ⟨r, hmem, _, rfl⟩ := mem_numberedFrom hr
  simpa using (List.pairwise_append.mp h.before).2.2 q hq r hmem

/-- The batches taken are in commit order. -/
theorem Ordered.taken (h : p.Ordered) : p.log.taken.Pairwise GamePost.Before :=
  (List.pairwise_append.mp h.before).1

/-- The retained and the fresh batches were taken. -/
theorem Tracked.mem_taken (h : p.Tracked) {q : GamePost}
    (hq : q ∈ p.games.retained ∨ q ∈ p.games.fresh) : q ∈ p.log.taken :=
  h.placed.sublist.subset (List.mem_append.mpr hq)

/-- The queue is in commit order. -/
theorem Tracked.games_pairwise (h : p.Tracked) (ho : p.Ordered) :
    p.games.games.Pairwise GamePost.Before := by
  have hsub : p.games.games.Sublist (p.games.retained ++ p.games.fresh) := by
    rw [Games.retained, List.append_assoc, ← Games.games_eq]
    exact List.sublist_append_right _ _
  exact ho.taken.sublist (hsub.trans h.placed.sublist)

/-- The first fresh batch was committed before the others. -/
theorem Tracked.lt_fresh (h : p.Tracked) (ho : p.Ordered) {q : GamePost} {l : List GamePost}
    (hf : p.games.fresh = q :: l) {r : GamePost} (hr : r ∈ l) : q.serial < r.serial := by
  have hp := (List.pairwise_append.mp (ho.taken.sublist h.placed.sublist)).2.1
  rw [hf] at hp
  exact ((List.pairwise_cons.mp hp).1 r hr).serial

/-- The agreement after new events that settle nothing.

**Proof sketch.** The new events settle nothing, so what was settled is what was settled before, and
nothing is retained or fresh that was not. -/
theorem Settled.quiet (h : p.Settled) {new : List GameEvent} (hnew : ∀ e ∈ new, e.settled = none)
    (he : p'.log.events = new ++ p.log.events) (ht : p'.log.taken = p.log.taken)
    (hr : ∀ q ∈ p'.games.retained, q ∈ p.games.retained) (hf : p'.games.fresh = p.games.fresh) :
    p'.Settled where
  taken e hm q hq := by
    rw [he] at hm
    rw [ht]
    rcases List.mem_append.mp hm with hm | hm
    · simp [hnew e hm] at hq
    · exact h.taken e hm q hq
  fresh e hm q hq r hr' := by
    rw [he] at hm
    rw [hf] at hr'
    rcases List.mem_append.mp hm with hm | hm
    · simp [hnew e hm] at hq
    · exact h.fresh e hm q hq r hr'
  retained q hq := by
    rw [he]
    exact List.mem_append_right _ (h.retained q (hr q hq))
  refused q hq r hr' := by
    rw [he] at hq
    rcases List.mem_append.mp hq with hq | hq
    · simpa [GameEvent.settled] using hnew _ hq
    · exact h.refused q hq r (hr r hr')

/-- The agreement after one more batch is settled.

**Proof sketch.** The batch that is settled is older than all that is fresh, as those settled before
were. It is retained only where it was acknowledged. -/
theorem Settled.settle (h : p.Settled) {e : GameEvent} {q : GamePost} (hq : e.settled = some q)
    (he : p'.log.events = e :: p.log.events) (ht : p'.log.taken = p.log.taken)
    (hqt : q ∈ p.log.taken) (hsub : ∀ r ∈ p'.games.fresh, r ∈ p.games.fresh)
    (hlt : ∀ r ∈ p'.games.fresh, q.serial < r.serial)
    (hr : ∀ r ∈ p'.games.retained, r ∈ p.games.retained ∨ (e = .acked r ∧ r ∈ p.games.fresh))
    (href : ∀ r, e = .refused r → p'.games.retained = []) : p'.Settled where
  taken e' hm q' hq' := by
    rw [he] at hm
    rw [ht]
    rcases List.mem_cons.mp hm with rfl | hm
    · obtain rfl := Option.some.inj (hq.symm.trans hq')
      exact hqt
    · exact h.taken e' hm q' hq'
  fresh e' hm q' hq' r hr' := by
    rw [he] at hm
    rcases List.mem_cons.mp hm with rfl | hm
    · obtain rfl := Option.some.inj (hq.symm.trans hq')
      exact hlt r hr'
    · exact h.fresh e' hm q' hq' r (hsub r hr')
  retained r hr' := by
    rw [he]
    rcases hr r hr' with hm | ⟨rfl, -⟩
    · exact List.mem_cons_of_mem _ (h.retained r hm)
    · exact List.mem_cons_self ..
  refused q' hq' r hr' := by
    rw [he] at hq'
    rcases List.mem_cons.mp hq' with hq' | hq'
    · simp [href q' hq'.symm] at hr'
    · rcases hr r hr' with hm | ⟨-, hm⟩
      · exact h.refused q' hq' r hm
      · exact h.fresh _ hq' q' rfl r hm

/-- Every move keeps the events and the two parts in agreement.

**Proof sketch.** By the flow (`Moves.flow`). Taking brings younger batches than any settled.
Acknowledging, refusing and skipping settle the front, which is older than the rest; the other flows
settle nothing. -/
theorem Settled.moves (h : p.Settled) (ho : p.Ordered) (ht : p.Tracked) (hm : p.Moves m p') :
    p'.Settled := by
  cases hm.flow ht with
  | still new hnew he ht' hr hf => exact h.quiet hnew he ht' (fun q hq => hr ▸ hq) hf
  | discarded new hnew he ht' hr hf => exact h.quiet hnew he ht' (fun q hq => by simp [hr] at hq) hf
  | took he ht' hr hf =>
    have hsub : ∀ q ∈ p'.games.retained, q ∈ p.games.retained := by
      intro q hq
      rcases hr with hr | hr
      · exact hr ▸ hq
      · simp [hr] at hq
    refine ⟨?_, ?_, ?_, ?_⟩ <;> rw [he]
    · exact fun e hm q hq => ht' ▸ List.mem_append_left _ (h.taken e hm q hq)
    · intro e hm q hq r hr'
      rw [hf] at hr'
      rcases List.mem_append.mp hr' with hr' | hr'
      · exact h.fresh e hm q hq r hr'
      · exact (ho.lt_numbered (h.taken e hm q hq) hr').serial
    · exact fun q hq => h.retained q (hsub q hq)
    · exact fun q hq r hr' => h.refused q hq r (hsub r hr')
  | handshake fragment he ht' hr hf =>
    have hpair := (List.pairwise_append.mp
      ((ho.moves hm).taken.sublist (ht' ▸ (ht.placed.take _).sublist))).2.1
    rw [hf] at hpair
    have htaken : ∀ q ∈ fragment, q ∈ p'.log.taken := fun q hq => by
      rw [ht']
      refine (ht.placed.take _).sublist.subset (List.mem_append_right _ ?_)
      exact hf ▸ List.mem_append_left _ hq
    have hfresh : ∀ r ∈ p'.games.fresh, ∀ e ∈ p.log.events, ∀ q, e.settled = some q →
        q.serial < r.serial := by
      intro r hr' e hm q hq
      have hmem := hf ▸ List.mem_append_right fragment hr'
      rcases List.mem_append.mp hmem with hr' | hr'
      · exact h.fresh e hm q hq r hr'
      · exact (ho.lt_numbered (h.taken e hm q hq) hr').serial
    refine ⟨?_, ?_, ?_, ?_⟩ <;> rw [he]
    · intro e hm q hq
      rcases List.mem_append.mp hm with hm | hm
      · obtain ⟨q', hq', rfl⟩ := List.mem_map.mp hm
        obtain rfl := Option.some.inj hq
        exact htaken q' (List.mem_reverse.mp hq')
      · exact ht' ▸ List.mem_append_left _ (h.taken e hm q hq)
    · intro e hm q hq r hr'
      rcases List.mem_append.mp hm with hm | hm
      · obtain ⟨q', hq', rfl⟩ := List.mem_map.mp hm
        obtain rfl := Option.some.inj hq
        exact ((List.pairwise_append.mp hpair).2.2 q' (List.mem_reverse.mp hq') r hr').serial
      · exact hfresh r hr' e hm q hq
    · exact fun q hq => List.mem_append_right _ (h.retained q (hr ▸ hq))
    · intro q hq r hr'
      rcases List.mem_append.mp hq with hq | hq
      · simp at hq
      · exact h.refused q hq r (hr ▸ hr')
  | droppedFresh q he ht' hr hf =>
    exact h.settle (q := q) rfl he ht' (ht.mem_taken (.inr (by simp [hf])))
      (fun r hr' => by simp [hf, hr']) (fun r hr' => ht.lt_fresh ho hf hr')
      (fun r hr' => .inl (hr ▸ hr')) (fun _ => by simp)
  | droppedReplayed q he ht' hr hf =>
    refine h.settle (q := q) rfl he ht' (ht.mem_taken (.inl (by simp [hr]))) (fun r hr' => hf ▸ hr')
      (fun r hr' => ?_) (fun r hr' => .inl (by simp [hr, hr'])) (fun _ => by simp)
    exact (ht.placed.before ho.taken (by simp [hr]) (hf ▸ hr')).serial
  | ackedFresh q he ht' hr hf =>
    refine h.settle (q := q) rfl he ht' (ht.mem_taken (.inr (by simp [hf])))
      (fun r hr' => by simp [hf, hr']) (fun r hr' => ht.lt_fresh ho hf hr') (fun r hr' => ?_)
      (fun _ => by simp)
    rw [hr] at hr'
    rcases Games.extended_cases p.games.retained q with hx | ⟨-, -, ⟨-, hx⟩ | ⟨-, -, hx⟩⟩ <;>
      rw [hx] at hr'
    · cases hr'
    · obtain rfl := List.mem_singleton.mp hr'
      exact .inr ⟨rfl, by simp [hf]⟩
    · rcases List.mem_append.mp hr' with hr' | hr'
      · exact .inl hr'
      · obtain rfl := List.mem_singleton.mp hr'
        exact .inr ⟨rfl, by simp [hf]⟩
  | ackedReplayed q hq he ht' hr hf =>
    refine h.settle (q := q) rfl he ht' (ht.mem_taken (.inl hq)) (fun r hr' => hf ▸ hr')
      (fun r hr' => (ht.placed.before ho.taken hq (hf ▸ hr')).serial) (fun r hr' => .inl ?_)
      (fun _ => by simp)
    rcases hr with hr | ⟨-, hr⟩
    · exact hr ▸ hr'
    · exact hr ▸ List.mem_cons_of_mem _ hr'
  | refused q he ht' hr hf =>
    have hmem : q ∈ p.games.retained ∨ q ∈ p.games.fresh :=
      hf.symm.imp (fun hf => hf.1) (fun hf => by simp [hf])
    refine h.settle (q := q) rfl he ht' (ht.mem_taken hmem) (fun r hr' => ?_) (fun r hr' => ?_)
      (fun r hr' => by simp [hr] at hr') (fun _ _ => hr) <;> rcases hf with hf | ⟨hq, hf⟩
    · simp [hf, hr']
    · exact hf ▸ hr'
    · exact ht.lt_fresh ho hf hr'
    · exact (ht.placed.before ho.taken hq (hf ▸ hr')).serial

/-- Everything that holds of the batches in every state. -/
structure Sorted (p : GamePath Ask) : Prop where
  ordered : p.Ordered
  linked : p.Linked
  tracked : p.Tracked
  settled : p.Settled
  declared : p.Declared

/-- Every move keeps the batches sorted. -/
theorem Sorted.moves (h : p.Sorted) (hm : p.Moves m p') : p'.Sorted :=
  ⟨h.ordered.moves hm, h.linked.moves hm, h.tracked.moves h.ordered h.linked hm,
    h.settled.moves h.ordered h.tracked hm, h.declared.moves h.linked hm⟩

/-- The batches are sorted at the start. -/
theorem sorted_init (hp : system.init p) : p.Sorted := by
  have hi : system.Reaches (fun _ _ => True) p := .init hp
  refine ⟨ordered hi, linked hi, tracked hi, ?_, ?_⟩ <;> obtain ⟨d, rfl⟩ := hp
  · constructor <;> simp [Games.retained]
  · exact fun hd => by cases hd

/-- **In every run** the batches are sorted. -/
theorem sorted {cond : GamePath Ask → Move → Prop} (h : system.Reaches cond p) : p.Sorted :=
  h.invariant (fun _ hp => sorted_init hp) fun _ _ _ hI _ hm => hI.moves hm

end GamePath

end Worker
