import ScorbitPlugin.Worker.Retained

set_option relaxedAutoImplicit false
set_option autoImplicit false

/-!
# Batch ids are a replay key

A batch is sent under one id and with the ops it was committed with, however often it is sent; ids
follow the order of commits, and within a session they only increase. So a daemon can tell by the
id alone whether it already has a batch.

A daemon need not be the peer of every session, nor be reached by every batch sent to it:
`Worker.Reached` is what may have reached a daemon, given the events. What it acknowledged did.

## Main definitions

* `Worker.sessionSent` — the batches sent since the connection was made.
* `Worker.Reached` — the batches that reached a daemon.
* `Worker.applied` — those of them it applied, skipping by the id.
* `Worker.GamePath.ReplayKey` — what is claimed of the ids.

## Main results

* `Worker.replay_key` — it holds in every state in which fewer than `2^32` batches were taken.
-/

namespace Worker

open Codec

/-- The batches sent since the connection was made, by the events, newest first. -/
def sessionSent : List GameEvent → List GamePost
  | [] => []
  | .ended :: _ => []
  | .sent post _ :: events => post :: sessionSent events
  | _ :: events => sessionSent events

/-- Dropped batches were not sent. -/
@[simp] theorem sessionSent_dropped (posts : List GamePost) (events : List GameEvent) :
    sessionSent (posts.map .dropped ++ events) = sessionSent events := by
  induction posts with
  | nil => rfl
  | cons post posts ih => exact ih

/-- A batch sent in the session was sent. -/
theorem sent_of_mem_sessionSent {events : List GameEvent} {q : GamePost}
    (h : q ∈ sessionSent events) : ∃ d, .sent q d ∈ events := by
  induction events with
  | nil => cases h
  | cons e events ih =>
    cases e with
    | sent post d =>
      rcases List.mem_cons.mp h with rfl | h
      · exact ⟨d, List.mem_cons_self⟩
      · exact (ih h).imp fun _ => List.mem_cons_of_mem _
    | ended => cases h
    | acked | refused | dropped | declared => exact (ih h).imp fun _ => List.mem_cons_of_mem _

namespace GamePath

variable {Ask : Type} {p p' : GamePath Ask} {m : Move}

/-- The batches of the queue that are still to be sent. -/
def behind (p : GamePath Ask) : List GamePost :=
  match p.pc with
  | .exchange _ (.game _) => p.games.games.tail
  | _ => p.games.games

/-- Behind a batch on its way are those after it. -/
theorem behind_of_exchange {request : Wire.Message} {flush : Bool}
    (hpc : p.pc = .exchange request (.game flush)) : p.behind = p.games.games.tail := by
  rw [behind, hpc]

/-- When nothing is on its way all are still to be sent. -/
theorem behind_of_quiet (hq : p.pc.quiet) : p.behind = p.games.games := by
  unfold behind
  split
  · rename_i hpc
    simp [hpc, Pc.quiet] at hq
  · rfl

/-- So they are when `SendGames` begins. -/
theorem behind_of_sendGames {flush : Bool} (hpc : p.pc = .sendGames flush) :
    p.behind = p.games.games := by
  rw [behind, hpc]

/-- The batches sent in a session were committed one after another, and before all that are still
to be sent. -/
structure InOrder (p : GamePath Ask) : Prop where
  taken : ∀ q d, .sent q d ∈ p.log.events → q ∈ p.log.taken
  sessions : ∀ events, events <:+ p.log.events →
    (sessionSent events).Pairwise fun a b => b.serial < a.serial
  behind : ∀ q ∈ sessionSent p.log.events, ∀ r ∈ p.behind, q.serial < r.serial
  /-- Batches are sent under a declared table, with the replay decided. -/
  begun : sessionSent p.log.events ≠ [] →
    p.pc ≠ .offline ∧ (∀ request, p.pc ≠ .exchange request .hello) ∧
    p.link.haveDeclared = true ∧ p.games.replayPending = false

/-- What records no batch sent and no end of a session, and has only younger batches to send than
before.

**Proof sketch.** The new events send nothing and end no session, so what this session sent and the
sessions before it are read as they were. -/
theorem InOrder.frame (h : p.InOrder) (ht : ∀ q ∈ p.log.taken, q ∈ p'.log.taken)
    (new : List GameEvent) (he : p'.log.events = new ++ p.log.events)
    (hnew : ∀ e ∈ new, e ≠ .ended ∧ ∀ q d, e ≠ .sent q d)
    (hbegun : sessionSent p.log.events ≠ [] → p'.pc ≠ .offline ∧
      (∀ request, p'.pc ≠ .exchange request .hello) ∧ p'.link.haveDeclared = true ∧
      p'.games.replayPending = false)
    (hb : sessionSent p.log.events ≠ [] → ∀ r ∈ p'.behind,
      r ∈ p.behind ∨ ∀ q ∈ p.log.taken, q.serial < r.serial) : p'.InOrder := by
  have hsent : ∀ l, (∀ e ∈ l, e ≠ GameEvent.ended ∧ ∀ q d, e ≠ .sent q d) →
      sessionSent (l ++ p.log.events) = sessionSent p.log.events := by
    intro l hl
    induction l with
    | nil => rfl
    | cons e l ih =>
      obtain ⟨he, hrest⟩ := List.forall_mem_cons.mp hl
      cases e with
      | sent q d => exact absurd rfl (he.2 q d)
      | ended => exact absurd rfl he.1
      | acked | refused | dropped | declared => exact ih hrest
  have hsessions : ∀ l, (∀ e ∈ l, e ≠ GameEvent.ended ∧ ∀ q d, e ≠ .sent q d) →
      ∀ events, events <:+ l ++ p.log.events →
      (sessionSent events).Pairwise fun a b => b.serial < a.serial := by
    intro l hl
    induction l with
    | nil => exact h.sessions
    | cons e l ih =>
      intro events hsuf
      rcases List.suffix_cons_iff.mp hsuf with rfl | hsuf
      · have := hsent _ hl
        rw [List.cons_append] at this
        exact this ▸ h.sessions _ List.suffix_rfl
      · exact ih (List.forall_mem_cons.mp hl).2 events hsuf
  refine ⟨fun q d hq => ?_, fun events hsuf => ?_, fun q hq r hr => ?_, fun hne => ?_⟩
  · rw [he] at hq
    rcases List.mem_append.mp hq with hq | hq
    · exact absurd rfl ((hnew _ hq).2 q d)
    · exact ht q (h.taken q d hq)
  · exact hsessions new hnew events (he ▸ hsuf)
  · rw [he, hsent new hnew] at hq
    rcases hb (List.ne_nil_of_mem hq) r hr with hr | hr
    · exact h.behind q hq r hr
    · obtain ⟨d, hd⟩ := sent_of_mem_sessionSent hq
      exact hr q (h.taken q d hd)
  · rw [he, hsent new hnew] at hne
    exact hbegun hne

/-- The end of a session. -/
theorem InOrder.ended (h : p.InOrder) (ht : p'.log.taken = p.log.taken)
    (he : p'.log.events = .ended :: p.log.events) : p'.InOrder := by
  refine ⟨fun q d hq => ?_, fun events hsuf => ?_, fun q hq => ?_, fun hne => ?_⟩
  · rw [he] at hq
    rw [ht]
    exact h.taken q d ((List.mem_cons.mp hq).resolve_left (by simp))
  · rw [he] at hsuf
    rcases List.suffix_cons_iff.mp hsuf with rfl | hsuf
    · exact List.Pairwise.nil
    · exact h.sessions events hsuf
  · rw [he] at hq
    cases hq
  · exact absurd (by rw [he]; rfl) hne

/-- What stays in the session, leaves its batches alone and goes on elsewhere. -/
theorem InOrder.onward (h : p.InOrder) (ht : p'.log.taken = p.log.taken)
    (new : List GameEvent) (he : p'.log.events = new ++ p.log.events)
    (hnew : ∀ e ∈ new, e ≠ .ended ∧ ∀ q d, e ≠ .sent q d)
    (hpc : p'.pc ≠ .offline ∧ ∀ request, p'.pc ≠ .exchange request .hello)
    (hd : p.link.haveDeclared = true → p'.link.haveDeclared = true)
    (hr : p'.games.replayPending = p.games.replayPending) (hb : p'.behind.Sublist p.behind) :
    p'.InOrder := by
  refine h.frame (fun q hq => ht ▸ hq) new he hnew (fun hne => ?_) fun _ r hr =>
    .inl (hb.subset hr)
  obtain ⟨-, -, hdecl, hreplay⟩ := h.begun hne
  exact ⟨hpc.1, hpc.2, hd hdecl, hr.trans hreplay⟩

/-- A quiet worker is connected, and past the handshake. -/
theorem Pc.ne_of_quiet {pc : Pc Ask} (hq : pc.quiet) :
    pc ≠ .offline ∧ ∀ request, pc ≠ .exchange request .hello := by
  constructor
  · rintro rfl
    cases hq
  · rintro request rfl
    cases hq

/-- Every move keeps the batches sent in order.

**Proof sketch.** By the kind of the move. A batch that is sent stands before all behind it. One
that is answered leaves the queue, and what is behind it was; a handshake begins with nothing sent,
and the rest are frames. -/
theorem InOrder.moves (h : p.InOrder) (hs : p.Sorted) (hm : p.Moves m p') : p'.InOrder := by
  cases hm with
  | posted | committed | evicted =>
    exact h.frame (fun _ hq => hq) [] rfl (by simp) h.begun fun _ r hr => .inl hr
  | connected payload hpc =>
    exact h.frame (fun _ hq => hq) [] rfl (by simp) (fun hne => absurd hpc (h.begun hne).1)
      fun hne => absurd hpc (h.begun hne).1
  | failed hpc => exact h.ended rfl rfl
  | ended hpc => exact h.ended rfl rfl
  | handshake ack request hpc =>
    refine h.frame (fun q hq => ?_) _ (events_handshake p ack) (by simp)
      (fun hne => absurd hpc ((h.begun hne).2.1 request))
      fun hne => absurd hpc ((h.begun hne).2.1 request)
    show q ∈ (noteDropped _ _).taken
    rw [noteDropped_taken]
    exact List.mem_append_left _ hq
  | redeclared pc hpc hq =>
    refine h.onward rfl [] rfl (by simp) (Pc.ne_of_quiet hq) id rfl ?_
    have hquiet : p.pc.quiet := by rw [hpc]; rfl
    rw [behind_of_quiet (p := { p.takeDeclare with pc := pc }) hq, behind_of_quiet hquiet]
    exact List.Sublist.refl _
  | took flush hpc =>
    have hquiet : p.pc.quiet := by rw [hpc]; rfl
    have hgames : sessionSent p.log.events ≠ [] →
        (p.takeGames flush).games = p.games.takeSourceGames p.source.queue := by
      intro hne
      refine if_neg fun hw => ?_
      have hpending : p.games.replayPending = true := hw.1
      rw [(h.begun hne).2.2.2] at hpending
      cases hpending
    refine h.frame (fun q hq => List.mem_append_left _ hq) [] rfl (by simp) (fun hne => ?_)
      fun hne r hr => ?_
    · obtain ⟨-, -, hd, hreplay⟩ := h.begun hne
      exact ⟨by simp [takeGames], by simp [takeGames], hd, by rw [hgames hne]; exact hreplay⟩
    · rw [behind_of_sendGames (p := p.takeGames flush) rfl, hgames hne] at hr
      rw [behind_of_quiet hquiet]
      refine (List.mem_append.mp hr).imp_right fun hr q hq => ?_
      exact (hs.ordered.lt_numbered hq hr).serial
  | left flush pc hpc hq hw =>
    refine h.onward rfl [] rfl (by simp) (Pc.ne_of_quiet hq) id rfl ?_
    rw [behind_of_quiet (p := { p with pc := pc }) hq, behind_of_sendGames hpc]
  | leftUnserved flush pc hpc hq hd hns =>
    refine h.onward rfl [] rfl (by simp) (Pc.ne_of_quiet hq) id rfl ?_
    rw [behind_of_quiet (p := { p.takeDeclare with pc := pc }) hq, behind_of_sendGames hpc]
    exact List.Sublist.refl _
  | dropped flush front rest hpc hg hd he =>
    refine h.onward rfl [.dropped front] rfl (by simp) (by simp [dropFront, hpc]) id rfl ?_
    rw [behind_of_sendGames (p := p.dropFront front) hpc, behind_of_sendGames hpc]
    exact List.tail_sublist _
  | droppedUnserved flush front rest hpc hg hd he hns hc =>
    refine h.onward rfl [.dropped front] rfl (by simp)
      (by simp [dropFront, takeDeclare, hpc]) id rfl ?_
    rw [behind_of_sendGames (p := p.takeDeclare.dropFront front) hpc, behind_of_sendGames hpc]
    exact List.tail_sublist _
  | sent flush front rest hpc hg hd he hserved =>
    have hahead : ∀ q ∈ sessionSent p.log.events, ∀ r ∈ front :: rest, q.serial < r.serial := by
      intro q hq r hr
      exact h.behind q hq r (by rwa [behind_of_sendGames hpc, hg])
    refine ⟨fun q d hq => ?_, fun events hsuf => ?_, fun q hq r hr => ?_, fun _ => ?_⟩
    · rcases List.mem_cons.mp hq with heq | hq
      · obtain ⟨rfl, -⟩ := GameEvent.sent.inj heq
        refine hs.tracked.placed.sublist.subset ?_
        rw [Games.retained, List.append_assoc, ← Games.games_eq, hg]
        exact List.mem_append_right _ List.mem_cons_self
      · exact h.taken q d hq
    · rcases List.suffix_cons_iff.mp hsuf with rfl | hsuf
      · refine List.pairwise_cons.mpr ⟨fun q hq => ?_, h.sessions _ List.suffix_rfl⟩
        exact hahead q hq front List.mem_cons_self
      · exact h.sessions events hsuf
    · have hrest : r ∈ rest := by
        have : r ∈ p.games.games.tail := hr
        rwa [hg] at this
      rcases List.mem_cons.mp hq with rfl | hq
      · have hpair := hs.tracked.games_pairwise hs.ordered
        rw [hg] at hpair
        exact ((List.pairwise_cons.mp hpair).1 r hrest).serial
      · exact hahead q hq r (List.mem_cons_of_mem _ hrest)
    · exact ⟨by simp [sendFront, send], by simp [sendFront, send], hd,
        hs.tracked.sending flush hpc hd⟩
  | acked flush request front rest hpc hg =>
    obtain ⟨-, he⟩ := hs.tracked.epoch_front hpc hg
    have hgames := Games.acknowledged_eq hs.tracked.sound.ops p.link.declared.identity he
    refine h.onward rfl [.acked front] rfl (by simp) (by simp [gameAcked]) id ?_ ?_
    · rw [gameAcked_games, hgames]
    · rw [behind_of_sendGames (p := p.gameAcked flush front) rfl, behind_of_exchange hpc,
        gameAcked_games, hgames]
  | refused flush request front rest hpc hg =>
    obtain ⟨-, he⟩ := hs.tracked.epoch_front hpc hg
    have hgames := Games.refused_eq hs.tracked.sound.ops he
    refine h.onward rfl [.refused front] rfl (by simp) (by simp [gameRefused]) id ?_ ?_
    · rw [gameRefused_games, hgames]
      split <;> rfl
    · rw [behind_of_sendGames (p := p.gameRefused flush front) rfl, behind_of_exchange hpc,
        gameRefused_games, hgames]
      split
      · exact List.drop_sublist _ _
      · exact List.Sublist.refl _
  | declaring payload hpc =>
    refine h.onward rfl [] rfl (by simp) (by simp [send]) id rfl ?_
    have hquiet : p.pc.quiet := by rw [hpc]; rfl
    exact behind_of_quiet hquiet ▸ List.Sublist.refl _
  | declared now request hpc =>
    refine h.onward rfl [.declared now] rfl (by simp) (Pc.ne_of_quiet (quiet_declareAcked p now))
      (fun _ => rfl) ?_ ?_
    · show (if _ then _ else _ : Games).replayPending = _
      split <;> rfl
    · have hbehind : p.behind = p.games.games := by rw [GamePath.behind, hpc]
      rw [behind_of_quiet (quiet_declareAcked p now), hbehind]
      show (if _ then _ else _ : Games).games.Sublist _
      split
      · exact List.drop_sublist _ _
      · exact List.Sublist.refl _
  | moved seq pc hpc =>
    rcases hpc with rfl | ⟨hp, hq⟩
    · exact h.frame (fun _ hq => hq) [] rfl (by simp) h.begun fun _ r hr => .inl hr
    · refine h.onward rfl [] rfl (by simp) (Pc.ne_of_quiet hq) id rfl ?_
      rw [behind_of_quiet (p := { p with link := { p.link with seq := seq }, pc := pc }) hq,
        behind_of_quiet hp]

end GamePath

/-! ## A daemon that skips by the id -/

/-- What may have reached a daemon, newest first, by the events: it is the peer of some of the
sessions, the one under way included or not, and some of what is sent to it never arrives. -/
inductive Reached : List GameEvent → Bool → List GamePost → Prop
  | start (peer : Bool) : Reached [] peer []
  | arrived {events : List GameEvent} {got : List GamePost} {q : GamePost} {d : DeclareSnapshot}
      (h : Reached events true got) : Reached (.sent q d :: events) true (q :: got)
  | missed {events : List GameEvent} {peer : Bool} {got : List GamePost} {q : GamePost}
      {d : DeclareSnapshot} (h : Reached events peer got) : Reached (.sent q d :: events) peer got
  /-- It acknowledges only what it got. -/
  | acked {events : List GameEvent} {peer : Bool} {got : List GamePost} {q : GamePost}
      (h : Reached events peer got) (hq : peer = true → q ∈ got) :
      Reached (.acked q :: events) peer got
  | ended {events : List GameEvent} {peer : Bool} {got : List GamePost}
      (h : Reached events peer got) (next : Bool) : Reached (.ended :: events) next got
  | refused {events : List GameEvent} {peer : Bool} {got : List GamePost} {q : GamePost}
      (h : Reached events peer got) : Reached (.refused q :: events) peer got
  | dropped {events : List GameEvent} {peer : Bool} {got : List GamePost} {q : GamePost}
      (h : Reached events peer got) : Reached (.dropped q :: events) peer got
  | declared {events : List GameEvent} {peer : Bool} {got : List GamePost} {d : DeclareSnapshot}
      (h : Reached events peer got) : Reached (.declared d :: events) peer got

/-- The daemon skips a batch: its id is at or below the highest it has applied. -/
def skips (has : List GamePost) (q : GamePost) : Bool :=
  has.any fun r => q.batch.batchId ≤ r.batch.batchId

/-- What the daemon applies of what reached it, newest first. -/
def applied : List GamePost → List GamePost
  | [] => []
  | q :: got => if skips (applied got) q then applied got else q :: applied got

/-- Each batch that reached the daemon was skipped exactly if it had it already. -/
def SkipsKnown : List GamePost → Prop
  | [] => True
  | q :: got => (skips (applied got) q = true ↔ q ∈ applied got) ∧ SkipsKnown got

/-- A batch that came before another in commit order, and reached the daemon after it, had reached
it before. -/
def Known : List GamePost → Prop
  | [] => True
  | q :: got => (∀ r ∈ got, q.serial ≤ r.serial → q ∈ got) ∧ Known got

/-- Under ids in commit order, the daemon skips what it knows.

**Proof sketch.** By induction on what arrived. A batch is skipped when its id is no greater than
the last applied, so when it is no younger; what is older than one that arrived was known, so it was
applied. -/
theorem Known.skipsKnown {got : List GamePost} (h : Known got)
    (hids : ∀ q ∈ got, ∀ r ∈ got, q.batch.batchId ≤ r.batch.batchId → q.serial ≤ r.serial) :
    SkipsKnown got ∧ ∀ q, q ∈ applied got ↔ q ∈ got := by
  induction got with
  | nil => exact ⟨trivial, fun q => Iff.rfl⟩
  | cons q got ih =>
    obtain ⟨hq, h⟩ := h
    obtain ⟨hskips, hmem⟩ := ih h fun a ha b hb =>
      hids a (List.mem_cons_of_mem _ ha) b (List.mem_cons_of_mem _ hb)
    have hiff : skips (applied got) q = true ↔ q ∈ applied got := by
      constructor
      · intro hskip
        obtain ⟨r, hr, hle⟩ := List.any_eq_true.mp hskip
        have hr := (hmem r).mp hr
        have hle := hids q List.mem_cons_self r (List.mem_cons_of_mem _ hr) (by simpa using hle)
        exact (hmem q).mpr (hq r hr hle)
      · exact fun hm => List.any_eq_true.mpr ⟨q, hm, by simp⟩
    refine ⟨⟨hiff, hskips⟩, fun a => ?_⟩
    unfold applied
    split
    · rename_i hskip
      rw [hmem, List.mem_cons]
      refine ⟨.inr, fun ha => ha.elim (fun ha => ?_) id⟩
      exact ha ▸ (hmem q).mp (hiff.mp hskip)
    · rw [List.mem_cons, List.mem_cons, hmem]

/-- Events that send nothing leave what reached the daemon.

**Proof sketch.** By induction on the new events, newest first. None of them sends, so what reached
the daemon is that from before; without an end of the session the daemon is the same, and an
acknowledged batch had reached it. -/
theorem Reached.of_append {new events : List GameEvent} {peer : Bool} {got : List GamePost}
    (h : Reached (new ++ events) peer got) (hnew : ∀ e ∈ new, ∀ q d, e ≠ .sent q d) :
    ∃ peer', Reached events peer' got ∧ ((∀ e ∈ new, e ≠ .ended) →
      peer' = peer ∧ ∀ q, peer = true → .acked q ∈ new → q ∈ got) := by
  induction new generalizing peer with
  | nil => exact ⟨peer, h, fun _ => ⟨rfl, by simp⟩⟩
  | cons e new ih =>
    obtain ⟨he, hrest⟩ := List.forall_mem_cons.mp hnew
    cases h with
    | arrived h => exact absurd rfl (he _ _)
    | missed h => exact absurd rfl (he _ _)
    | ended h next =>
      obtain ⟨peer', h, -⟩ := ih h hrest
      exact ⟨peer', h, fun hended => absurd rfl (hended _ List.mem_cons_self)⟩
    | acked h hq =>
      obtain ⟨peer', h, hpeer⟩ := ih h hrest
      refine ⟨peer', h, fun hended => ?_⟩
      obtain ⟨rfl, hacked⟩ := hpeer (List.forall_mem_cons.mp hended).2
      refine ⟨rfl, fun q hp hm => (List.mem_cons.mp hm).elim (fun heq => ?_) (hacked q hp)⟩
      exact GameEvent.acked.inj heq ▸ hq hp
    | refused h | dropped h | declared h =>
      obtain ⟨peer', h, hpeer⟩ := ih h hrest
      refine ⟨peer', h, fun hended => ?_⟩
      obtain ⟨rfl, hacked⟩ := hpeer (List.forall_mem_cons.mp hended).2
      refine ⟨rfl, fun q hp hm => hacked q hp ((List.mem_cons.mp hm).resolve_left (by simp))⟩

namespace GamePath

variable {Ask : Type} {p p' : GamePath Ask} {m : Move}

/-- What a move leaves to be sent was there before, or is younger than all that was taken.

**Proof sketch.** By the kind of the flow. What is taken from the source gets a new place behind all
that was taken; all else was retained or fresh before. -/
theorem Flow.older (hf : Flow p p') (ho : p.Ordered) {q : GamePost}
    (hq : q ∈ p'.games.retained ++ p'.games.fresh) :
    q ∈ p.games.retained ++ p.games.fresh ∨ ∀ r ∈ p.log.taken, r.serial < q.serial := by
  have hnumbered : q ∈ numberedFrom p.games.nextBatchId p.source.queue →
      ∀ r ∈ p.log.taken, r.serial < q.serial := fun hq r hr => (ho.lt_numbered hr hq).serial
  rw [List.mem_append] at hq ⊢
  cases hf with
  | still new hnew he ht hr hf => exact .inl (by rwa [hr, hf] at hq)
  | took he ht hr hf =>
    rw [hf, List.mem_append] at hq
    rcases hq with hq | hq | hq
    · rcases hr with hr | hr <;> rw [hr] at hq
      · exact .inl (.inl hq)
      · cases hq
    · exact .inl (.inr hq)
    · exact .inr (hnumbered hq)
  | handshake fragment he ht hr hf =>
    rcases hq with hq | hq
    · exact .inl (.inl (hr ▸ hq))
    · have hq : q ∈ p.games.fresh ++ numberedFrom p.games.nextBatchId p.source.queue :=
        hf ▸ List.mem_append_right _ hq
      exact (List.mem_append.mp hq).imp .inr hnumbered
  | discarded new hnew he ht hr hf => exact .inl (.inr (by simpa [hr, hf] using hq))
  | droppedFresh q' he ht hr hf =>
    exact .inl (hq.imp (fun hq => hr ▸ hq) fun hq => hf ▸ List.mem_cons_of_mem _ hq)
  | droppedReplayed q' he ht hr hf =>
    exact .inl (hq.imp (fun hq => hr ▸ List.mem_cons_of_mem _ hq) fun hq => hf ▸ hq)
  | ackedFresh q' he ht hr hf =>
    rcases hq with hq | hq
    · rw [hr] at hq
      rcases Games.extended_cases p.games.retained q' with hx | ⟨-, -, ⟨-, hx⟩ | ⟨-, -, hx⟩⟩ <;>
        rw [hx] at hq
      · cases hq
      · exact .inl (.inr (by simp [hf, List.mem_singleton.mp hq]))
      · rcases List.mem_append.mp hq with hq | hq
        · exact .inl (.inl hq)
        · exact .inl (.inr (by simp [hf, List.mem_singleton.mp hq]))
    · exact .inl (.inr (hf ▸ List.mem_cons_of_mem _ hq))
  | ackedReplayed q' hq' he ht hr hf =>
    refine .inl (hq.imp (fun hq => ?_) fun hq => hf ▸ hq)
    rcases hr with hr | ⟨-, hr⟩
    · exact hr ▸ hq
    · exact hr ▸ List.mem_cons_of_mem _ hq
  | refused q' he ht hr hf =>
    rcases hq with hq | hq
    · rw [hr] at hq
      cases hq
    · rcases hf with hf | ⟨-, hf⟩
      · exact .inl (.inr (hf ▸ List.mem_cons_of_mem _ hq))
      · exact .inl (.inr (hf ▸ hq))

/-- A daemon that got a batch got all that is left to be sent and was committed before it; and the
peer of the session has the open game, once the replay is decided. -/
structure Recalls (p : GamePath Ask) : Prop where
  known : ∀ {peer got}, Reached p.log.events peer got → Known got
  taken : ∀ {peer got}, Reached p.log.events peer got → ∀ q ∈ got, q ∈ p.log.taken
  left : ∀ {peer got}, Reached p.log.events peer got →
    ∀ q ∈ p.games.retained ++ p.games.fresh, ∀ r ∈ got, q.serial ≤ r.serial → q ∈ got
  openGame : ∀ {got}, Reached p.log.events true got → p.pc ≠ .offline →
    p.link.haveDeclared = true → p.games.replayPending = false → ∀ q ∈ p.games.openGame, q ∈ got

/-- What sends nothing: the open game is what it was, or its new batches are acknowledged. -/
theorem Recalls.frame (h : p.Recalls) (hs : p.Sorted) (hf : Flow p p')
    (ht : ∀ q ∈ p.log.taken, q ∈ p'.log.taken) (new : List GameEvent)
    (he : p'.log.events = new ++ p.log.events) (hnew : ∀ e ∈ new, ∀ q d, e ≠ .sent q d)
    (hopen : p'.pc ≠ .offline → p'.link.haveDeclared = true → p'.games.replayPending = false →
      (∀ e ∈ new, e ≠ .ended) ∧ ∀ q ∈ p'.games.openGame, .acked q ∈ new ∨
        (p.pc ≠ .offline ∧ p.link.haveDeclared = true ∧ p.games.replayPending = false ∧
          q ∈ p.games.openGame)) : p'.Recalls := by
  refine ⟨fun hr => ?_, fun hr q hq => ?_, fun hr q hq r hgot hle => ?_,
    fun hr hpc hd hreplay q hq => ?_⟩ <;> rw [he] at hr <;>
    obtain ⟨peer', hr, hpeer⟩ := hr.of_append hnew
  · exact h.known hr
  · exact ht q (h.taken hr q hq)
  · rcases hf.older hs.ordered hq with hq | hq
    · exact h.left hr q hq r hgot hle
    · have := hq r (h.taken hr r hgot)
      omega
  · obtain ⟨hended, hq'⟩ := hopen hpc hd hreplay
    obtain ⟨rfl, hacked⟩ := hpeer hended
    rcases hq' q hq with hq | ⟨hpc, hd, hreplay, hq⟩
    · exact hacked q rfl hq
    · exact h.openGame hr hpc hd hreplay q hq

/-- Every move keeps what daemons recall.

**Proof sketch.** By the kind of the move. What is sent is the oldest batch left but for the open
game, which the daemon of this session has, so of what is left it has all that is older. An
acknowledgment extends the open game by a batch it has. The other moves send nothing. -/
theorem Recalls.moves (h : p.Recalls) (hs : p.Sorted) (hm : p.Moves m p') : p'.Recalls := by
  have hf := hm.flow hs.tracked
  cases hm with
  | posted | committed | evicted =>
    exact h.frame hs hf (fun _ hq => hq) [] rfl (by simp) fun hpc hd hr =>
      ⟨by simp, fun q hq => .inr ⟨hpc, hd, hr, hq⟩⟩
  | connected payload hpc =>
    exact h.frame hs hf (fun _ hq => hq) [] rfl (by simp) fun _ hd => by cases hd
  | failed hpc =>
    exact h.frame hs hf (fun _ hq => hq) [.ended] rfl (by simp) fun hpc => absurd rfl hpc
  | ended hpc =>
    exact h.frame hs hf (fun _ hq => hq) [.ended] rfl (by simp) fun hpc => absurd rfl hpc
  | handshake ack request hpc =>
    refine h.frame hs hf (fun q hq => ?_) _ (events_handshake p ack) (by simp) fun _ hd => ?_
    · show q ∈ (noteDropped _ _).taken
      rw [noteDropped_taken]
      exact List.mem_append_left _ hq
    · have hd : p.link.haveDeclared = true := hd
      rw [hs.linked.hello request hpc] at hd
      cases hd
  | redeclared pc hpc hq | left flush pc hpc hq | leftUnserved flush pc hpc hq
  | declaring payload hpc =>
    exact h.frame hs hf (fun _ hq => hq) [] rfl (by simp) fun _ hd hr =>
      ⟨by simp, fun q hq => .inr ⟨by simp [hpc], hd, hr, hq⟩⟩
  | took flush hpc =>
    refine h.frame hs hf (fun q hq => List.mem_append_left _ hq) [] rfl (by simp)
      fun _ hd hr => ⟨by simp, fun q hq => .inr ?_⟩
    by_cases hw : p.games.replayPending = true ∧ p.link.haveDeclared = true
    · have hgames : (p.takeGames flush).games =
          (p.games.takeSourceGames p.source.queue).insertReplay p.link.declared := if_pos hw
      rw [hgames, Games.insertReplay_openGame] at hq
      cases hq
    · have hgames : (p.takeGames flush).games = p.games.takeSourceGames p.source.queue :=
        if_neg hw
      rw [hgames] at hr hq
      exact ⟨by simp [hpc], hd, hr, hq⟩
  | dropped flush front rest hpc | droppedUnserved flush front rest hpc =>
    exact h.frame hs hf (fun _ hq => hq) [.dropped front] rfl (by simp) fun _ hd hr =>
      ⟨by simp, fun q hq => .inr ⟨by simp [hpc], hd, hr, hq⟩⟩
  | sent flush front rest hpc hg hd he hserved =>
    have hall : p.games.retained ++ p.games.fresh = p.games.openGame ++ p.games.games := by
      rw [Games.retained, List.append_assoc, ← Games.games_eq]
    have hfront : front ∈ p.games.retained ++ p.games.fresh := by
      rw [hall, hg]
      exact List.mem_append_right _ List.mem_cons_self
    have hpair := hs.tracked.games_pairwise hs.ordered
    rw [hg] at hpair
    have hopen : ∀ {got}, Reached p.log.events true got → ∀ q ∈ p.games.openGame, q ∈ got :=
      fun hr => h.openGame hr (by simp [hpc]) hd (hs.tracked.sending flush hpc hd)
    refine ⟨fun hr => ?_, fun hr q hq => ?_, fun hr q hq r hgot hle => ?_, fun hr _ _ _ q hq => ?_⟩
    · cases hr with
      | arrived hr => exact ⟨fun r hgot hle => h.left hr front hfront r hgot hle, h.known hr⟩
      | missed hr => exact h.known hr
    · cases hr with
      | arrived hr =>
        rcases List.mem_cons.mp hq with rfl | hq
        · exact hs.tracked.placed.sublist.subset hfront
        · exact h.taken hr q hq
      | missed hr => exact h.taken hr q hq
    · cases hr with
      | arrived hr =>
        rcases List.mem_cons.mp hgot with rfl | hgot
        · -- of what is left, only the open game was committed before the batch sent
          have hq : q ∈ p.games.retained ++ p.games.fresh := hq
          rw [hall, hg] at hq
          rcases List.mem_append.mp hq with hq | hq
          · exact List.mem_cons_of_mem _ (hopen hr q hq)
          · rcases List.mem_cons.mp hq with rfl | hq
            · exact List.mem_cons_self
            · have := ((List.pairwise_cons.mp hpair).1 q hq).serial
              omega
        · exact List.mem_cons_of_mem _ (h.left hr q hq r hgot hle)
      | missed hr => exact h.left hr q hq r hgot hle
    · cases hr with
      | arrived hr => exact List.mem_cons_of_mem _ (hopen hr q hq)
      | missed hr => exact hopen hr q hq
  | acked flush request front rest hpc hg =>
    obtain ⟨-, he⟩ := hs.tracked.epoch_front hpc hg
    refine h.frame hs hf (fun _ hq => hq) [.acked front] rfl (by simp) fun _ hd hr =>
      ⟨by simp, fun q hq => ?_⟩
    rw [gameAcked_games, Games.acknowledged_eq hs.tracked.sound.ops _ he] at hr hq
    have hq : q ∈ Games.extended p.games.openGame front := hq
    rcases Games.extended_cases p.games.openGame front with hx | ⟨-, -, ⟨-, hx⟩ | ⟨-, -, hx⟩⟩ <;>
      rw [hx] at hq
    · cases hq
    · exact .inl (by simp [List.mem_singleton.mp hq])
    · rcases List.mem_append.mp hq with hq | hq
      · exact .inr ⟨by simp [hpc], hd, hr, hq⟩
      · exact .inl (by simp [List.mem_singleton.mp hq])
  | refused flush request front rest hpc hg =>
    obtain ⟨-, he⟩ := hs.tracked.epoch_front hpc hg
    refine h.frame hs hf (fun _ hq => hq) [.refused front] rfl (by simp) fun _ hd hr =>
      ⟨by simp, fun q hq => ?_⟩
    have hnone := Games.retained_refused hs.tracked.sound.ops he
    have hq : q ∈ (p.games.refused front).retained := List.mem_append_left _ hq
    rw [hnone] at hq
    cases hq
  | declared now request hpc =>
    refine h.frame hs hf (fun _ hq => hq) [.declared now] rfl (by simp) fun _ hd hr =>
      ⟨by simp, fun q hq => .inr ?_⟩
    by_cases hnew : p.link.newTable now = true
    · simp [declareAcked, hnew, Games.discardQueuedReplay, Games.dropOpenGame] at hq
    · have hgames : (p.declareAcked now).games = p.games := by simp [declareAcked, hnew]
      rw [hgames] at hr hq
      refine ⟨by simp [hpc], ?_, hr, hq⟩
      -- before the session's first Declare an open game is still to be replayed
      by_contra hnone
      obtain ⟨-, hopen⟩ := hs.tracked.opening (by simpa using hnone) (by simp [hpc]) (by simp [hpc])
      rw [hopen (List.ne_nil_of_mem hq)] at hr
      cases hr
  | moved seq pc hpc =>
    refine h.frame hs hf (fun _ hq => hq) [] rfl (by simp) fun hoff hd hr =>
      ⟨by simp, fun q hq => .inr ⟨?_, hd, hr, hq⟩⟩
    rcases hpc with rfl | ⟨hp, -⟩
    · exact hoff
    · exact (Pc.ne_of_quiet hp).1

/-! ## The ids as a replay key -/

/-- The batches taken, and those still queued, are committed batches under their place and with
their ops. -/
def AsCommitted (p : GamePath Ask) : Prop :=
  ∀ q ∈ p.log.taken ++ p.source.queue,
    ∃ c, p.log.committed[q.serial]? = some c ∧ c.batch.ops = q.batch.ops

/-- Taking the queued batches keeps their places and ops. -/
theorem AsCommitted.takeSourceGames (h : p.AsCommitted) : p.takeSourceGames.AsCommitted := by
  intro q hq
  simp only [GamePath.takeSourceGames, List.append_nil, List.mem_append] at hq
  rcases hq with hq | hq
  · exact h q (List.mem_append_left _ hq)
  · obtain ⟨r, hr, id, rfl⟩ := mem_numberedFrom hq
    exact h r (List.mem_append_right _ hr)

/-- Every move keeps the batches as they were committed.

**Proof sketch.** A commit adds a batch at its place and leaves the others where they are. Taking,
sending and answering keep each batch with its serial and ops. -/
theorem AsCommitted.moves (h : p.AsCommitted) (hm : p.Moves m p') : p'.AsCommitted := by
  cases hm with
  | committed batch hb =>
    have hlt : ∀ {q c}, p.log.committed[q]? = some c →
        (p.log.committed ++ [p.committing batch hb])[q]? = some c := fun hc => by
      rw [List.getElem?_append_left (List.getElem?_eq_some_iff.mp hc).1, hc]
    intro q hq
    simp only [commit, ← List.append_assoc, List.mem_append (s := _ ++ _), List.mem_singleton]
      at hq
    rcases hq with hq | rfl
    · obtain ⟨c, hc, hops⟩ := h q hq
      exact ⟨c, hlt hc, hops⟩
    · exact ⟨p.committing batch hb, by simp [commit, committing], rfl⟩
  | evicted i =>
    intro q hq
    refine h q ?_
    rcases List.mem_append.mp hq with hq | hq
    · exact List.mem_append_left _ hq
    · exact List.mem_append_right _ ((List.eraseIdx_sublist _ i).subset hq)
  | handshake ack request hpc =>
    intro q hq
    simpa [GamePath.handshake] using h.takeSourceGames q (by simpa [GamePath.handshake] using hq)
  | took flush hpc => exact h.takeSourceGames
  | posted | connected | failed | ended | redeclared | left | leftUnserved | dropped
  | droppedUnserved | sent | acked | refused | declaring | declared | moved => exact h

/-- **Batch ids are a replay key.** -/
structure ReplayKey (p : GamePath Ask) : Prop where
  /-- What is sent was taken from the source. -/
  taken : ∀ q d, .sent q d ∈ p.log.events → q ∈ p.log.taken
  /-- A batch is the same each time it is sent. -/
  same : ∀ q d q' d', .sent q d ∈ p.log.events → .sent q' d' ∈ p.log.events →
    q.serial = q'.serial → q.batch = q'.batch
  /-- It has the ops it was committed with. -/
  ops : ∀ q d, .sent q d ∈ p.log.events →
    ∃ c, p.log.committed[q.serial]? = some c ∧ c.batch.ops = q.batch.ops
  /-- Ids follow the order of commits. -/
  order : ∀ q ∈ p.log.taken, ∀ r ∈ p.log.taken,
    q.serial < r.serial ↔ q.batch.batchId < r.batch.batchId
  /-- At every point of a session, the ids sent in it so far are strictly increasing. -/
  sessions : ∀ events, events <:+ p.log.events →
    (sessionSent events).Pairwise fun later earlier =>
      earlier.batch.batchId < later.batch.batchId
  /-- A daemon that skips by the id skips what it has, and has all that reached it. -/
  skips : ∀ peer got, Reached p.log.events peer got →
    SkipsKnown got ∧ ∀ q, q ∈ applied got ↔ q ∈ got

/-- Fewer than `2^32` batches have ids in commit order. -/
theorem Numbered.pairwise (hn : p.Numbered) (ho : p.Ordered) (hlen : p.log.taken.length < 2 ^ 32) :
    ∀ q ∈ p.log.taken, ∀ r ∈ p.log.taken,
      q = r ∨ (q.serial < r.serial ∧ q.batch.batchId < r.batch.batchId) ∨
        (r.serial < q.serial ∧ r.batch.batchId < q.batch.batchId) := by
  have hids : p.log.taken.Pairwise fun a b => a.batch.batchId < b.batch.batchId := by
    rw [← List.pairwise_map (f := fun q : GamePost => q.batch.batchId), hn.ids]
    exact pairwise_batchIds hlen
  have hboth := (ho.taken.imp GamePost.Before.serial).and hids
  let related (q r : GamePost) : Prop :=
    q = r ∨ (q.serial < r.serial ∧ q.batch.batchId < r.batch.batchId) ∨
      (r.serial < q.serial ∧ r.batch.batchId < q.batch.batchId)
  have hforward : p.log.taken.Pairwise related := hboth.imp fun h => .inr (.inl h)
  have hbackward : p.log.taken.Pairwise (flip related) := hboth.imp fun h => .inr (.inr h)
  exact fun q hq r hr =>
    List.Pairwise.forall_of_forall_of_flip (fun _ _ => .inl rfl) hforward hbackward hq hr

/-- The invariants make the ids a replay key.

**Proof sketch.** The ids are numbered in the order taken, so below 2^32 they order batches as their
serials do. The rest is read off the invariants. -/
theorem replayKey (hs : p.Sorted) (hn : p.Numbered) (hi : p.InOrder) (hr : p.Recalls)
    (hc : p.AsCommitted) (hlen : p.log.taken.length < 2 ^ 32) : p.ReplayKey := by
  have hpair := hn.pairwise hs.ordered hlen
  have horder : ∀ q ∈ p.log.taken, ∀ r ∈ p.log.taken,
      q.serial < r.serial ↔ q.batch.batchId < r.batch.batchId := by
    intro q hq r hr
    rcases hpair q hq r hr with rfl | ⟨hs, hid⟩ | ⟨hs, hid⟩
    · simp
    · exact ⟨fun _ => hid, fun _ => hs⟩
    · exact ⟨fun h => absurd h (by omega), fun h => absurd h (UInt32.lt_asymm hid)⟩
  refine ⟨hi.taken, fun q d q' d' hq hq' heq => ?_,
    fun q d hq => hc q (List.mem_append_left _ (hi.taken q d hq)), horder,
    fun events hsuf => ?_, fun peer got hgot => ?_⟩
  · rcases hpair q (hi.taken q d hq) q' (hi.taken q' d' hq') with rfl | ⟨hs, -⟩ | ⟨hs, -⟩
    · rfl
    · omega
    · omega
  · refine (hi.sessions events hsuf).imp_of_mem fun {a b} ha hb hlt => ?_
    have hmem : ∀ q ∈ sessionSent events, q ∈ p.log.taken := fun q hq => by
      obtain ⟨d, hd⟩ := sent_of_mem_sessionSent hq
      exact hi.taken q d (hsuf.subset hd)
    exact (horder b (hmem b hb) a (hmem a ha)).mp hlt
  · refine (hr.known hgot).skipsKnown fun q hq r hr' hle => ?_
    by_contra hlt
    have := (horder r (hr.taken hgot r hr') q (hr.taken hgot q hq)).mp (by omega)
    exact absurd hle (UInt32.not_le.mpr this)

/-- The invariants hold in every run.

**Proof sketch.** Five invariants at once, since the moves' lemmas of three of them use the first.
At the start nothing is logged, and the worker is offline. -/
theorem replayKey_invariant (h : system.Reaches (fun _ _ => True) p) :
    p.Sorted ∧ p.Numbered ∧ p.InOrder ∧ p.Recalls ∧ p.AsCommitted := by
  refine h.invariant (I := fun p => p.Sorted ∧ p.Numbered ∧ p.InOrder ∧ p.Recalls ∧ p.AsCommitted)
    (fun p hp => ⟨sorted_init hp, ?_⟩) fun p m p' ⟨hs, hn, hi, hr, hc⟩ _ hm =>
      ⟨hs.moves hm, hn.moves hs.tracked hm, hi.moves hs hm, hr.moves hs hm, hc.moves hm⟩
  obtain ⟨d, rfl⟩ := hp
  refine ⟨⟨rfl, rfl⟩, ⟨by simp, by simp [sessionSent], by simp [sessionSent],
      by simp [sessionSent]⟩,
    ⟨?_, ?_, ?_, ?_⟩, by simp [AsCommitted]⟩
  · rintro peer got (_ | _)
    trivial
  · rintro peer got (_ | _)
    simp
  · rintro peer got (_ | _)
    simp
  · rintro got (_ | _)
    exact fun hpc => absurd rfl hpc

end GamePath

/-- **Batch ids are a usable replay key.** In every state of every run in which fewer than `2^32`
batches were taken, a batch has the same id and ops each time it is sent, ids follow the commits,
they only increase within a session, and a daemon that skips by the id skips what it has.

**Proof sketch.** Within a session what is still to be sent was committed after all that was sent,
since the replay goes in front before anything is sent. Whatever reached a daemon, all that is left
to be sent and was committed before it reached that daemon too: a batch is sent with nothing but
the open game before it, and the open game was acknowledged in the session. -/
theorem replay_key (cfg : Config) {s : State} (h : (system cfg).Reachable s)
    (hlen : s.path.log.taken.length < 2 ^ 32) : s.path.ReplayKey := by
  have hsim := (simulation cfg fun _ _ => True).reaches
    (h.mono fun s a _ => Held.of_moves (fun _ _ _ => trivial) a)
  obtain ⟨hs, hn, hi, hr, hc⟩ := GamePath.replayKey_invariant hsim
  exact GamePath.replayKey hs hn hi hr hc hlen

/-- A game's two batches are acknowledged, the connection ends, and the next session sends them
again with a third behind them. -/
def replayRun : List Act :=
  [.commit startBatch, .commit ballBatch, .connect (some []), helloAckOf 1 Wire.capAuthoredTables,
    .go, .go, .go, ackOf 2, .go, .go, ackOf 3, .go, ackOf 4, .go, .go, .go, .cut,
    .commit ballBatch, .connect (some []), helloAckOf 1 Wire.capAuthoredTables,
    .go, .go, .go, ackOf 2, .go, .go, ackOf 3, .go, ackOf 4, .go, ackOf 5]

/-- The ids of the two sessions: `1` and `2`, then `1`, `2` and `3`. -/
theorem replay_key_replayRun :
    ∃ s, Runs.runOf (step {}) (start (tableOf 1 0)) replayRun = some s ∧
      (s.path.log.events.filterMap fun
        | .sent q _ => some q.batch.batchId
        | _ => none) = [3, 2, 1, 2, 1] ∧ s.path.ReplayKey := by
  have hrun : (Runs.runOf (step {}) (start (tableOf 1 0)) replayRun).any (fun s =>
      decide ((s.path.log.events.filterMap fun
        | .sent q _ => some q.batch.batchId
        | _ => none) = [3, 2, 1, 2, 1] ∧ s.path.log.taken.length < 2 ^ 32)) = true := by
    decide +kernel
  obtain ⟨s, hs, hids⟩ := (Option.any_eq_true _ _).mp hrun
  obtain ⟨hids, hlen⟩ := of_decide_eq_true hids
  exact ⟨s, hs, hids, replay_key {} (Runs.reachable_of_runOf ⟨tableOf 1 0, rfl⟩ hs) hlen⟩

end Worker
