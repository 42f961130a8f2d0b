import ScorbitPlugin.Worker.Tracking

set_option relaxedAutoImplicit false
set_option autoImplicit false

/-!
# Where every batch is

The batches taken so far are, in commit order, those done with, the retained ones, those skipped
and the fresh ones. The skipped ones are of a later epoch than the retained ones, so nothing of the
retained game is missing. What the worker has checked where it stands completes the invariant.

## Main definitions

* `Worker.Placed` — the four parts.
* `Worker.GamePath.served` — games are sent under the declared table.
* `Worker.GamePath.Tracked` — the invariant.

## Main results

* `Worker.GamePath.tracked` — it holds in every state of every run.
-/

namespace Worker

open Codec

/-! ## The four parts -/

/-- The batches taken are some done with, the retained ones, some skipped and the fresh ones; with
any retained, the skipped ones are of a later epoch. -/
def Placed (taken retained : List GamePost) (epoch : ℕ) (fresh : List GamePost) : Prop :=
  ∃ done skipped, taken = done ++ retained ++ skipped ++ fresh ∧
    (retained ≠ [] → ∀ q ∈ skipped, epoch < q.epoch)

namespace Placed

variable {taken retained fresh : List GamePost} {epoch : ℕ}

/-- Less retained. -/
theorem suffix (h : Placed taken retained epoch fresh) {retained' : List GamePost} {epoch' : ℕ}
    (hs : retained' <:+ retained) (he : retained' ≠ [] → epoch' = epoch) :
    Placed taken retained' epoch' fresh := by
  obtain ⟨done, skipped, heq, hskip⟩ := h
  obtain ⟨gone, rfl⟩ := hs
  refine ⟨done ++ gone, skipped, by simp [heq], fun hne => ?_⟩
  rw [he hne]
  exact hskip (by simp [hne])

/-- Nothing retained. -/
theorem drop (h : Placed taken retained epoch fresh) (epoch' : ℕ) : Placed taken [] epoch' fresh :=
  h.suffix List.nil_suffix fun hne => absurd rfl hne

/-- Fresh batches skipped. -/
theorem skip {fragment : List GamePost} (h : Placed taken retained epoch (fragment ++ fresh))
    (hf : retained ≠ [] → ∀ q ∈ fragment, epoch < q.epoch) : Placed taken retained epoch fresh := by
  obtain ⟨done, skipped, heq, hskip⟩ := h
  refine ⟨done, skipped ++ fragment, by simp [heq], fun hne q hq => ?_⟩
  rcases List.mem_append.mp hq with hq | hq
  · exact hskip hne q hq
  · exact hf hne q hq

/-- The first fresh batch skipped. -/
theorem skip_front {front : GamePost} (h : Placed taken retained epoch (front :: fresh))
    (hf : retained ≠ [] → epoch < front.epoch) : Placed taken retained epoch fresh := by
  have happend : Placed taken retained epoch ([front] ++ fresh) := h
  refine happend.skip fun hne q hq => ?_
  obtain rfl := List.mem_singleton.mp hq
  exact hf hne

/-- More taken. -/
theorem take (h : Placed taken retained epoch fresh) (more : List GamePost) :
    Placed (taken ++ more) retained epoch (fresh ++ more) := by
  obtain ⟨done, skipped, heq, hskip⟩ := h
  exact ⟨done, skipped, by simp [heq], hskip⟩

/-- What is retained and what is fresh are in commit order. -/
theorem sublist (h : Placed taken retained epoch fresh) : (retained ++ fresh).Sublist taken := by
  obtain ⟨done, skipped, rfl, -⟩ := h
  exact ((List.sublist_append_right _ _).trans (List.sublist_append_left _ _)).append
    (List.Sublist.refl _)

/-- What is retained was committed before what is fresh. -/
theorem before (h : Placed taken retained epoch fresh) (ht : taken.Pairwise GamePost.Before)
    {a b : GamePost} (ha : a ∈ retained) (hb : b ∈ fresh) : a.Before b := by
  exact (List.pairwise_append.mp (ht.sublist h.sublist)).2.2 a ha b hb

/-- The retained batches are in commit order. -/
theorem pairwise (h : Placed taken retained epoch fresh) (ht : taken.Pairwise GamePost.Before) :
    retained.Pairwise GamePost.Before := by
  exact (List.pairwise_append.mp (ht.sublist h.sublist)).1

/-- **An acknowledged batch of the retained game's epoch follows it directly.**

**Proof sketch.** By what becomes of the retained ones: they are done with, and the batch too; or
the batch begins them anew; or it joins them, and then it follows them directly, as a skipped one
between would be of a later epoch. -/
theorem extended {front : GamePost} (h : Placed taken retained epoch (front :: fresh))
    (ht : taken.Pairwise GamePost.Before) (he : retained ≠ [] → front.epoch = epoch) :
    Placed taken (Games.extended retained front) (Games.openedEpoch epoch front) fresh := by
  obtain ⟨done, skipped, heq, hskip⟩ := h
  rcases Games.extended_cases retained front with hr | ⟨hends, -, ⟨-, hr⟩ | ⟨hs, hne, hr⟩⟩
  · rw [hr]
    exact ⟨done ++ retained ++ skipped ++ [front], [], by simp [heq], by simp⟩
  · rw [hr]
    exact ⟨done ++ retained ++ skipped, [], by simp [heq], by simp⟩
  · -- a skipped batch would be of a later epoch than the front batch behind it
    have hnil : skipped = [] := by
      by_contra hc
      obtain ⟨q, hq⟩ := List.exists_mem_of_ne_nil _ hc
      rw [heq] at ht
      have hb := (List.pairwise_append.mp ht).2.2 q (by simp [hq]) front (by simp)
      have := hskip hne q hq
      have := hb.epoch
      have := he hne
      omega
    rw [hr]
    exact ⟨done, [], by simp [heq, hnil], by simp⟩

end Placed

/-! ## The invariant -/

namespace GamePath

variable {Ask : Type} {p p' : GamePath Ask} {m : Move}

/-- Games are sent under the declared table. -/
def served (p : GamePath Ask) : Bool := p.link.haveDeclared && p.link.serves p.link.declared

/-- What holds of the batches in every state. -/
structure Tracked (p : GamePath Ask) : Prop where
  sound : p.games.Sound
  placed : Placed p.log.taken p.games.retained p.games.gameOpenEpoch p.games.fresh
  /-- Once a session's replay is decided, the retained game is the declared table's. -/
  table : p.link.haveDeclared = true → p.games.replayPending = false → p.games.retained ≠ [] →
    p.games.gameOpenEpoch = p.link.declared.epoch
  /-- No open game builds up under a table that is not served. -/
  unserved : p.link.haveDeclared = true → p.games.replayPending = false → p.served = false →
    p.games.openGame = []
  /-- Before a session's first Declare nothing of a replay is queued, and an open game is to be
  replayed. -/
  opening : p.link.haveDeclared = false → p.pc ≠ .offline →
    (∀ request, p.pc ≠ .exchange request .hello) →
    p.games.replayQueued = 0 ∧ (p.games.openGame ≠ [] → p.games.replayPending = true)
  /-- `SendGames`' loop runs with the replay decided. -/
  sending : ∀ flush, p.pc = .sendGames flush → p.link.haveDeclared = true →
    p.games.replayPending = false
  /-- A batch under way is the front one, of the declared and served table. -/
  awaiting : ∀ request flush, p.pc = .exchange request (.game flush) →
    p.served = true ∧ p.games.replayPending = false ∧
      ∃ front rest, p.games.games = front :: rest ∧ front.epoch = p.link.declared.epoch
  /-- A served table's replay is sent in one go. -/
  replaying : p.served = true →
    (p.pc.quiet ∨ ∃ request now, p.pc = .exchange request (.declare now)) →
    p.games.replayQueued = 0

/-- Under a served table with the replay decided, the retained batches are of the declared epoch. -/
theorem Tracked.epoch (h : p.Tracked) (hd : p.link.haveDeclared = true)
    (hr : p.games.replayPending = false) :
    ∀ q ∈ p.games.retained, q.epoch = p.link.declared.epoch :=
  fun q hq => (h.sound.epoch q hq).trans (h.table hd hr (List.ne_nil_of_mem hq))

/-- The front batch under way is of the open game's epoch. -/
theorem Tracked.epoch_front (h : p.Tracked) {request : Wire.Message} {flush : Bool}
    (hpc : p.pc = .exchange request (.game flush)) {front : GamePost} {rest : List GamePost}
    (hg : p.games.games = front :: rest) :
    front.epoch = p.link.declared.epoch ∧ ∀ q ∈ p.games.openGame, front.epoch = q.epoch := by
  obtain ⟨hs, hr, front', rest', hg', he⟩ := h.awaiting request flush hpc
  obtain ⟨rfl, -⟩ := List.cons.inj (hg.symm.trans hg')
  have hd : p.link.haveDeclared = true := (Bool.and_eq_true_iff.mp hs).1
  exact ⟨he, fun q hq => he.trans (h.epoch hd hr q (List.mem_append_left _ hq)).symm⟩

/-- What leaves the batches, the declared table and the worker's place alone. -/
theorem Tracked.frame (h : p.Tracked) {p' : GamePath Ask} (hg : p'.games = p.games)
    (ht : p'.log.taken = p.log.taken) (hd : p'.link.haveDeclared = p.link.haveDeclared)
    (hd' : p'.link.declared = p.link.declared) (hs : p'.served = p.served) (hpc : p'.pc = p.pc) :
    p'.Tracked where
  sound := hg ▸ h.sound
  placed := by rw [hg, ht]; exact h.placed
  table := by rw [hg, hd, hd']; exact h.table
  unserved := by rw [hg, hd, hs]; exact h.unserved
  opening := by rw [hg, hd, hpc]; exact h.opening
  sending := by rw [hg, hd, hpc]; exact h.sending
  awaiting := by rw [hg, hd', hs, hpc]; exact h.awaiting
  replaying := by rw [hg, hs, hpc]; exact h.replaying

/-- What leaves the batches and the declared table alone, and puts the worker where it waits for
neither a batch's answer nor a HelloAck. -/
theorem Tracked.settle (h : p.Tracked) {p' : GamePath Ask} (hg : p'.games = p.games)
    (ht : p'.log.taken = p.log.taken) (hd : p'.link.haveDeclared = p.link.haveDeclared)
    (hd' : p'.link.declared = p.link.declared) (hs : p'.served = p.served)
    (hpc : p'.pc.quiet ∨ ∃ request now, p'.pc = .exchange request (.declare now))
    (ho : p.pc ≠ .offline) (hh : ∀ request, p.pc ≠ .exchange request .hello)
    (hr : p.served = true → p.games.replayQueued = 0) : p'.Tracked where
  sound := hg ▸ h.sound
  placed := by rw [hg, ht]; exact h.placed
  table := by rw [hg, hd, hd']; exact h.table
  unserved := by rw [hg, hd, hs]; exact h.unserved
  opening := by rw [hg, hd]; exact fun hd _ _ => h.opening hd ho hh
  sending flush hpc' := by
    rcases hpc with hq | ⟨_, _, hq⟩
    · exact absurd hpc' (Pc.quiet_ne_sendGames hq)
    · simp [hq] at hpc'
  awaiting request flush hpc' := by
    rcases hpc with hq | ⟨_, _, hq⟩
    · exact absurd hpc' (Pc.quiet_ne_game hq)
    · simp [hq] at hpc'
  replaying := by rw [hg, hs]; exact fun hs _ => hr hs

/-- The worker goes offline, or to its Hello. -/
theorem Tracked.leave (h : p.Tracked) {p' : GamePath Ask} (hg : p'.games = p.games)
    (ht : p'.log.taken = p.log.taken)
    (hl : p'.link.haveDeclared = true →
      p.link.haveDeclared = true ∧ p'.link.declared = p.link.declared ∧ p'.served = p.served)
    (hpc : p'.pc = .offline ∨ ∃ request, p'.pc = .exchange request .hello) : p'.Tracked where
  sound := hg ▸ h.sound
  placed := by rw [hg, ht]; exact h.placed
  table hd := by
    obtain ⟨hd, hd', -⟩ := hl hd
    rw [hg, hd']
    exact h.table hd
  unserved hd := by
    obtain ⟨hd, -, hs⟩ := hl hd
    rw [hg, hs]
    exact h.unserved hd
  opening hd ho hh := by
    rcases hpc with hpc | ⟨request, hpc⟩
    · exact absurd hpc ho
    · exact absurd hpc (hh request)
  sending flush hpc' := by rcases hpc with hpc | ⟨_, hpc⟩ <;> simp [hpc] at hpc'
  awaiting request flush hpc' := by rcases hpc with hpc | ⟨_, hpc⟩ <;> simp [hpc] at hpc'
  replaying _ hpc' := by rcases hpc with hpc | ⟨_, hpc⟩ <;> simp [hpc, Pc.quiet] at hpc'

/-- A batch popped unsent is skipped, or a replayed one of a table that is not served.

**Proof sketch.** A fresh batch is skipped: what is retained before it would be of the declared
epoch and of a served table. A replayed one is retained, so it is of the declared epoch and the
table is not served; then none is retained before it, and it leaves the replay from its front. -/
theorem Tracked.dropFront (h : p.Tracked) (ht : p.log.taken.Pairwise GamePost.Before) {flush : Bool}
    {front : GamePost} {rest : List GamePost} (hpc : p.pc = .sendGames flush)
    (hg : p.games.games = front :: rest) (hd : p.link.haveDeclared = true)
    (hw : front.epoch < p.link.declared.epoch ∨ p.served = false) :
    p.games.popGame.Sound ∧
      Placed p.log.taken p.games.popGame.retained p.games.popGame.gameOpenEpoch
        p.games.popGame.fresh ∧ p.games.popGame.retained <:+ p.games.retained := by
  have hr := h.sending flush hpc hd
  rcases Nat.eq_zero_or_pos p.games.replayQueued with hn | hn
  · have hret := Games.retained_popGame_fresh hn
    refine ⟨h.sound.popGame hg (fun h0 => by omega), ?_, hret ▸ List.suffix_rfl⟩
    have hp := h.placed
    rw [Games.fresh_popGame_fresh hg hn] at hp
    rw [hret]
    refine hp.skip_front fun hne => ?_
    -- a retained batch before it would be of the declared epoch, so served and not older
    obtain ⟨q, hq⟩ := List.exists_mem_of_ne_nil _ hne
    have hb := (hp.before ht hq (List.mem_cons_self ..)).epoch
    rw [h.epoch hd hr q hq] at hb
    rcases hw with hw | hw
    · omega
    · rw [Games.retained_of_zero hn, h.unserved hd hr hw] at hq
      cases hq
  · have hmem : front ∈ p.games.retained := by
      obtain ⟨n, hn⟩ : ∃ n, p.games.replayQueued = n + 1 := ⟨p.games.replayQueued - 1, by omega⟩
      simp [Games.retained_of_replayed hg hn]
    have ho : p.games.openGame = [] := by
      rcases hw with hw | hw
      · have := h.epoch hd hr front hmem
        omega
      · exact h.unserved hd hr hw
    have hsuf : p.games.popGame.retained <:+ p.games.retained := by
      rw [Games.retained_popGame_replayed hg hn ho]
      exact List.suffix_cons _ _
    refine ⟨h.sound.popGame hg fun _ => ho, ?_, hsuf⟩
    rw [Games.fresh_popGame_replayed hg hn]
    exact h.placed.suffix hsuf fun _ => rfl

/-- The loop goes on with fewer batches of the same table.

**Proof sketch.** The table is declared and the replay is in the queue, so the clauses about
opening, awaiting and replaying do not apply. -/
theorem tracked_onward {flush : Bool} {p' : GamePath Ask}
    (hsound : p'.games.Sound)
    (hplaced : Placed p'.log.taken p'.games.retained p'.games.gameOpenEpoch p'.games.fresh)
    (hd : p'.link.haveDeclared = true)
    (hr : p'.games.replayPending = false)
    (ht : p'.games.retained ≠ [] → p'.games.gameOpenEpoch = p'.link.declared.epoch)
    (hu : p'.served = false → p'.games.openGame = []) (hpc : p'.pc = .sendGames flush) :
    p'.Tracked where
  sound := hsound
  placed := hplaced
  table _ _ := ht
  unserved _ _ := hu
  opening hd' := by simp [hd] at hd'
  sending _ _ _ := hr
  awaiting _ _ hpc' := by simp [hpc] at hpc'
  replaying _ hpc' := by simp [hpc, Pc.quiet] at hpc'

/-- A handshake takes the source's batches and the replay back, and skips the fragment.

**Proof sketch.** The source's batches are taken behind the fresh ones, the replay is taken back to
where it was retained, and the fragment is skipped before the rest. Nothing is declared after it, so
nothing else is asked. -/
theorem Tracked.handshake (h : p.Tracked) (ho : p.Ordered) (hd : p.link.haveDeclared = false)
    (ack : Wire.HelloAck) : (p.handshake ack).Tracked := by
  have hs := h.sound.takeSourceGames p.source.queue
  have htaken : p.takeSourceGames.log.taken.Pairwise GamePost.Before := by
    simpa [takeSourceGames] using ho.takeSourceGames.before
  have hn := Games.handshake_replayQueued hs
  have hplaced : Placed p.takeSourceGames.log.taken
      (p.games.takeSourceGames p.source.queue).handshake.retained
      (p.games.takeSourceGames p.source.queue).handshake.gameOpenEpoch
      (p.games.takeSourceGames p.source.queue).handshake.fresh := by
    rw [Games.retained_handshake hs, Games.fresh_handshake hs, Games.handshake_gameOpenEpoch hs,
      Games.retained_takeSourceGames h.sound, Games.fresh_takeSourceGames h.sound]
    exact h.placed.take _
  have hserved : (p.handshake ack).served = false := by
    simp [served, GamePath.handshake, takeSourceGames, hd]
  refine ⟨hs.handshake.eraseFragment hn, ?_, ?_, ?_, ?_, ?_, ?_, ?_⟩
  · have hmono := (htaken.sublist hplaced.sublist).imp fun hb => hb.epoch
    have hfragment := Games.epoch_lt_of_mem_fragment hs.handshake hn hmono
    rw [Games.fresh_eraseFragment hn] at hplaced
    have hskip := hplaced.skip fun hne q hq => hfragment hne hq
    simpa [GamePath.handshake, takeSourceGames, Games.eraseFragment_retained hn] using hskip
  · exact fun hd' => by simp [GamePath.handshake, takeSourceGames, hd] at hd'
  · exact fun hd' => by simp [GamePath.handshake, takeSourceGames, hd] at hd'
  · intro _ _ _
    simp [GamePath.handshake, takeSourceGames, hs]
  · exact fun _ hpc => by simp [GamePath.handshake] at hpc
  · exact fun _ _ hpc => by simp [GamePath.handshake] at hpc
  · exact fun hs' => by simp [hserved] at hs'

/-- What `SendGames` takes is fresh. -/
theorem fresh_takeGames (h : p.games.Sound) (flush : Bool) : (p.takeGames flush).games.fresh =
    p.games.fresh ++ numberedFrom p.games.nextBatchId p.source.queue := by
  have hs := h.takeSourceGames p.source.queue
  rw [← Games.fresh_takeSourceGames h]
  by_cases hw : p.games.replayPending = true ∧ p.link.haveDeclared = true
  · have hgames : (p.takeGames flush).games =
        (p.games.takeSourceGames p.source.queue).insertReplay p.link.declared := if_pos hw
    rw [hgames, Games.fresh_insertReplay (hs.pending hw.1)]
  · have hgames : (p.takeGames flush).games = p.games.takeSourceGames p.source.queue := if_neg hw
    rw [hgames]

/-- `SendGames` keeps what is retained, or drops it as another table's. -/
theorem retained_takeGames (h : p.games.Sound) (flush : Bool) :
    (p.takeGames flush).games.retained = p.games.retained ∨
      (p.takeGames flush).games.retained = [] := by
  have hs := h.takeSourceGames p.source.queue
  rw [← Games.retained_takeSourceGames h p.source.queue]
  by_cases hw : p.games.replayPending = true ∧ p.link.haveDeclared = true
  · have hgames : (p.takeGames flush).games =
        (p.games.takeSourceGames p.source.queue).insertReplay p.link.declared := if_pos hw
    rw [hgames]
    rcases Games.retained_insertReplay (hs.pending hw.1) p.link.declared with hr | ⟨hr, -⟩
    · exact .inr hr
    · exact .inl hr
  · have hgames : (p.takeGames flush).games = p.games.takeSourceGames p.source.queue := if_neg hw
    rw [hgames]
    exact .inl rfl

/-- `SendGames` takes the source's batches and decides the replay.

**Proof sketch.** The source's batches are taken, and a pending replay is decided: put before the
fresh ones, or dropped where it is another table's. Without one the batches are placed as before. -/
theorem Tracked.takeGames (h : p.Tracked) {flush : Bool} (hpc : p.pc = .takeGames flush) :
    (p.takeGames flush).Tracked := by
  have hs := h.sound.takeSourceGames p.source.queue
  have hplaced : Placed p.takeSourceGames.log.taken
      (p.games.takeSourceGames p.source.queue).retained
      (p.games.takeSourceGames p.source.queue).gameOpenEpoch
      (p.games.takeSourceGames p.source.queue).fresh := by
    rw [Games.retained_takeSourceGames h.sound, Games.fresh_takeSourceGames h.sound]
    exact h.placed.take _
  by_cases hw : p.games.replayPending = true ∧ p.link.haveDeclared = true
  · have hn := hs.pending hw.1
    have hgames : (p.takeGames flush).games =
        (p.games.takeSourceGames p.source.queue).insertReplay p.link.declared := by
      simp [GamePath.takeGames, takeSourceGames, Games.takeSourceGames, hw]
    have hret := Games.retained_insertReplay hn p.link.declared
    refine tracked_onward ?_ ?_ hw.2 ?_ ?_ ?_ rfl
    · rw [hgames]
      exact hs.insertReplay hn _
    · rw [hgames, Games.fresh_insertReplay hn, Games.insertReplay_gameOpenEpoch]
      refine hplaced.suffix ?_ fun _ => rfl
      rcases hret with hr | ⟨hr, -⟩
      · exact hr ▸ List.nil_suffix
      · exact hr ▸ List.suffix_rfl
    · rw [hgames, Games.insertReplay_replayPending]
    · rw [hgames, Games.insertReplay_gameOpenEpoch]
      intro hne
      obtain ⟨-, ⟨first, hfirst, he⟩, -⟩ := hret.resolve_left hne
      rw [← hs.epoch first hfirst, he]
      rfl
    · rw [hgames, Games.insertReplay_openGame]
      exact fun _ => rfl
  · have hgames : (p.takeGames flush).games = p.games.takeSourceGames p.source.queue := by
      simp [GamePath.takeGames, takeSourceGames, Games.takeSourceGames, hw]
    have hp : p.link.haveDeclared = true → p.games.replayPending = false := fun hd => by
      by_contra hc
      exact hw ⟨by simpa using hc, hd⟩
    refine ⟨hgames ▸ hs, by rw [hgames]; exact hplaced, ?_, ?_, ?_, ?_, ?_, ?_⟩
    · intro hd _
      rw [hgames, Games.retained_takeSourceGames h.sound]
      exact h.table hd (hp hd)
    · intro hd _ hs'
      rw [hgames]
      exact h.unserved hd (hp hd) hs'
    · intro hd _ _
      rw [hgames]
      exact h.opening hd (by simp [hpc]) (by simp [hpc])
    · intro _ _ hd
      rw [hgames]
      exact hp hd
    · exact fun _ _ hpc' => by simp [GamePath.takeGames] at hpc'
    · exact fun _ hpc' => by simp [GamePath.takeGames, Pc.quiet] at hpc'

/-- An acknowledged batch joins the retained ones, or ends them.

**Proof sketch.** The acknowledged batch is of the declared epoch and served. A fresh one joins the
retained, or ends them; a replayed one stays retained and is no longer queued. -/
theorem Tracked.acked (h : p.Tracked) (ht : p.log.taken.Pairwise GamePost.Before)
    {request : Wire.Message} {flush : Bool} {front : GamePost} {rest : List GamePost}
    (hpc : p.pc = .exchange request (.game flush)) (hg : p.games.games = front :: rest) :
    (p.gameAcked flush front).Tracked := by
  obtain ⟨hs, hr, -⟩ := h.awaiting request flush hpc
  obtain ⟨hfront, he⟩ := h.epoch_front hpc hg
  have hd : p.link.haveDeclared = true := (Bool.and_eq_true_iff.mp hs).1
  have hsound := h.sound.acknowledged hg p.link.declared.identity he
  have heq := Games.acknowledged_eq h.sound.ops p.link.declared.identity he
  have hserved : (p.gameAcked flush front).served = true := hs
  refine tracked_onward hsound ?_ hd (congrArg Games.replayPending heq |>.trans hr) (fun hne => ?_)
    (fun hs' => by simp [hserved] at hs') rfl
  · show Placed p.log.taken _ _ _
    rw [gameAcked_games]
    rcases Nat.eq_zero_or_pos p.games.replayQueued with hn | hn
    · have hp := h.placed
      rw [Games.fresh_acknowledged_fresh h.sound hg hn p.link.declared.identity he] at hp
      rw [Games.retained_acknowledged_fresh h.sound hn _ he]
      have hopened : (p.games.acknowledged p.link.declared.identity front).gameOpenEpoch =
          Games.openedEpoch p.games.gameOpenEpoch front := by rw [heq]
      rw [hopened]
      exact hp.extended ht fun hne => hfront.trans (h.table hd hr hne).symm
    · rw [Games.fresh_acknowledged_replayed h.sound hg hn]
      have hsuf : (p.games.acknowledged p.link.declared.identity front).retained <:+
          p.games.retained := by
        rcases Games.retained_acknowledged_replayed h.sound hg hn p.link.declared.identity with
          hret | ⟨-, -, hret⟩
        · exact hret ▸ List.suffix_rfl
        · exact hret ▸ List.suffix_cons _ _
      refine h.placed.suffix hsuf fun hne => ?_
      obtain ⟨q, hq⟩ := List.exists_mem_of_ne_nil _ hne
      rw [← hsound.epoch q hq, h.sound.epoch q (hsuf.subset hq)]
  · obtain ⟨q, hq⟩ := List.exists_mem_of_ne_nil _ hne
    show (p.games.acknowledged p.link.declared.identity front).gameOpenEpoch = _
    rw [← hsound.epoch q hq]
    rcases Games.mem_retained_acknowledged h.sound hg _ he hq with hq | rfl
    · exact h.epoch hd hr q hq
    · exact hfront

/-- A refused batch leaves nothing retained.

**Proof sketch.** Nothing is retained any more (`Games.retained_refused`), and a fresh front is
skipped. -/
theorem Tracked.refused (h : p.Tracked)
    {request : Wire.Message} {flush : Bool} {front : GamePost} {rest : List GamePost}
    (hpc : p.pc = .exchange request (.game flush)) (hg : p.games.games = front :: rest) :
    (p.gameRefused flush front).Tracked := by
  obtain ⟨hs, hr, -⟩ := h.awaiting request flush hpc
  obtain ⟨-, he⟩ := h.epoch_front hpc hg
  have hd : p.link.haveDeclared = true := (Bool.and_eq_true_iff.mp hs).1
  have hnil := Games.retained_refused h.sound.ops he
  have hserved : (p.gameRefused flush front).served = true := hs
  refine tracked_onward (h.sound.refused he) ?_ hd ?_ (fun hne => absurd hnil hne)
    (fun hs' => by simp [hserved] at hs') rfl
  · show Placed p.log.taken _ _ _
    rw [gameRefused_games, hnil]
    rcases Nat.eq_zero_or_pos p.games.replayQueued with hn | hn
    · have hp := h.placed.drop (p.games.refused front).gameOpenEpoch
      rw [Games.fresh_refused_fresh h.sound hg hn he] at hp
      exact hp.skip_front fun hne => absurd rfl hne
    · rw [Games.fresh_refused_replayed h.sound hg hn]
      exact h.placed.drop _
  · show (p.games.refused front).replayPending = false
    rw [Games.refused_eq h.sound.ops he]
    split <;> exact hr

/-- After its Declare the worker goes on in the session. -/
theorem quiet_declareAcked (p : GamePath Ask) (now : DeclareSnapshot) :
    (p.declareAcked now).pc.quiet := by
  simp only [declareAcked]
  split <;> rfl

/-- A Declare that is no new table's changes neither the epoch nor whether it is served. -/
theorem served_declareAcked {now : DeclareSnapshot} (hd : p.link.haveDeclared = true)
    (hnew : p.link.newTable now ≠ true) :
    now.epoch = p.link.declared.epoch ∧ (p.declareAcked now).served = p.served := by
  simp only [Link.newTable, hd, Bool.true_and, Bool.or_eq_true, not_or, Wire.newIdentity,
    bne_iff_ne, not_not, ne_eq] at hnew
  refine ⟨hnew.1, ?_⟩
  simp [served, declareAcked, Link.serves, Link.authoredAllowed, hd, hnew.2.1.2]

/-- An acknowledged Declare of a new table leaves nothing retained, and any other changes
neither the epoch nor whether the table is served.

**Proof sketch.** A new table drops what is retained, and the replay with it. For the same table the
epoch stays, and whether it is served, so what is retained is of the declared epoch still. -/
theorem Tracked.declared (h : p.Tracked) {request : Wire.Message} {now : DeclareSnapshot}
    (hpc : p.pc = .exchange request (.declare now)) : (p.declareAcked now).Tracked := by
  have hquiet := quiet_declareAcked p now
  have hplace : ∀ {p' : GamePath Ask}, p'.pc.quiet → (∀ flush, p'.pc ≠ .sendGames flush) ∧
      ∀ request flush, p'.pc ≠ .exchange request (.game flush) :=
    fun hq => ⟨fun _ => Pc.quiet_ne_sendGames hq, fun _ _ => Pc.quiet_ne_game hq⟩
  by_cases hnew : p.link.newTable now = true
  · have hgames : (p.declareAcked now).games = p.games.dropOpenGame.discardQueuedReplay := by
      simp [declareAcked, hnew]
    have hnil : (p.declareAcked now).games.retained = [] := by rw [hgames, Games.retained_newTable]
    refine ⟨hgames ▸ h.sound.newTable, ?_, fun _ _ hne => absurd hnil hne, ?_, ?_, ?_, ?_, ?_⟩
    · rw [hnil, hgames, Games.fresh_newTable h.sound]
      exact h.placed.drop _
    · exact fun _ _ _ => by rw [hgames]; rfl
    · exact fun hd => by simp [declareAcked] at hd
    · exact fun flush hpc' => absurd hpc' ((hplace hquiet).1 flush)
    · exact fun request flush hpc' => absurd hpc' ((hplace hquiet).2 request flush)
    · exact fun _ _ => by rw [hgames]; rfl
  · have hgames : (p.declareAcked now).games = p.games := by simp [declareAcked, hnew]
    have hfirst : p.link.haveDeclared = false → p.games.replayQueued = 0 ∧
        (p.games.openGame ≠ [] → p.games.replayPending = true) :=
      fun hd => h.opening hd (by simp [hpc]) (by simp [hpc])
    have hsame := fun hd => served_declareAcked hd hnew
    refine ⟨hgames ▸ h.sound, by rw [hgames]; exact h.placed, ?_, ?_, ?_, ?_, ?_, ?_⟩
    · intro _ hr hne
      rw [hgames] at hr hne ⊢
      cases hd : p.link.haveDeclared with
      | true => exact (h.table hd hr hne).trans (hsame hd).1.symm
      | false =>
        obtain ⟨hn, ho⟩ := hfirst hd
        rw [Games.retained_of_zero hn] at hne
        simp [hr] at ho
        exact absurd ho hne
    · intro _ hr hs
      rw [hgames] at hr ⊢
      cases hd : p.link.haveDeclared with
      | true => exact h.unserved hd hr ((hsame hd).2 ▸ hs)
      | false =>
        have ho := (hfirst hd).2
        by_contra hne
        simp [ho hne] at hr
    · exact fun hd => by simp [declareAcked] at hd
    · exact fun flush hpc' => absurd hpc' ((hplace hquiet).1 flush)
    · exact fun request flush hpc' => absurd hpc' ((hplace hquiet).2 request flush)
    · intro hs _
      rw [hgames]
      cases hd : p.link.haveDeclared with
      | true => exact h.replaying ((hsame hd).2 ▸ hs) (.inr ⟨request, now, hpc⟩)
      | false => exact (hfirst hd).1

/-- A handshake keeps what is retained. -/
theorem retained_handshake (h : p.games.Sound) (ack : Wire.HelloAck) :
    (p.handshake ack).games.retained = p.games.retained := by
  have hs := h.takeSourceGames p.source.queue
  rw [← Games.retained_takeSourceGames h p.source.queue, ← Games.retained_handshake hs,
    ← Games.eraseFragment_retained (Games.handshake_replayQueued hs)]
  rfl

/-- A handshake takes the source's batches and erases a fragment. -/
theorem fresh_handshake (h : p.games.Sound) (ack : Wire.HelloAck) :
    p.games.fresh ++ numberedFrom p.games.nextBatchId p.source.queue =
      (p.games.takeSourceGames p.source.queue).handshake.fragment ++
        (p.handshake ack).games.fresh := by
  have hs := h.takeSourceGames p.source.queue
  rw [← Games.fresh_takeSourceGames h, ← Games.fresh_handshake hs]
  exact Games.fresh_eraseFragment (Games.handshake_replayQueued hs)

/-- The batches erased in a handshake are events, newest first. -/
theorem events_handshake (p : GamePath Ask) (ack : Wire.HelloAck) : (p.handshake ack).log.events =
    (p.games.takeSourceGames p.source.queue).handshake.fragment.reverse.map .dropped ++
      p.log.events :=
  noteDropped_events _ _

/-- An acknowledgement leaves no new fresh batches. -/
theorem Tracked.mem_fresh_gameAcked (h : p.Tracked) {request : Wire.Message} {flush : Bool}
    {front : GamePost} {rest : List GamePost} (hpc : p.pc = .exchange request (.game flush))
    (hg : p.games.games = front :: rest) {q : GamePost}
    (hq : q ∈ (p.gameAcked flush front).games.fresh) : q ∈ p.games.fresh := by
  obtain ⟨-, he⟩ := h.epoch_front hpc hg
  rw [gameAcked_games] at hq
  rcases Nat.eq_zero_or_pos p.games.replayQueued with hn | hn
  · rw [Games.fresh_acknowledged_fresh h.sound hg hn p.link.declared.identity he]
    exact List.mem_cons_of_mem _ hq
  · rwa [Games.fresh_acknowledged_replayed h.sound hg hn] at hq

/-- Nor does a refusal. -/
theorem Tracked.mem_fresh_gameRefused (h : p.Tracked) {request : Wire.Message} {flush : Bool}
    {front : GamePost} {rest : List GamePost} (hpc : p.pc = .exchange request (.game flush))
    (hg : p.games.games = front :: rest) {q : GamePost}
    (hq : q ∈ (p.gameRefused flush front).games.fresh) : q ∈ p.games.fresh := by
  obtain ⟨-, he⟩ := h.epoch_front hpc hg
  rw [gameRefused_games] at hq
  rcases Nat.eq_zero_or_pos p.games.replayQueued with hn | hn
  · rw [Games.fresh_refused_fresh h.sound hg hn he]
    exact List.mem_cons_of_mem _ hq
  · rwa [Games.fresh_refused_replayed h.sound hg hn] at hq

/-- Every move keeps the batches where they belong.

**Proof sketch.** By the kind of the move, each by its lemma; those that only send, go offline or
change the place are frames. -/
theorem Tracked.moves (h : p.Tracked) (ho : p.Ordered) (hl : p.Linked) (hm : p.Moves m p') :
    p'.Tracked := by
  have htaken : p.log.taken.Pairwise GamePost.Before := (List.pairwise_append.mp ho.before).1
  cases hm with
  | posted | committed | evicted => exact h.frame rfl rfl rfl rfl rfl rfl
  | connected payload hpc =>
    exact h.leave rfl rfl (fun hd => by cases hd) (.inr ⟨_, rfl⟩)
  | failed hpc => exact h.leave rfl rfl (fun hd => by cases hd) (.inl rfl)
  | ended hpc => exact h.leave rfl rfl (fun hd => ⟨hd, rfl, rfl⟩) (.inl rfl)
  | handshake ack request hpc => exact h.handshake ho (hl.hello request hpc) ack
  | redeclared pc hpc hq =>
    exact h.settle rfl rfl rfl rfl rfl (.inl hq) (by simp [hpc]) (by simp [hpc])
      fun hs => h.replaying hs (.inl (by simp [hpc, Pc.quiet]))
  | took flush hpc => exact h.takeGames hpc
  | left flush pc hpc hq hw =>
    refine h.settle rfl rfl rfl rfl rfl (.inl hq) (by simp [hpc]) (by simp [hpc]) fun hs => ?_
    have hd : p.link.haveDeclared = true := (Bool.and_eq_true_iff.mp hs).1
    by_contra hn
    cases hg : p.games.games with
    | nil =>
      have := h.sound.queued
      simp only [hg, List.length_nil] at this
      omega
    | cons front rest =>
      obtain ⟨n, hn⟩ : ∃ n, p.games.replayQueued = n + 1 := ⟨p.games.replayQueued - 1, by omega⟩
      have := hw front rest hg hd
      have := h.epoch hd (h.sending flush hpc hd) front (by simp [Games.retained_of_replayed hg hn])
      omega
  | leftUnserved flush pc hpc hq hd hs =>
    refine h.settle rfl rfl rfl rfl rfl (.inl hq) (by simp [hpc]) (by simp [hpc]) fun hs' => ?_
    simp [served, hs] at hs'
  | dropped flush front rest hpc hg hd he =>
    obtain ⟨hsound, hplaced, hsuf⟩ := h.dropFront htaken hpc hg hd (.inl he)
    refine tracked_onward hsound hplaced hd (h.sending flush hpc hd) (fun hne => ?_)
      (h.unserved hd (h.sending flush hpc hd)) hpc
    obtain ⟨q, hq⟩ := List.exists_mem_of_ne_nil _ hne
    exact h.table hd (h.sending flush hpc hd) (List.ne_nil_of_mem (hsuf.subset hq))
  | droppedUnserved flush front rest hpc hg hd he hs hc =>
    obtain ⟨hsound, hplaced, hsuf⟩ := h.dropFront htaken hpc hg hd (.inr (by simp [served, hs]))
    refine tracked_onward hsound hplaced hd (h.sending flush hpc hd) (fun hne => ?_)
      (h.unserved hd (h.sending flush hpc hd)) hpc
    obtain ⟨q, hq⟩ := List.exists_mem_of_ne_nil _ hne
    exact h.table hd (h.sending flush hpc hd) (List.ne_nil_of_mem (hsuf.subset hq))
  | sent flush front rest hpc hg hd he hs =>
    refine ⟨h.sound, h.placed, h.table, h.unserved, fun hd' => ?_, ?_, ?_, ?_⟩
    · simp [sendFront, send, hd] at hd'
    · exact fun _ hpc' => by simp [sendFront, send] at hpc'
    · have hs' : p.served = true := by simp [served, hd, hs]
      exact fun _ _ _ => ⟨hs', h.sending flush hpc hd, front, rest, hg, he⟩
    · exact fun _ hpc' => by simp [sendFront, send, Pc.quiet] at hpc'
  | acked flush request front rest hpc hg => exact h.acked htaken hpc hg
  | refused flush request front rest hpc hg => exact h.refused hpc hg
  | declaring payload hpc =>
    exact h.settle rfl rfl rfl rfl rfl (.inr ⟨_, _, rfl⟩) (by simp [hpc]) (by simp [hpc])
      fun hs => h.replaying hs (.inl (by simp [hpc, Pc.quiet]))
  | declared now request hpc => exact h.declared hpc
  | moved seq pc hpc =>
    rcases hpc with rfl | ⟨hp, hq⟩
    · exact h.frame rfl rfl rfl rfl rfl rfl
    · refine h.settle rfl rfl rfl rfl rfl (.inl hq) ?_ (fun _ => Pc.quiet_ne_hello hp)
        fun hs => h.replaying hs (.inl hp)
      rintro hpc
      simp [hpc, Pc.quiet] at hp

/-- **In every run** the batches are where they belong. -/
theorem tracked {cond : GamePath Ask → Move → Prop} (h : system.Reaches cond p) : p.Tracked := by
  have hall : p.Ordered ∧ p.Linked ∧ p.Tracked := by
    refine h.invariant (I := fun p => p.Ordered ∧ p.Linked ∧ p.Tracked) ?_
      fun _ _ _ hI _ hm => ⟨hI.1.moves hm, hI.2.1.moves hm, hI.2.2.moves hI.1 hI.2.1 hm⟩
    intro p hp
    have hi : system.Reaches (fun _ _ => True) p := .init hp
    refine ⟨ordered hi, linked hi, ?_⟩
    obtain ⟨d, rfl⟩ := hp
    refine ⟨.initial, ⟨[], [], rfl, by simp⟩, ?_, ?_, ?_, ?_, ?_, ?_⟩ <;>
      simp [served, Games.retained]
  exact hall.2.2

end GamePath

end Worker
