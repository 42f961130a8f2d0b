import ScorbitPlugin.Worker.Flow

set_option relaxedAutoImplicit false
set_option autoImplicit false

/-!
# Games go to the machine they were played on

A replayed batch is checked by epoch and identity, a queued one by its epoch only. So every Game
sent was committed under the identity it is sent under provided no fresh batch of the declared
epoch was committed under another one, when the Declare is acknowledged and when `SendGames` takes
from the source.

## Main definitions

* `Worker.SentHome` — what is claimed of the batches sent.
* `Worker.GamePath.IdentityKept` — the condition on the steps.

## Main results

* `Worker.sent_home` — it holds in every state of the runs under the condition.
* `Worker.not_sent_home` — and fails in one of the others.
-/

namespace Worker

open Codec

/-- Every batch sent was committed under the epoch and the identity of the Declare last
acknowledged in the session. The events are newest first. -/
def SentHome : List GameEvent → Prop
  | [] => True
  | .sent q d :: older => (lastDeclared older = some d ∧ q.epoch = d.epoch ∧
      q.identity = d.identity) ∧ SentHome older
  | _ :: older => SentHome older

/-- A batch that was sent home. -/
theorem SentHome.of_mem {events : List GameEvent} (h : SentHome events) {q : GamePost}
    {d : DeclareSnapshot} (hm : .sent q d ∈ events) :
    q.epoch = d.epoch ∧ q.identity = d.identity := by
  induction events with
  | nil => cases hm
  | cons e events ih =>
    rcases List.mem_cons.mp hm with rfl | hm'
    · exact h.1.2
    · cases e with
      | sent => exact ih h.2 hm'
      | _ => exact ih h hm'

/-- Dropped batches are sent nowhere. -/
theorem SentHome.of_dropped {posts : List GamePost} {events : List GameEvent}
    (h : SentHome events) : SentHome (posts.map .dropped ++ events) := by
  induction posts with
  | nil => exact h
  | cons post posts ih => exact ih

namespace GamePath

variable {Ask : Type} {p p' : GamePath Ask} {m : Move}

/-- **The condition**: a fresh batch of the epoch of a served table was committed under its
identity, when its Declare is acknowledged and when its batches are taken from the source. -/
def IdentityKept (p : GamePath Ask) : Move → Prop
  | .declared now => p.link.serves now = true →
      ∀ q ∈ p.games.games.drop p.games.replayQueued, q.epoch = now.epoch → q.identity = now.identity
  | .took => p.served = true →
      ∀ q ∈ p.source.queue, q.epoch = p.link.declared.epoch → q.identity = p.link.declared.identity
  | _ => True

/-- Fresh batches of a served table are of its identity, and retained ones no older than the
open game's and no younger than the declared one. -/
structure SameIdentity (p : GamePath Ask) : Prop where
  fresh : p.served = true → ∀ q ∈ p.games.fresh, q.epoch = p.link.declared.epoch →
    q.identity = p.link.declared.identity
  atLeast : ∀ q ∈ p.games.retained, p.games.openGameIdentity ≤ q.identity
  atMost : ∀ q ∈ p.games.retained, q.identity ≤ p.link.current.identity
  declared : p.link.haveDeclared = true → ∀ q ∈ p.games.retained,
    q.identity ≤ p.link.declared.identity
  /-- A replay goes to the identity it was played under. -/
  replayed : p.served = true → p.games.replayPending = false → 0 < p.games.replayQueued →
    p.games.openGameIdentity = p.link.declared.identity
  sent : SentHome p.log.events

/-- What leaves the batches and the declared table alone.

**Proof sketch.** The batches are the same, the connection has declared nothing new, and the current
identity has only grown. -/
theorem SameIdentity.frame (h : p.SameIdentity) (hg : p'.games = p.games)
    (hc : p.link.current.identity ≤ p'.link.current.identity)
    (hl : p'.link.haveDeclared = true →
      p.link.haveDeclared = true ∧ p'.link.declared = p.link.declared ∧ p'.served = p.served)
    (he : SentHome p.log.events → SentHome p'.log.events) : p'.SameIdentity := by
  have hd : p'.served = true → p'.link.haveDeclared = true :=
    fun hs => (Bool.and_eq_true_iff.mp hs).1
  refine ⟨fun hs => ?_, hg ▸ h.atLeast, fun q hq => (h.atMost q (hg ▸ hq)).trans hc, fun hd' => ?_,
    fun hs => ?_, he h.sent⟩
  · obtain ⟨-, hd', hs'⟩ := hl (hd hs)
    rw [hg, hd']
    exact h.fresh (hs' ▸ hs)
  · obtain ⟨hd, hd', -⟩ := hl hd'
    rw [hg, hd']
    exact h.declared hd
  · obtain ⟨-, hd', hs'⟩ := hl (hd hs)
    rw [hg, hd']
    exact h.replayed (hs' ▸ hs)

/-- A batch sent under a served table was committed under its identity.

**Proof sketch.** A fresh batch is of the declared identity by the condition. A replayed one is
retained, so its identity lies between the open game's and the declared one, and a replay is queued
only where these are the same. -/
theorem SameIdentity.front (h : p.SameIdentity) (hs : p.served = true)
    (hr : p.games.replayPending = false) {front : GamePost} {rest : List GamePost}
    (hg : p.games.games = front :: rest) (he : front.epoch = p.link.declared.epoch) :
    front.identity = p.link.declared.identity := by
  have hd : p.link.haveDeclared = true := (Bool.and_eq_true_iff.mp hs).1
  rcases Nat.eq_zero_or_pos p.games.replayQueued with hn | hn
  · refine h.fresh hs front ?_ he
    rw [Games.fresh_of_zero hn, hg]
    exact List.mem_cons_self ..
  · have hmem := mem_retained_of_replayed hg hn
    have := h.atLeast front hmem
    have := h.declared hd front hmem
    have := h.replayed hs hr hn
    omega

/-- Fewer batches under the same table.

**Proof sketch.** Whatever is left was there before, under the same table and with the same
identities. -/
theorem SameIdentity.fewer (h : p.SameIdentity)
    (hl : p'.link.haveDeclared = true →
      p.link.haveDeclared = true ∧ p'.link.declared = p.link.declared ∧ p'.served = p.served)
    (hc : p.link.current.identity ≤ p'.link.current.identity)
    (hf : ∀ q ∈ p'.games.fresh, q ∈ p.games.fresh)
    (hr : ∀ q ∈ p'.games.retained, q ∈ p.games.retained)
    (hi : p'.games.openGameIdentity = p.games.openGameIdentity)
    (hp : p'.games.replayPending = false → 0 < p'.games.replayQueued →
      p.games.replayPending = false ∧ 0 < p.games.replayQueued)
    (he : SentHome p.log.events → SentHome p'.log.events) : p'.SameIdentity := by
  have hd : p'.served = true → p'.link.haveDeclared = true :=
    fun hs => (Bool.and_eq_true_iff.mp hs).1
  refine ⟨fun hs q hq => ?_, fun q hq => hi ▸ h.atLeast q (hr q hq),
    fun q hq => (h.atMost q (hr q hq)).trans hc, fun hd' q hq => ?_, fun hs hr' hn => ?_,
    he h.sent⟩
  · obtain ⟨-, hd', hs'⟩ := hl (hd hs)
    rw [hd']
    exact h.fresh (hs' ▸ hs) q (hf q hq)
  · obtain ⟨hd, hd', -⟩ := hl hd'
    rw [hd']
    exact h.declared hd q (hr q hq)
  · obtain ⟨-, hd', hs'⟩ := hl (hd hs)
    obtain ⟨hr', hn⟩ := hp hr' hn
    rw [hi, hd']
    exact h.replayed (hs' ▸ hs) hr' hn

/-- `SendGames` takes batches of the declared identity, and a replay of it.

**Proof sketch.** The fresh batches are those from before, and those taken, which the condition
covers. Nothing is retained that was not. A replay is put into the queue only under the identity of
its game. -/
theorem SameIdentity.took (h : p.SameIdentity) (ht : p.Tracked) (hc : IdentityKept p .took)
    {flush : Bool} : (p.takeGames flush).SameIdentity := by
  have hs := ht.sound.takeSourceGames p.source.queue
  have hid : (p.takeGames flush).games.openGameIdentity = p.games.openGameIdentity := by
    simp only [takeGames]
    split
    · exact Games.insertReplay_openGameIdentity _ _
    · rfl
  have hret : ∀ q ∈ (p.takeGames flush).games.retained, q ∈ p.games.retained := by
    intro q hq
    rcases retained_takeGames ht.sound flush with hr | hr <;> rw [hr] at hq
    · exact hq
    · cases hq
  refine ⟨fun hserved q hq he => ?_, fun q hq => hid ▸ h.atLeast q (hret q hq),
    fun q hq => h.atMost q (hret q hq), fun hd q hq => h.declared hd q (hret q hq), ?_, h.sent⟩
  · rw [fresh_takeGames ht.sound] at hq
    rcases List.mem_append.mp hq with hq | hq
    · exact h.fresh hserved q hq he
    · obtain ⟨r, hr, _, rfl⟩ := mem_numberedFrom hq
      exact hc hserved r hr he
  · intro hserved hr hn
    rw [hid]
    by_cases hw : p.games.replayPending = true ∧ p.link.haveDeclared = true
    · have hgames : (p.takeGames flush).games =
          (p.games.takeSourceGames p.source.queue).insertReplay p.link.declared := if_pos hw
      have hins := Games.retained_insertReplay (hs.pending hw.1) p.link.declared
      rw [← hgames] at hins
      rcases hins with hnil | ⟨-, -, heq⟩
      · -- a queued replay would be retained
        have hq := (hgames ▸ hs.insertReplay (hs.pending hw.1) p.link.declared :
          (p.takeGames flush).games.Sound).queued
        have hlen := congrArg List.length hnil
        simp only [Games.retained, List.length_append, List.length_take, List.length_nil] at hlen
        omega
      · exact heq
    · have hgames : (p.takeGames flush).games = p.games.takeSourceGames p.source.queue :=
        if_neg hw
      rw [hgames] at hr hn
      exact h.replayed hserved hr hn

/-- An acknowledged batch was committed under the declared identity.

**Proof sketch.** The acknowledged batch is of the declared identity (`SameIdentity.front`), which
is no older than that of any retained one. It begins the open game, and sets its identity, or goes
on with it. -/
theorem SameIdentity.acked (h : p.SameIdentity) (hs : p.Sorted) {request : Wire.Message}
    {flush : Bool} {front : GamePost} {rest : List GamePost}
    (hpc : p.pc = .exchange request (.game flush)) (hg : p.games.games = front :: rest) :
    (p.gameAcked flush front).SameIdentity := by
  have ht := hs.tracked
  obtain ⟨hserved, hr, -⟩ := ht.awaiting request flush hpc
  obtain ⟨hfe, he⟩ := ht.epoch_front hpc hg
  have hd : p.link.haveDeclared = true := (Bool.and_eq_true_iff.mp hserved).1
  have hfront := h.front hserved hr hg hfe
  have heq := Games.acknowledged_eq ht.sound.ops p.link.declared.identity he
  have hid : (p.gameAcked flush front).games.openGameIdentity =
      if front.starts then p.link.declared.identity else p.games.openGameIdentity := by
    rw [gameAcked_games, heq]
  have hmem : ∀ q ∈ (p.gameAcked flush front).games.retained, q ∈ p.games.retained ∨ q = front :=
    fun q hq => Games.mem_retained_acknowledged ht.sound hg _ he hq
  have hdeclared : ∀ q ∈ (p.gameAcked flush front).games.retained,
      q.identity ≤ p.link.declared.identity := by
    intro q hq
    rcases hmem q hq with hq | rfl
    · exact h.declared hd q hq
    · exact hfront.le
  refine ⟨fun _ q hq => ?_, fun q hq => ?_, fun q hq => ?_, fun _ => hdeclared, ?_, h.sent⟩
  · exact h.fresh hserved q (ht.mem_fresh_gameAcked hpc hg hq)
  · rw [hid]
    rw [gameAcked_games] at hq
    rcases Nat.eq_zero_or_pos p.games.replayQueued with hn | hn
    · rw [Games.retained_acknowledged_fresh ht.sound hn _ he] at hq
      rcases Games.extended_cases p.games.retained front with
        hx | ⟨-, -, ⟨hstart, hx⟩ | ⟨hstart, hne, hx⟩⟩ <;> rw [hx] at hq
      · cases hq
      · obtain rfl := List.mem_singleton.mp hq
        simp [hstart, hfront]
      · rw [hstart, if_neg (by simp)]
        rcases List.mem_append.mp hq with hq | hq
        · exact h.atLeast q hq
        · obtain rfl := List.mem_singleton.mp hq
          obtain ⟨r, hr'⟩ := List.exists_mem_of_ne_nil _ hne
          have hb := ht.placed.before hs.ordered.taken hr'
            (by rw [Games.fresh_of_zero hn, hg]; exact List.mem_cons_self ..)
          exact (h.atLeast r hr').trans hb.identity
    · have hq' : q ∈ p.games.retained := by
        rcases Games.mem_retained_acknowledged ht.sound hg _ he hq with hq | rfl
        · exact hq
        · exact mem_retained_of_replayed hg hn
      have := h.atLeast q hq'
      have := h.replayed hserved hr hn
      split <;> omega
  · exact (hdeclared q hq).trans (hs.linked.declared hd).2
  · intro _ _ hn
    rw [gameAcked_games, heq] at hn
    rw [hid]
    have := h.replayed hserved hr (by simp only at hn; omega)
    split
    · rfl
    · exact this

/-- An acknowledged Declare finds the fresh batches under its identity.

**Proof sketch.** A Declare of a new table retains nothing, and leaves fresh batches that the
condition covers. One of the same table keeps the retained ones, none of which is younger than what
is declared; and while it is declared again no replay is queued. -/
theorem SameIdentity.declareAcked (h : p.SameIdentity) (hs : p.Sorted) {request : Wire.Message}
    {now : DeclareSnapshot} (hpc : p.pc = .exchange request (.declare now))
    (hc : IdentityKept p (.declared now)) : (p.declareAcked now).SameIdentity := by
  have ht := hs.tracked
  have hnow : now = p.link.current := hs.linked.declaring request now hpc
  have hsent : SentHome (p.declareAcked now).log.events := h.sent
  have hserves : (p.declareAcked now).served = true → p.link.serves now = true := by
    simp [served, GamePath.declareAcked, Link.serves, Link.authoredAllowed]
  by_cases hnew : p.link.newTable now = true
  · have hgames : (p.declareAcked now).games = p.games.dropOpenGame.discardQueuedReplay := by
      simp [GamePath.declareAcked, hnew]
    have hnil : (p.declareAcked now).games.retained = [] := by rw [hgames, Games.retained_newTable]
    refine ⟨fun hs' q hq => ?_, by simp [hnil], by simp [hnil], by simp [hnil], fun _ _ hn => ?_,
      hsent⟩
    · rw [hgames, Games.fresh_newTable ht.sound] at hq
      exact hc (hserves hs') q hq
    · rw [hgames] at hn
      cases hn
  · have hgames : (p.declareAcked now).games = p.games := by simp [GamePath.declareAcked, hnew]
    refine ⟨fun hs' q hq => ?_, hgames ▸ h.atLeast, hgames ▸ h.atMost, fun _ q hq => ?_, ?_, hsent⟩
    · rw [hgames] at hq
      exact hc (hserves hs') q hq
    · rw [hgames] at hq
      show q.identity ≤ now.identity
      rw [hnow]
      exact h.atMost q hq
    · intro hs' hr hn
      rw [hgames] at hn
      -- nothing of a served table's replay is queued while it is declared again
      cases hd : p.link.haveDeclared with
      | true =>
        have := ht.replaying ((served_declareAcked hd hnew).2 ▸ hs') (.inr ⟨request, now, hpc⟩)
        omega
      | false =>
        have := (ht.opening hd (by simp [hpc]) (by simp [hpc])).1
        omega

/-- Every move under the condition keeps the identities.

**Proof sketch.** By the kind of the move. Most leave the batches and the declared table
(`SameIdentity.frame`), or take batches away (`SameIdentity.fewer`). A batch that is sent is of the
declared identity; the three moves that bring batches in have lemmas of their own. -/
theorem SameIdentity.moves (h : p.SameIdentity) (hs : p.Sorted) (hc : IdentityKept p m)
    (hm : p.Moves m p') : p'.SameIdentity := by
  have ht := hs.tracked
  have hup := hs.linked.takeDeclare_upTo.1.2
  cases hm with
  | posted | committed | evicted => exact h.frame rfl le_rfl (fun hd => ⟨hd, rfl, rfl⟩) id
  | connected payload hpc =>
    exact h.frame rfl hup (fun hd => by cases hd) id
  | failed hpc =>
    exact h.frame rfl le_rfl (fun hd => by cases hd) id
  | ended hpc =>
    exact h.frame rfl le_rfl (fun hd => ⟨hd, rfl, rfl⟩)
      id
  | handshake ack request hpc =>
    have hd := hs.linked.hello request hpc
    have hsound := ht.sound.takeSourceGames p.source.queue
    have hserved : (p.handshake ack).served = false := by
      simp [served, GamePath.handshake, takeSourceGames, hd]
    have hret := retained_handshake ht.sound ack
    have hid : (p.handshake ack).games.openGameIdentity = p.games.openGameIdentity := by
      show (p.games.takeSourceGames p.source.queue).handshake.eraseFragment.openGameIdentity = _
      rw [Games.eraseFragment_openGameIdentity, Games.handshake_openGameIdentity hsound]
      rfl
    refine ⟨fun hs' => by simp [hserved] at hs', ?_, ?_, ?_, fun hs' => by simp [hserved] at hs',
      ?_⟩
    · rw [hret, hid]
      exact h.atLeast
    · rw [hret]
      exact h.atMost
    · exact fun hd' => by simp [GamePath.handshake, takeSourceGames, hd] at hd'
    · rw [events_handshake]
      exact h.sent.of_dropped
  | redeclared pc hpc hq | leftUnserved flush pc hpc hq hd hs' =>
    exact h.frame rfl hup (fun hd => ⟨hd, rfl, rfl⟩) id
  | took flush hpc => exact h.took ht hc
  | left flush pc hpc hq hw => exact h.frame rfl le_rfl (fun hd => ⟨hd, rfl, rfl⟩) id
  | dropped flush front rest hpc hg hd he =>
    obtain ⟨-, -, hsuf⟩ := ht.dropFront hs.ordered.taken hpc hg hd (.inl he)
    exact h.fewer (fun hd => ⟨hd, rfl, rfl⟩) le_rfl (fun _ => Games.mem_fresh_of_popGame)
      (fun _ hq => hsuf.subset hq) rfl (fun hr hn => ⟨hr, lt_of_lt_of_le hn (Nat.sub_le _ _)⟩)
      id
  | droppedUnserved flush front rest hpc hg hd he hs' hc' =>
    obtain ⟨-, -, hsuf⟩ := ht.dropFront hs.ordered.taken hpc hg hd (.inr (by simp [served, hs']))
    exact h.fewer (fun hd => ⟨hd, rfl, rfl⟩) hup (fun _ => Games.mem_fresh_of_popGame)
      (fun _ hq => hsuf.subset hq) rfl (fun hr hn => ⟨hr, lt_of_lt_of_le hn (Nat.sub_le _ _)⟩)
      id
  | sent flush front rest hpc hg hd he hs' =>
    have hserved : p.served = true := by simp [served, hd, hs']
    have hfront := h.front hserved (ht.sending flush hpc hd) hg he
    exact ⟨h.fresh, h.atLeast, h.atMost, h.declared, h.replayed,
      ⟨hs.declared hd (by simp [hpc]), he, hfront⟩, h.sent⟩
  | acked flush request front rest hpc hg => exact h.acked hs hpc hg
  | refused flush request front rest hpc hg =>
    obtain ⟨-, he⟩ := ht.epoch_front hpc hg
    have hnil := Games.retained_refused ht.sound.ops he
    have hn := Games.refused_replayQueued ht.sound.ops he
    refine h.fewer (fun hd => ⟨hd, rfl, rfl⟩) le_rfl (fun _ => ht.mem_fresh_gameRefused hpc hg)
      (fun q hq => by simp [hnil] at hq) ?_ (fun _ hn' => by simp [hn] at hn') id
    rw [gameRefused_games, Games.refused_eq ht.sound.ops he]
    split <;> rfl
  | declaring payload hpc => exact h.frame rfl le_rfl (fun hd => ⟨hd, rfl, rfl⟩) id
  | declared now request hpc => exact h.declareAcked hs hpc hc
  | moved seq pc hpc => exact h.frame rfl le_rfl (fun hd => ⟨hd, rfl, rfl⟩) id

end GamePath

/-- **Every Game sent was committed under the table it is sent under**, in every run of the worker
in which a served Declare finds no fresh batch of its epoch from another identity, neither when it
is acknowledged nor when batches are taken under it.

**Proof sketch.** Every run of the worker is a run of moves of the game path, so an invariant of the
moves holds: fresh batches of a served table are of its identity, and the identities of retained
ones lie between the open game's and the declared one, which are the same while a replay is queued.
A batch that is sent is fresh or replayed, and of the declared identity either way. -/
theorem sent_home (cfg : Config) {s : State}
    (h : (system cfg).Reaches (Held cfg GamePath.IdentityKept) s) : SentHome s.path.log.events := by
  have hall : s.path.Sorted ∧ s.path.SameIdentity := by
    refine ((simulation cfg _).reaches h).invariant
      (I := fun p => p.Sorted ∧ p.SameIdentity) (fun p hp => ⟨GamePath.sorted_init hp, ?_⟩)
      fun p m p' hI hc hm => ⟨hI.1.moves hm, hI.2.moves hI.1 hc hm⟩
    obtain ⟨d, rfl⟩ := hp
    constructor <;> simp [GamePath.served, Games.retained, SentHome]
  exact hall.2.sent

/-- A session that sends a game's first two batches. -/
def homeRun : List Act :=
  [.commit startBatch, .commit ballBatch, .connect (some []), helloAckOf 1 Wire.capAuthoredTables,
    .go, .go, .go, ackOf 2, .go, .go, ackOf 3, .go, ackOf 4]

/-- Everything in sight is of the identity `0`. -/
def allOfZero (s : State) (_ : Act) : Bool :=
  s.path.games.games.all (·.identity == 0) && s.path.source.queue.all (·.identity == 0)
    && s.path.link.declared.identity == 0 &&
    match s.path.pc with
    | .exchange _ (.declare now) => now.identity == 0
    | _ => true

/-- Both batches are sent, under the identity they were committed under. -/
theorem sent_home_homeRun : ∃ s, Runs.runOf (step {}) (start (tableOf 1 0)) homeRun = some s ∧
    (s.path.log.events.filter fun e => e matches .sent ..).length = 2 ∧
      SentHome s.path.log.events := by
  have hrun : (Runs.runOf (step {}) (start (tableOf 1 0)) homeRun).any
      (fun s => (s.path.log.events.filter fun e => e matches .sent ..).length == 2) = true := by
    decide +kernel
  obtain ⟨s, hs, hlen⟩ := (Option.any_eq_true _ _).mp hrun
  refine ⟨s, hs, by simpa using hlen, sent_home {} ?_⟩
  have hcheck : ∀ (s : State) (a : Act), allOfZero s a = true →
      Held {} GamePath.IdentityKept s a := by
    intro s a hc
    simp only [allOfZero, Bool.and_eq_true, List.all_eq_true, beq_iff_eq] at hc
    obtain ⟨⟨⟨hg, hq⟩, hd⟩, hpc'⟩ := hc
    refine .of_moves (fun m p' hm => ?_) a
    cases hm with
    | took => exact fun _ q hq' _ => (hq q hq').trans hd.symm
    | declared now request hpc =>
      simp only [hpc, beq_iff_eq] at hpc'
      exact fun _ q hq' _ => (hg q (List.mem_of_mem_drop hq')).trans hpc'.symm
    | _ => trivial
  exact Runs.System.Reaches.runOf hcheck homeRun (.init ⟨tableOf 1 0, rfl⟩) (by decide +kernel) hs

/-- A batch is committed under one machine, the machine changes within the epoch, and the first
Declare is the new machine's. -/
def strayRun : List Act :=
  [.commit startBatch, .post (tableOf 1 1), .connect (some []),
    helloAckOf 1 Wire.capAuthoredTables, .go, .go, .go, ackOf 2, .go, .go]

/-- **A game may reach another machine**: a batch not yet sent when the identity changes within the
epoch is sent under the new identity. -/
theorem not_sent_home : ∃ s, (system {}).Reachable s ∧ ¬ SentHome s.path.log.events := by
  have hrun : (Runs.runOf (step {}) (start (tableOf 1 0)) strayRun).any
      (fun s => s.path.log.events.any fun
        | .sent q d => q.identity != d.identity
        | _ => false) = true := by decide +kernel
  obtain ⟨s, hs, hany⟩ := (Option.any_eq_true _ _).mp hrun
  refine ⟨s, Runs.reachable_of_runOf ⟨tableOf 1 0, rfl⟩ hs, fun h => ?_⟩
  obtain ⟨e, he, hne⟩ := List.any_eq_true.mp hany
  cases e with
  | sent q d => simp [(h.of_mem he).2] at hne
  | _ => simp at hne

end Worker
