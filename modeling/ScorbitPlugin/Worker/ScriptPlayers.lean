import ScorbitPlugin.Worker.Dispatch

set_option relaxedAutoImplicit false
set_option autoImplicit false

/-!
# The players the script sees

The worker's players beside the script's, `ReadBackState` of `src/ReadBack.cpp`, which drains the
channel's latch when it reads. A post is tagged with the declared epoch, which is 0 until a
connection's first Declare is acknowledged: Players that arrive before that are not the script's.

## Main definitions

* `Worker.Views` — the worker, its players and the script's.
* `Worker.Views.ScriptSees` — what is claimed of a state.
* `Worker.Views.Untagged` — the Players after which it fails.
* `Worker.Agrees` — how the two sides stand to each other.

## Main results

* `Worker.script_sees` — it holds in every run whose Players all arrive otherwise.
-/

namespace Worker

open Codec

/-! ## The two sides -/

/-- The worker, its players and the script's. -/
structure Views where
  state : State
  book : PlayerBook := {}
  script : ReadBackState

/-- What can happen. -/
inductive ViewAct
  /-- A step of the worker, of its API thread or of a daemon, with what the file system answers. -/
  | worker (a : Act) (files : PictureFiles)
  /-- The script drains the channel. -/
  | drain
deriving DecidableEq, Repr

/-- The script's players under the declaration in force: `NewEpoch` where its epoch is another. -/
def ReadBackState.declared (r : ReadBackState) (d : DeclareSnapshot) : ReadBackState :=
  if d.epoch = r.epoch then r else r.newEpoch d.epoch

/-- One step. -/
def viewsStep (cfg : Config) (v : Views) : ViewAct → Option Views
  | .worker a files =>
    (step cfg v.state a).map fun s' =>
      { state := s'
        book := v.book.next cfg v.state a files s'
        script := v.script.declared s'.path.source.inForce }
  | .drain =>
    some { v with script := v.script.drain v.book.latch, book := { v.book with latch := none } }

/-- The worker, its players and the script's, from the source's first declaration. -/
def views (cfg : Config) : Runs.System Views ViewAct :=
  .ofStep (fun v => ∃ d, v = { state := start d, script := ({} : ReadBackState).newEpoch d.epoch })
    (viewsStep cfg)

/-- What the script reads once it has drained the channel. -/
def PlayerBook.shown (b : PlayerBook) (r : ReadBackState) : PlayersPost :=
  (r.drain b.latch).players

/-- No exchange is outstanding. -/
def Pc.awaits {Ask : Type} : Pc Ask → Bool
  | .exchange _ _ => true
  | _ => false

/-- Where a Declare was acknowledged in the session and no exchange is outstanding, the API thread
at the declared epoch reads the worker's slots and its claim count. -/
def Views.ScriptSees (v : Views) : Prop :=
  v.state.path.pc ≠ .offline → v.state.path.link.haveDeclared = true →
    v.state.path.pc.awaits = false → v.script.epoch = v.state.path.link.declared.epoch →
    (v.book.shown v.script).slots = v.book.table.views ∧
      (v.book.shown v.script).claims = v.book.claims

/-- What is posted now carries the epoch it will be declared under: a Declare was acknowledged, or
one of epoch 0 awaits its answer. -/
def GamePath.Tags {Ask : Type} (p : GamePath Ask) : Prop :=
  p.link.haveDeclared = true ∨
    ∃ request now, p.pc = .exchange request (.declare now) ∧ now.epoch = 0

/-- Players that name anyone are served before a Declare of the connection was acknowledged, and
while none of epoch 0 awaits its answer. -/
def Views.Untagged (cfg : Config) (v : Views) : ViewAct → Prop
  | .worker (.recv msg) _ =>
    v.state.dispatches msg = true ∧
      handler cfg true v.state.path.link msg.header.type = .players ∧ ¬ v.state.path.Tags ∧
      ∃ players, Wire.Players.decode msg.payload = some players ∧
        ∃ i, PlayerTable.nextView players i ≠ {}
  | _ => False

/-! ## How they agree -/

/-- The worker's players and the script's, by the epochs of the declared table and of the one taken
last; `tagged` when posts carry the epoch they will be declared under. -/
structure Agrees (b : PlayerBook) (r : ReadBackState) (declared taken : ℕ) (tagged : Prop) :
    Prop where
  ordered : declared ≤ taken ∧ taken ≤ r.epoch
  latch : ∀ post, b.latch = some post → post.epoch ≤ taken
  /-- Nothing was posted yet for an epoch the worker has not taken. -/
  ahead : taken < r.epoch → r.players.slots = noPlayers
  claims : (b.shown r).claims = b.claims
  same : tagged → declared = r.epoch → (b.shown r).slots = b.table.views
  /-- The script has gone on to another table. -/
  switched : tagged → declared < r.epoch → r.players.slots = noPlayers ∧
    ∀ post, b.latch = some post → post.epoch = r.epoch → post.slots = noPlayers
  untagged : ¬ tagged → b.table.views = noPlayers ∧ (b.shown r).slots = noPlayers

/-- A post does not change the script's epoch. -/
theorem ReadBackState.drain_epoch (r : ReadBackState) (latch : Option PlayersPost) :
    (r.drain latch).epoch = r.epoch := by
  unfold ReadBackState.drain
  cases latch with
  | none => rfl
  | some post =>
    dsimp only
    split <;> rfl

/-- What the script reads, by what the latch holds. -/
theorem PlayerBook.shown_slots (b : PlayerBook) (r : ReadBackState) :
    (b.shown r).slots = match b.latch with
      | none => r.players.slots
      | some post => if post.epoch = r.epoch then post.slots else r.players.slots := by
  unfold PlayerBook.shown ReadBackState.drain
  cases b.latch with
  | none => rfl
  | some post =>
    dsimp only
    split <;> rfl

/-- The claim count is not the table's, and is read from any post. -/
theorem PlayerBook.shown_claims (b : PlayerBook) (r : ReadBackState) :
    (b.shown r).claims = match b.latch with
      | none => r.players.claims
      | some post => post.claims := by
  unfold PlayerBook.shown ReadBackState.drain
  cases b.latch with
  | none => rfl
  | some post =>
    dsimp only
    split <;> rfl

namespace Agrees

variable {b b' : PlayerBook} {r : ReadBackState} {declared taken taken' : ℕ}
  {tagged tagged' : Prop}

/-- A script that has gone on reads no players. -/
theorem shown_of_switched (h : Agrees b r declared taken tagged) (ht : tagged)
    (hlt : declared < r.epoch) : (b.shown r).slots = noPlayers := by
  obtain ⟨hslots, hlatch⟩ := h.switched ht hlt
  rw [PlayerBook.shown_slots]
  cases hl : b.latch with
  | none => exact hslots
  | some post =>
    dsimp only
    split
    · exact hlatch post hl ‹_›
    · exact hslots

/-- Without players of the worker's the script reads none. -/
theorem shown_empty (h : Agrees b r declared taken tagged) (hviews : b.table.views = noPlayers) :
    (b.shown r).slots = noPlayers := by
  by_cases ht : tagged
  · rcases Nat.lt_or_eq_of_le (h.ordered.1.trans h.ordered.2) with hlt | heq
    · exact h.shown_of_switched ht hlt
    · exact (h.same ht heq).trans hviews
  · exact (h.untagged ht).2

/-- What leaves the worker's side as it is.

**Proof sketch.** The agreement reads of the book its views, claims and latch, and these are the
same. -/
theorem frame (h : Agrees b r declared taken tagged) (hv : b'.table.views = b.table.views)
    (hc : b'.claims = b.claims) (hl : b'.latch = b.latch) :
    Agrees b' r declared taken tagged := by
  have hshown : b'.shown r = b.shown r := by
    unfold PlayerBook.shown
    rw [hl]
  refine ⟨h.ordered, ?_, h.ahead, ?_, ?_, ?_, ?_⟩
  · rw [hl]
    exact h.latch
  · rw [hshown, hc]
    exact h.claims
  · rw [hshown, hv]
    exact h.same
  · rw [hl]
    exact h.switched
  · rw [hshown, hv]
    exact h.untagged

/-- Only whether posts are tagged matters, not why. -/
theorem congr (h : Agrees b r declared taken tagged) (ht : tagged' ↔ tagged) :
    Agrees b r declared taken tagged' :=
  ⟨h.ordered, h.latch, h.ahead, h.claims, fun hn => h.same (ht.mp hn),
    fun hn => h.switched (ht.mp hn), fun hn => h.untagged (mt ht.mpr hn)⟩

/-- What a message does is read by the script, when it is tagged. -/
theorem posted (h : Agrees b r declared taken tagged) (ht : tagged) (hp : b.Posts declared b') :
    Agrees b' r declared taken tagged := by
  rcases hp with ⟨hv, hc, hl⟩ | hl
  · exact h.frame hv hc hl
  · refine ⟨h.ordered, ?_, h.ahead, ?_, ?_, ?_, fun hn => absurd ht hn⟩
    · intro post hpost
      obtain rfl := Option.some.inj (hl.symm.trans hpost)
      exact h.ordered.1
    · simp [PlayerBook.shown_claims, hl]
    · intro _ heq
      simp [PlayerBook.shown_slots, hl, heq]
    · intro _ hlt
      refine ⟨(h.switched ht hlt).1, fun post hpost heq => ?_⟩
      obtain rfl := Option.some.inj (hl.symm.trans hpost)
      exact absurd heq hlt.ne

/-- Without players the worker may take another table, or declare one, as if it were its first. -/
theorem restart (h : Agrees b r declared taken tagged) (hviews : b.table.views = noPlayers)
    (htaken : taken ≤ taken') (hr : taken' ≤ r.epoch) {declared' : ℕ}
    (hd : declared' = taken' ∨ ¬ tagged' ∧ declared' ≤ taken') :
    Agrees b r declared' taken' tagged' := by
  have hshown := h.shown_empty hviews
  have hle : declared' ≤ taken' := hd.elim le_of_eq And.right
  refine ⟨⟨hle, hr⟩, fun post hpost => (h.latch post hpost).trans htaken,
    fun hlt => h.ahead (htaken.trans_lt hlt), h.claims, fun _ _ => hshown.trans hviews.symm, ?_,
    fun _ => ⟨hviews, hshown⟩⟩
  intro ht hlt
  have heq : declared' = taken' := hd.resolve_right fun hn => hn.1 ht
  refine ⟨h.ahead (by omega), fun post hpost hepoch => ?_⟩
  have := h.latch post hpost
  omega

/-- The worker takes a declaration. -/
theorem takes (h : Agrees b r declared taken tagged) (htaken : taken ≤ taken')
    (hr : taken' ≤ r.epoch) : Agrees b r declared taken' tagged :=
  ⟨⟨h.ordered.1.trans htaken, hr⟩, fun post hpost => (h.latch post hpost).trans htaken,
    fun hlt => h.ahead (htaken.trans_lt hlt), h.claims, h.same, h.switched, h.untagged⟩

/-- The API thread declares.

**Proof sketch.** With the same epoch nothing happens. With a newer one the script's players are
cleared, and so is what the book shows under that epoch, for what waits in the latch is older. -/
theorem declares (h : Agrees b r declared taken tagged) {d : DeclareSnapshot}
    (hd : r.epoch ≤ d.epoch) : Agrees b (r.declared d) declared taken tagged := by
  unfold ReadBackState.declared
  split
  · exact h
  · rename_i hne
    have hlt : r.epoch < d.epoch := by omega
    have hlatch : ∀ post, b.latch = some post → post.epoch ≠ d.epoch := by
      intro post hpost
      have := h.latch post hpost
      have := h.ordered.2
      omega
    have hslots : (b.shown (r.newEpoch d.epoch)).slots = noPlayers := by
      rw [PlayerBook.shown_slots]
      cases hl : b.latch with
      | none => rfl
      | some post => exact if_neg (hlatch post hl)
    have hclaims : (b.shown (r.newEpoch d.epoch)).claims = (b.shown r).claims := by
      rw [PlayerBook.shown_claims, PlayerBook.shown_claims]
      cases b.latch <;> rfl
    refine ⟨⟨h.ordered.1, h.ordered.2.trans hd⟩, h.latch, fun _ => rfl, hclaims.trans h.claims,
      ?_, fun _ _ => ⟨rfl, fun post hpost heq => absurd heq (hlatch post hpost)⟩,
      fun hn => ⟨(h.untagged hn).1, hslots⟩⟩
    intro _ heq
    have heq : declared = d.epoch := heq
    have := h.ordered
    omega

/-- The script drains the channel.

**Proof sketch.** The script's record becomes what the book showed it, which is what the agreement
was about. -/
theorem drained (h : Agrees b r declared taken tagged) :
    Agrees { b with latch := none } (r.drain b.latch) declared taken tagged := by
  have hepoch := r.drain_epoch b.latch
  refine ⟨hepoch.symm ▸ h.ordered, by simp, ?_, h.claims, ?_, ?_, h.untagged⟩
  · intro hlt
    rw [hepoch] at hlt
    have hslots : (r.drain b.latch).players.slots = (b.shown r).slots := rfl
    rw [hslots, PlayerBook.shown_slots]
    cases hl : b.latch with
    | none => exact h.ahead hlt
    | some post =>
      have := h.latch post hl
      exact (if_neg (by omega)).trans (h.ahead hlt)
  · rw [hepoch]
    exact h.same
  · rw [hepoch]
    exact fun ht hlt => ⟨h.shown_of_switched ht hlt, by simp⟩

/-- The post of an ended table, under any epoch up to the one taken. -/
theorem emptied (h : Agrees b r declared taken tagged) {epoch : ℕ} (hle : epoch ≤ taken)
    (hslots : epoch < r.epoch → r.players.slots = noPlayers)
    (hviews : b'.table.views = noPlayers) (hclaims : b'.claims = b.claims)
    (hl : b'.latch = some { epoch := epoch, slots := noPlayers, claims := b.claims }) :
    Agrees b' r epoch taken tagged' := by
  have hshown : (b'.shown r).slots = noPlayers := by
    rw [PlayerBook.shown_slots, hl]
    dsimp only
    split
    · rfl
    · exact hslots (by have := h.ordered; omega)
  refine ⟨⟨hle, h.ordered.2⟩, ?_, h.ahead, ?_, fun _ _ => hshown.trans hviews.symm, ?_,
    fun _ => ⟨hviews, hshown⟩⟩
  · intro post hpost
    obtain rfl := Option.some.inj (hl.symm.trans hpost)
    exact hle
  · rw [PlayerBook.shown_claims, hl, hclaims]
  · intro _ hlt
    refine ⟨hslots hlt, fun post hpost _ => ?_⟩
    obtain rfl := Option.some.inj (hl.symm.trans hpost)
    rfl

/-- Without players posts may lose their tag. -/
theorem untag (h : Agrees b r declared taken tagged) (hviews : b.table.views = noPlayers)
    (ht : tagged' → tagged) : Agrees b r declared taken tagged' := by
  by_cases ht' : tagged'
  · exact h.congr ⟨ht, fun _ => ht'⟩
  · exact h.restart hviews le_rfl h.ordered.2 (.inr ⟨ht', h.ordered.1⟩)

/-- A connection's end. -/
theorem ended (h : Agrees b r declared taken tagged) (ht : tagged' → tagged) :
    Agrees (b.endReadBacks declared) r declared taken tagged' := by
  obtain ⟨hviews, hclaims, hlatch⟩ := b.endReadBacks_spec declared
  by_cases hempty : b.table.views = noPlayers
  · rw [if_pos hempty] at hlatch
    exact (h.untag hempty ht).frame (hviews.trans hempty.symm) hclaims hlatch
  · have htagged : tagged := by
      by_contra hn
      exact hempty (h.untagged hn).1
    rw [if_neg hempty] at hlatch
    exact h.emptied h.ordered.1 (fun hlt => (h.switched htagged hlt).1) hviews hclaims hlatch

/-- Another table is declared. -/
theorem switches (h : Agrees b r declared taken tagged) :
    Agrees (b.endReadBacks taken) r taken taken tagged' := by
  obtain ⟨hviews, hclaims, hlatch⟩ := b.endReadBacks_spec taken
  by_cases hempty : b.table.views = noPlayers
  · rw [if_pos hempty] at hlatch
    exact (h.restart hempty le_rfl h.ordered.2 (.inl rfl)).frame (hviews.trans hempty.symm)
      hclaims hlatch
  · rw [if_neg hempty] at hlatch
    exact h.emptied le_rfl h.ahead hviews hclaims hlatch

end Agrees

/-! ## What a step does to the epochs -/

/-- A quiet worker is not offline. -/
theorem Pc.quiet_ne_offline {Ask : Type} {pc : Pc Ask} (h : pc.quiet) : pc ≠ .offline := by
  rintro rfl
  cases h

namespace GamePath

variable {Ask : Type} {p p' : GamePath Ask} {m : Move}

/-- The declaration in force is never an older one. -/
theorem Moves.inForce_upTo (hm : p.Moves m p') : p.source.inForce.upTo p'.source.inForce := by
  cases hm with
  | posted d he hi => exact ⟨he, hi⟩
  | committed | evicted | connected | failed | ended | handshake | redeclared | took | left
  | leftUnserved | dropped | droppedUnserved | sent | acked | refused | declaring | declared
  | moved => exact .refl _

/-- What a move does to the declared table: a connection begins or ends, a Declare goes out or is
acknowledged, or the table stays the declared one and what is posted keeps its tag. -/
inductive Retags (p p' : GamePath Ask) : Prop
  | connects (ho : p.pc = .offline) (hh : p'.link.haveDeclared = false)
      (hd : p'.link.declared = {}) (ht : ¬ p'.Tags)
  | ends (ho : p.pc ≠ .offline) (ho' : p'.pc = .offline) (hl : p'.link = p.link)
  | sends (payload : Bytes) (hpc : p.pc = .declare)
      (hp : p' = p.send Wire.typeDeclare payload (.declare p.link.current))
  | acknowledged (request : Wire.Message) (now : DeclareSnapshot)
      (hpc : p.pc = .exchange request (.declare now)) (hp : p' = p.declareAcked now)
  | keeps (ho : p'.pc = .offline ↔ p.pc = .offline)
      (hh : p'.link.haveDeclared = p.link.haveDeclared)
      (hd : p'.link.declared = p.link.declared) (ht : p'.Tags ↔ p.Tags)
      (hpc : ∀ request now, p.pc = .exchange request (.declare now) → p'.pc = p.pc)

/-- What was posted keeps its tag where no Declare is under way before and after. -/
theorem tags_congr (hh : p'.link.haveDeclared = p.link.haveDeclared)
    (hp : ∀ request now, p.pc ≠ .exchange request (.declare now))
    (hp' : ∀ request now, p'.pc ≠ .exchange request (.declare now)) : p'.Tags ↔ p.Tags := by
  unfold Tags
  rw [hh]
  refine or_congr Iff.rfl ⟨?_, ?_⟩
  · rintro ⟨request, now, hpc, -⟩
    exact absurd hpc (hp' request now)
  · rintro ⟨request, now, hpc, -⟩
    exact absurd hpc (hp request now)

/-- Nothing is posted under a table's epoch before its Declare. -/
theorem not_tags (hh : p.link.haveDeclared = false)
    (hpc : ∀ request now, p.pc ≠ .exchange request (.declare now)) : ¬ p.Tags := by
  rintro (hd | ⟨request, now, hdeclare, -⟩)
  · rw [hh] at hd
    cases hd
  · exact hpc request now hdeclare

/-- A worker that is neither offline nor at a Declare, before and after, keeps what it posts
under. -/
theorem Retags.elsewhere (hh : p'.link.haveDeclared = p.link.haveDeclared)
    (hd : p'.link.declared = p.link.declared) (ho : p.pc ≠ .offline) (ho' : p'.pc ≠ .offline)
    (hpc : ∀ request now, p.pc ≠ .exchange request (.declare now))
    (hpc' : ∀ request now, p'.pc ≠ .exchange request (.declare now)) : p.Retags p' :=
  .keeps (iff_of_false ho' ho) hh hd (tags_congr hh hpc hpc')
    fun request now h => absurd h (hpc request now)

/-- Every move does one of these.

**Proof sketch.** By the kind of the move: a connection begins, fails or ends, a Declare goes out or
is acknowledged, and all else keeps the tags. -/
theorem Moves.retags (hm : p.Moves m p') : p.Retags p' := by
  cases hm with
  | posted | committed | evicted => exact .keeps Iff.rfl rfl rfl Iff.rfl fun _ _ _ => rfl
  | connected payload hpc => exact .connects hpc rfl rfl (not_tags rfl fun _ _ h => by cases h)
  | failed hpc => exact .connects hpc rfl rfl (not_tags rfl fun _ _ h => by cases h)
  | ended hpc => exact .ends hpc rfl rfl
  | declaring payload hpc => exact .sends payload hpc rfl
  | declared now request hpc => exact .acknowledged request now hpc rfl
  | handshake ack request hpc | took flush hpc | dropped flush front rest hpc
  | droppedUnserved flush front rest hpc | sent flush front rest hpc
  | acked flush request front rest hpc | refused flush request front rest hpc =>
    refine Retags.elsewhere rfl rfl ?_ ?_ ?_ ?_ <;>
      simp [GamePath.send, GamePath.handshake, takeGames, dropFront, takeDeclare, sendFront,
        gameAcked, gameRefused, hpc]
  | redeclared pc hpc hq | left flush pc hpc hq | leftUnserved flush pc hpc hq =>
    exact .elsewhere rfl rfl (by simp [hpc]) (Pc.quiet_ne_offline hq) (by simp [hpc])
      fun _ _ => Pc.quiet_ne_declare hq
  | moved seq pc hpc =>
    rcases hpc with rfl | ⟨hp, hq⟩
    · exact .keeps Iff.rfl rfl rfl Iff.rfl fun _ _ _ => rfl
    · exact .elsewhere rfl rfl (Pc.quiet_ne_offline hp) (Pc.quiet_ne_offline hq)
        (fun _ _ => Pc.quiet_ne_declare hp) fun _ _ => Pc.quiet_ne_declare hq

end GamePath

/-! ## What a step does to the players -/

section Step

variable {cfg : Config} {s s' : State} {a : Act} {b : PlayerBook} {r : ReadBackState} {taken : ℕ}

/-- Players that are not dispatched leave the table. -/
theorem dispatch_views (files : PictureFiles) {l : Link} {msg : Wire.Message}
    (hplayers : handler cfg true l msg.header.type ≠ .players)
    (hpicture : handler cfg true l msg.header.type ≠ .playerPicture) :
    b.dispatch cfg l msg files = b := by
  unfold PlayerBook.dispatch
  split
  · exact absurd ‹_› hplayers
  · exact absurd ‹_› hpicture
  · rfl

/-- Players that name nobody leave a table that shows none, and so does any picture.

**Proof sketch.** By the handler. Players that name nobody into a table that shows nobody make no
view and no claim; a picture is of a player with a view, so it is refused. -/
theorem same_of_noPlayers (hviews : b.table.views = noPlayers) (files : PictureFiles) {l : Link}
    {msg : Wire.Message}
    (hblank : handler cfg true l msg.header.type = .players → ∀ players,
      Wire.Players.decode msg.payload = some players → ∀ i, PlayerTable.nextView players i = {}) :
    (b.dispatch cfg l msg files).table.views = b.table.views ∧
      (b.dispatch cfg l msg files).claims = b.claims ∧
      (b.dispatch cfg l msg files).latch = b.latch := by
  unfold PlayerBook.dispatch
  split
  · rename_i hplayers
    unfold PlayerBook.answerPlayers
    cases hdecode : Wire.Players.decode msg.payload with
    | none => exact ⟨rfl, rfl, rfl⟩
    | some players =>
      have hunchanged : (b.table.apply players).1 = false :=
        PlayerTable.apply_noPlayers hviews (hblank hplayers players hdecode)
      have hspec := PlayerBook.applyPlayers_spec b l.declared.epoch
        (PlayerBook.validPlayers_of_decode hdecode)
      rw [hunchanged, if_neg Bool.false_ne_true] at hspec
      exact hspec
  · unfold PlayerBook.answerPlayerPicture
    cases Wire.PlayerPicture.decode msg.payload with
    | none => exact ⟨rfl, rfl, rfl⟩
    | some picture =>
      dsimp only
      rw [PlayerTable.applyPicture_noPlayers hviews]
      exact ⟨rfl, rfl, rfl⟩
  · exact ⟨rfl, rfl, rfl⟩

/-- What a message does to the players is posted under the declared epoch. -/
theorem posts_dispatch (files : PictureFiles) (l : Link) (msg : Wire.Message) :
    b.Posts l.declared.epoch (b.dispatch cfg l msg files) := by
  unfold PlayerBook.dispatch
  split
  · exact PlayerBook.posts_answerPlayers _
  · exact PlayerBook.posts_answerPlayerPicture _ _
  · exact .inl ⟨rfl, rfl, rfl⟩

/-- What arrives in a step keeps the script's players, unless it is untagged.

**Proof sketch.** A disconnect loses the last post or keeps it. A message that is dispatched to the
players is tagged with the declared epoch, unless it is untagged, which is excluded. -/
theorem agrees_received (files : PictureFiles)
    (h : Agrees b r s.path.link.declared.epoch taken s.path.Tags)
    (hok : ¬ Views.Untagged cfg ⟨s, b, r⟩ (.worker a files)) :
    Agrees (b.received cfg s a files) r s.path.link.declared.epoch taken s.path.Tags := by
  unfold PlayerBook.received
  split
  · exact h.frame rfl rfl rfl
  · rename_i msg
    split
    · rename_i hdispatches
      by_cases ht : s.path.Tags
      · exact h.posted ht (posts_dispatch files _ msg)
      · have hblank : handler cfg true s.path.link msg.header.type = .players → ∀ players,
            Wire.Players.decode msg.payload = some players →
            ∀ i, PlayerTable.nextView players i = {} := by
          intro hplayers players hdecode i
          by_contra hne
          exact hok ⟨hdispatches, hplayers, ht, players, hdecode, i, hne⟩
        obtain ⟨hv, hc, hl⟩ := same_of_noPlayers (h.untagged ht).1 files hblank
        exact h.frame hv hc hl
    · exact h
  · exact h

/-- Without a read-back no players are served.

**Proof sketch.** Without a read-back the capability is not the worker's own, whatever else is
configured, so nothing of it is allowed; each branch of the dispatch then gives another handler. -/
theorem handler_noReadBack (h : cfg.readBack = false) (l : Link) (type : UInt16) :
    handler cfg true l type ≠ .players ∧ handler cfg true l type ≠ .playerPicture := by
  have hown : cfg.ownCapabilities &&& Wire.capPlayers = 0 := by
    unfold Config.ownCapabilities
    rw [h, Bool.and_false]
    cases cfg.memory <;> cases cfg.overlay <;> cases cfg.authoredTables <;> decide
  have hplayers : l.readBackAllowed cfg Wire.capPlayers = false := by
    simp [Link.readBackAllowed, hown]
  have hpictures : l.readBackAllowed cfg Wire.capPlayerPictures = false := by
    simp [Link.readBackAllowed, hown]
  have hite : ∀ (c : Prop) [Decidable c] (x y other : Handler), x ≠ other → y ≠ other →
      (if c then x else y) ≠ other := by
    intro c _ x y other hx hy
    split
    · exact hx
    · exact hy
  unfold handler Handler.when
  simp only [hplayers, hpictures, Bool.false_eq_true, if_false]
  constructor
  · repeat' apply hite
    all_goals decide
  · repeat' apply hite
    all_goals decide

/-- Nothing arrives while the worker is offline, or where there is no read-back. -/
theorem received_views (files : PictureFiles) (h : s.path.pc = .offline ∨ cfg.readBack = false) :
    (b.received cfg s a files).table.views = b.table.views := by
  unfold PlayerBook.received
  split
  · rfl
  · rename_i msg
    split
    · rename_i hdispatches
      rcases h with ho | hread
      · simp [State.dispatches, ho] at hdispatches
      · obtain ⟨hplayers, hpictures⟩ :=
          handler_noReadBack hread s.path.link msg.header.type
        rw [dispatch_views files hplayers hpictures]
    · rfl
  · rfl

/-- A connection that ends takes its players with it. -/
theorem ends_of_offline (hs : step cfg s a = some s') (ho : s.path.pc ≠ .offline)
    (ho' : s'.path.pc = .offline) : PlayerBook.ends s' a = true := by
  cases a with
  | connect | recv | go | ping | cut => exact decide_eq_true ho'
  | post d =>
    obtain ⟨-, hs⟩ := Option.ite_none_right_eq_some.mp hs
    obtain rfl := Option.some.inj hs
    exact absurd ho' ho
  | commit batch =>
    obtain ⟨_, hs⟩ := Option.dite_none_right_eq_some.mp hs
    obtain rfl := Option.some.inj hs
    exact absurd ho' ho
  | evict | request | takeResults =>
    obtain rfl := Option.some.inj hs
    exact absurd ho' ho

/-- No other step does. -/
theorem ends_eq_false (ho' : s'.path.pc ≠ .offline) (a : Act) : PlayerBook.ends s' a = false := by
  unfold PlayerBook.ends
  split
  · exact decide_eq_false ho'
  · exact decide_eq_false ho'
  · exact decide_eq_false ho'
  · exact decide_eq_false ho'
  · exact decide_eq_false ho'
  · rfl

/-- The worker goes on from an acknowledged Declare. -/
theorem declareAcked_pc {Ask : Type} (p : GamePath Ask) (now : DeclareSnapshot) :
    (p.declareAcked now).pc ≠ .offline ∧
      ∀ request k, (p.declareAcked now).pc ≠ .exchange request k := by
  simp only [GamePath.declareAcked]
  split <;> simp

/-- The message that acknowledges a Declare switches the players' table when it is another one, and
is dispatched nowhere.

**Proof sketch.** The worker waited for the answer and does not after, so the step is its message.
It is no request, so it is not dispatched, and it switches the table when it is another one. -/
theorem switches_of_acked {request : Wire.Message} {now : DeclareSnapshot}
    (hs : step cfg s a = some s') (hpc : s.path.pc = .exchange request (.declare now))
    (hp : s'.path = s.path.declareAcked now) (files : PictureFiles) :
    PlayerBook.switches s a = s.path.link.newTable now ∧ b.received cfg s a files = b := by
  obtain ⟨ho, hne⟩ := declareAcked_pc s.path now
  rw [← hp] at ho hne
  rcases step_pc hs (fun h => hne request _ (h.trans hpc)) with
    hoff | ⟨request', k, hk, -⟩ | hgo | ⟨msg, rfl, hrecv⟩
  · exact absurd hoff ho
  · exact absurd hk (hne request' k)
  · simp [State.go, hpc] at hgo
  · unfold State.recv at hrecv
    simp only [hpc] at hrecv
    split at hrecv
    · rename_i hans
      obtain rfl := Option.some.inj hrecv
      have herror : msg.header.isError = false := by
        by_contra herror
        refine ho ?_
        show (s.declareAnswered cfg now msg).path.pc = .offline
        unfold State.declareAnswered
        rw [if_pos (Bool.eq_true_of_not_eq_false herror)]
        rfl
      refine ⟨?_, ?_⟩
      · simp [PlayerBook.switches, hpc, hans, herror]
      · simp [PlayerBook.received, State.dispatches, hpc, hans]
    · split at hrecv
      · obtain rfl := Option.some.inj hrecv
        exact absurd hpc (hne request _)
      · obtain rfl := Option.some.inj hrecv
        unfold State.dispatched at ho hne
        cases hd : s.dispatch cfg msg with
        | none =>
          rw [hd] at ho
          exact absurd rfl ho
        | some scores =>
          rw [hd] at hne
          exact absurd rfl (hne request _)

/-- No other step switches it.

**Proof sketch.** Only the answer to a Declare may switch, and after it the worker waits for it no
more. -/
theorem switches_eq_false (hs : step cfg s a = some s')
    (hkeeps : ∀ request now, s.path.pc = .exchange request (.declare now) →
      s'.path.pc = s.path.pc) : PlayerBook.switches s a = false := by
  cases a with
  | recv msg =>
    unfold PlayerBook.switches
    dsimp only
    split
    · rename_i request now hpc
      by_contra hswitches
      have hswitches := Bool.eq_true_of_not_eq_false hswitches
      simp only [Bool.and_eq_true, Bool.not_eq_true'] at hswitches
      obtain ⟨⟨hans, herror⟩, -⟩ := hswitches
      have hstep : s.declareAnswered cfg now msg = s' := by
        simpa [step, State.recv, hpc, hans, State.resume] using hs
      have hp : s'.path = s.path.declareAcked now := by
        rw [← hstep]
        unfold State.declareAnswered
        rw [if_neg (by simp [herror])]
      have hsame := hkeeps request now hpc
      rw [hp, hpc] at hsame
      exact (declareAcked_pc s.path now).2 request _ hsame
    · rfl
  | _ => rfl

variable (cfg s b) in
/-- Where no connection ends and no other table is declared, only what arrives changes the
players. -/
theorem next_received (files : PictureFiles) (he : PlayerBook.ends s' a = false)
    (hw : PlayerBook.switches s a = false) :
    b.next cfg s a files s' = b.received cfg s a files := by
  simp [PlayerBook.next, he, hw]

variable (cfg s s' b) in
/-- Otherwise the players are gone, where there are any. -/
theorem next_ended (files : PictureFiles)
    (h : (PlayerBook.ends s' a || PlayerBook.switches s a) = true) :
    b.next cfg s a files s' = if cfg.readBack then
      (b.received cfg s a files).endReadBacks s'.path.link.declared.epoch
      else b.received cfg s a files := by
  simp [PlayerBook.next, h]

variable (s') in
/-- A table without players stays as it is when it ends. -/
theorem next_of_noPlayers (files : PictureFiles)
    (hviews : (b.received cfg s a files).table.views = noPlayers) :
    (b.next cfg s a files s').table.views = noPlayers ∧
      (b.next cfg s a files s').claims = (b.received cfg s a files).claims ∧
      (b.next cfg s a files s').latch = (b.received cfg s a files).latch := by
  unfold PlayerBook.next
  dsimp only
  split
  · obtain ⟨hempty, hclaims, hlatch⟩ :=
      (b.received cfg s a files).endReadBacks_spec s'.path.link.declared.epoch
    rw [if_pos hviews] at hlatch
    exact ⟨hempty, hclaims, hlatch⟩
  · exact ⟨hviews, rfl, rfl⟩

/-- The worker's players and the script's in a run: they agree, and the worker has none while it is
offline, or without a read-back. -/
structure Views.Follows (cfg : Config) (v : Views) : Prop where
  epoch : v.script.epoch = v.state.path.source.inForce.epoch
  first : v.state.path.link.haveDeclared = false → v.state.path.link.declared.epoch = 0
  agrees : Agrees v.book v.script v.state.path.link.declared.epoch
    v.state.path.link.current.epoch v.state.path.Tags
  none : v.state.path.pc = .offline ∨ cfg.readBack = false → v.book.table.views = noPlayers

/-- The script's epoch is the one of the declaration in force. -/
theorem ReadBackState.declared_epoch (r : ReadBackState) (d : DeclareSnapshot) :
    (r.declared d).epoch = d.epoch := by
  unfold ReadBackState.declared
  split
  · exact Eq.symm ‹_›
  · rfl

/-- What a step of the worker does to the players keeps them together.

**Proof sketch.** In the order of the source: what arrives is dispatched and posted under the
current epoch, then the worker goes on, and the API thread declares what is in force. The table is
cleared where the connection ends or another table is declared, and posted as such. -/
theorem Views.Follows.worker {v : Views} (h : v.Follows cfg) (hl : v.state.path.Linked)
    {files : PictureFiles} (hok : ¬ v.Untagged cfg (.worker a files))
    (hs : step cfg v.state a = some s') : Views.Follows cfg
      { state := s', book := v.book.next cfg v.state a files s'
        script := v.script.declared s'.path.source.inForce } := by
  obtain ⟨m, hm⟩ := step_moves hs
  have hl' := hl.moves hm
  have hepoch := ReadBackState.declared_epoch v.script s'.path.source.inForce
  -- what arrives is posted, then the worker and its API thread go on
  have htaken : Agrees (v.book.received cfg v.state a files)
      (v.script.declared s'.path.source.inForce) v.state.path.link.declared.epoch
      s'.path.link.current.epoch v.state.path.Tags := by
    refine ((agrees_received files h.agrees hok).declares ?_).takes (hm.current_upTo hl).1 ?_
    · rw [h.epoch]
      exact hm.inForce_upTo.1
    · rw [hepoch]
      exact hl'.current.1
  have hnone : v.state.path.pc = .offline ∨ cfg.readBack = false →
      (v.book.received cfg v.state a files).table.views = noPlayers :=
    fun ho => (received_views files ho).trans (h.none ho)
  cases hm.retags with
  | connects ho hh hd ht =>
    have hviews := hnone (.inl ho)
    obtain ⟨hv, hc, hlatch⟩ := next_of_noPlayers s' files hviews
    refine ⟨hepoch, fun _ => congrArg DeclareSnapshot.epoch hd, ?_, fun _ => hv⟩
    refine Agrees.frame ?_ (hv.trans hviews.symm) hc hlatch
    have hzero : s'.path.link.declared.epoch = 0 := congrArg DeclareSnapshot.epoch hd
    exact htaken.restart hviews le_rfl htaken.ordered.2 (.inr ⟨ht, hzero.symm ▸ Nat.zero_le _⟩)
  | ends ho ho' hlink =>
    have hnext := next_ended cfg v.state s' v.book files
      (Bool.or_eq_true_iff.mpr (.inl (ends_of_offline hs ho ho')))
    have htags : s'.path.Tags → v.state.path.Tags := by
      rintro (hd | ⟨request, now, hpc, -⟩)
      · exact .inl (hlink ▸ hd)
      · cases ho'.symm.trans hpc
    have hdeclared : s'.path.link.declared = v.state.path.link.declared := by rw [hlink]
    have hfirst : s'.path.link.haveDeclared = false → s'.path.link.declared.epoch = 0 := by
      rw [hlink]
      exact h.first
    by_cases hread : cfg.readBack = true
    · rw [if_pos hread] at hnext
      refine ⟨hepoch, hfirst, ?_, fun _ => ?_⟩
      · dsimp only
        rw [hnext, hdeclared]
        exact htaken.ended htags
      · dsimp only
        rw [hnext]
        exact (PlayerBook.endReadBacks_spec _ _).1
    · rw [if_neg hread] at hnext
      have hviews := hnone (.inr (Bool.eq_false_iff.mpr hread))
      refine ⟨hepoch, hfirst, ?_, fun _ => ?_⟩
      · dsimp only
        rw [hnext, hdeclared]
        exact htaken.untag hviews htags
      · dsimp only
        rw [hnext]
        exact hviews
  | sends payload hpc hp =>
    have ho' : s'.path.pc ≠ .offline := by
      rw [hp]
      simp [GamePath.send]
    have hnext := next_received cfg v.state v.book files (ends_eq_false ho' a)
      (switches_eq_false hs (by simp [hpc]))
    have hlink : s'.path.link.declared = v.state.path.link.declared ∧
        s'.path.link.haveDeclared = v.state.path.link.haveDeclared ∧
        s'.path.link.current = v.state.path.link.current := by
      rw [hp]
      exact ⟨rfl, rfl, rfl⟩
    obtain ⟨hdeclared, hhave, hcurrent⟩ := hlink
    refine ⟨hepoch, ?_, ?_, ?_⟩
    · dsimp only
      rw [hdeclared, hhave]
      exact h.first
    · dsimp only
      rw [hnext, hdeclared]
      cases hd : v.state.path.link.haveDeclared with
      | true => exact htaken.congr (iff_of_true (.inl (hhave.trans hd)) (.inl hd))
      | false =>
        have hn : ¬ v.state.path.Tags := GamePath.not_tags hd (by simp [hpc])
        refine htaken.restart (htaken.untagged hn).1 le_rfl htaken.ordered.2 ?_
        -- a Declare of epoch 0 goes out under the epoch that is posted meanwhile
        rw [h.first hd]
        by_cases hzero : s'.path.link.current.epoch = 0
        · exact .inl hzero.symm
        · refine .inr ⟨?_, Nat.zero_le _⟩
          rintro (hd' | ⟨request, now, hpc', hnow⟩)
          · cases hd.symm.trans (hhave.symm.trans hd')
          · rw [hl'.declaring request now hpc'] at hnow
            exact hzero hnow
    · dsimp only
      rw [hnext]
      rintro (ho | hread)
      · exact absurd ho ho'
      · exact hnone (.inr hread)
  | acknowledged request now hpc hp =>
    obtain ⟨hswitches, hreceived⟩ := switches_of_acked (b := v.book) hs hpc hp files
    have ho' : s'.path.pc ≠ .offline := by
      rw [hp]
      exact (declareAcked_pc _ _).1
    have hlink : s'.path.link.declared = now ∧ s'.path.link.haveDeclared = true ∧
        s'.path.link.current = now := by
      rw [hp]
      exact ⟨rfl, rfl, (hl.declaring request now hpc).symm⟩
    obtain ⟨hdeclared, hhave, hcurrent⟩ := hlink
    have hfirst : s'.path.link.haveDeclared = false → s'.path.link.declared.epoch = 0 := by
      rw [hhave]
      exact fun hd => by cases hd
    rw [hreceived, hcurrent] at htaken
    rw [hreceived] at hnone
    have hviews : s'.path.pc = .offline ∨ cfg.readBack = false → v.book.table.views = noPlayers :=
      fun ho => hnone (.inr (ho.resolve_left ho'))
    cases hnew : v.state.path.link.newTable now with
    | true =>
      have hnext := next_ended cfg v.state s' v.book (a := a) files
        (Bool.or_eq_true_iff.mpr (.inr (hswitches.trans hnew)))
      rw [hreceived, hdeclared] at hnext
      by_cases hread : cfg.readBack = true
      · rw [if_pos hread] at hnext
        refine ⟨hepoch, hfirst, ?_, fun _ => ?_⟩
        · dsimp only
          rw [hnext, hdeclared, hcurrent]
          exact htaken.switches
        · dsimp only
          rw [hnext]
          exact (PlayerBook.endReadBacks_spec _ _).1
      · rw [if_neg hread] at hnext
        have hempty := hviews (.inr (Bool.eq_false_iff.mpr hread))
        refine ⟨hepoch, hfirst, ?_, fun _ => ?_⟩
        · dsimp only
          rw [hnext, hdeclared, hcurrent]
          exact htaken.restart hempty le_rfl htaken.ordered.2 (.inl rfl)
        · dsimp only
          rw [hnext]
          exact hempty
    | false =>
      have hnext := next_received cfg v.state v.book files (ends_eq_false ho' a)
        (hswitches.trans hnew)
      rw [hreceived] at hnext
      refine ⟨hepoch, hfirst, ?_, ?_⟩
      · dsimp only
        rw [hnext, hdeclared, hcurrent]
        by_cases ht : v.state.path.Tags
        · -- the Declare is of the epoch posts carried
          have hsame : now.epoch = v.state.path.link.declared.epoch := by
            cases hd : v.state.path.link.haveDeclared with
            | true =>
              simp only [Link.newTable, hd, Bool.true_and, Bool.or_eq_false_iff,
                bne_eq_false_iff_eq] at hnew
              exact hnew.1
            | false =>
              rcases ht with hd' | ⟨request', now', hpc', hzero⟩
              · cases hd.symm.trans hd'
              · obtain ⟨-, hk⟩ := Pc.exchange.inj (hpc.symm.trans hpc')
                obtain rfl := Awaiting.declare.inj hk
                exact hzero.trans (h.first hd).symm
          rw [← hsame] at htaken
          exact htaken.congr (iff_of_true (.inl hhave) ht)
        · exact htaken.restart (htaken.untagged ht).1 le_rfl htaken.ordered.2 (.inl rfl)
      · dsimp only
        rw [hnext]
        exact hviews
  | keeps ho hh hd ht hpc =>
    have hsame : Agrees (v.book.received cfg v.state a files)
        (v.script.declared s'.path.source.inForce) s'.path.link.declared.epoch
        s'.path.link.current.epoch s'.path.Tags := by
      rw [hd]
      exact htaken.congr ht
    have hfirst : s'.path.link.haveDeclared = false → s'.path.link.declared.epoch = 0 := by
      rw [hh, hd]
      exact h.first
    by_cases ho' : s'.path.pc = .offline
    · have hviews := hnone (.inl (ho.mp ho'))
      obtain ⟨hv, hc, hlatch⟩ := next_of_noPlayers s' files hviews
      exact ⟨hepoch, hfirst, hsame.frame (hv.trans hviews.symm) hc hlatch, fun _ => hv⟩
    · have hnext := next_received cfg v.state v.book files (ends_eq_false ho' a)
        (switches_eq_false hs hpc)
      refine ⟨hepoch, hfirst, ?_, ?_⟩
      · dsimp only
        rw [hnext]
        exact hsame
      · dsimp only
        rw [hnext]
        rintro (hoff | hread)
        · exact absurd hoff ho'
        · exact hnone (.inr hread)

end Step

/-! ## Main result -/

/-- The two sides agree before the first connection. -/
theorem follows_start (cfg : Config) (d : DeclareSnapshot) : Views.Follows cfg
    { state := start d, script := ({} : ReadBackState).newEpoch d.epoch } where
  epoch := rfl
  first _ := rfl
  none _ := rfl
  agrees :=
    { ordered := ⟨le_rfl, Nat.zero_le _⟩
      latch := fun _ h => by cases h
      ahead := fun _ => rfl
      claims := rfl
      same := fun _ _ => rfl
      switched := fun _ _ => ⟨rfl, fun _ h => by cases h⟩
      untagged := fun _ => ⟨rfl, rfl⟩ }

/-- **In every run** whose Players are tagged the two sides agree.

**Proof sketch.** A run's invariant, with that of the declarations: a worker's step is
`Follows.worker`, and a drain `Agrees.drained`. -/
theorem follows {cfg : Config} {v : Views}
    (h : (views cfg).Reaches (fun v a => ¬ v.Untagged cfg a) v) : v.Follows cfg := by
  have hboth : v.state.path.Linked ∧ v.Follows cfg := by
    refine h.invariant (I := fun v => v.state.path.Linked ∧ v.Follows cfg) ?_ ?_
    · rintro v ⟨d, rfl⟩
      exact ⟨(GamePath.sorted_init ⟨d, rfl⟩).linked, follows_start cfg d⟩
    · rintro v act v' ⟨hl, hf⟩ hok hs
      cases act with
      | worker a files =>
        obtain ⟨s', ht, rfl⟩ := Option.map_eq_some_iff.mp hs
        obtain ⟨m, hm⟩ := step_moves ht
        exact ⟨hl.moves hm, hf.worker hl hok ht⟩
      | drain =>
        obtain rfl := Option.some.inj hs
        exact ⟨hl, (v.script.drain_epoch _).trans hf.epoch, hf.first, hf.agrees.drained, hf.none⟩
  exact hboth.2

/-- **The script sees the worker's players**: in every run in which no Players that name anyone are
served before a Declare of their connection was acknowledged, unless one of epoch 0 awaits its
answer.

**Proof sketch.** A post carries the declared epoch of its moment. It is the script's where both
are at the same table, and the script shows no players where it has gone on to the next; a switch
and a connection's end post an empty table when there was one. While a connection has declared
nothing the worker then has no players, and neither has the script. -/
theorem script_sees {cfg : Config} {v : Views}
    (h : (views cfg).Reaches (fun v a => ¬ v.Untagged cfg a) v) : v.ScriptSees := by
  intro _ hd _ hepoch
  have hf := follows h
  exact ⟨hf.agrees.same (.inl hd) hepoch.symm, hf.agrees.claims⟩

/-- A request of the daemon's arrives only once a Declare was acknowledged. -/
def Views.inOrder (v : Views) : ViewAct → Bool
  | .worker (.recv msg) _ => msg.header.isResponse || v.state.path.link.haveDeclared
  | _ => true

/-- Then it is tagged. -/
theorem tagged_of_inOrder (cfg : Config) (v : Views) (a : ViewAct) (h : v.inOrder a = true) :
    ¬ v.Untagged cfg a := by
  intro hu
  unfold Views.Untagged at hu
  split at hu
  · rename_i msg files
    obtain ⟨hdispatches, -, ht, -⟩ := hu
    rcases Bool.or_eq_true_iff.mp h with hresponse | hd
    · unfold State.dispatches at hdispatches
      split at hdispatches <;> simp [hresponse] at hdispatches
    · exact ht (.inl hd)
  · exact hu

/-- A player claims a slot once the table is declared. -/
def claimRun : List ViewAct :=
  ([.connect (some []), helloAckOf 2 playersCaps, .go, .go, .go, ackOf 2, .go, .go, .go, .go,
    playersOf (claimOf [7])] : List Act).map (.worker · {})

/-- The script reads the claim. -/
theorem script_sees_claimRun : ∃ v, Runs.runOf (viewsStep {})
      { state := start (tableOf 1 0), script := ({} : ReadBackState).newEpoch 1 } claimRun =
        some v ∧
    ((v.book.shown v.script).slots 0).playerId = [7] ∧ v.ScriptSees := by
  have hrun : (Runs.runOf (viewsStep {})
      { state := start (tableOf 1 0), script := ({} : ReadBackState).newEpoch 1 } claimRun).any
      (fun v => decide (((v.book.shown v.script).slots 0).playerId = [7])) = true := by
    decide +kernel
  obtain ⟨v, hv, hslot⟩ := (Option.any_eq_true _ _).mp hrun
  have hreaches : (views {}).Reaches (fun v a => ¬ v.Untagged {} a) v :=
    Runs.System.Reaches.runOf (tagged_of_inOrder {}) claimRun
      (.init ⟨tableOf 1 0, rfl⟩) (by decide +kernel) hv
  exact ⟨v, hv, of_decide_eq_true hslot, script_sees hreaches⟩

/-- A player claims a slot while the table's Declare awaits its answer. -/
def overtakingRun : List ViewAct :=
  ([.connect (some []), helloAckOf 2 playersCaps, .go, .go, .go, playersOf (claimOf [7]),
    ackOf 2] : List Act).map (.worker · {})

/-- The claim is the worker's, and the script never reads it. -/
theorem not_script_sees : ∃ v, (views {}).Reachable v ∧
    (v.book.table.views 0).playerId = [7] ∧ (v.book.shown v.script).slots = noPlayers ∧
    ¬ v.ScriptSees := by
  have hrun : (Runs.runOf (viewsStep {})
      { state := start (tableOf 1 0), script := ({} : ReadBackState).newEpoch 1 }
      overtakingRun).any (fun v => decide ((v.book.table.views 0).playerId = [7] ∧
        (v.book.shown v.script).slots = noPlayers ∧ v.state.path.pc ≠ .offline ∧
        v.state.path.link.haveDeclared = true ∧ v.state.path.pc.awaits = false ∧
        v.script.epoch = v.state.path.link.declared.epoch)) = true := by
    decide +kernel
  obtain ⟨v, hv, hv'⟩ := (Option.any_eq_true _ _).mp hrun
  obtain ⟨hworker, hscript, ho, hd, hawaits, hepoch⟩ := of_decide_eq_true hv'
  refine ⟨v, Runs.reachable_of_runOf ⟨tableOf 1 0, rfl⟩ hv, hworker, hscript, fun hsees => ?_⟩
  have hslots := (hsees ho hd hawaits hepoch).1
  rw [hscript] at hslots
  rw [← hslots] at hworker
  cases hworker

end Worker
