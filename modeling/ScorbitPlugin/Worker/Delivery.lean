import Mathlib.Data.List.Induction
import Mathlib.Data.List.Sort
import Mathlib.Data.List.TakeWhile
import ScorbitPlugin.Worker.ReplayKey

set_option relaxedAutoImplicit false
set_option autoImplicit false

/-!
# Games are delivered exactly once

An authored table is declared at some time and stays, and its daemons serve it and refuse none of
its batches. Connections end anywhere, also within a replay, and any session may have any of the
daemons as its peer, a new one included. What a daemon applies of the table's games, skipping the
ids it has seen, is then the open game as the script committed it, once the worker has nothing left
to send; and so it is for a game whose end it acknowledged in the session.

The batches done with are a list of their own here: what is retained of the table is the game that
is open after them, or nothing once that has outgrown the queue.

## Main definitions

* `Worker.gameAfter`, `Worker.joined` — the game that is open after some batches, and with one more.
* `Worker.appliedOnce` — what a daemon applies that skips the ids it has seen.
* `Worker.GamePath.OneTable` — the state of a worker up to a table and as long as it stays.
* `Worker.GamePath.Delivers` — what a daemon has applied.

## Main results

* `Worker.delivers_games` — it holds whenever nothing is left to send.
-/

namespace Worker

open Codec

/-! ## Games -/

/-- A game with one more batch: a batch that begins one is its own, any other joins what is open. -/
def joined (game : List GamePost) (post : GamePost) : List GamePost :=
  if post.starts then [post] else if game = [] then [] else game ++ [post]

/-- The game after one more batch. -/
def nextGame (game : List GamePost) (post : GamePost) : List GamePost :=
  if post.ends then [] else joined game post

/-- The game that is open after the batches: from its start, and not ended. -/
def gameAfter (posts : List GamePost) : List GamePost := posts.foldl nextGame []

/-- What is retained of the batches when each was acknowledged in turn. -/
def retainedAfter (posts : List GamePost) : List GamePost := posts.foldl Games.extended []

/-- The game after one more batch. -/
@[simp] theorem gameAfter_concat (posts : List GamePost) (post : GamePost) :
    gameAfter (posts ++ [post]) = nextGame (gameAfter posts) post := by
  simp [gameAfter]

/-- What is retained after one more batch. -/
@[simp] theorem retainedAfter_concat (posts : List GamePost) (post : GamePost) :
    retainedAfter (posts ++ [post]) = Games.extended (retainedAfter posts) post := by
  simp [retainedAfter]

/-- What is open may be joined. -/
theorem opsOf_le_joined {game : List GamePost} {post : GamePost} (hs : post.starts = false) :
    opsOf game ≤ opsOf (joined game post) := by
  unfold joined
  rw [hs, if_neg (by simp)]
  split
  · rename_i hnil
    simp [hnil]
  · rw [opsOf_append]
    omega

/-- **A game that fits is retained whole.**

**Proof sketch.** By induction on the batches, from the front. The batches of the open game grow
with each batch until one starts a game (`opsOf_le_joined`), so those before the last fit as well
and were retained whole. -/
theorem retainedAfter_eq {posts : List GamePost} (h : opsOf (gameAfter posts) ≤ maxQueuedGameOps) :
    retainedAfter posts = gameAfter posts := by
  induction posts using List.reverseRecOn with
  | nil => rfl
  | append_singleton posts post ih =>
    rw [gameAfter_concat] at h ⊢
    rw [retainedAfter_concat]
    unfold Games.extended nextGame at *
    cases hends : post.ends with
    | true => simp
    | false =>
      simp only [hends, Bool.false_eq_true, if_false] at h ⊢
      cases hstarts : post.starts with
      | true =>
        simp only [joined, hstarts, if_true] at h ⊢
        exact Games.fitting_of_le h
      | false =>
        have hle : opsOf (gameAfter posts) ≤ opsOf (joined (gameAfter posts) post) :=
          opsOf_le_joined hstarts
        have ih := ih (hle.trans h)
        simp only [joined, hstarts, Bool.false_eq_true, if_false] at h ⊢
        rw [ih]
        split
        · rfl
        · rename_i hne
          rw [if_neg hne] at h
          exact Games.fitting_of_le h

/-- What is retained begins with the start of its game. -/
theorem head_retainedAfter (posts : List GamePost) :
    ∀ first, (retainedAfter posts).head? = some first → first.starts = true := by
  induction posts using List.reverseRecOn with
  | nil => simp [retainedAfter]
  | append_singleton posts post ih =>
    intro first hfirst
    rw [retainedAfter_concat] at hfirst
    rcases Games.extended_cases (retainedAfter posts) post with
      hx | ⟨-, -, ⟨hs, hx⟩ | ⟨-, hne, hx⟩⟩ <;> rw [hx] at hfirst
    · cases hfirst
    · obtain rfl : post = first := by simpa using hfirst
      exact hs
    · refine ih first ?_
      rwa [List.head?_append_of_ne_nil _ hne] at hfirst

/-- Batches that begin no game leave nothing retained when nothing was. -/
theorem foldl_extended_fragment {posts : List GamePost} (h : ∀ post ∈ posts, post.starts = false) :
    posts.foldl Games.extended [] = [] := by
  induction posts with
  | nil => rfl
  | cons post posts ih =>
    obtain ⟨hpost, hposts⟩ := List.forall_mem_cons.mp h
    have hnone : Games.extended [] post = [] := by
      unfold Games.extended
      simp [hpost]
    rw [List.foldl_cons, hnone]
    exact ih hposts

/-- What is open is some of the batches. -/
theorem gameAfter_sublist (posts : List GamePost) : (gameAfter posts).Sublist posts := by
  induction posts using List.reverseRecOn with
  | nil => exact List.Sublist.refl _
  | append_singleton posts post ih =>
    rw [gameAfter_concat]
    unfold nextGame joined
    split_ifs
    · exact List.nil_sublist _
    · exact List.sublist_append_right _ _
    · exact List.nil_sublist _
    · exact ih.append (List.Sublist.refl _)

/-- The batch itself may be the only one of its game. -/
theorem joined_gameAfter_sublist (posts : List GamePost) (post : GamePost) :
    (joined (gameAfter posts) post).Sublist (posts ++ [post]) := by
  unfold joined
  split_ifs
  · exact List.sublist_append_right _ _
  · exact List.nil_sublist _
  · exact (gameAfter_sublist posts).append (List.Sublist.refl _)

/-- Two batches that begin and end the same have the same place and ops. -/
structure GamePost.Same (a b : GamePost) : Prop where
  serial : a.serial = b.serial
  ops : a.batch.ops = b.batch.ops

/-- Batches that are the same but for their ids begin a game alike. -/
theorem GamePost.Same.starts {a b : GamePost} (h : a.Same b) : a.starts = b.starts := by
  unfold GamePost.starts Wire.GameBatch.startsGame
  rw [h.ops]

/-- They end one alike. -/
theorem GamePost.Same.ends {a b : GamePost} (h : a.Same b) : a.ends = b.ends := by
  unfold GamePost.ends Wire.GameBatch.endsGame
  rw [h.ops]

/-- The same batches make the same games. -/
theorem joined_same {game game' : List GamePost} {a b : GamePost}
    (hgame : List.Forall₂ GamePost.Same game game') (h : a.Same b) :
    List.Forall₂ GamePost.Same (joined game a) (joined game' b) := by
  have hnil : game = [] ↔ game' = [] := by
    constructor
    · rintro rfl
      exact List.forall₂_nil_left_iff.mp hgame
    · rintro rfl
      exact List.forall₂_nil_right_iff.mp hgame
  unfold joined
  simp only [h.starts, hnil]
  split_ifs
  · exact .cons h .nil
  · exact .nil
  · exact List.rel_append hgame (.cons h .nil)

/-- The same batches have as many ops. -/
theorem opsOf_same {posts posts' : List GamePost} (h : List.Forall₂ GamePost.Same posts posts') :
    opsOf posts = opsOf posts' := by
  induction h with
  | nil => rfl
  | cons hsame _ ih =>
    rw [opsOf_cons, opsOf_cons, ih, GamePost.opCount, GamePost.opCount, hsame.ops]

/-- The same batches leave the same game open.

**Proof sketch.** By induction along the two lists: an end closes both games, and any other batch
joins both. -/
theorem gameAfter_same {posts posts' : List GamePost}
    (h : List.Forall₂ GamePost.Same posts posts') :
    List.Forall₂ GamePost.Same (gameAfter posts) (gameAfter posts') := by
  have hfold : ∀ {posts posts' game game' : List GamePost},
      List.Forall₂ GamePost.Same posts posts' → List.Forall₂ GamePost.Same game game' →
      List.Forall₂ GamePost.Same (posts.foldl nextGame game) (posts'.foldl nextGame game') := by
    intro posts posts' game game' hposts
    induction hposts generalizing game game' with
    | nil => exact id
    | cons hpost _ ih =>
      intro hgame
      refine ih ?_
      unfold nextGame
      rw [hpost.ends]
      split
      · exact .nil
      · exact joined_same hgame hpost
  exact hfold h .nil

/-! ## What a daemon applies -/

/-- What a daemon applies of what reached it, newest first: a batch whose id it has seen is
skipped. -/
def appliedOnce : List GamePost → List GamePost
  | [] => []
  | q :: got =>
    if (appliedOnce got).any (·.batch.batchId == q.batch.batchId) then appliedOnce got
    else q :: appliedOnce got

/-- What of it is of a game, oldest first. -/
def appliedOf (game got : List GamePost) : List GamePost :=
  (appliedOnce got).reverse.filter fun q => game.any (·.serial == q.serial)

/-- **A daemon applies all that reached it, in commit order**, when what comes late to it was known
before.

**Proof sketch.** By induction on what arrived, newest first. A batch whose id was seen is one that
was applied, for ids are told apart (`hids`). One that was not seen is younger than every one
applied: an older one would have been known. -/
theorem appliedOnce_spec {got : List GamePost} (h : Known got)
    (hids : ∀ q ∈ got, ∀ r ∈ got, q.batch.batchId = r.batch.batchId → q = r) :
    (appliedOnce got).Pairwise (fun a b => b.serial < a.serial) ∧
      ∀ q, q ∈ appliedOnce got ↔ q ∈ got := by
  induction got with
  | nil => exact ⟨.nil, fun q => Iff.rfl⟩
  | cons q got ih =>
    obtain ⟨hq, h⟩ := h
    obtain ⟨hsorted, hmem⟩ := ih h fun a ha b hb =>
      hids a (List.mem_cons_of_mem _ ha) b (List.mem_cons_of_mem _ hb)
    have hseen : (appliedOnce got).any (·.batch.batchId == q.batch.batchId) = true ↔ q ∈ got := by
      rw [List.any_eq_true]
      constructor
      · rintro ⟨r, hr, hid⟩
        have hr := (hmem r).mp hr
        have heq := hids r (List.mem_cons_of_mem _ hr) q List.mem_cons_self (by simpa using hid)
        exact heq ▸ hr
      · exact fun hm => ⟨q, (hmem q).mpr hm, by simp⟩
    unfold appliedOnce
    split
    · rename_i hskip
      refine ⟨hsorted, fun a => ?_⟩
      rw [hmem, List.mem_cons]
      exact ⟨.inr, fun ha => ha.elim (fun ha => ha ▸ hseen.mp hskip) id⟩
    · rename_i hnew
      refine ⟨List.pairwise_cons.mpr ⟨fun r hr => ?_, hsorted⟩, fun a => ?_⟩
      · by_contra hle
        exact hnew (hseen.mpr (hq r ((hmem r).mp hr) (by omega)))
      · rw [List.mem_cons, List.mem_cons, hmem]

/-- A game that reached the daemon whole is applied whole, once and in order.

**Proof sketch.** Both lists are sorted by serial, and have the same members: what is applied was
received, and what is of the game is applied. -/
theorem appliedOf_eq {game got : List GamePost} (h : Known got)
    (hids : ∀ q ∈ got, ∀ r ∈ got, q.batch.batchId = r.batch.batchId → q = r)
    (hserials : ∀ q ∈ got, ∀ r ∈ got, q.serial = r.serial → q = r)
    (hsorted : game.Pairwise fun a b => a.serial < b.serial) (hgame : ∀ q ∈ game, q ∈ got) :
    appliedOf game got = game := by
  obtain ⟨happlied, hmem⟩ := appliedOnce_spec h hids
  have hirrefl : Std.Irrefl fun a b : GamePost => a.serial < b.serial :=
    ⟨fun a => lt_irrefl a.serial⟩
  refine List.Pairwise.eq_of_mem_iff
    ((List.pairwise_reverse.mpr happlied).filter _) hsorted fun q => ?_
  rw [appliedOf, List.mem_filter, List.mem_reverse, hmem, List.any_eq_true]
  constructor
  · rintro ⟨hq, r, hr, hsame⟩
    have heq := hserials r (hgame r hr) q hq (by simpa using hsame)
    exact heq ▸ hr
  · exact fun hq => ⟨hgame q hq, q, hq, by simp⟩

/-! ## One table -/

/-- The batches of an epoch. -/
def ofEpoch (e : ℕ) (posts : List GamePost) : List GamePost := posts.filter (·.epoch == e)

/-- The batches of an epoch in two lists. -/
@[simp] theorem ofEpoch_append (e : ℕ) (posts posts' : List GamePost) :
    ofEpoch e (posts ++ posts') = ofEpoch e posts ++ ofEpoch e posts' :=
  List.filter_append _ _

/-- The batches of an epoch are those tagged with it. -/
theorem mem_ofEpoch {e : ℕ} {posts : List GamePost} {q : GamePost} :
    q ∈ ofEpoch e posts ↔ q ∈ posts ∧ q.epoch = e := by
  simp [ofEpoch]

/-- Nothing is left out when all batches are of the epoch. -/
theorem ofEpoch_eq_self {e : ℕ} {posts : List GamePost} (h : ∀ q ∈ posts, q.epoch = e) :
    ofEpoch e posts = posts :=
  List.filter_eq_self.mpr fun q hq => by simpa using h q hq

/-- Nothing is left when none is. -/
theorem ofEpoch_eq_nil {e : ℕ} {posts : List GamePost} (h : ∀ q ∈ posts, q.epoch ≠ e) :
    ofEpoch e posts = [] :=
  List.filter_eq_nil_iff.mpr fun q hq => by simpa using h q hq

/-- Their order stays. -/
theorem ofEpoch_sublist (e : ℕ) (posts : List GamePost) : (ofEpoch e posts).Sublist posts :=
  List.filter_sublist

/-- What names a table: the epoch, the identity and the fields a new identity is seen by. -/
def DeclareSnapshot.table (d : DeclareSnapshot) : ℕ × ℕ × Bytes × UInt8 × Bytes :=
  (d.epoch, d.identity, d.declare.romId, d.declare.tableKind, d.declare.machineUuid)

/-- One table has one epoch. -/
theorem DeclareSnapshot.epoch_of_table {d e : DeclareSnapshot} (h : d.table = e.table) :
    d.epoch = e.epoch := congrArg (·.1) h

/-- One table has one identity. -/
theorem DeclareSnapshot.identity_of_table {d e : DeclareSnapshot} (h : d.table = e.table) :
    d.identity = e.identity := congrArg (·.2.1) h

/-- One table has one kind. -/
theorem DeclareSnapshot.kind_of_table {d e : DeclareSnapshot} (h : d.table = e.table) :
    d.declare.tableKind = e.declare.tableKind := congrArg (·.2.2.2.1) h

/-- A declaration of the declared table is no new table. -/
theorem newTable_of_table {l : Link} {now : DeclareSnapshot} (h : now.table = l.declared.table) :
    l.newTable now = false := by
  simp only [DeclareSnapshot.table, Prod.mk.injEq] at h
  obtain ⟨hepoch, -, hrom, hkind, huuid⟩ := h
  simp [Link.newTable, Wire.newIdentity, hepoch, hrom, hkind, huuid]

/-- A declaration leads to a table: of an earlier epoch, or of its epoch before it was an authored
table. -/
def DeclareSnapshot.LeadsTo (d t : DeclareSnapshot) : Prop :=
  d.epoch < t.epoch ∨
    (d.epoch = t.epoch ∧ d.identity < t.identity ∧ d.declare.tableKind ≠ Wire.tableAuthored)

/-- A declaration is the table's, or leads to it. -/
def DeclareSnapshot.UpToTable (d t : DeclareSnapshot) : Prop := d.table = t.table ∨ d.LeadsTo t

/-- A declaration up to a table is of no later epoch. -/
theorem DeclareSnapshot.UpToTable.epoch_le {d t : DeclareSnapshot} (h : d.UpToTable t) :
    d.epoch ≤ t.epoch := by
  rcases h with h | h | ⟨h, -, -⟩
  · exact (DeclareSnapshot.epoch_of_table h).le
  · exact h.le
  · exact h.le

/-- Of the declarations up to an authored table, only it is authored in its epoch. -/
theorem DeclareSnapshot.UpToTable.table_eq {d t : DeclareSnapshot} (h : d.UpToTable t)
    (he : d.epoch = t.epoch) (hk : d.declare.tableKind = Wire.tableAuthored) :
    d.table = t.table := by
  rcases h with h | h | ⟨-, -, h⟩
  · exact h
  · omega
  · exact absurd hk h

/-- What is no older than the table is the table. -/
theorem DeclareSnapshot.UpToTable.eq_of_upTo {d e t : DeclareSnapshot} (h : d.UpToTable t)
    (he : e.table = t.table) (hle : e.upTo d) : d.table = t.table := by
  have hepoch := DeclareSnapshot.epoch_of_table he
  have hidentity := DeclareSnapshot.identity_of_table he
  obtain ⟨hle, hle'⟩ := hle
  rcases h with h | h | ⟨-, h, -⟩
  · exact h
  · omega
  · omega

namespace GamePath

variable {Ask : Type} {p p' : GamePath Ask} {m : Move} {t : DeclareSnapshot}

/-- The state of a worker up to a table and as long as it stays: what is in force leads to it, with
nothing committed in its epoch, or is it; its daemon serves authored tables when it is declared,
and no daemon refused a batch of its epoch. -/
structure OneTable (t : DeclareSnapshot) (p : GamePath Ask) : Prop where
  inForce : p.source.inForce.table = t.table ∨
    (p.source.inForce.LeadsTo t ∧ ∀ q ∈ p.log.committed, q.epoch < t.epoch)
  serves : p.link.haveDeclared = true → p.link.declared.table = t.table →
    p.link.authoredAllowed = true
  refused : ∀ q, .refused q ∈ p.log.events → q.epoch ≠ t.epoch

/-- A batch carries its place among those committed, and its epoch. -/
structure AtPlace (p : GamePath Ask) : Prop where
  place : ∀ (i : ℕ) (c : GamePost), p.log.committed[i]? = some c → c.serial = i
  epoch : ∀ q ∈ p.log.taken ++ p.source.queue,
    ∃ c, p.log.committed[q.serial]? = some c ∧ c.epoch = q.epoch

/-- Taking batches from the source leaves the place. -/
theorem AtPlace.takeSourceGames (h : p.AtPlace) : p.takeSourceGames.AtPlace where
  place := h.place
  epoch q hq := by
    have hq : q ∈ p.log.taken ++ numberedFrom p.games.nextBatchId p.source.queue := by
      simpa [GamePath.takeSourceGames] using hq
    rcases List.mem_append.mp hq with hq | hq
    · exact h.epoch q (List.mem_append_left _ hq)
    · obtain ⟨r, hr, _, rfl⟩ := mem_numberedFrom hq
      exact h.epoch r (List.mem_append_right _ hr)

/-- Every move keeps the places.

**Proof sketch.** A commit puts a batch at the next place, and an eviction takes one away.
`SendGames` and a handshake move the source's batches to the worker with their serials. No other
move touches either queue. -/
theorem AtPlace.moves (h : p.AtPlace) (hm : p.Moves m p') : p'.AtPlace := by
  cases hm with
  | committed batch hb =>
    refine ⟨fun i c hc => ?_, fun q hq => ?_⟩
    · have hc : (p.log.committed ++ [p.committing batch hb])[i]? = some c := hc
      rcases Nat.lt_trichotomy i p.log.committed.length with hlt | rfl | hlt
      · rw [List.getElem?_append_left hlt] at hc
        exact h.place i c hc
      · obtain rfl : p.committing batch hb = c := by simpa using hc
        rfl
      · rw [List.getElem?_eq_none (by simp; omega)] at hc
        cases hc
    · simp only [commit, ← List.append_assoc, List.mem_append (s := _ ++ _),
        List.mem_singleton] at hq
      rcases hq with hq | rfl
      · obtain ⟨c, hc, he⟩ := h.epoch q hq
        refine ⟨c, ?_, he⟩
        show (p.log.committed ++ [p.committing batch hb])[q.serial]? = some c
        rw [List.getElem?_append_left (List.getElem?_eq_some_iff.mp hc).1, hc]
      · exact ⟨p.committing batch hb, by simp [commit, committing], rfl⟩
  | evicted i =>
    refine ⟨h.place, fun q hq => h.epoch q ?_⟩
    rcases List.mem_append.mp hq with hq | hq
    · exact List.mem_append_left _ hq
    · exact List.mem_append_right _ ((List.eraseIdx_sublist _ i).subset hq)
  | handshake ack request hpc =>
    have htaken := h.takeSourceGames
    refine ⟨fun i c hc => htaken.place i c ?_, fun q hq => ?_⟩
    · simpa [GamePath.handshake] using hc
    · simpa [GamePath.handshake] using
        htaken.epoch q (by simpa [GamePath.handshake] using hq)
  | took flush hpc => exact ⟨h.takeSourceGames.place, h.takeSourceGames.epoch⟩
  | posted | connected | failed | ended | redeclared | left | leftUnserved | dropped
  | droppedUnserved | sent | acked | refused | declaring | declared | moved =>
    exact ⟨h.place, h.epoch⟩

/-- The table is in force once a batch of its epoch was taken. -/
theorem OneTable.begun (h : p.OneTable t) (hp : p.AtPlace) {q : GamePost}
    (hq : q ∈ p.log.taken ++ p.source.queue) (he : q.epoch = t.epoch) :
    p.source.inForce.table = t.table := by
  rcases h.inForce with hforce | ⟨-, hnone⟩
  · exact hforce
  · obtain ⟨c, hc, hepoch⟩ := hp.epoch q hq
    have := hnone c (List.mem_of_getElem? hc)
    omega

/-- With one table to come, the declaration in force is up to it. -/
theorem OneTable.upToTable (h : p.OneTable t) : p.source.inForce.UpToTable t :=
  h.inForce.imp id And.left

/-- The declarations the worker knows are up to the table. -/
structure AtTable (t : DeclareSnapshot) (p : GamePath Ask) : Prop where
  /-- The latch has the newest declaration the worker does not know. -/
  latch : p.source.latch.getD p.link.current = p.source.inForce
  current : p.pc ≠ .offline → p.link.current.UpToTable t
  declared : p.link.haveDeclared = true → p.link.declared.UpToTable t

/-- What leaves the latch alone. -/
theorem AtTable.frame (h : p.AtTable t) (hs : p'.source.latch = p.source.latch)
    (hf : p'.source.inForce = p.source.inForce) (hc : p'.link.current = p.link.current)
    (hd : p'.link.haveDeclared = true → p'.link.declared.UpToTable t)
    (hpc : p'.pc ≠ .offline → p.pc ≠ .offline) : p'.AtTable t where
  latch := by rw [hs, hc, hf]; exact h.latch
  current hoff := by rw [hc]; exact h.current (hpc hoff)
  declared := hd

/-- After `TakeDeclare`, wherever the worker goes. -/
theorem AtTable.takeDeclare (h : p.AtTable t) (hone : p.OneTable t) (hl : p'.source.latch = none)
    (hf : p'.source.inForce = p.source.inForce) (hc : p'.link.current = p.takeDeclare.link.current)
    (hd : p'.link.haveDeclared = true →
      p.link.haveDeclared = true ∧ p'.link.declared = p.link.declared) : p'.AtTable t where
  latch := by rw [hl, hc, hf]; exact h.latch
  current _ := by
    rw [hc, show p.takeDeclare.link.current = p.source.inForce from h.latch]
    exact hone.upToTable
  declared hd' := by rw [(hd hd').2]; exact h.declared (hd hd').1

/-- Every move keeps to the declarations up to the table.

**Proof sketch.** By the kind of the move. A declaration is taken up from the latch
(`AtTable.takeDeclare`), and an acknowledged one was the current one already. The rest leave latch,
current and declared table, or go offline. -/
theorem AtTable.moves (h : p.AtTable t) (hone : p.OneTable t) (hl : p.Linked)
    (hm : p.Moves m p') : p'.AtTable t := by
  cases hm with
  | posted d he hi => exact ⟨rfl, h.current, h.declared⟩
  | committed batch hb => exact ⟨h.latch, h.current, h.declared⟩
  | evicted i => exact ⟨h.latch, h.current, h.declared⟩
  | connected payload hpc =>
    exact h.takeDeclare hone rfl rfl rfl (by simp [connected, send, GamePath.takeDeclare])
  | failed hpc =>
    exact h.frame rfl rfl rfl (by simp [connected, disconnect]) (by simp [disconnect])
  | ended hpc => exact h.frame rfl rfl rfl h.declared fun _ => hpc
  | handshake ack request hpc =>
    exact h.frame rfl rfl rfl h.declared fun _ => by simp [hpc]
  | took flush hpc => exact h.frame rfl rfl rfl h.declared fun _ => by simp [hpc]
  | redeclared pc hpc hq | leftUnserved flush pc hpc hq =>
    exact h.takeDeclare hone rfl rfl rfl fun hd => ⟨hd, rfl⟩
  | droppedUnserved flush front rest hpc =>
    exact h.takeDeclare hone rfl rfl rfl fun hd => ⟨hd, rfl⟩
  | declared now request hpc =>
    obtain rfl := hl.declaring request now hpc
    have hcurrent := h.current (by simp [hpc])
    exact h.frame rfl rfl rfl (fun _ => hcurrent) fun _ => by simp [hpc]
  | left flush pc hpc | dropped flush front rest hpc | sent flush front rest hpc
  | acked flush request front rest hpc | refused flush request front rest hpc
  | declaring payload hpc =>
    exact h.frame rfl rfl rfl h.declared fun _ => by simp [hpc]
  | moved seq pc hpc =>
    refine h.frame rfl rfl rfl h.declared fun hoff => ?_
    rcases hpc with rfl | ⟨hquiet, -⟩
    · exact hoff
    · exact (Pc.ne_of_quiet hquiet).1

/-! ## What is retained -/

/-- What is retained of the table was played on it, it is known to the worker, and it is declared
if anything is. -/
def Kept (t : DeclareSnapshot) (p : GamePath Ask) : Prop :=
  ∀ q ∈ p.games.retained, q.epoch = t.epoch →
    p.link.current.table = t.table ∧
      (p.link.haveDeclared = true → p.link.declared.table = t.table) ∧
      p.games.openGameIdentity = t.identity

/-- What retains nothing new. -/
theorem Kept.frame (h : p.Kept t) (hr : ∀ q ∈ p'.games.retained, q ∈ p.games.retained)
    (hc : p'.link.current = p.link.current)
    (hd : p'.link.haveDeclared = true →
      p.link.haveDeclared = true ∧ p'.link.declared = p.link.declared)
    (hi : p'.games.openGameIdentity = p.games.openGameIdentity) : p'.Kept t := by
  intro q hq he
  obtain ⟨hcurrent, hdeclared, hidentity⟩ := h q (hr q hq) he
  refine ⟨hc ▸ hcurrent, fun hd' => ?_, hi.trans hidentity⟩
  obtain ⟨hd, heq⟩ := hd hd'
  exact heq ▸ hdeclared hd

/-- `TakeDeclare` takes what is in force. -/
theorem Kept.takeDeclare (h : p.Kept t) (hone : p.OneTable t) (hp : p.AtPlace) (ha : p.AtTable t)
    (hs : p.Sorted) (hr : ∀ q ∈ p'.games.retained, q ∈ p.games.retained)
    (hc : p'.link.current = p.takeDeclare.link.current)
    (hd : p'.link.haveDeclared = true →
      p.link.haveDeclared = true ∧ p'.link.declared = p.link.declared)
    (hi : p'.games.openGameIdentity = p.games.openGameIdentity) : p'.Kept t := by
  intro q hq he
  obtain ⟨-, hdeclared, hidentity⟩ := h q (hr q hq) he
  have htaken := hs.tracked.mem_taken (.inl (hr q hq))
  refine ⟨?_, fun hd' => ?_, hi.trans hidentity⟩
  · rw [hc, show p.takeDeclare.link.current = p.source.inForce from ha.latch]
    exact hone.begun hp (List.mem_append_left _ htaken) he
  · obtain ⟨hd, heq⟩ := hd hd'
    exact heq ▸ hdeclared hd

/-- Popping a batch retains nothing new. -/
theorem mem_retained_of_popGame {g : Games} {q : GamePost} (hq : q ∈ g.popGame.retained) :
    q ∈ g.retained := by
  simp only [Games.retained, Games.popGame, List.mem_append] at hq ⊢
  refine hq.imp id fun hq => ?_
  cases hg : g.games with
  | nil => simp [hg] at hq
  | cons front rest =>
    cases hn : g.replayQueued with
    | zero => simp [hn] at hq
    | succ n =>
      rw [hg, hn] at hq
      exact List.mem_cons_of_mem _ hq

/-- A table is declared while a batch of its epoch is under way. -/
theorem AtTable.declared_front (ha : p.AtTable t) (hs : p.Sorted) {request : Wire.Message}
    {flush : Bool} {front : GamePost} {rest : List GamePost}
    (hpc : p.pc = .exchange request (.game flush)) (hg : p.games.games = front :: rest)
    (he : front.epoch = t.epoch) :
    p.link.declared.table = t.table ∧ p.link.current.table = t.table := by
  obtain ⟨hserved, -⟩ := hs.tracked.awaiting request flush hpc
  obtain ⟨hd, hserves⟩ := Bool.and_eq_true_iff.mp hserved
  obtain ⟨hepoch, -⟩ := hs.tracked.epoch_front hpc hg
  have hkind : p.link.declared.declare.tableKind = Wire.tableAuthored := by
    simpa using (Bool.and_eq_true_iff.mp hserves).1
  have hdeclared := (ha.declared hd).table_eq (hepoch.symm.trans he) hkind
  exact ⟨hdeclared, (ha.current (by simp [hpc])).eq_of_upTo hdeclared (hs.linked.declared hd)⟩

/-- Every move keeps what is retained of the table.

**Proof sketch.** By the kind of the move. An acknowledged batch of the table has the table
declared, and begins the open game or goes on with one of the same identity. A Declare of a new
table retains nothing. All else retains no more than before. -/
theorem Kept.moves (h : p.Kept t) (hone : p.OneTable t) (hp : p.AtPlace) (ha : p.AtTable t)
    (hs : p.Sorted) (hm : p.Moves m p') : p'.Kept t := by
  have hsound := hs.tracked.sound
  have hs' := hsound.takeSourceGames p.source.queue
  cases hm with
  | connected payload hpc =>
    exact h.takeDeclare hone hp ha hs (fun _ hq => hq) rfl
      (by simp [connected, send, GamePath.takeDeclare]) rfl
  | failed hpc =>
    exact h.frame (fun _ hq => hq) rfl (by simp [connected, disconnect]) rfl
  | handshake ack request hpc =>
    refine h.frame (fun q hq => retained_handshake hsound ack ▸ hq) rfl (fun hd => ⟨hd, rfl⟩) ?_
    show ((p.games.takeSourceGames p.source.queue).handshake.eraseFragment).openGameIdentity = _
    rw [Games.eraseFragment_openGameIdentity, Games.handshake_openGameIdentity hs']
    rfl
  | redeclared pc hpc hq | leftUnserved flush pc hpc hq =>
    exact h.takeDeclare hone hp ha hs (fun _ hq => hq) rfl (fun hd => ⟨hd, rfl⟩) rfl
  | droppedUnserved flush front rest hpc =>
    exact h.takeDeclare hone hp ha hs (fun _ hq => mem_retained_of_popGame hq) rfl
      (fun hd => ⟨hd, rfl⟩) rfl
  | took flush hpc =>
    have hretained := Games.retained_takeSourceGames hsound p.source.queue
    by_cases hw : p.games.replayPending = true ∧ p.link.haveDeclared = true
    · have hgames : (p.takeGames flush).games =
          (p.games.takeSourceGames p.source.queue).insertReplay p.link.declared := if_pos hw
      refine h.frame (fun q hq => ?_) rfl (fun hd => ⟨hd, rfl⟩) ?_
      · rw [hgames] at hq
        rcases Games.retained_insertReplay (hs'.pending hw.1) p.link.declared with
          hr | ⟨hr, -⟩ <;> rw [hr] at hq
        · cases hq
        · rwa [hretained] at hq
      · rw [hgames, Games.insertReplay_openGameIdentity]
        rfl
    · have hgames : (p.takeGames flush).games = p.games.takeSourceGames p.source.queue := if_neg hw
      refine h.frame (fun q hq => ?_) rfl (fun hd => ⟨hd, rfl⟩) (by rw [hgames]; rfl)
      rwa [hgames, hretained] at hq
  | dropped flush front rest hpc =>
    exact h.frame (fun _ hq => mem_retained_of_popGame hq) rfl (fun hd => ⟨hd, rfl⟩) rfl
  | acked flush request front rest hpc hg =>
    obtain ⟨hepoch, he⟩ := hs.tracked.epoch_front hpc hg
    obtain ⟨hserved, hreplay, -⟩ := hs.tracked.awaiting request flush hpc
    have hd := (Bool.and_eq_true_iff.mp hserved).1
    intro q hq hqe
    -- what is retained is of the epoch of the batch acknowledged
    have hfront : front.epoch = t.epoch := by
      rcases Games.mem_retained_acknowledged hsound hg _ he hq with hq | rfl
      · rw [hepoch, ← hs.tracked.epoch hd hreplay q hq]
        exact hqe
      · exact hqe
    obtain ⟨hdeclared, hcurrent⟩ := ha.declared_front hs hpc hg hfront
    refine ⟨hcurrent, fun _ => hdeclared, ?_⟩
    rw [gameAcked_games, Games.acknowledged_eq hsound.ops _ he]
    show (if front.starts = true then p.link.declared.identity else p.games.openGameIdentity) = _
    split
    · exact DeclareSnapshot.identity_of_table hdeclared
    · rename_i hstarts
      by_contra hne
      have hnil : p.games.retained = [] := by
        by_contra hsome
        obtain ⟨r, hr⟩ := List.exists_mem_of_ne_nil _ hsome
        have hre := (hs.tracked.epoch hd hreplay r hr).trans (hepoch.symm.trans hfront)
        exact hne (h r hr hre).2.2
      have hn : p.games.replayQueued = 0 := by
        by_contra hn
        have := mem_retained_of_replayed hg (Nat.pos_of_ne_zero hn)
        rw [hnil] at this
        cases this
      rw [gameAcked_games, Games.retained_acknowledged_fresh hsound hn _ he, hnil] at hq
      unfold Games.extended at hq
      simp [hstarts] at hq
  | refused flush request front rest hpc hg =>
    obtain ⟨-, he⟩ := hs.tracked.epoch_front hpc hg
    intro q hq
    rw [gameRefused_games, Games.retained_refused hsound.ops he] at hq
    cases hq
  | declared now request hpc =>
    obtain rfl := hs.linked.declaring request now hpc
    intro q hq hqe
    have hgames : (p.declareAcked p.link.current).games =
        if p.link.newTable p.link.current then p.games.dropOpenGame.discardQueuedReplay
        else p.games := rfl
    rw [hgames] at hq ⊢
    split at hq
    · rw [Games.retained_newTable] at hq
      cases hq
    · rename_i hnew
      obtain ⟨hcurrent, -, hidentity⟩ := h q hq hqe
      rw [if_neg hnew]
      exact ⟨hcurrent, fun _ => hcurrent, hidentity⟩
  | posted | committed | evicted | ended | left | sent | declaring | moved =>
    exact h.frame (fun _ hq => hq) rfl (fun hd => ⟨hd, rfl⟩) rfl

/-- The batches taken are those done with and the fresh ones; what is retained of the table is
retained of the former. -/
def Past (t : DeclareSnapshot) (p : GamePath Ask) : Prop :=
  ∃ past, p.log.taken = past ++ p.games.fresh ∧
    ofEpoch t.epoch p.games.retained = retainedAfter (ofEpoch t.epoch past)

/-- What leaves the batches alone. -/
theorem Past.frame (h : p.Past t) (hr : p'.games.retained = p.games.retained)
    (hf : p'.games.fresh = p.games.fresh) (ht : p'.log.taken = p.log.taken) : p'.Past t := by
  unfold Past
  rw [hr, hf, ht]
  exact h

/-- A batch of another table is done with.

**Proof sketch.** The batches retained for the table are the same before and after, since any change
is in those of another epoch. A fresh batch that went joins the past, and is of another epoch too.
-/
theorem Past.other (h : p.Past t) {q : GamePost} (hq : q.epoch ≠ t.epoch)
    (hr : ∀ r ∈ p'.games.retained, r.epoch = t.epoch → p'.games.retained = p.games.retained)
    (hr' : ∀ r ∈ p.games.retained, r.epoch = t.epoch → p'.games.retained = p.games.retained)
    (hf : p.games.fresh = q :: p'.games.fresh ∨ p'.games.fresh = p.games.fresh)
    (ht : p'.log.taken = p.log.taken) : p'.Past t := by
  obtain ⟨past, htaken, hpast⟩ := h
  have hretained : ofEpoch t.epoch p'.games.retained = ofEpoch t.epoch p.games.retained := by
    by_cases heq : p'.games.retained = p.games.retained
    · rw [heq]
    · rw [ofEpoch_eq_nil fun r hr'' he => heq (hr r hr'' he),
        ofEpoch_eq_nil fun r hr'' he => heq (hr' r hr'' he)]
  rcases hf with hf | hf
  · have hnone : ofEpoch t.epoch [q] = [] := ofEpoch_eq_nil (by simpa using hq)
    refine ⟨past ++ [q], by rw [ht, htaken, hf, List.append_assoc]; rfl, ?_⟩
    rw [hretained, hpast, ofEpoch_append, hnone, List.append_nil]
  · exact ⟨past, by rw [ht, htaken, hf], hretained.trans hpast⟩

/-- A batch that is dropped is of another table.

**Proof sketch.** Either it is fresh and nothing retained changes, or it is replayed, and then all
that is retained is of its epoch and none of the table's. -/
theorem Past.dropFront (h : p.Past t) (hs : p.Sorted) {front : GamePost} {rest : List GamePost}
    (hg : p.games.games = front :: rest) (hfront : front.epoch ≠ t.epoch)
    (hgames : p'.games = p.games.popGame) (ht : p'.log.taken = p.log.taken) : p'.Past t := by
  rcases Nat.eq_zero_or_pos p.games.replayQueued with hn | hn
  · have hretained : p'.games.retained = p.games.retained := by
      rw [hgames, Games.retained_popGame_fresh hn]
    refine h.other hfront (fun _ _ _ => hretained) (fun _ _ _ => hretained) (.inl ?_) ht
    rw [hgames, Games.fresh_popGame_fresh hg hn]
  · -- what is retained is of the epoch of the batch dropped
    have hother : ∀ r ∈ p.games.retained, r.epoch ≠ t.epoch := by
      intro r hr
      have hfront' := hs.tracked.sound.epoch front (mem_retained_of_replayed hg hn)
      rw [hs.tracked.sound.epoch r hr, ← hfront']
      exact hfront
    refine h.other hfront (fun r hr he => absurd he (hother r ?_))
      (fun r hr he => absurd he (hother r hr)) (.inr ?_) ht
    · rw [hgames] at hr
      exact mem_retained_of_popGame hr
    · rw [hgames, Games.fresh_popGame_replayed hg hn]

/-- A fragment that a handshake erases begins no game, and continues none that is retained.

**Proof sketch.** A fragment is taken up to the first batch that starts a game. Retained and fresh
batches are sorted by epoch, and a fragment is only erased where its epoch is not the one retained,
so it is a younger one. -/
theorem Sorted.fragment (hs : p.Sorted) {q : GamePost}
    (hq : q ∈ (p.games.takeSourceGames p.source.queue).handshake.fragment) :
    q.starts = false ∧ ∀ a ∈ p.games.retained, a.epoch < q.epoch := by
  have hsound := hs.tracked.sound
  have hs' := hsound.takeSourceGames p.source.queue
  have hretained : (p.games.takeSourceGames p.source.queue).handshake.retained =
      p.games.retained := by
    rw [Games.retained_handshake hs', Games.retained_takeSourceGames hsound]
  have hfresh : (p.games.takeSourceGames p.source.queue).handshake.fresh =
      p.games.fresh ++ numberedFrom p.games.nextBatchId p.source.queue := by
    rw [Games.fresh_handshake hs', Games.fresh_takeSourceGames hsound]
  have hmono : ((p.games.takeSourceGames p.source.queue).handshake.retained ++
      (p.games.takeSourceGames p.source.queue).handshake.fresh).Pairwise
        fun a b => a.epoch ≤ b.epoch := by
    rw [hretained, hfresh, ← List.append_assoc]
    have hsub := hs.tracked.placed.sublist.append_right
      (numberedFrom p.games.nextBatchId p.source.queue)
    exact (hs.ordered.takeSourceGames.taken.sublist hsub).imp GamePost.Before.epoch
  refine ⟨?_, fun a ha => ?_⟩
  · unfold Games.fragment at hq
    split at hq
    · simpa using List.mem_takeWhile_imp hq
    · cases hq
  · have hlt := Games.epoch_lt_of_mem_fragment hs'.handshake (Games.handshake_replayQueued hs')
      hmono (by rw [hretained]; exact List.ne_nil_of_mem ha) hq
    rw [hs'.handshake.epoch a (by rwa [hretained])]
    exact hlt

/-- A handshake keeps what is retained, and its fragment is done with.

**Proof sketch.** The fragment is added to what is done with. Of it only batches of the table count,
and where there are any nothing of the table is retained (`Sorted.fragment`); a fragment starts no
game, so it adds nothing to what is retained of one. -/
theorem Past.handshake (h : p.Past t) (hs : p.Sorted) (ack : Wire.HelloAck) :
    (p.handshake ack).Past t := by
  have hsound := hs.tracked.sound
  have hretained := retained_handshake hsound ack
  obtain ⟨past, htaken, hpast⟩ := h
  refine ⟨past ++ (p.games.takeSourceGames p.source.queue).handshake.fragment, ?_, ?_⟩
  · show (noteDropped _ _).taken = _
    rw [noteDropped_taken, List.append_assoc, ← fresh_handshake hsound ack, ← List.append_assoc,
      ← htaken]
    rfl
  · rw [hretained, ofEpoch_append]
    unfold retainedAfter
    rw [List.foldl_append]
    have hfold : (ofEpoch t.epoch past).foldl Games.extended [] =
        ofEpoch t.epoch p.games.retained := hpast.symm
    rw [hfold]
    cases hfragment :
      ofEpoch t.epoch (p.games.takeSourceGames p.source.queue).handshake.fragment with
    | nil => rfl
    | cons q l =>
      have hmem : ∀ r ∈ q :: l, r.epoch = t.epoch ∧ r.starts = false ∧
          ∀ a ∈ p.games.retained, a.epoch < r.epoch := by
        intro r hr
        obtain ⟨hr, he⟩ := mem_ofEpoch.mp (hfragment ▸ hr)
        exact ⟨he, hs.fragment hr⟩
      have hnil : ofEpoch t.epoch p.games.retained = [] := by
        obtain ⟨he, -, hlt⟩ := hmem q List.mem_cons_self
        refine ofEpoch_eq_nil fun a ha => ?_
        have := hlt a ha
        omega
      rw [hnil]
      exact (foldl_extended_fragment fun r hr => (hmem r hr).2.1).symm

/-- `SendGames` takes the source's batches, and replays the table's open game.

**Proof sketch.** Taking appends to what is fresh. A replay of the table's open game is put into the
queue from what is retained and stays retained. An open game of another table retains nothing of
this one, before or after. -/
theorem Past.takeGames (h : p.Past t) (hk : p.Kept t) (hs : p.Sorted) (flush : Bool) :
    (p.takeGames flush).Past t := by
  have hsound := hs.tracked.sound
  have hs' := hsound.takeSourceGames p.source.queue
  have hkept : ofEpoch t.epoch (p.takeGames flush).games.retained =
      ofEpoch t.epoch p.games.retained := by
    rw [← Games.retained_takeSourceGames hsound p.source.queue]
    by_cases hw : p.games.replayPending = true ∧ p.link.haveDeclared = true
    · have hgames : (p.takeGames flush).games =
          (p.games.takeSourceGames p.source.queue).insertReplay p.link.declared := if_pos hw
      have hn := hs'.pending hw.1
      have hretained := Games.retained_takeSourceGames hsound p.source.queue
      rw [hgames]
      by_cases hany : ∃ r ∈ p.games.retained, r.epoch = t.epoch
      · -- the open game is of the declared table
        obtain ⟨r, hr, he⟩ := hany
        obtain ⟨-, hdeclared, hidentity⟩ := hk r hr he
        have hdeclared := hdeclared hw.2
        unfold Games.insertReplay
        split
        · rename_i hnone
          have hopen : (p.games.takeSourceGames p.source.queue).openGame = [] :=
            List.head?_eq_none_iff.mp hnone
          rw [← hretained, Games.retained_of_zero hn, hopen] at hr
          cases hr
        · rename_i first hfirst
          have hmem : first ∈ p.games.retained := by
            rw [← hretained, Games.retained_of_zero hn]
            exact List.mem_of_mem_head? hfirst
          have hepoch : first.epoch = p.link.declared.epoch := by
            rw [hsound.epoch first hmem, ← hsound.epoch r hr, he]
            exact (DeclareSnapshot.epoch_of_table hdeclared).symm
          have hidentity' : p.games.openGameIdentity = p.link.declared.identity :=
            hidentity.trans (DeclareSnapshot.identity_of_table hdeclared).symm
          rw [if_pos ⟨hepoch, hidentity'⟩]
          simp [Games.retained, Games.dropOpenGame, hn]
      · have hnone : ∀ r ∈ p.games.retained, r.epoch ≠ t.epoch :=
          fun r hr he => hany ⟨r, hr, he⟩
        rcases Games.retained_insertReplay hn p.link.declared with hr | ⟨hr, -⟩
        · rw [hr, hretained, ofEpoch_eq_nil hnone]
          rfl
        · rw [hr]
    · have hgames : (p.takeGames flush).games = p.games.takeSourceGames p.source.queue := if_neg hw
      rw [hgames]
  obtain ⟨past, htaken, hpast⟩ := h
  refine ⟨past, ?_, hkept.trans hpast⟩
  show p.log.taken ++ numberedFrom _ _ = _
  rw [fresh_takeGames hsound, htaken, List.append_assoc]

/-- An acknowledged batch of the table is done with: a replayed one was before.

**Proof sketch.** A fresh batch moves from the fresh ones to those done with, and is retained as
they would be after it. A replayed one was done with before and stays retained; it could only start
anew what begins with its game's start already. -/
theorem Past.acked (h : p.Past t) (hs : p.Sorted) {request : Wire.Message}
    {flush : Bool} {front : GamePost} {rest : List GamePost}
    (hpc : p.pc = .exchange request (.game flush)) (hg : p.games.games = front :: rest)
    (hfront : front.epoch = t.epoch) : (p.gameAcked flush front).Past t := by
  obtain ⟨hepoch, he⟩ := hs.tracked.epoch_front hpc hg
  obtain ⟨hserved, hreplay, -⟩ := hs.tracked.awaiting request flush hpc
  have hd := (Bool.and_eq_true_iff.mp hserved).1
  have hsound := hs.tracked.sound
  have hall : ∀ q ∈ p.games.retained, q.epoch = t.epoch := fun q hq =>
    (hs.tracked.epoch hd hreplay q hq).trans (hepoch.symm.trans hfront)
  have hall' : ∀ q ∈ (p.gameAcked flush front).games.retained, q.epoch = t.epoch := by
    intro q hq
    rcases Games.mem_retained_acknowledged hsound hg _ he hq with hq | rfl
    · exact hall q hq
    · exact hfront
  obtain ⟨past, htaken, hpast⟩ := h
  rw [ofEpoch_eq_self hall] at hpast
  unfold Past
  rw [ofEpoch_eq_self hall']
  rcases Nat.eq_zero_or_pos p.games.replayQueued with hn | hn
  · have hretained := Games.retained_acknowledged_fresh hsound hn p.link.declared.identity he
    have hfresh := Games.fresh_acknowledged_fresh hsound hg hn p.link.declared.identity he
    refine ⟨past ++ [front], ?_, ?_⟩
    · show p.log.taken = _
      rw [htaken, hfresh, gameAcked_games, List.append_assoc]
      rfl
    · have hself : ofEpoch t.epoch [front] = [front] := ofEpoch_eq_self (by simpa using hfront)
      rw [ofEpoch_append, hself, retainedAfter_concat, ← hpast]
      exact hretained
  · have hfresh := Games.fresh_acknowledged_replayed hsound hg hn p.link.declared.identity
    refine ⟨past, ?_, ?_⟩
    · show p.log.taken = _
      rw [htaken, gameAcked_games, hfresh]
    · rw [← hpast]
      rcases Games.retained_acknowledged_replayed hsound hg hn p.link.declared.identity with
        hr | ⟨-, hstarts, hr⟩
      · exact hr
      · -- what is retained begins with its game's start
        have hstart := head_retainedAfter _ front (by rw [← hpast, hr]; rfl)
        rw [hstarts] at hstart
        cases hstart

/-- Every move of a worker with one table keeps what is retained.

**Proof sketch.** By the kind of the move. A batch of the table is acknowledged (`Past.acked`) or
left out (`Past.dropFront`), and is never refused, for the table's batches are not. A batch of
another table leaves nothing of this one retained that was not before. -/
theorem Past.moves (h : p.Past t) (htable : t.declare.tableKind = Wire.tableAuthored)
    (hone : p.OneTable t) (hone' : p'.OneTable t) (hp : p.AtPlace) (ha : p.AtTable t)
    (hk : p.Kept t) (hs : p.Sorted) (hm : p.Moves m p') : p'.Past t := by
  have htaken : ∀ {front rest}, p.games.games = front :: rest → front ∈ p.log.taken := by
    intro front rest hg
    refine hs.tracked.placed.sublist.subset ?_
    rw [Games.retained, List.append_assoc, ← Games.games_eq, hg]
    exact List.mem_append_right _ List.mem_cons_self
  cases hm with
  | handshake ack request hpc => exact h.handshake hs ack
  | took flush hpc => exact h.takeGames hk hs flush
  | acked flush request front rest hpc hg =>
    by_cases hfront : front.epoch = t.epoch
    · exact h.acked hs hpc hg hfront
    · obtain ⟨hepoch, he⟩ := hs.tracked.epoch_front hpc hg
      obtain ⟨hserved, hreplay, -⟩ := hs.tracked.awaiting request flush hpc
      have hd := (Bool.and_eq_true_iff.mp hserved).1
      have hother : ∀ q ∈ p.games.retained, q.epoch ≠ t.epoch := by
        intro q hq
        rw [hs.tracked.epoch hd hreplay q hq, ← hepoch]
        exact hfront
      refine h.other hfront (fun r hr he' => ?_) (fun r hr he' => absurd he' (hother r hr)) ?_ rfl
      · rcases Games.mem_retained_acknowledged hs.tracked.sound hg _ he hr with hr | rfl
        · exact absurd he' (hother r hr)
        · exact absurd he' hfront
      · rcases Nat.eq_zero_or_pos p.games.replayQueued with hn | hn
        · exact .inl (Games.fresh_acknowledged_fresh hs.tracked.sound hg hn _ he)
        · exact .inr (Games.fresh_acknowledged_replayed hs.tracked.sound hg hn _)
  | refused flush request front rest hpc hg =>
    obtain ⟨hepoch, he⟩ := hs.tracked.epoch_front hpc hg
    obtain ⟨hserved, hreplay, -⟩ := hs.tracked.awaiting request flush hpc
    have hd := (Bool.and_eq_true_iff.mp hserved).1
    have hfront : front.epoch ≠ t.epoch := hone'.refused front List.mem_cons_self
    refine h.other hfront (fun r hr => ?_) (fun r hr he' => ?_) ?_ rfl
    · rw [gameRefused_games, Games.retained_refused hs.tracked.sound.ops he] at hr
      cases hr
    · rw [hs.tracked.epoch hd hreplay r hr, ← hepoch] at he'
      exact absurd he' hfront
    · rcases Nat.eq_zero_or_pos p.games.replayQueued with hn | hn
      · exact .inl (Games.fresh_refused_fresh hs.tracked.sound hg hn he)
      · exact .inr (Games.fresh_refused_replayed hs.tracked.sound hg hn)
  | dropped flush front rest hpc hg hd he =>
    have := (ha.declared hd).epoch_le
    exact h.dropFront hs hg (by omega) rfl rfl
  | droppedUnserved flush front rest hpc hg hd he hserved hcurrent =>
    refine h.dropFront hs hg (fun hfront => ?_) rfl rfl
    -- the table would be in force, known and declared, and served
    have hforce := hone.begun hp (List.mem_append_left _ (htaken hg)) hfront
    rw [← ha.latch, show p.source.latch.getD p.link.current = p.link.declared from hcurrent]
      at hforce
    have hkind := (DeclareSnapshot.kind_of_table hforce).trans htable
    simp [Link.serves, hkind, hone.serves hd hforce] at hserved
  | declared now request hpc =>
    obtain rfl := hs.linked.declaring request now hpc
    cases hnew : p.link.newTable p.link.current with
    | false => exact h.frame (by simp [declareAcked, hnew]) (by simp [declareAcked, hnew]) rfl
    | true =>
      have hgames : (p.declareAcked p.link.current).games =
          p.games.dropOpenGame.discardQueuedReplay := by simp [declareAcked, hnew]
      have hd : p.link.haveDeclared = true := (Bool.and_eq_true_iff.mp hnew).1
      have hnone : ∀ r ∈ p.games.retained, r.epoch ≠ t.epoch := by
        intro r hr he
        obtain ⟨hcurrent, hdeclared, -⟩ := hk r hr he
        rw [newTable_of_table (hcurrent.trans (hdeclared hd).symm)] at hnew
        cases hnew
      obtain ⟨past, htaken, hpast⟩ := h
      refine ⟨past, ?_, ?_⟩
      · rw [hgames, Games.fresh_newTable hs.tracked.sound]
        exact htaken
      · rw [hgames, Games.retained_newTable, ← hpast, ofEpoch_eq_nil hnone]
        rfl
  | posted | committed | evicted | connected | failed | ended | redeclared | left | leftUnserved
  | sent | declaring | moved => exact h.frame rfl rfl rfl

/-! ## Games that ended in the session -/

end GamePath

/-- The events since the connection was made, newest first. -/
def thisSession (events : List GameEvent) : List GameEvent :=
  events.takeWhile (· != .ended)

/-- New events that end nothing are of the session. -/
theorem thisSession_append {new : List GameEvent} (hnew : ∀ e ∈ new, e ≠ .ended)
    (events : List GameEvent) : thisSession (new ++ events) = new ++ thisSession events := by
  unfold thisSession
  exact List.takeWhile_append_of_pos fun e he => by simpa using hnew e he

/-- The batches before one in commit order. -/
def earlier (posts : List GamePost) (q : GamePost) : List GamePost :=
  posts.filter (·.serial < q.serial)

/-- In an ordered list the earlier batches are those before it. -/
theorem earlier_split {before after : List GamePost} {q : GamePost}
    (h : (before ++ q :: after).Pairwise GamePost.Before) :
    earlier (before ++ q :: after) q = before := by
  obtain ⟨-, hafter, hbefore⟩ := List.pairwise_append.mp h
  have hlater := (List.pairwise_cons.mp hafter).1
  unfold earlier
  rw [List.filter_append, List.filter_eq_self.mpr, List.filter_eq_nil_iff.mpr, List.append_nil]
  · intro r hr
    rcases List.mem_cons.mp hr with rfl | hr
    · simp
    · have := (hlater r hr).serial
      simpa using this.le
  · exact fun r hr => by simpa using (hbefore r hr q List.mem_cons_self).serial

/-- Batches that come later change nothing before. -/
theorem earlier_append {posts new : List GamePost} {q : GamePost}
    (h : ∀ r ∈ new, q.serial < r.serial) : earlier (posts ++ new) q = earlier posts q := by
  unfold earlier
  have hnone : new.filter (·.serial < q.serial) = [] :=
    List.filter_eq_nil_iff.mpr fun r hr => by simpa using (h r hr).le
  rw [List.filter_append, hnone, List.append_nil]

/-- The earlier batches of an epoch. -/
theorem ofEpoch_earlier (e : ℕ) (posts : List GamePost) (q : GamePost) :
    ofEpoch e (earlier posts q) = earlier (ofEpoch e posts) q := by
  unfold ofEpoch earlier
  exact List.filter_comm _ _ _

namespace GamePath

variable {Ask : Type} {p p' : GamePath Ask} {m : Move} {t : DeclareSnapshot}

/-- A game of the table whose end was acknowledged in the session reached the session's daemon, as
far as it was retained. -/
def Finished (t : DeclareSnapshot) (p : GamePath Ask) : Prop :=
  ∀ got, Reached p.log.events true got → ∀ q, .acked q ∈ thisSession p.log.events →
    q.ends = true → q.epoch = t.epoch → q ∈ got ∧
      (q.starts = false → ∀ r ∈ retainedAfter (ofEpoch t.epoch (earlier p.log.taken q)), r ∈ got)

/-- What sends nothing and acknowledges no end.

**Proof sketch.** The end was acknowledged before the step and in this session, so all of its game
was received then; what is taken since is of later places. -/
theorem Finished.frame (h : p.Finished t) (hs : p.Sorted) (more : List GamePost)
    (ht : p'.log.taken = p.log.taken ++ more)
    (hmore : ∀ q ∈ p.log.taken, ∀ r ∈ more, q.serial < r.serial) (new : List GameEvent)
    (he : p'.log.events = new ++ p.log.events)
    (hnew : ∀ e ∈ new, e ≠ .ended ∧ (∀ q d, e ≠ .sent q d) ∧ ∀ q, e = .acked q → q.ends = false) :
    p'.Finished t := by
  intro got hr q hq hends hepoch
  rw [he] at hr
  rw [he, thisSession_append fun e hm => (hnew e hm).1] at hq
  have hq : .acked q ∈ thisSession p.log.events := by
    refine (List.mem_append.mp hq).resolve_left fun hq => ?_
    rw [(hnew _ hq).2.2 q rfl] at hends
    cases hends
  obtain ⟨peer, hr, hpeer⟩ := hr.of_append fun e hm => (hnew e hm).2.1
  obtain ⟨rfl, -⟩ := hpeer fun e hm => (hnew e hm).1
  have htaken := hs.settled.taken _ (List.takeWhile_subset _ hq) q rfl
  rw [ht, earlier_append (hmore q htaken)]
  exact h got hr q hq hends hepoch

/-- Every move keeps what finished games left with the daemon.

**Proof sketch.** By the kind of the move. The acknowledged batch that ends a game is fresh, and the
game before it is what was retained, all of which the daemon has had in this session
(`Recalls.openGame`). Other moves bring no acknowledgment of an end, and what arrived stays. -/
theorem Finished.moves (h : p.Finished t) (hs : p.Sorted) (hrec : p.Recalls) (hpast : p.Past t)
    (hm : p.Moves m p') : p'.Finished t := by
  have hnumbered : ∀ q ∈ p.log.taken, ∀ r ∈ numberedFrom p.games.nextBatchId p.source.queue,
      q.serial < r.serial := fun q hq r hr => (hs.ordered.lt_numbered hq hr).serial
  cases hm with
  | failed | ended =>
    intro got hr q hq
    cases hq
  | handshake ack request hpc =>
    exact h.frame hs _ (noteDropped_taken _ _) hnumbered _ (events_handshake p ack) (by simp)
  | took flush hpc => exact h.frame hs _ rfl hnumbered [] rfl (by simp)
  | sent flush front rest hpc =>
    intro got hr q hq hends hepoch
    have hq : .acked q ∈ thisSession p.log.events := by
      have hsame : thisSession ([.sent front p.link.declared] ++ p.log.events) =
          [.sent front p.link.declared] ++ thisSession p.log.events :=
        thisSession_append (by simp) p.log.events
      exact (List.mem_cons.mp (hsame ▸ hq)).resolve_left (by simp)
    cases hr with
    | arrived hr =>
      obtain ⟨hq, hgame⟩ := h _ hr q hq hends hepoch
      exact ⟨List.mem_cons_of_mem _ hq, fun hs r hr => List.mem_cons_of_mem _ (hgame hs r hr)⟩
    | missed hr => exact h _ hr q hq hends hepoch
  | acked flush request front rest hpc hg =>
    by_cases hends : front.ends = true
    · intro got hr q hq hqends hepoch
      have hsame : thisSession ([.acked front] ++ p.log.events) =
          [.acked front] ++ thisSession p.log.events := thisSession_append (by simp) p.log.events
      obtain ⟨hold, hgot⟩ : Reached p.log.events true got ∧ front ∈ got := by
        cases hr with
        | acked hr hgot => exact ⟨hr, hgot rfl⟩
      rcases List.mem_cons.mp (hsame ▸ hq) with heq | hq
      · obtain rfl := GameEvent.acked.inj heq
        refine ⟨hgot, fun _ r hr' => ?_⟩
        obtain ⟨hserved, hreplay, -⟩ := hs.tracked.awaiting request flush hpc
        have hn : p.games.replayQueued = 0 := by
          by_contra hn
          have hretained := mem_retained_of_replayed hg (Nat.pos_of_ne_zero hn)
          rw [hs.tracked.sound.ends q hretained] at hends
          cases hends
        obtain ⟨past, htaken, hpast⟩ := hpast
        have hfresh : p.games.fresh = q :: rest := by rw [Games.fresh_of_zero hn, hg]
        have hsplit : earlier p.log.taken q = past := by
          have hsorted := hs.ordered.taken
          rw [htaken, hfresh] at hsorted ⊢
          exact earlier_split hsorted
        refine hrec.openGame hold (by simp [hpc]) (Bool.and_eq_true_iff.mp hserved).1 hreplay r ?_
        have hr' : r ∈ retainedAfter (ofEpoch t.epoch (earlier p.log.taken q)) := hr'
        rw [hsplit, ← hpast] at hr'
        rw [← Games.retained_of_zero hn]
        exact (mem_ofEpoch.mp hr').1
      · exact h got hold q hq hqends hepoch
    · exact h.frame hs [] (List.append_nil _).symm (by simp) [.acked front] rfl
        (by simpa using hends)
  | dropped flush front | droppedUnserved flush front =>
    exact h.frame hs [] (List.append_nil _).symm (by simp) [.dropped front] rfl (by simp)
  | refused flush request front =>
    exact h.frame hs [] (List.append_nil _).symm (by simp) [.refused front] rfl (by simp)
  | declared now =>
    exact h.frame hs [] (List.append_nil _).symm (by simp) [.declared now] rfl (by simp)
  | posted | committed | evicted | connected | redeclared | left | leftUnserved | declaring
  | moved => exact h.frame hs [] (List.append_nil _).symm (by simp) [] rfl (by simp)

/-! ## All that was committed -/

/-- The queue dropped nothing of the table: what was committed in its epoch was taken, or is
queued. -/
def KeepsAll (t : DeclareSnapshot) (p : GamePath Ask) : Prop :=
  ∀ c ∈ p.log.committed, c.epoch = t.epoch →
    ∃ q ∈ p.log.taken ++ p.source.queue, q.serial = c.serial

/-- With nothing queued, the batches of the table that were taken are those committed.

**Proof sketch.** Both lists are sorted by serial and have the same serials: one that is committed
was taken, as the queue is empty, and one that was taken has its place among the committed. So they
are equal as lists of serials, and place by place of the same ops. -/
theorem taken_same (ho : p.Ordered) (hc : p.AsCommitted) (hp : p.AtPlace) (hall : p.KeepsAll t)
    (hqueue : p.source.queue = []) :
    List.Forall₂ GamePost.Same (ofEpoch t.epoch p.log.taken) (ofEpoch t.epoch p.log.committed) := by
  have hcommitted : (p.log.committed.map (·.serial)).Pairwise (· < ·) := by
    have hmap : p.log.committed.map (·.serial) = List.range p.log.committed.length := by
      refine List.ext_getElem (by simp) fun i hi hi' => ?_
      simpa using hp.place i _ (List.getElem?_eq_getElem (by simpa using hi))
    rw [hmap]
    exact List.pairwise_lt_range
  have hmem : ∀ c ∈ p.log.committed, p.log.committed[c.serial]? = some c := by
    intro c hc
    obtain ⟨i, hi⟩ := List.mem_iff_getElem?.mp hc
    rw [hp.place i c hi, hi]
  have hplace : ∀ q ∈ p.log.taken, ∃ c, p.log.committed[q.serial]? = some c ∧
      c.epoch = q.epoch ∧ c.batch.ops = q.batch.ops := by
    intro q hq
    obtain ⟨c, hplace, he⟩ := hp.epoch q (List.mem_append_left _ hq)
    obtain ⟨c', hplace', hops⟩ := hc q (List.mem_append_left _ hq)
    obtain rfl := Option.some.inj (hplace.symm.trans hplace')
    exact ⟨c, hplace, he, hops⟩
  have hserials : (ofEpoch t.epoch p.log.taken).map (·.serial) =
      (ofEpoch t.epoch p.log.committed).map (·.serial) := by
    refine List.Pairwise.eq_of_mem_iff (r := (· < ·)) ?_
      (hcommitted.sublist ((ofEpoch_sublist _ _).map _)) fun i => ?_
    · exact List.pairwise_map.mpr
        ((ho.taken.sublist (ofEpoch_sublist _ _)).imp GamePost.Before.serial)
    · simp only [List.mem_map, mem_ofEpoch]
      constructor
      · rintro ⟨q, ⟨hq, he⟩, rfl⟩
        obtain ⟨c, hplace, hce, -⟩ := hplace q hq
        exact ⟨c, ⟨List.mem_of_getElem? hplace, hce.trans he⟩, hp.place _ c hplace⟩
      · rintro ⟨c, ⟨hc, he⟩, rfl⟩
        obtain ⟨q, hq, hserial⟩ := hall c hc he
        rw [hqueue, List.append_nil] at hq
        obtain ⟨c', hplace, hce, -⟩ := hplace q hq
        rw [hserial, hmem c hc] at hplace
        obtain rfl := Option.some.inj hplace
        exact ⟨q, ⟨hq, hce.symm.trans he⟩, hserial⟩
  have hlength := congrArg List.length hserials
  rw [List.length_map, List.length_map] at hlength
  refine List.forall₂_iff_get.mpr ⟨hlength, fun i hi hi' => ?_⟩
  have hserial : ((ofEpoch t.epoch p.log.taken).get ⟨i, hi⟩).serial =
      ((ofEpoch t.epoch p.log.committed).get ⟨i, hi'⟩).serial := by
    have hget := List.getElem_of_eq hserials (by simpa using hi)
    simpa using hget
  obtain ⟨c, hplace, -, hops⟩ := hplace _ (mem_ofEpoch.mp (List.get_mem _ ⟨i, hi⟩)).1
  rw [hserial, hmem _ (mem_ofEpoch.mp (List.get_mem _ ⟨i, hi'⟩)).1] at hplace
  obtain rfl := Option.some.inj hplace
  exact ⟨hserial, hops.symm⟩

/-! ## What a daemon applies -/

/-- In a session that has declared its table, the worker has no batch left to send. -/
structure NothingLeft (p : GamePath Ask) : Prop where
  session : p.pc ≠ .offline
  declared : p.link.haveDeclared = true
  replayed : p.games.replayPending = false
  games : p.games.games = []
  queue : p.source.queue = []

/-- A daemon that got some batches applied these of the game: all its ops, in order and once. -/
def AppliedWhole (game got : List GamePost) : Prop :=
  (appliedOf game got).flatMap (·.batch.ops) = game.flatMap (·.batch.ops)

/-- What a daemon that got some batches has of the games of a table. -/
structure Delivers (t : DeclareSnapshot) (p : GamePath Ask) (got : List GamePost) : Prop where
  /-- The game still open, when it fits the queue. -/
  openGame : opsOf (gameAfter (ofEpoch t.epoch p.log.committed)) ≤ maxQueuedGameOps →
    AppliedWhole (gameAfter (ofEpoch t.epoch p.log.committed)) got
  /-- A game whose end was acknowledged in the session, when it fits the queue. -/
  ended : ∀ before post after, ofEpoch t.epoch p.log.committed = before ++ post :: after →
    post.ends = true →
    (∃ q, .acked q ∈ thisSession p.log.events ∧ q.serial = post.serial) →
    opsOf (joined (gameAfter before) post) ≤ maxQueuedGameOps →
    AppliedWhole (joined (gameAfter before) post) got

/-- Batches of the same places and ops are applied the same.

**Proof sketch.** What is applied of a game depends on the serials and the ops of its batches only.
-/
theorem appliedWhole_same {game game' got : List GamePost}
    (h : List.Forall₂ GamePost.Same game game') (happlied : appliedOf game got = game) :
    AppliedWhole game' got := by
  have hany : ∀ q : GamePost,
      game.any (·.serial == q.serial) = game'.any (·.serial == q.serial) := by
    intro q
    clear happlied
    induction h with
    | nil => rfl
    | cons hsame _ ih => simp only [List.any_cons, hsame.serial, ih]
  have hops : game.flatMap (·.batch.ops) = game'.flatMap (·.batch.ops) := by
    clear happlied hany
    induction h with
    | nil => rfl
    | cons hsame _ ih => simp only [List.flatMap_cons, hsame.ops, ih]
  have heq : appliedOf game' got = appliedOf game got := by
    unfold appliedOf
    simp only [hany]
  unfold AppliedWhole
  rw [heq, happlied, hops]

/-- Everything that is kept of a worker with one table. -/
structure Delivering (t : DeclareSnapshot) (p : GamePath Ask) : Prop where
  sorted : p.Sorted
  numbered : p.Numbered
  recalls : p.Recalls
  asCommitted : p.AsCommitted
  atPlace : p.AtPlace
  atTable : p.AtTable t
  kept : p.Kept t
  past : p.Past t
  finished : p.Finished t

/-- **In every run** of moves with one table it is kept.

**Proof sketch.** The invariants of the run hold at the start, and each has its own lemma for a
move; that of the past uses the others. -/
theorem delivering (htable : t.declare.tableKind = Wire.tableAuthored)
    (h : system.Reaches (fun p _ => p.OneTable t) p) (hone : p.OneTable t) :
    p.Delivering t := by
  revert hone
  refine h.invariant (I := fun p => p.OneTable t → p.Delivering t) ?_ ?_
  · intro p hinit hone
    obtain ⟨hs, hn, -, hr, hc⟩ := replayKey_invariant (Runs.System.Reaches.init hinit)
    obtain ⟨d, rfl⟩ := hinit
    refine ⟨hs, hn, hr, hc, ⟨by simp, by simp⟩, ⟨rfl, ?_, by simp⟩, ?_, ⟨[], rfl, rfl⟩, ?_⟩
    · exact fun hne => absurd rfl hne
    · intro q hq
      cases hq
    · intro got _ q hq
      cases hq
  · intro p m p' hkept hone hm hone'
    obtain ⟨hs, hn, hr, hc, hp, ha, hk, hpast, hf⟩ := hkept hone
    exact ⟨hs.moves hm, hn.moves hs.tracked hm, hr.moves hs hm, hc.moves hm, hp.moves hm,
      ha.moves hone hs.linked hm, hk.moves hone hp ha hs hm,
      hpast.moves htable hone hone' hp ha hk hs hm, hf.moves hs hr hpast hm⟩

/-- The daemon has the table's open game, once nothing is left. -/
theorem Delivering.openGame (h : p.Delivering t) (hleft : p.NothingLeft) {got : List GamePost}
    (hgot : Reached p.log.events true got)
    (hfits : opsOf (gameAfter (ofEpoch t.epoch p.log.taken)) ≤ maxQueuedGameOps) :
    ∀ q ∈ gameAfter (ofEpoch t.epoch p.log.taken), q ∈ got := by
  intro q hq
  -- nothing is fresh, so what is retained is retained of all batches
  obtain ⟨past, htaken, hpast⟩ := h.past
  have hfresh : p.games.fresh = [] := by simp [Games.fresh, hleft.games]
  rw [hfresh, List.append_nil] at htaken
  refine h.recalls.openGame hgot hleft.session hleft.declared hleft.replayed q ?_
  have hopen : p.games.retained = p.games.openGame := by simp [Games.retained, hleft.games]
  rw [← htaken, retainedAfter_eq hfits, hopen] at hpast
  rw [← hpast] at hq
  exact (mem_ofEpoch.mp hq).1

/-- A daemon gets no two batches of one id. -/
theorem Delivering.same_id (h : p.Delivering t) (hlen : p.log.taken.length < 2 ^ 32) {peer : Bool}
    {got : List GamePost} (hgot : Reached p.log.events peer got) :
    ∀ q ∈ got, ∀ r ∈ got, q.batch.batchId = r.batch.batchId → q = r := by
  have htaken := h.recalls.taken hgot
  have hpair := h.numbered.pairwise h.sorted.ordered hlen
  intro q hq r hr hid
  rcases hpair q (htaken q hq) r (htaken r hr) with heq | ⟨-, hlt⟩ | ⟨-, hlt⟩
  · exact heq
  · exact absurd (hid ▸ hlt) (UInt32.lt_irrefl _)
  · exact absurd (hid ▸ hlt) (UInt32.lt_irrefl _)

/-- What is kept delivers the games, once nothing is left.

**Proof sketch.** What was taken of the table is what was committed (`taken_same`), ids tell the
taken batches apart below 2^32, and a daemon that has had a whole game applies it (`appliedOf_eq`).
The open game has arrived by `Delivering.openGame`, a finished one by `Finished` and the retained
batches before its end (`retainedAfter_eq`). -/
theorem Delivering.delivers (h : p.Delivering t) (hlen : p.log.taken.length < 2 ^ 32)
    (hall : p.KeepsAll t) (hleft : p.NothingLeft) {got : List GamePost}
    (hgot : Reached p.log.events true got) : p.Delivers t got := by
  have htaken := h.recalls.taken hgot
  have hpair := h.numbered.pairwise h.sorted.ordered hlen
  have hids := h.same_id hlen hgot
  have hserials : ∀ q ∈ p.log.taken, ∀ r ∈ p.log.taken, q.serial = r.serial → q = r := by
    intro q hq r hr hserial
    rcases hpair q hq r hr with heq | ⟨hlt, -⟩ | ⟨hlt, -⟩
    · exact heq
    · omega
    · omega
  have hsorted := h.sorted.ordered.taken.imp GamePost.Before.serial
  have hsame := taken_same h.sorted.ordered h.asCommitted h.atPlace hall hleft.queue
  have hwhole : ∀ {game game'}, List.Forall₂ GamePost.Same game game' →
      game.Sublist (ofEpoch t.epoch p.log.taken) → (∀ q ∈ game, q ∈ got) →
      AppliedWhole game' got :=
    fun hsame hsub hmem => appliedWhole_same hsame (appliedOf_eq (h.recalls.known hgot) hids
      (fun q hq r hr => hserials q (htaken q hq) r (htaken r hr))
      (hsorted.sublist (hsub.trans (ofEpoch_sublist _ _))) hmem)
  refine ⟨fun hfits => ?_, fun before post after hcommitted hends hacked hfits => ?_⟩
  · have hgame := gameAfter_same hsame
    rw [← opsOf_same hgame] at hfits
    exact hwhole hgame (gameAfter_sublist _) (h.openGame hleft hgot hfits)
  · obtain ⟨q, hq, hserial⟩ := hacked
    -- the batch acknowledged is the committed one, after the same batches
    rw [hcommitted] at hsame
    obtain ⟨first, hfirst, rest, hrest, htaken⟩ : ∃ first, List.Forall₂ GamePost.Same first before ∧
        ∃ rest, List.Forall₂ GamePost.Same rest (post :: after) ∧
          ofEpoch t.epoch p.log.taken = first ++ rest :=
      ⟨_, List.forall₂_take_append _ _ _ hsame, _, List.forall₂_drop_append _ _ _ hsame,
        (List.take_append_drop _ _).symm⟩
    obtain ⟨q', rest, hpost, -, rfl⟩ := List.forall₂_cons_right_iff.mp hrest
    have hqtaken := h.sorted.settled.taken _ (List.takeWhile_subset _ hq) q rfl
    have hq'taken : q' ∈ ofEpoch t.epoch p.log.taken := by rw [htaken]; simp
    obtain ⟨hq'taken, hepoch⟩ := mem_ofEpoch.mp hq'taken
    obtain rfl : q = q' := hserials q hqtaken q' hq'taken (hserial.trans hpost.serial.symm)
    have hgame := joined_same (gameAfter_same hfirst) hpost
    have hsub : (joined (gameAfter first) q).Sublist (ofEpoch t.epoch p.log.taken) := by
      rw [htaken, List.append_cons]
      exact (joined_gameAfter_sublist first q).trans (List.sublist_append_left _ _)
    refine hwhole hgame hsub fun r hr => ?_
    obtain ⟨hqgot, hbefore⟩ := h.finished got hgot q hq (hpost.ends.trans hends) hepoch
    have hearlier : ofEpoch t.epoch (earlier p.log.taken q) = first := by
      have hbefore := h.sorted.ordered.taken.sublist (ofEpoch_sublist t.epoch _)
      rw [ofEpoch_earlier]
      rw [htaken] at hbefore ⊢
      exact earlier_split hbefore
    rw [← opsOf_same hgame] at hfits
    unfold joined at hr hfits
    split at hr
    · rwa [List.mem_singleton.mp hr]
    · rename_i hstarts
      have hstarts : q.starts = false := by simpa using hstarts
      split at hr
      · cases hr
      · rename_i hne
        rw [if_neg (by simp [hstarts]), if_neg hne, opsOf_append] at hfits
        rcases List.mem_append.mp hr with hr | hr
        · refine hbefore hstarts r ?_
          rw [hearlier, retainedAfter_eq (by omega)]
          exact hr
        · rwa [List.mem_singleton.mp hr]

end GamePath

/-- **Games are delivered exactly once.** In every run up to an authored table and as long as it
stays, whose daemons serve it as one and refuse no batch of its epoch, in which fewer than `2^32`
batches were taken and no batch of its epoch was lost from a full queue: once nothing is left to
send, a daemon that skips the ids it has seen, and is the peer of the session, has applied the
table's open game as it was committed, every op once and in order, whichever sessions it was the
peer of before and whatever never arrived; and so every game whose end it acknowledged in the
session.

**Proof sketch.** What is retained of the table is the game open after its batches that are done
with, and every batch taken is done with or fresh, so at the end it is the open game. The session's
peer has what is retained, once the replay is decided. An end is acknowledged with nothing but its
own game retained. A batch comes late to a daemon only if it came before, so what a daemon applies
is all that reached it, in commit order. -/
theorem delivers_games (cfg : Config) (t : DeclareSnapshot)
    (htable : t.declare.tableKind = Wire.tableAuthored) {s : State}
    (h : (system cfg).Reaches (fun s _ => s.path.OneTable t) s) (hone : s.path.OneTable t)
    (hlen : s.path.log.taken.length < 2 ^ 32) (hall : s.path.KeepsAll t)
    (hleft : s.path.NothingLeft) {got : List GamePost}
    (hgot : Reached s.path.log.events true got) : s.path.Delivers t got := by
  have hsim := (simulation cfg fun p _ => p.OneTable t).reaches
    (h.mono fun _ _ hone _ _ => hone)
  exact (GamePath.delivering htable hsim hone).delivers hlen hall hleft hgot

/-- What was sent, newest first. -/
def everySent (events : List GameEvent) : List GamePost :=
  events.filterMap fun
    | .sent q _ => some q
    | _ => none

/-- Every acknowledgement is of what was sent before it. -/
def acksSent : List GameEvent → Bool
  | [] => true
  | .acked q :: events => (everySent events).contains q && acksSent events
  | _ :: events => acksSent events

/-- A daemon may be the peer of every session, and get all that is sent. -/
theorem reached_everySent {events : List GameEvent} (h : acksSent events = true) :
    Reached events true (everySent events) := by
  induction events with
  | nil => exact .start true
  | cons e events ih =>
    cases e with
    | sent q d => exact .arrived (ih h)
    | acked q =>
      obtain ⟨hq, h⟩ := Bool.and_eq_true_iff.mp h
      exact .acked (ih h) fun _ => List.contains_iff_mem.mp hq
    | ended => exact .ended (ih h) true
    | refused q => exact .refused (ih h)
    | dropped q => exact .dropped (ih h)
    | declared d => exact .declared (ih h)

/-- A batch that ends a game. -/
def endBatch : Wire.GameBatch := { ops := [{ kind := Wire.gameEnd }] }

/-- The table `tableOf 1 0` before it is known to be an authored one. -/
def blankTable : DeclareSnapshot :=
  { declare := { tablePath := [1] }, epoch := 1 }

/-- A session of a table that turns out to be an authored one; the connection ends within its first
game, which ends while it is gone, and another game begins. -/
def deliveryRun : List Act :=
  [.connect (some []), helloAckOf 1 Wire.capAuthoredTables, .go, .go, .go, ackOf 2,
    .post (tableOf 1 1), .commit startBatch, .commit ballBatch, .go, .go, .go, .go, .go, .go, .go,
    .go, ackOf 3, .go, .go, .go, ackOf 4, .go, ackOf 5, .go, .go, .go, .cut,
    .commit endBatch, .commit startBatch, .connect (some []),
    helloAckOf 1 Wire.capAuthoredTables, .go, .go, .go, ackOf 2, .go, .go, ackOf 3, .go, ackOf 4,
    .go, ackOf 5, .go, ackOf 6]

instance (d t : DeclareSnapshot) : Decidable (d.LeadsTo t) :=
  inferInstanceAs (Decidable (_ ∨ _))

/-- The run keeps to one table. -/
def keepsTable (t : DeclareSnapshot) (s : State) (_ : Act) : Bool :=
  decide (s.path.source.inForce.table = t.table ∨
      (s.path.source.inForce.LeadsTo t ∧ ∀ q ∈ s.path.log.committed, q.epoch < t.epoch))
    && decide (s.path.link.haveDeclared = true → s.path.link.declared.table = t.table →
      s.path.link.authoredAllowed = true)
    && s.path.log.events.all fun
      | .refused q => q.epoch != t.epoch
      | _ => true

/-- The check of a step implies the condition. -/
theorem oneTable_of_keepsTable {t : DeclareSnapshot} {s : State} {a : Act}
    (h : keepsTable t s a = true) : s.path.OneTable t := by
  simp only [keepsTable, Bool.and_eq_true, decide_eq_true_eq, List.all_eq_true] at h
  obtain ⟨⟨hforce, hserves⟩, hrefused⟩ := h
  refine ⟨hforce, hserves, fun q hq => ?_⟩
  simpa using hrefused _ hq

/-- The daemon of both sessions gets six batches and applies two games of them, the first of which
it acknowledged the end of. -/
theorem delivers_games_deliveryRun :
    ∃ s, Runs.runOf (step {}) (start blankTable) deliveryRun = some s ∧
      (everySent s.path.log.events).map (·.batch.batchId) = [4, 3, 2, 1, 2, 1] ∧
      (gameAfter (ofEpoch 1 s.path.log.committed)).map (·.serial) = [3] ∧
      s.path.Delivers (tableOf 1 1) (everySent s.path.log.events) := by
  have hrun : (Runs.runOf (step {}) (start blankTable) deliveryRun).any (fun s =>
      decide ((everySent s.path.log.events).map (·.batch.batchId) = [4, 3, 2, 1, 2, 1] ∧
        (gameAfter (ofEpoch 1 s.path.log.committed)).map (·.serial) = [3] ∧
        acksSent s.path.log.events = true ∧ keepsTable (tableOf 1 1) s .go = true ∧
        s.path.log.taken.length < 2 ^ 32 ∧
        (∀ c ∈ s.path.log.committed, c.epoch = (tableOf 1 1).epoch →
          ∃ q ∈ s.path.log.taken ++ s.path.source.queue, q.serial = c.serial) ∧
        (s.path.pc ≠ .offline ∧ s.path.link.haveDeclared = true ∧
          s.path.games.replayPending = false ∧ s.path.games.games = [] ∧
          s.path.source.queue = []))
      && Runs.holdsAlong (step {}) (keepsTable (tableOf 1 1)) (start blankTable) deliveryRun) =
        true := by
    decide +kernel
  obtain ⟨s, hs, hchecks⟩ := (Option.any_eq_true _ _).mp hrun
  obtain ⟨hchecks, halong⟩ := Bool.and_eq_true_iff.mp hchecks
  obtain ⟨hids, hgame, hacks, hkeeps, hlen, hall, hpc, hdeclared, hreplay, hgames, hqueue⟩ :=
    of_decide_eq_true hchecks
  have hreach : (system {}).Reaches (fun s _ => s.path.OneTable (tableOf 1 1)) s :=
    Runs.System.Reaches.runOf (fun _ _ => oneTable_of_keepsTable) deliveryRun
      (.init ⟨blankTable, rfl⟩) halong hs
  exact ⟨s, hs, hids, hgame, delivers_games {} (tableOf 1 1) rfl hreach
    (oneTable_of_keepsTable hkeeps) hlen hall ⟨hpc, hdeclared, hreplay, hgames, hqueue⟩
    (reached_everySent hacks)⟩

end Worker
