import Mathlib.Data.List.Chain
import Mathlib.Data.List.TakeWhile
import Mathlib.Data.List.Perm.Subperm
import Mathlib.Logic.Relation
import ScorbitPlugin.Source.GameQueue

set_option relaxedAutoImplicit false
set_option autoImplicit false

/-!
# The game queue's accounts

What `Push` counts, refuses and reports, after any calls. A ledger beside the queue writes down
which batches were refused; the queue itself is the one of the calls.

## Main definitions

* `Source.Ledger`, `Source.ledger` — a queue with its refusals, and that of a sequence of calls.
* `Source.Evicted` — the queues an eviction loop goes through.
* `Source.Accounts` — what is claimed.

## Main results

* `Source.run_ledger` — the ledger follows the calls.
* `Source.accounts` — what is claimed holds before every batch of every call.
-/

namespace Source

/-! ## The ledger -/

/-- A queue with its history and the batches it refused. -/
structure Ledger where
  run : Run := {}
  refused : List Entry := []

namespace Ledger

variable (maxOps : ℕ) (l : Ledger)

/-- The batch as it is committed next. -/
def next (post : Post) : Entry := entryOf l.run.committed post

/-- The queue takes the batch. -/
def accepts (post : Post) : Bool :=
  (l.run.commit maxOps post false).queue.queue.any (·.place == l.run.committed.length)

/-- One batch pushed. -/
def commit (post : Post) : Ledger where
  run := l.run.commit maxOps post false
  refused := if l.accepts maxOps post then l.refused else l.refused ++ [l.next post]

/-- Batches pushed in turn, as the loop of `Push` does. -/
def commitAll (posts : List Post) : Ledger := posts.foldl (commit maxOps) l

/-- One call. -/
def call : Call → Ledger
  | .push posts => l.commitAll maxOps posts
  | .takeAll => { l with run := l.run.call maxOps .takeAll }

end Ledger

/-- The ledger of a sequence of calls on a new queue. -/
def ledger (maxOps : ℕ) (calls : List Call) : Ledger := calls.foldl (Ledger.call maxOps) {}

/-- The queues an eviction loop goes through for a batch. -/
def Evicted (starts : Bool) : GameQueue → GameQueue → Prop :=
  Relation.ReflTransGen fun q q' => q.evictOldestGame starts = some q'

namespace GameQueue

/-! ## One round of the loop -/

/-- The flag plays no part in what the loop evicts. -/
theorem makeRoom_fst (maxOps ops : ℕ) (starts : Bool) (q : GameQueue) (dropped : Bool) :
    (q.makeRoom maxOps ops starts dropped).1 = (q.makeRoom maxOps ops starts false).1 := by
  rw [makeRoom]
  conv_rhs => rw [makeRoom]
  split
  · split <;> rfl
  · rfl

/-- The flag plays no part in what is queued. -/
theorem pushOne_fst (maxOps : ℕ) (q : GameQueue) (dropped : Bool) (entry : Entry) :
    (pushOne maxOps (q, dropped) entry).1 = (pushOne maxOps (q, false) entry).1 := by
  have hroom := makeRoom_fst maxOps entry.opCount entry.starts q dropped
  unfold pushOne
  dsimp only
  rw [hroom]
  split
  · rfl
  · split <;> rfl

/-- The loop evicts from the front, and the flag says whether it did.

**Proof sketch.** By the loop: a round that evicts takes a game from the front, which is not empty,
and sets the flag. -/
theorem makeRoom_report (maxOps ops : ℕ) (starts : Bool) (q : GameQueue) (dropped : Bool) :
    ∃ oldest, q.queue = oldest ++ (q.makeRoom maxOps ops starts dropped).1.queue ∧
      (q.makeRoom maxOps ops starts dropped).2 = (dropped || !oldest.isEmpty) := by
  fun_induction makeRoom maxOps ops starts q dropped with
  | case1 q dropped hfull hevict => exact ⟨[], rfl, (Bool.or_false dropped).symm⟩
  | case2 q dropped hfull evicted hevict ih =>
    obtain ⟨older, hqueue', hflag⟩ := ih
    obtain ⟨oldest, hne, hqueue, -⟩ := of_evictOldestGame hevict
    refine ⟨oldest ++ older, ?_, ?_⟩
    · rw [hqueue, hqueue', List.append_assoc, ← hqueue']
    · have : (oldest ++ older).isEmpty = false := by simp [hne]
      rw [hflag, this]
      simp
  | case3 q dropped hfits => exact ⟨[], rfl, (Bool.or_false dropped).symm⟩

/-- After one round the queue is a part of what was queued and the batch, and the flag says whether
it is less.

**Proof sketch.** Making room takes batches from the front and says whether it took any
(`makeRoom_report`). The batch itself is queued behind the rest, or is lost, and then the flag is
set. -/
theorem pushOne_report (maxOps : ℕ) (q : GameQueue) (dropped : Bool) (entry : Entry) :
    (pushOne maxOps (q, dropped) entry).1.queue.Sublist (q.queue ++ [entry]) ∧
      ((pushOne maxOps (q, dropped) entry).2 = true ↔ dropped = true ∨
        (pushOne maxOps (q, dropped) entry).1.queue.length < q.queue.length + 1) := by
  obtain ⟨oldest, hqueue, hflag⟩ := makeRoom_report maxOps entry.opCount entry.starts q dropped
  have hsub : (q.makeRoom maxOps entry.opCount entry.starts dropped).1.queue.Sublist q.queue := by
    rw [hqueue]
    exact List.sublist_append_right _ _
  unfold pushOne
  dsimp only
  split
  · exact ⟨List.sublist_append_left _ _, by simp⟩
  · split
    · exact ⟨hsub.trans (List.sublist_append_left _ _), by simpa using Or.inr (by
        have := hsub.length_le
        omega)⟩
    · refine ⟨hsub.append_right [entry], ?_⟩
      rw [hflag]
      cases oldest with
      | nil =>
        rw [List.nil_append] at hqueue
        simp [← hqueue]
      | cons first rest =>
        have hlen := congrArg List.length hqueue
        simp only [List.length_append, List.length_cons] at hlen
        simp
        omega

/-- After the loop of `Push`, likewise.

**Proof sketch.** By induction on the batches, with `pushOne_report` for the first. -/
theorem foldl_pushOne_report (maxOps : ℕ) (entries : List Entry) (q : GameQueue) (dropped : Bool) :
    (entries.foldl (pushOne maxOps) (q, dropped)).1.queue.Sublist (q.queue ++ entries) ∧
      ((entries.foldl (pushOne maxOps) (q, dropped)).2 = true ↔ dropped = true ∨
        (entries.foldl (pushOne maxOps) (q, dropped)).1.queue.length <
          q.queue.length + entries.length) := by
  induction entries generalizing q dropped with
  | nil => simp
  | cons entry entries ih =>
    obtain ⟨hsub, hflag⟩ := pushOne_report maxOps q dropped entry
    rw [List.foldl_cons]
    generalize pushOne maxOps (q, dropped) entry = state at hsub hflag ⊢
    obtain ⟨q', dropped'⟩ := state
    obtain ⟨hsub', hflag'⟩ := ih q' dropped'
    refine ⟨?_, hflag'.trans ?_⟩
    · refine hsub'.trans ?_
      have := hsub.append_right entries
      rwa [List.append_assoc] at this
    · have hlen := hsub.length_le
      have hlen' := hsub'.length_le
      simp only [List.length_append, List.length_cons, List.length_nil] at hlen hlen' hflag ⊢
      rw [hflag, or_assoc]
      refine or_congr_right ?_
      constructor
      · omega
      · omega

/-- The flag plays no part in what a `Push` leaves. -/
theorem foldl_pushOne_fst (maxOps : ℕ) (entries : List Entry) (q : GameQueue) (dropped : Bool) :
    (entries.foldl (pushOne maxOps) (q, dropped)).1 =
      (entries.foldl (pushOne maxOps) (q, false)).1 := by
  induction entries generalizing q dropped with
  | nil => rfl
  | cons entry entries ih =>
    have hfst := pushOne_fst maxOps q dropped entry
    rw [List.foldl_cons, List.foldl_cons, ← Prod.mk.eta (p := pushOne maxOps (q, dropped) entry),
      ← Prod.mk.eta (p := pushOne maxOps (q, false) entry), ih, hfst]
    exact (ih _ _).symm

/-- A loop that ends without room can evict nothing more. -/
theorem makeRoom_stuck (maxOps ops : ℕ) (starts : Bool) (q : GameQueue) (dropped : Bool)
    (h : (q.makeRoom maxOps ops starts dropped).1.ops + ops > maxOps) :
    (q.makeRoom maxOps ops starts dropped).1.evictOldestGame starts = none := by
  fun_induction makeRoom maxOps ops starts q dropped with
  | case1 q dropped hfull hevict => exact hevict
  | case2 q dropped hfull evicted hevict ih => exact ih h
  | case3 q dropped hfits => exact absurd h hfits

/-- Where nothing may be evicted the queue is empty, or one game that may only continue.

**Proof sketch.** By the branches of the eviction: nothing is queued, or dropping up to the next
start would empty the queue and the batch is no start. -/
theorem evictOldestGame_eq_none {q : GameQueue} {starts : Bool}
    (h : q.evictOldestGame starts = none) :
    q.queue = [] ∨ starts = false ∧ ∀ entry ∈ q.queue.tail, entry.starts = false := by
  unfold evictOldestGame at h
  split at h
  · left
    assumption
  · rename_i first rest hqueue
    right
    dsimp only at h
    split at h
    · rename_i hkeep
      obtain ⟨hempty, hstarts⟩ := Bool.and_eq_true_iff.mp hkeep
      refine ⟨by simpa using hstarts, fun entry hentry => ?_⟩
      rw [hqueue, List.tail_cons] at hentry
      have hall := List.dropWhile_eq_nil_iff.mp (List.isEmpty_iff.mp hempty) entry hentry
      simpa using hall
    · cases h

/-- An eviction takes exactly the ops of the batches it drops off the counter. -/
theorem Counted.evict {maxOps : ℕ} {q q' : GameQueue} {starts : Bool} (h : q.Counted maxOps)
    (hevict : q.evictOldestGame starts = some q') :
    q'.Counted maxOps ∧ ∃ oldest, q.queue = oldest ++ q'.queue ∧ opsOf oldest + q'.ops = q.ops := by
  obtain ⟨oldest, -, hqueue, hops, -⟩ := of_evictOldestGame hevict
  have hsum : opsOf q.queue = opsOf oldest + opsOf q'.queue := by
    rw [hqueue, opsOf, List.map_append, List.sum_append]
    rfl
  have hcount := h.ops
  have hbound := h.bounded
  exact ⟨⟨by omega, by omega⟩, oldest, hqueue, by omega⟩

/-- So does every eviction of a loop. -/
theorem Counted.evicted {maxOps : ℕ} {q q' : GameQueue} {starts : Bool} (h : q.Counted maxOps)
    (hq : Evicted starts q q') : q'.Counted maxOps := by
  induction hq with
  | refl => exact h
  | tail _ hevict ih => exact (ih.evict hevict).1

/-! ## What a round does -/

/-- The queue a round goes on with once it has evicted, for a batch. -/
structure Room (maxOps : ℕ) (entry : Entry) (q room : GameQueue) : Prop where
  left : ∃ oldest, room.LeftOf entry.starts q oldest
  counted : q.Counted maxOps → room.Counted maxOps
  stuck : room.ops + entry.opCount > maxOps → room.evictOldestGame entry.starts = none

/-- What a round does with a batch. -/
inductive Pushed (maxOps : ℕ) (q : GameQueue) (entry : Entry) : GameQueue → Prop
  /-- The queue refuses the game. -/
  | refusing (hr : q.refusing = true) (hs : entry.starts = false) : Pushed maxOps q entry q
  /-- There is no room, and the queue refuses the game from here on. -/
  | full {room : GameQueue} (h : Room maxOps entry q room)
      (hopen : q.refusing = false ∨ entry.starts = true)
      (hfull : room.ops + entry.opCount > maxOps) :
      Pushed maxOps q entry { room with refusing := true }
  /-- The batch is queued. -/
  | queued {room : GameQueue} (h : Room maxOps entry q room)
      (hopen : q.refusing = false ∨ entry.starts = true)
      (hfits : room.ops + entry.opCount ≤ maxOps) :
      Pushed maxOps q entry
        { queue := room.queue ++ [entry], ops := room.ops + entry.opCount, refusing := false }

/-- Every round is one of these. -/
theorem pushed_pushOne (maxOps : ℕ) (q : GameQueue) (entry : Entry) :
    Pushed maxOps q entry (pushOne maxOps (q, false) entry).1 := by
  have hroom : Room maxOps entry q (q.makeRoom maxOps entry.opCount entry.starts false).1 :=
    { left := leftOf_makeRoom maxOps entry.opCount entry.starts q false
      counted := counted_makeRoom entry.opCount entry.starts false
      stuck := makeRoom_stuck maxOps entry.opCount entry.starts q false }
  unfold pushOne
  split
  · rename_i hrefused
    obtain ⟨hr, hs⟩ := Bool.and_eq_true_iff.mp hrefused
    exact .refusing hr (by simpa using hs)
  · rename_i hnot
    have hopen : q.refusing = false ∨ entry.starts = true := by
      rw [Bool.and_eq_true, not_and_or] at hnot
      simpa using hnot
    dsimp only
    split
    · rename_i hfull
      exact .full hroom hopen hfull
    · rename_i hfits
      exact .queued hroom hopen (Nat.le_of_not_gt hfits)

end GameQueue

/-! ## The ledger follows the calls -/

/-- Batches pushed in turn are one `Push`.

**Proof sketch.** By induction on the posts: the loop of `Push` over all of them is a round and the
loop over the rest, and the flag changes nothing of the queue. -/
theorem Ledger.run_commitAll (maxOps : ℕ) (l : Ledger) (posts : List Post) :
    (l.commitAll maxOps posts).run = l.run.call maxOps (.push posts) := by
  induction posts generalizing l with
  | nil => simp [Ledger.commitAll, Run.call, GameQueue.push, entriesOf]
  | cons post posts ih =>
    have hstep : (l.commitAll maxOps (post :: posts)) =
        (l.commit maxOps post).commitAll maxOps posts := rfl
    rw [hstep, ih]
    have hfold := GameQueue.foldl_pushOne_fst maxOps
      (entriesOf (l.run.committed ++ [entryOf l.run.committed post]) posts)
      (GameQueue.pushOne maxOps (l.run.queue, false) (entryOf l.run.committed post)).1
      (GameQueue.pushOne maxOps (l.run.queue, false) (entryOf l.run.committed post)).2
    simp only [Ledger.commit, Run.commit, Run.call, GameQueue.push, entriesOf, List.foldl_cons,
      List.append_assoc, List.singleton_append]
    rw [← hfold]

/-- **The ledger's queue is the one of the calls.** -/
theorem run_ledger (maxOps : ℕ) (calls : List Call) :
    (ledger maxOps calls).run = runCalls maxOps calls := by
  have hcalls : ∀ l : Ledger,
      (calls.foldl (Ledger.call maxOps) l).run = calls.foldl (Run.call maxOps) l.run := by
    induction calls with
    | nil => exact fun l => rfl
    | cons call calls ih =>
      intro l
      rw [List.foldl_cons, List.foldl_cons, ih]
      cases call with
      | push posts => rw [Ledger.call, Ledger.run_commitAll]
      | takeAll => rfl
  exact hcalls {}

/-! ## What the ledger keeps -/

/-- A batch that continues a game is queued behind one of that game. -/
def Joined (queue : List Entry) : Prop :=
  queue.IsChain fun a b => b.starts = false → a.game = b.game

/-- What every batch and every call keep: the counter and the tails of games, and that the queue
ends with the current game, which it refuses only after it refused a batch of it. -/
structure Ledger.Sound (maxOps : ℕ) (l : Ledger) : Prop where
  counted : l.run.queue.Counted maxOps
  tails : l.run.DropsTails
  joined : Joined l.run.queue.queue
  current : l.run.queue.refusing = false → ∀ entry ∈ l.run.queue.queue.getLast?,
    entry.game = gamesBegun l.run.committed
  refusing : l.run.queue.refusing = true →
    ∃ entry ∈ l.refused, entry.game = gamesBegun l.run.committed
  old : ∀ entry ∈ l.refused, entry.place < l.run.committed.length

section Commit

variable {maxOps : ℕ} {l : Ledger} {post : Post}

/-- A batch that continues a game belongs to the current one. -/
theorem Ledger.game_next (hs : post.starts = false) :
    (l.next post).game = gamesBegun l.run.committed := by
  rw [Ledger.next, entryOf, hs]
  rfl

/-- What the queue keeps of an eviction ends as it ended. -/
theorem getLast?_of_leftOf {q q' : GameQueue} {starts : Bool} {oldest : List Entry}
    (h : q'.LeftOf starts q oldest) {entry : Entry} (hentry : entry ∈ q'.queue.getLast?) :
    entry ∈ q.queue.getLast? := by
  have hentry : q'.queue.getLast? = some entry := hentry
  rw [h.queue, List.getLast?_append, hentry]
  rfl

/-- The queue after one round. -/
theorem Ledger.pushed (maxOps : ℕ) (l : Ledger) (post : Post) :
    GameQueue.Pushed maxOps l.run.queue (l.next post) (l.commit maxOps post).run.queue :=
  GameQueue.pushed_pushOne maxOps l.run.queue (l.next post)

/-- The ledger says of a batch whether it is queued.

**Proof sketch.** The queue after the round is a part of the one before and the new batch, and no
entry before has its place. -/
theorem Ledger.Sound.accepts_iff (h : l.Sound maxOps) (post : Post) :
    l.accepts maxOps post = true ↔ l.next post ∈ (l.commit maxOps post).run.queue.queue := by
  have hold : ∀ entry ∈ l.run.queue.queue, entry.place < l.run.committed.length := by
    intro entry hentry
    exact (h.tails.numbered.bounded entry
      (h.tails.ordered.mem (List.mem_append_right _ hentry))).1
  have hsub : (l.commit maxOps post).run.queue.queue.Sublist
      (l.run.queue.queue ++ [l.next post]) :=
    (GameQueue.pushOne_report maxOps l.run.queue false (l.next post)).1
  rw [Ledger.accepts, List.any_eq_true]
  constructor
  · rintro ⟨entry, hentry, hplace⟩
    rcases List.mem_append.mp (hsub.mem hentry) with hmem | hmem
    · have := hold entry hmem
      rw [beq_iff_eq.mp hplace] at this
      omega
    · rw [← List.mem_singleton.mp hmem]
      exact hentry
  · exact fun hmem => ⟨l.next post, hmem, beq_self_eq_true _⟩

/-- A batch that is refused is written down. -/
theorem Ledger.Sound.refused_commit (h : l.Sound maxOps)
    (hout : l.next post ∉ (l.commit maxOps post).run.queue.queue) :
    l.next post ∈ (l.commit maxOps post).refused := by
  have hrefused : l.accepts maxOps post = false :=
    Bool.eq_false_iff.mpr fun haccepts => hout ((h.accepts_iff post).mp haccepts)
  rw [Ledger.commit, hrefused]
  exact List.mem_append_right _ (List.mem_singleton_self _)

/-- A round never takes a refusal back. -/
theorem Ledger.refused_subset {entry : Entry} (hentry : entry ∈ l.refused) :
    entry ∈ (l.commit maxOps post).refused := by
  rw [Ledger.commit]
  split
  · exact hentry
  · exact List.mem_append_left _ hentry

/-- The next batch is not in the queue yet, nor in a part of it. -/
theorem Ledger.Sound.next_not_mem (h : l.Sound maxOps) {oldest queue : List Entry}
    (hqueue : l.run.queue.queue = oldest ++ queue) : l.next post ∉ queue := by
  intro hmem
  have hqueued : l.next post ∈ l.run.queue.queue := by
    rw [hqueue]
    exact List.mem_append_right _ hmem
  have := (h.tails.numbered.bounded _ (h.tails.ordered.mem (List.mem_append_right _ hqueued))).1
  exact absurd this (lt_irrefl _)

/-- **A round keeps the ledger sound.**

**Proof sketch.** A batch that is queued goes to the end, behind smaller places, and those evicted
are whole games from the front. One that is refused is noted, and the queue refuses the rest of its
game. -/
theorem Ledger.Sound.commit (h : l.Sound maxOps) (post : Post) :
    (l.commit maxOps post).Sound maxOps := by
  have hcommitted : (l.commit maxOps post).run.committed = l.run.committed ++ [l.next post] := rfl
  have hgames : gamesBegun (l.commit maxOps post).run.committed = (l.next post).game :=
    gamesBegun_commit l.run.committed post
  have hold : ∀ entry ∈ (l.commit maxOps post).refused,
      entry.place < (l.commit maxOps post).run.committed.length := by
    intro entry hentry
    rw [hcommitted, List.length_append, List.length_singleton]
    rw [Ledger.commit] at hentry
    split at hentry
    · exact Nat.lt_succ_of_lt (h.old entry hentry)
    · rcases List.mem_append.mp hentry with hmem | hmem
      · exact Nat.lt_succ_of_lt (h.old entry hmem)
      · rw [List.mem_singleton.mp hmem]
        exact Nat.lt_succ_self _
  have hcounted := GameQueue.counted_pushOne false (l.next post) h.counted
  have htails := h.tails.commit maxOps post false
  have hrefuse (hout : l.next post ∉ (l.commit maxOps post).run.queue.queue) :
      l.next post ∈ (l.commit maxOps post).refused := h.refused_commit hout
  have hpushed := l.pushed maxOps post
  suffices Joined (l.commit maxOps post).run.queue.queue ∧
      ((l.commit maxOps post).run.queue.refusing = false →
        ∀ entry ∈ (l.commit maxOps post).run.queue.queue.getLast?,
          entry.game = (l.next post).game) ∧
      ((l.commit maxOps post).run.queue.refusing = true →
        ∃ entry ∈ (l.commit maxOps post).refused, entry.game = (l.next post).game) by
    obtain ⟨hjoined, hcurrent, hrefusing⟩ := this
    exact ⟨hcounted, htails, hjoined, hgames ▸ hcurrent, hgames ▸ hrefusing, hold⟩
  generalize (l.commit maxOps post).run.queue = q' at hpushed hrefuse ⊢
  cases hpushed with
  | refusing hr hs =>
    have hgame : (l.next post).game = gamesBegun l.run.committed := Ledger.game_next hs
    refine ⟨h.joined, fun hopen => ?_, fun _ => ?_⟩
    · rw [hr] at hopen
      cases hopen
    · obtain ⟨entry, hentry, hcurrent⟩ := h.refusing hr
      exact ⟨entry, Ledger.refused_subset hentry, hcurrent.trans hgame.symm⟩
  | @full room hroom hopen hfull =>
    obtain ⟨oldest, hleft⟩ := hroom.left
    refine ⟨?_, fun hclosed => absurd hclosed (by simp), fun _ => ?_⟩
    · have := h.joined
      rw [Joined, hleft.queue] at this
      exact this.right_of_append
    · exact ⟨l.next post, hrefuse (h.next_not_mem hleft.queue), rfl⟩
  | @queued room hroom hopen hfits =>
    obtain ⟨oldest, hleft⟩ := hroom.left
    refine ⟨?_, fun _ entry hentry => ?_, fun hrefusing => absurd hrefusing (by simp)⟩
    · have hkept : Joined room.queue := by
        have := h.joined
        rw [Joined, hleft.queue] at this
        exact this.right_of_append
      refine List.isChain_append.mpr ⟨hkept, List.isChain_singleton _, ?_⟩
      intro a ha b hb hstarts
      obtain rfl : l.next post = b := by simpa using hb
      have hgame : (l.next post).game = gamesBegun l.run.committed :=
        Ledger.game_next (show post.starts = false from hstarts)
      rw [hgame]
      -- the current game is open, and the queue ends with it
      refine h.current (hopen.resolve_right ?_) a (getLast?_of_leftOf hleft ha)
      rw [hstarts]
      exact Bool.false_ne_true
    · obtain rfl : l.next post = entry := by simpa using hentry
      rfl

/-- What `TakeAll` leaves is sound. -/
theorem Ledger.Sound.takeAll (h : l.Sound maxOps) : (l.call maxOps .takeAll).Sound maxOps where
  counted := ⟨rfl, Nat.zero_le _⟩
  tails := h.tails.takeAll maxOps
  joined := List.isChain_nil
  current _ entry hentry := by cases hentry
  refusing := h.refusing
  old := h.old

/-- Batches pushed in turn keep the ledger sound. -/
theorem Ledger.Sound.commitAll (h : l.Sound maxOps) (posts : List Post) :
    (l.commitAll maxOps posts).Sound maxOps := by
  induction posts generalizing l with
  | nil => exact h
  | cons post posts ih => exact ih (h.commit post)

end Commit

/-- Every sequence of calls keeps the ledger sound.

**Proof sketch.** By induction on the calls from the empty ledger; a push is its batches one by one.
-/
theorem sound_ledger (maxOps : ℕ) (calls : List Call) : (ledger maxOps calls).Sound maxOps := by
  have hcalls : ∀ l : Ledger, l.Sound maxOps →
      (calls.foldl (Ledger.call maxOps) l).Sound maxOps := by
    induction calls with
    | nil => exact fun l h => h
    | cons call calls ih =>
      intro l h
      refine ih _ ?_
      cases call with
      | push posts => exact h.commitAll posts
      | takeAll => exact h.takeAll
  refine hcalls {} ?_
  constructor
  · exact ⟨rfl, Nat.zero_le _⟩
  · exact dropsTails maxOps []
  · exact List.isChain_nil
  · exact fun _ entry hentry => by cases hentry
  · exact fun hrefusing => by cases hrefusing
  · exact fun entry hentry => absurd hentry List.not_mem_nil

/-! ## The account of every call -/

/-- What is claimed of a queue before its next batch or call. -/
structure Accounts (maxOps : ℕ) (l : Ledger) : Prop where
  /-- The counter is the number of queued ops, and no more than the bound. -/
  counted : l.run.queue.Counted maxOps
  /-- No eviction, from the queue or in a loop on it, takes more off the counter than there is. -/
  exact : ∀ starts q q', Evicted starts l.run.queue q → q.evictOldestGame starts = some q' →
    ∃ oldest, q.queue = oldest ++ q'.queue ∧ opsOf oldest + q'.ops = q.ops
  /-- A batch that begins a game is queued unless it is larger than the bound. -/
  starting : ∀ post : Post, post.starts = true → post.batch.ops.length ≤ maxOps →
    l.next post ∈ (l.commit maxOps post).run.queue.queue
  /-- A batch that continues the game is refused only after another one of it, or where it does not
  fit beside those queued. -/
  continuing : ∀ post : Post, post.starts = false →
    l.next post ∉ (l.commit maxOps post).run.queue.queue →
      (∃ entry ∈ l.refused, entry.game = (l.next post).game ∧
        entry.place < (l.next post).place) ∨
      opsOf (ofGame (l.next post).game l.run.queue.queue) + post.batch.ops.length > maxOps
  /-- `Push` returns true exactly if a batch, queued or incoming, is not queued after it. -/
  reported : ∀ posts,
    (l.run.queue.push maxOps (entriesOf l.run.committed posts)).2 = true ↔
      ∃ entry ∈ l.run.queue.queue ++ entriesOf l.run.committed posts,
        entry ∉ (l.run.queue.push maxOps (entriesOf l.run.committed posts)).1.queue

section Claim

variable {maxOps : ℕ} {l : Ledger}

/-- A batch that begins a game finds room.

**Proof sketch.** A start ends a refusal. If it did not fit, nothing was left to evict, so the queue
was empty, and then it fits. -/
theorem Ledger.Sound.starting (h : l.Sound maxOps) {post : Post} (hs : post.starts = true)
    (hfits : post.batch.ops.length ≤ maxOps) :
    l.next post ∈ (l.commit maxOps post).run.queue.queue := by
  have hstarts : (l.next post).starts = true := hs
  have hpushed := l.pushed maxOps post
  generalize (l.commit maxOps post).run.queue = q' at hpushed ⊢
  cases hpushed with
  | refusing hr hno => exact absurd (hstarts.symm.trans hno) (by simp)
  | @full room hroom hopen hfull =>
    -- everything may be evicted for it, so the queue is empty
    have hstuck := hroom.stuck hfull
    rcases GameQueue.evictOldestGame_eq_none hstuck with hempty | ⟨hno, -⟩
    · have hops := (hroom.counted h.counted).ops
      rw [hempty] at hops
      have hzero : room.ops = 0 := hops
      have hcount : (l.next post).opCount = post.batch.ops.length := rfl
      omega
    · exact absurd (hstarts.symm.trans hno) (by simp)
  | queued hroom hopen hroomy => exact List.mem_append_right _ (List.mem_singleton_self _)

/-- A queue that ends with a game and holds no other start has nothing but that game. -/
theorem games_of_joined {queue : List Entry} {game : ℕ} (hjoined : Joined queue)
    (hstarts : ∀ entry ∈ queue.tail, entry.starts = false)
    (hlast : ∀ entry ∈ queue.getLast?, entry.game = game) :
    ∀ entry ∈ queue, entry.game = game := by
  induction queue with
  | nil => exact fun entry hentry => absurd hentry List.not_mem_nil
  | cons first rest ih =>
    cases rest with
    | nil =>
      intro entry hentry
      rw [List.mem_singleton.mp hentry]
      exact hlast first rfl
    | cons second rest =>
      obtain ⟨hfirst, hrest⟩ := List.isChain_cons_cons.mp hjoined
      have hall := ih hrest (fun entry hentry => hstarts entry (List.mem_cons_of_mem second hentry))
        (by simpa using hlast)
      intro entry hentry
      rcases List.mem_cons.mp hentry with rfl | hmem
      · exact (hfirst (hstarts second List.mem_cons_self)).trans (hall second List.mem_cons_self)
      · exact hall entry hmem

/-- A batch that continues the game and is refused comes after a refusal, or does not fit.

**Proof sketch.** The queue refuses the game already, and then an earlier batch of it was refused;
or the batch did not fit, and then all that could be evicted was, so only its own game was left. -/
theorem Ledger.Sound.continuing (h : l.Sound maxOps) {post : Post} (hs : post.starts = false)
    (hout : l.next post ∉ (l.commit maxOps post).run.queue.queue) :
    (∃ entry ∈ l.refused, entry.game = (l.next post).game ∧
        entry.place < (l.next post).place) ∨
      opsOf (ofGame (l.next post).game l.run.queue.queue) + post.batch.ops.length > maxOps := by
  have hstarts : (l.next post).starts = false := hs
  have hgame : (l.next post).game = gamesBegun l.run.committed := Ledger.game_next hs
  have hpushed := l.pushed maxOps post
  generalize (l.commit maxOps post).run.queue = q' at hpushed hout
  cases hpushed with
  | refusing hr hno =>
    left
    obtain ⟨entry, hentry, hcurrent⟩ := h.refusing hr
    exact ⟨entry, hentry, hcurrent.trans hgame.symm, h.old entry hentry⟩
  | @full room hroom hopen hfull =>
    right
    obtain ⟨oldest, hleft⟩ := hroom.left
    rw [hstarts] at hleft
    have hcount : (l.next post).opCount = post.batch.ops.length := rfl
    have hops := (hroom.counted h.counted).ops
    -- what is left is the current game, which the evictions left whole
    have hall : ∀ entry ∈ room.queue, entry.game = gamesBegun l.run.committed := by
      rcases GameQueue.evictOldestGame_eq_none (hroom.stuck hfull) with hempty | ⟨-, hrest⟩
      · rw [hempty]
        exact fun entry hentry => absurd hentry List.not_mem_nil
      · refine games_of_joined ?_ hrest ?_
        · have := h.joined
          rw [Joined, hleft.queue] at this
          exact this.right_of_append
        · intro entry hentry
          refine h.current (hopen.resolve_right ?_) entry (getLast?_of_leftOf hleft hentry)
          rw [hstarts]
          exact Bool.false_ne_true
    have hsub : l.run.queue.queue.Sublist l.run.committed :=
      (List.sublist_append_right _ _).trans h.tails.ordered
    have hwhole := h.tails.numbered.ofGame_current hleft hsub []
    have hroomGame : ofGame (gamesBegun l.run.committed) room.queue = room.queue := by
      refine List.filter_eq_self.mpr fun entry hentry => ?_
      exact beq_iff_eq.mpr (hall entry hentry)
    rw [List.nil_append, List.nil_append, hroomGame] at hwhole
    rw [hgame, ← hwhole]
    omega
  | queued hroom hopen hfits =>
    exact absurd (List.mem_append_right _ (List.mem_singleton_self _)) hout

/-- What `Push` reports.

**Proof sketch.** What is left is a part of what was queued and pushed (`foldl_pushOne_report`). The
batches are distinct, so it is shorter exactly when one is missing. -/
theorem Ledger.Sound.reported (h : l.Sound maxOps) (posts : List Post) :
    (l.run.queue.push maxOps (entriesOf l.run.committed posts)).2 = true ↔
      ∃ entry ∈ l.run.queue.queue ++ entriesOf l.run.committed posts,
        entry ∉ (l.run.queue.push maxOps (entriesOf l.run.committed posts)).1.queue := by
  obtain ⟨hsub, hflag⟩ := GameQueue.foldl_pushOne_report maxOps
    (entriesOf l.run.committed posts) l.run.queue false
  rw [GameQueue.push, hflag, or_iff_right Bool.false_ne_true, ← List.length_append]
  generalize (entriesOf l.run.committed posts).foldl (GameQueue.pushOne maxOps)
    (l.run.queue, false) = result at hsub ⊢
  constructor
  · -- the batches are distinct, so a shorter queue misses one
    intro hshort
    by_contra hall
    have hsubset : l.run.queue.queue ++ entriesOf l.run.committed posts ⊆ result.1.queue := by
      intro entry hentry
      by_contra hout
      exact hall ⟨entry, hentry, hout⟩
    have hcommitted : (l.commitAll maxOps posts).run.committed =
        l.run.committed ++ entriesOf l.run.committed posts := by
      rw [Ledger.run_commitAll]
      rfl
    have hordered := (h.commitAll posts).tails.numbered.ordered
    rw [hcommitted] at hordered
    have hnodup : (l.run.queue.queue ++ entriesOf l.run.committed posts).Nodup := by
      have hqueue : l.run.queue.queue.Sublist l.run.committed :=
        (List.sublist_append_right _ _).trans h.tails.ordered
      refine (hordered.sublist (hqueue.append_right _)).imp fun hab heq => ?_
      rw [heq] at hab
      exact lt_irrefl _ hab.1
    have hlen := (List.subperm_of_subset hnodup hsubset).length_le
    omega
  · rintro ⟨entry, hentry, hout⟩
    refine lt_of_le_of_ne hsub.length_le fun hlen => hout ?_
    rw [hsub.eq_of_length hlen]
    exact hentry

end Claim

/-- **The queue's accounts are right.** For every bound, before every batch of every call: the
counter is the sum of the queued ops and within the bound, no eviction takes it below zero, a batch
that begins a game is queued unless it is too large by itself, one that continues its game is
refused only after a refusal of that game or where the game does not fit, and `Push` reports
exactly whether it dropped a batch. The queue is the one of the calls.

**Proof sketch.** `Ledger.Sound` is kept by every round (`Ledger.Sound.commit`): the queue ends with
the current game while it is open, and a batch that continues a game stands behind one of that game,
so a queue nothing more may be evicted from is the current game alone. -/
theorem accounts (maxOps : ℕ) (calls : List Call) (pushed : List Post) :
    (ledger maxOps calls).run = runCalls maxOps calls ∧
      Accounts maxOps ((ledger maxOps calls).commitAll maxOps pushed) := by
  have h := (sound_ledger maxOps calls).commitAll pushed
  refine ⟨run_ledger maxOps calls, ?_⟩
  constructor
  · exact h.counted
  · exact fun starts q q' hq hevict => ((h.counted.evicted hq).evict hevict).2
  · exact fun post hs hfits => h.starting hs hfits
  · exact fun post hs hout => h.continuing hs hout
  · exact h.reported

end Source
