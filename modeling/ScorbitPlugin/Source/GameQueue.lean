import Mathlib.Data.List.Infix
import ScorbitPlugin.Wire.Payloads

set_option relaxedAutoImplicit false
set_option autoImplicit false

/-!
# The queue of committed batches

`GameQueue`, between the API thread that commits an authored table's batches and the worker that
takes them. It is bounded in ops: the oldest game is evicted first, and a game that fills the queue
alone is refused from there on.

A queued batch carries two numbers that no function reads: its place among all committed batches,
and the game it belongs to, counted by the batches that begin with `GAME_START`.

## Main definitions

* `Source.Post`, `Source.Entry` — a batch as it is pushed, and as it is queued.
* `Source.GameQueue` with `push`, `takeAll`, `evictOldestGame` — the class of that name.
* `Source.Run` — a queue with what was committed to it and handed out by it.

## Main results

* `Source.run_invariant` — what a committed batch and a `TakeAll` keep holds after every
  sequence of calls.
* `Source.handed_game_prefixes` — only the tails of games are ever dropped.
-/

namespace Source

/-- `GamePost`, as `Push` receives it: a batch with at least one op. -/
structure Post where
  epoch : ℕ
  batch : Wire.GameBatch
  nonempty : batch.ops ≠ []

/-- A post with its place among the committed batches and the number of its game. -/
structure Entry where
  post : Post
  place : ℕ
  game : ℕ

/-- The batch begins with `GAME_START`. -/
def Post.starts (post : Post) : Bool := post.batch.startsGame

/-- The batch begins with `GAME_START`. -/
def Entry.starts (entry : Entry) : Bool := entry.post.starts

/-- The number of ops in the batch. -/
def Entry.opCount (entry : Entry) : ℕ := entry.post.batch.ops.length

/-- The ops of several batches. -/
def opsOf (entries : List Entry) : ℕ := (entries.map Entry.opCount).sum

/-- `GameQueue` without its mutex; `maxOps` is a parameter of `push`. -/
structure GameQueue where
  queue : List Entry := []
  ops : ℕ := 0
  /-- `m_refusing`: the current game outgrew the queue. -/
  refusing : Bool := false

namespace GameQueue

/-- `EvictOldestGame`: drops everything before the next queued `GAME_START`; with none queued,
only a new game may evict what there is. -/
def evictOldestGame (q : GameQueue) (incomingStarts : Bool) : Option GameQueue :=
  match q.queue with
  | [] => none
  | first :: rest =>
    let newer := rest.dropWhile (!·.starts)
    if newer.isEmpty && !incomingStarts then none
    else
      some { q with
        queue := newer
        ops := q.ops - opsOf (first :: rest.takeWhile (!·.starts)) }

/-- What an eviction does: a part of the queue is gone from the front, up to a batch that begins a
game or, for a new game, to the end.

**Proof sketch.** The eviction takes the first batch and those behind it up to the next that begins
a game. It fails where that would empty the queue for a batch that continues a game. -/
theorem of_evictOldestGame {q q' : GameQueue} {starts : Bool}
    (h : q.evictOldestGame starts = some q') :
    ∃ oldest, oldest ≠ [] ∧ q.queue = oldest ++ q'.queue ∧ q'.ops = q.ops - opsOf oldest ∧
      q'.refusing = q.refusing ∧ (∀ entry ∈ q'.queue.head?, entry.starts = true) ∧
      (q'.queue = [] → starts = true) := by
  unfold evictOldestGame at h
  split at h
  · cases h
  · rename_i first rest hq
    dsimp only at h
    split at h
    · cases h
    · rename_i hkeep
      obtain rfl := Option.some.inj h
      refine ⟨first :: rest.takeWhile (!·.starts), List.cons_ne_nil _ _, ?_, rfl, rfl, ?_, ?_⟩
      · rw [hq, List.cons_append, List.takeWhile_append_dropWhile]
      · intro entry hentry
        have := List.head?_dropWhile_not (!·.starts) rest
        rw [Option.mem_def.mp hentry] at this
        simpa using this
      · intro hempty
        by_contra hstarts
        have hempty : rest.dropWhile (!·.starts) = [] := hempty
        exact hkeep (by rw [hempty, Bool.eq_false_of_not_eq_true hstarts]; rfl)

/-- An eviction shortens the queue. -/
theorem length_evictOldestGame {q q' : GameQueue} {starts : Bool}
    (h : q.evictOldestGame starts = some q') : q'.queue.length < q.queue.length := by
  obtain ⟨oldest, hne, hqueue, -⟩ := of_evictOldestGame h
  rw [hqueue, List.length_append]
  exact Nat.lt_add_of_pos_left (List.length_pos_iff.mpr hne)

/-- The loop of `Push` that evicts games until `ops` more fit or nothing may be evicted. The flag
says whether anything was dropped. -/
def makeRoom (maxOps ops : ℕ) (starts : Bool) (q : GameQueue) (dropped : Bool) :
    GameQueue × Bool :=
  if q.ops + ops > maxOps then
    match _h : q.evictOldestGame starts with
    | none => (q, dropped)
    | some evicted => makeRoom maxOps ops starts evicted true
  else (q, dropped)
termination_by q.queue.length
decreasing_by exact length_evictOldestGame _h

/-- One round of `Push`'s loop, with whether anything was dropped so far. -/
def pushOne (maxOps : ℕ) (state : GameQueue × Bool) (entry : Entry) : GameQueue × Bool :=
  if state.1.refusing && !entry.starts then (state.1, true)
  else
    let room := state.1.makeRoom maxOps entry.opCount entry.starts state.2
    if room.1.ops + entry.opCount > maxOps then ({ room.1 with refusing := true }, true)
    else
      ({ queue := room.1.queue ++ [entry]
         ops := room.1.ops + entry.opCount
         refusing := false }, room.2)

/-- `Push`, with what it returns. -/
def push (maxOps : ℕ) (q : GameQueue) (entries : List Entry) : GameQueue × Bool :=
  entries.foldl (pushOne maxOps) (q, false)

/-- `TakeAll`: what it hands out, and the queue it leaves. -/
def takeAll (q : GameQueue) : List Entry × GameQueue :=
  (q.queue, { q with queue := [], ops := 0 })

end GameQueue

/-! ### Runs -/

/-- The number of games the committed batches have begun. -/
def gamesBegun (committed : List Entry) : ℕ := committed.countP Entry.starts

/-- A post as the next committed batch. -/
def entryOf (committed : List Entry) (post : Post) : Entry where
  post := post
  place := committed.length
  game := gamesBegun committed + post.starts.toNat

/-- Posts as the next committed batches. -/
def entriesOf : List Entry → List Post → List Entry
  | _, [] => []
  | committed, post :: posts =>
    entryOf committed post :: entriesOf (committed ++ [entryOf committed post]) posts

/-- A queue with its history. -/
structure Run where
  queue : GameQueue := {}
  /-- The batches given to `Push`, in order. -/
  committed : List Entry := []
  /-- The batches handed out by `TakeAll`, in order. -/
  handed : List Entry := []

/-- A call of the queue; each holds the mutex throughout. -/
inductive Call
  | push (posts : List Post)
  | takeAll

/-- One call. -/
def Run.call (maxOps : ℕ) (r : Run) : Call → Run
  | .push posts =>
    { r with
      queue := (r.queue.push maxOps (entriesOf r.committed posts)).1
      committed := r.committed ++ entriesOf r.committed posts }
  | .takeAll => { r with queue := r.queue.takeAll.2, handed := r.handed ++ r.queue.takeAll.1 }

/-- The run of a sequence of calls on a new queue. -/
def runCalls (maxOps : ℕ) (calls : List Call) : Run := calls.foldl (Run.call maxOps) {}

/-! ### What the queue's functions do -/

namespace GameQueue

/-- A queue is what evictions for a batch left of another: its end, from a batch that begins a game
on, or nothing when the batch begins a game itself. -/
structure LeftOf (starts : Bool) (q' q : GameQueue) (oldest : List Entry) : Prop where
  queue : q.queue = oldest ++ q'.queue
  refusing : q'.refusing = q.refusing
  head : oldest ≠ [] → ∀ entry ∈ q'.queue.head?, entry.starts = true
  empty : oldest ≠ [] → q'.queue = [] → starts = true

/-- The loop of `Push` leaves the end of the queue.

**Proof sketch.** By the loop: it stops, and nothing is gone; or it evicts a game from the front
(`of_evictOldestGame`) and goes on with what is left. -/
theorem leftOf_makeRoom (maxOps ops : ℕ) (starts : Bool) (q : GameQueue) (dropped : Bool) :
    ∃ oldest, LeftOf starts (q.makeRoom maxOps ops starts dropped).1 q oldest := by
  fun_induction makeRoom maxOps ops starts q dropped with
  | case1 q dropped hfull hevict => exact ⟨[], rfl, rfl, by simp, by simp⟩
  | case2 q dropped hfull evicted hevict ih =>
    obtain ⟨older, hleft⟩ := ih
    obtain ⟨oldest, hne, hqueue, -, hrefusing, hhead, hempty⟩ := of_evictOldestGame hevict
    refine ⟨oldest ++ older, ?_, hleft.refusing.trans hrefusing, ?_, ?_⟩
    · rw [hqueue, hleft.queue, List.append_assoc]
    · intro _
      by_cases holder : older = []
      · have := hleft.queue
        rw [holder, List.nil_append] at this
        rwa [← this]
      · exact hleft.head holder
    · intro _
      by_cases holder : older = []
      · have := hleft.queue
        rw [holder, List.nil_append] at this
        rwa [← this]
      · exact hleft.empty holder
  | case3 q dropped hfits => exact ⟨[], rfl, rfl, by simp, by simp⟩

/-- The counter is the number of queued ops, and no more than the bound. -/
structure Counted (maxOps : ℕ) (q : GameQueue) : Prop where
  ops : q.ops = opsOf q.queue
  bounded : q.ops ≤ maxOps

/-- Evictions keep the counter. -/
theorem counted_makeRoom {maxOps : ℕ} (ops : ℕ) (starts : Bool) {q : GameQueue} (dropped : Bool)
    (h : q.Counted maxOps) : (q.makeRoom maxOps ops starts dropped).1.Counted maxOps := by
  fun_induction makeRoom maxOps ops starts q dropped with
  | case1 q dropped hfull hevict => exact h
  | case2 q dropped hfull evicted hevict ih =>
    obtain ⟨oldest, -, hqueue, hops, -⟩ := of_evictOldestGame hevict
    have hsum : opsOf q.queue = opsOf oldest + opsOf evicted.queue := by
      rw [hqueue, opsOf, List.map_append, List.sum_append]; rfl
    have hcount := h.ops
    exact ih ⟨by omega, hops ▸ (Nat.sub_le _ _).trans h.bounded⟩
  | case3 q dropped hfits => exact h

/-- A pushed batch keeps the counter.

**Proof sketch.** Making room keeps the counter at the sum of what is queued, and a batch is only
queued where its ops fit beside that. -/
theorem counted_pushOne {maxOps : ℕ} {q : GameQueue} (dropped : Bool) (entry : Entry)
    (h : q.Counted maxOps) : (pushOne maxOps (q, dropped) entry).1.Counted maxOps := by
  have hroom := counted_makeRoom entry.opCount entry.starts dropped h
  unfold pushOne
  split
  · exact h
  · dsimp only
    split
    · exact ⟨hroom.ops, hroom.bounded⟩
    · rename_i hfits
      refine ⟨?_, Nat.le_of_not_gt hfits⟩
      have := hroom.ops
      simp only [opsOf, List.map_append, List.sum_append, List.map_cons, List.map_nil,
        List.sum_cons, List.sum_nil] at this ⊢
      omega

end GameQueue

/-! ### Committed batches -/

/-- The committed batches are numbered in order, and a game's number is larger than those of the
games before it. -/
structure Numbered (committed : List Entry) : Prop where
  ordered : committed.Pairwise fun a b =>
    a.place < b.place ∧ a.game ≤ b.game ∧ (b.starts = true → a.game < b.game)
  bounded : ∀ entry ∈ committed,
    entry.place < committed.length ∧ entry.game ≤ gamesBegun committed

/-- After a commit its game is the last begun. -/
theorem gamesBegun_commit (committed : List Entry) (post : Post) :
    gamesBegun (committed ++ [entryOf committed post]) = (entryOf committed post).game := by
  rw [gamesBegun, List.countP_append, List.countP_singleton]
  show _ + (if post.starts = true then 1 else 0) = _ + post.starts.toNat
  cases post.starts <;> rfl

/-- The next commit is numbered in order.

**Proof sketch.** The new entry has the next place, and the last game or the next one, so it comes
after all before it. -/
theorem Numbered.commit {committed : List Entry} (h : Numbered committed) (post : Post) :
    Numbered (committed ++ [entryOf committed post]) := by
  constructor
  · refine List.pairwise_append.mpr ⟨h.ordered, List.pairwise_singleton _ _, ?_⟩
    intro a ha b hb
    obtain rfl := List.mem_singleton.mp hb
    obtain ⟨hplace, hgame⟩ := h.bounded a ha
    refine ⟨hplace, hgame.trans (Nat.le_add_right _ _), fun hstarts => ?_⟩
    have : (entryOf committed post).game = gamesBegun committed + 1 := by
      have : post.starts = true := hstarts
      rw [entryOf, this]; rfl
    omega
  · intro entry hentry
    rw [gamesBegun_commit, List.length_append, List.length_singleton]
    rcases List.mem_append.mp hentry with hold | hnew
    · obtain ⟨hplace, hgame⟩ := h.bounded entry hold
      exact ⟨Nat.lt_succ_of_lt hplace, hgame.trans (Nat.le_add_right _ _)⟩
    · obtain rfl := List.mem_singleton.mp hnew
      exact ⟨Nat.lt_succ_self _, le_refl _⟩

/-- The batches of one game. -/
def ofGame (game : ℕ) (entries : List Entry) : List Entry := entries.filter (·.game == game)

/-- What an eviction removes belongs to games before those of what it leaves.

**Proof sketch.** What is left begins with a start, and games are numbered by their starts; so the
first batch left is of a later game than all that went, and the others of no earlier one. -/
theorem Numbered.game_lt {committed : List Entry} (h : Numbered committed) {starts : Bool}
    {q q' : GameQueue} {oldest : List Entry} (hleft : q'.LeftOf starts q oldest)
    (hsub : q.queue.Sublist committed) {a b : Entry} (ha : a ∈ oldest) (hb : b ∈ q'.queue) :
    a.game < b.game := by
  have hpair := h.ordered.sublist hsub
  rw [hleft.queue] at hpair
  obtain ⟨-, hrest, hacross⟩ := List.pairwise_append.mp hpair
  have hhead := hleft.head (List.ne_nil_of_mem ha)
  cases hq : q'.queue with
  | nil => rw [hq] at hb; cases hb
  | cons first rest =>
    rw [hq] at hb hrest hhead
    have hfirst : a.game < first.game :=
      (hacross a ha first (hq ▸ List.mem_cons_self)).2.2 (hhead first rfl)
    rcases List.mem_cons.mp hb with rfl | hb
    · exact hfirst
    · exact hfirst.trans_le ((List.pairwise_cons.mp hrest).1 b hb).2.1

/-- An eviction leaves a prefix of each game.

**Proof sketch.** A game that lost nothing is as it was. One that lost a batch has none left in the
queue (`Numbered.game_lt`), and what was handed over is a prefix. -/
theorem Numbered.ofGame_left {committed : List Entry} (h : Numbered committed) {starts : Bool}
    {q q' : GameQueue} {oldest : List Entry} (hleft : q'.LeftOf starts q oldest)
    (hsub : q.queue.Sublist committed) (handed : List Entry) (game : ℕ) :
    ofGame game (handed ++ q'.queue) <+: ofGame game (handed ++ q.queue) := by
  simp only [ofGame, hleft.queue, List.filter_append]
  by_cases hgone : oldest.filter (·.game == game) = []
  · rw [hgone, List.nil_append]
  · -- a game that lost a batch has none behind it in the queue
    obtain ⟨a, ha⟩ := List.exists_mem_of_ne_nil _ hgone
    obtain ⟨ha, hgame⟩ := List.mem_filter.mp ha
    have hnone : q'.queue.filter (·.game == game) = [] := by
      refine List.filter_eq_nil_iff.mpr fun b hb hb' => ?_
      have hlt := h.game_lt hleft hsub ha hb
      rw [beq_iff_eq] at hgame hb'
      omega
    rw [hnone, List.append_nil]
    exact List.prefix_append _ _

/-- An eviction for a batch that continues a game leaves the current game whole.

**Proof sketch.** Something is left in the queue, of a later game than all that went
(`Numbered.game_lt`) and of no later one than the current, so nothing of the current game went. -/
theorem Numbered.ofGame_current {committed : List Entry} (h : Numbered committed)
    {q q' : GameQueue} {oldest : List Entry} (hleft : q'.LeftOf false q oldest)
    (hsub : q.queue.Sublist committed) (handed : List Entry) :
    ofGame (gamesBegun committed) (handed ++ q'.queue) =
      ofGame (gamesBegun committed) (handed ++ q.queue) := by
  have hgone : oldest.filter (·.game == gamesBegun committed) = [] := by
    refine List.filter_eq_nil_iff.mpr fun a ha ha' => ?_
    obtain ⟨b, hb⟩ : ∃ b, b ∈ q'.queue := by
      refine List.exists_mem_of_ne_nil _ fun hempty => ?_
      exact Bool.false_ne_true (hleft.empty (List.ne_nil_of_mem ha) hempty)
    have hlt := h.game_lt hleft hsub ha hb
    have hmem : b ∈ q.queue := hleft.queue ▸ List.mem_append_right _ hb
    have hle := (h.bounded b (hsub.mem hmem)).2
    rw [beq_iff_eq] at ha'
    omega
  simp only [ofGame, hleft.queue, List.filter_append, hgone, List.nil_append]

/-! ### Runs -/

/-- What the calls keep: handed out and queued together are a part of the commits in order, a
prefix of each game, and all of the current game unless the queue refuses it. -/
structure Run.DropsTails (r : Run) : Prop where
  numbered : Numbered r.committed
  ordered : (r.handed ++ r.queue.queue).Sublist r.committed
  prefixes : ∀ game, ofGame game (r.handed ++ r.queue.queue) <+: ofGame game r.committed
  current : r.queue.refusing = false →
    ofGame (gamesBegun r.committed) (r.handed ++ r.queue.queue) =
      ofGame (gamesBegun r.committed) r.committed

/-- A commit whose batch is dropped, after evictions for it. -/
theorem Run.DropsTails.drop {r : Run} (h : r.DropsTails) (post : Post) {q : GameQueue}
    {oldest : List Entry} (hleft : q.LeftOf post.starts r.queue oldest) :
    Run.DropsTails { r with
      queue := { q with refusing := true }
      committed := r.committed ++ [entryOf r.committed post] } := by
  have hqueue : r.queue.queue.Sublist r.committed :=
    (List.sublist_append_right _ _).trans h.ordered
  refine ⟨h.numbered.commit post, ?_, fun game => ?_, fun hrefusing => by cases hrefusing⟩
  · have hsub : (r.handed ++ q.queue).Sublist (r.handed ++ r.queue.queue) := by
      rw [hleft.queue]
      exact List.Sublist.append_left (List.sublist_append_right _ _) _
    exact (hsub.trans h.ordered).trans (List.sublist_append_left _ _)
  · refine ((h.numbered.ofGame_left hleft hqueue r.handed game).trans (h.prefixes game)).trans ?_
    simp only [ofGame, List.filter_append]
    exact List.prefix_append _ _

/-- A commit whose batch is queued, after evictions for it: the queue did not refuse, or a new
game begins. -/
theorem Run.DropsTails.enqueue {r : Run} (h : r.DropsTails) (post : Post) {q : GameQueue}
    {oldest : List Entry} (hleft : q.LeftOf post.starts r.queue oldest) (ops : ℕ)
    (hopen : r.queue.refusing = false ∨ post.starts = true) :
    Run.DropsTails { r with
      queue :=
        { queue := q.queue ++ [entryOf r.committed post], ops := ops, refusing := false }
      committed := r.committed ++ [entryOf r.committed post] } := by
  have hqueue : r.queue.queue.Sublist r.committed :=
    (List.sublist_append_right _ _).trans h.ordered
  have hsub : (r.handed ++ q.queue).Sublist r.committed := by
    refine List.Sublist.trans ?_ h.ordered
    rw [hleft.queue]
    exact List.Sublist.append_left (List.sublist_append_right _ _) _
  have hwhole : ofGame (entryOf r.committed post).game (r.handed ++ q.queue) =
      ofGame (entryOf r.committed post).game r.committed := by
    cases hstarts : post.starts with
    | true =>
      -- no earlier batch belongs to the new game
      have hnone : ofGame (entryOf r.committed post).game r.committed = [] := by
        refine List.filter_eq_nil_iff.mpr fun a ha ha' => ?_
        have hle := (h.numbered.bounded a ha).2
        have hgame : (entryOf r.committed post).game = gamesBegun r.committed + 1 := by
          rw [entryOf, hstarts]; rfl
        rw [beq_iff_eq] at ha'
        omega
      have := hsub.filter (·.game == (entryOf r.committed post).game)
      rw [hnone]
      exact List.sublist_nil.mp (hnone ▸ this)
    | false =>
      have hgame : (entryOf r.committed post).game = gamesBegun r.committed := by
        rw [entryOf, hstarts]; rfl
      rw [hstarts] at hleft hopen
      rw [hgame, h.numbered.ofGame_current hleft hqueue r.handed]
      exact h.current (hopen.resolve_right Bool.false_ne_true)
  have happ : ∀ game, ofGame game (r.handed ++ (q.queue ++ [entryOf r.committed post])) =
      ofGame game (r.handed ++ q.queue) ++ ofGame game [entryOf r.committed post] := by
    intro game
    simp only [ofGame, List.filter_append, List.append_assoc]
  have hcommitted : ∀ game, ofGame game (r.committed ++ [entryOf r.committed post]) =
      ofGame game r.committed ++ ofGame game [entryOf r.committed post] := by
    intro game
    simp only [ofGame, List.filter_append]
  refine ⟨h.numbered.commit post, ?_, fun game => ?_, fun _ => ?_⟩
  · rw [← List.append_assoc]
    exact hsub.append_right _
  · rw [happ, hcommitted]
    by_cases hgame : (entryOf r.committed post).game = game
    · rw [← hgame, hwhole]
    · have hnone : ofGame game [entryOf r.committed post] = [] := by
        simp [ofGame, hgame]
      rw [hnone, List.append_nil, List.append_nil]
      exact (h.numbered.ofGame_left hleft hqueue r.handed game).trans (h.prefixes game)
  · dsimp only
    rw [gamesBegun_commit, happ, hcommitted, hwhole]

/-- One batch pushed, with its history. -/
def Run.commit (maxOps : ℕ) (r : Run) (post : Post) (dropped : Bool) : Run :=
  { r with
    queue := (GameQueue.pushOne maxOps (r.queue, dropped) (entryOf r.committed post)).1
    committed := r.committed ++ [entryOf r.committed post] }

/-- A pushed batch drops only tails. -/
theorem Run.DropsTails.commit (maxOps : ℕ) {r : Run} (h : r.DropsTails) (post : Post)
    (dropped : Bool) : (r.commit maxOps post dropped).DropsTails := by
  obtain ⟨oldest, hleft⟩ := GameQueue.leftOf_makeRoom maxOps
    (entryOf r.committed post).opCount post.starts r.queue dropped
  unfold Run.commit GameQueue.pushOne
  split
  · rename_i hrefused
    -- the refused batch leaves the queue as it is
    obtain ⟨hrefusing, -⟩ := Bool.and_eq_true_iff.mp hrefused
    have hsame : r.queue.LeftOf post.starts r.queue [] := ⟨rfl, rfl, by simp, by simp⟩
    have := h.drop post hsame
    rwa [show { r.queue with refusing := true } = r.queue by
      rw [← hrefusing]] at this
  · rename_i hopen
    dsimp only
    split
    · exact h.drop post hleft
    · refine h.enqueue post hleft _ ?_
      cases hrefusing : r.queue.refusing with
      | false => exact .inl rfl
      | true =>
        right
        by_contra hstarts
        exact hopen (by rw [hrefusing]; simpa [Entry.starts, entryOf] using hstarts)

/-- The pushed posts, in order. -/
def Call.posts : Call → List Post
  | .push posts => posts
  | .takeAll => []

/-- What holds of a new queue and is kept by each committed batch and by `TakeAll` holds after
every sequence of calls.

**Proof sketch.** By induction on the calls, and for a push by induction on its batches. -/
theorem run_invariant (maxOps : ℕ) {I : Run → Prop} (hinit : I {})
    (hcommit : ∀ r post dropped, I r → I (r.commit maxOps post dropped))
    (htake : ∀ r, I r → I (r.call maxOps .takeAll)) (calls : List Call) :
    I (runCalls maxOps calls) := by
  have hpush : ∀ (posts : List Post) (r : Run) (dropped : Bool), I r →
      I { r with
        queue := ((entriesOf r.committed posts).foldl (GameQueue.pushOne maxOps)
          (r.queue, dropped)).1
        committed := r.committed ++ entriesOf r.committed posts } := by
    intro posts
    induction posts with
    | nil => intro r dropped h; simpa [entriesOf] using h
    | cons post posts ih =>
      intro r dropped h
      have := ih (r.commit maxOps post dropped)
        (GameQueue.pushOne maxOps (r.queue, dropped) (entryOf r.committed post)).2
        (hcommit r post dropped h)
      simpa [Run.commit, entriesOf] using this
  have hcalls : ∀ (calls : List Call) (r : Run), I r → I (calls.foldl (Run.call maxOps) r) := by
    intro calls
    induction calls with
    | nil => exact fun r h => h
    | cons call calls ih =>
      intro r h
      refine ih _ ?_
      cases call with
      | push posts => exact hpush posts r false h
      | takeAll => exact htake r h
  exact hcalls calls {} hinit

/-- What `TakeAll` hands out was queued. -/
theorem Run.DropsTails.takeAll (maxOps : ℕ) {r : Run} (h : r.DropsTails) :
    (r.call maxOps .takeAll).DropsTails := by
  have hsame : r.handed ++ r.queue.queue ++ [] = r.handed ++ r.queue.queue :=
    List.append_nil _
  exact ⟨h.numbered, hsame ▸ h.ordered, fun game => hsame ▸ h.prefixes game,
    fun hrefusing => hsame ▸ h.current hrefusing⟩

/-- Every sequence of calls drops only tails. -/
theorem dropsTails (maxOps : ℕ) (calls : List Call) : (runCalls maxOps calls).DropsTails := by
  refine run_invariant maxOps ?_ (fun r post dropped h => h.commit maxOps post dropped)
    (fun r h => h.takeAll maxOps) calls
  exact ⟨⟨List.Pairwise.nil, by simp⟩, List.Sublist.refl _, fun _ => List.prefix_rfl, fun _ => rfl⟩

/-- Every sequence of calls keeps the counter of ops. -/
theorem counted (maxOps : ℕ) (calls : List Call) :
    (runCalls maxOps calls).queue.Counted maxOps := by
  refine run_invariant maxOps (I := fun r => r.queue.Counted maxOps) ⟨rfl, Nat.zero_le _⟩
    (fun r post dropped h => GameQueue.counted_pushOne dropped _ h)
    (fun r _ => ⟨rfl, Nat.zero_le _⟩) calls

/-- The committed batches are the pushed ones, in order.

**Proof sketch.** By induction on the calls, and for a push by induction on its posts. `TakeAll`
commits nothing. -/
theorem committed_runCalls (maxOps : ℕ) (calls : List Call) :
    (runCalls maxOps calls).committed = entriesOf [] (calls.flatMap Call.posts) := by
  have happ : ∀ (posts posts' : List Post) (committed : List Entry),
      entriesOf committed (posts ++ posts') = entriesOf committed posts ++
        entriesOf (committed ++ entriesOf committed posts) posts' := by
    intro posts posts'
    induction posts with
    | nil => intro committed; simp [entriesOf]
    | cons post posts ih => intro committed; simp [entriesOf, ih]
  have hcalls : ∀ (calls : List Call) (r : Run),
      (calls.foldl (Run.call maxOps) r).committed =
        r.committed ++ entriesOf r.committed (calls.flatMap Call.posts) := by
    intro calls
    induction calls with
    | nil => intro r; simp [entriesOf]
    | cons call calls ih =>
      intro r
      rw [List.foldl_cons, ih, List.flatMap_cons]
      cases call with
      | push posts => rw [Call.posts, happ, ← List.append_assoc]; rfl
      | takeAll => rfl
  exact hcalls calls {}

/-- **Only game tails are dropped.** Whatever the bound and the calls, the batches handed out are
committed batches in commit order, none twice, and those of each game are a prefix of the batches
committed for it.

**Proof sketch.** Handed out and queued together keep both, and all of the current game unless the
queue refuses it: an eviction takes everything up to a batch that begins a game, so the games it
takes from have no batch behind; one for a batch that continues its game stops before that game. -/
theorem handed_game_prefixes (maxOps : ℕ) (calls : List Call) :
    (runCalls maxOps calls).handed.Sublist (entriesOf [] (calls.flatMap Call.posts)) ∧
      (runCalls maxOps calls).handed.Pairwise (·.place < ·.place) ∧
      ∀ game, ofGame game (runCalls maxOps calls).handed <+:
        ofGame game (entriesOf [] (calls.flatMap Call.posts)) := by
  have h := dropsTails maxOps calls
  rw [← committed_runCalls maxOps calls]
  have hsub : (runCalls maxOps calls).handed.Sublist (runCalls maxOps calls).committed :=
    (List.sublist_append_left _ _).trans h.ordered
  refine ⟨hsub, (h.numbered.ordered.sublist hsub).imp And.left, fun game => ?_⟩
  have := h.prefixes game
  rw [ofGame, List.filter_append] at this
  exact (List.prefix_append _ _).trans this

end Source
