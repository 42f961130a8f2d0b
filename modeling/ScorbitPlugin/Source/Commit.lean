import ScorbitPlugin.Runs.Cut
import ScorbitPlugin.Source.GameQueue
import ScorbitPlugin.Wire.GameLayouts
import ScorbitPlugin.Worker.Games

set_option relaxedAutoImplicit false
set_option autoImplicit false

/-!
# The batches of a commit

The loop of `ScriptCommit`: the ops the script called since the last commit are cut into posts,
before each `GAME_START`, after each `GAME_END` and at the size bound.

## Main definitions

* `Source.commitOp`, `Source.commitPosts` — one round of the loop, and the posts.
* `Source.Admissible` — what a batch may hold.
* `Source.CutInto` — what is claimed of the posts.

## Main results

* `Source.cutInto_commitPosts` — it holds of the ops the script binding hands over.
-/

namespace Source

open Codec

/-- A post of one op. -/
def postOf (epoch : ℕ) (op : Wire.GameOp) : Post :=
  { epoch, batch := { ops := [op] }, nonempty := List.cons_ne_nil op [] }

/-- An op at the end of a post. -/
def Post.add (post : Post) (op : Wire.GameOp) : Post :=
  { post with
    batch := { post.batch with ops := post.batch.ops ++ [op] }
    nonempty := List.append_ne_nil_of_right_ne_nil post.batch.ops (List.cons_ne_nil op []) }

/-- The loop begins another post for the op. -/
def Post.full (post : Post) (op : Wire.GameOp) : Bool :=
  post.batch.ops.length == Wire.maxGameOps
    || (op.kind == Wire.gameStart && !post.batch.ops.isEmpty) || post.batch.endsGame

/-- One round of the loop of `ScriptCommit`, on the posts so far, the newest first. -/
def commitOp (epoch : ℕ) : List Post → Wire.GameOp → List Post
  | [], op => [postOf epoch op]
  | post :: posts, op =>
    if post.full op then postOf epoch op :: post :: posts else post.add op :: posts

/-- The posts `ScriptCommit` makes of the ops. -/
def commitPosts (epoch : ℕ) (ops : List Wire.GameOp) : List Post :=
  (ops.foldl (commitOp epoch) []).reverse

/-! ## What a batch may hold -/

/-- What a batch may hold: `GAME_START` only first and `GAME_END` only last, and no more than the
bound. -/
structure Admissible (ops : List Wire.GameOp) : Prop where
  nonempty : ops ≠ []
  bounded : ops.length ≤ Wire.maxGameOps
  startFirst : ∀ op ∈ ops.tail, op.kind ≠ Wire.gameStart
  endLast : ∀ op ∈ ops.dropLast, op.kind ≠ Wire.gameEnd

/-- An op as the script binding hands it over: of a known kind, with a bounded mode. -/
def Scripted (op : Wire.GameOp) : Prop :=
  Wire.knownGameOp op.kind = true ∧ op.mode.length ≤ Worker.maxModeBytes

/-- The op joins the post, by its ops alone. -/
def joins (ops : List Wire.GameOp) (op : Wire.GameOp) : Bool :=
  !(ops.length == Wire.maxGameOps || (op.kind == Wire.gameStart && !ops.isEmpty)
    || Wire.GameBatch.endsGame { ops })

/-- A batch whose last op is no `GAME_END` and which has none before has none. -/
theorem endsGame_iff (ops : List Wire.GameOp) :
    Wire.GameBatch.endsGame { ops } = true ↔ ∃ op ∈ ops.getLast?, op.kind = Wire.gameEnd := by
  rw [Wire.GameBatch.endsGame]
  cases ops.getLast? with
  | none => simp
  | some op => simp

/-- **The loop's test decides admissibility.**

**Proof sketch.** An op joins unless the batch is full, the op starts a game, or the last one ended
one. These are the three ways in which the batch with the op is not admissible, when it was
admissible without. -/
theorem cuts_joins : Runs.Cuts joins Admissible where
  single op :=
    { nonempty := List.cons_ne_nil op []
      bounded := by rw [List.length_singleton]; decide
      startFirst := by simp
      endLast := by simp }
  grows ops op hne h hjoins := by
    simp only [joins, Bool.not_eq_true', Bool.or_eq_false_iff] at hjoins
    obtain ⟨⟨hlen, hstart⟩, hend⟩ := hjoins
    have hnoEnd : ∀ op ∈ ops, op.kind ≠ Wire.gameEnd := by
      intro last hlast hkind
      rw [← List.dropLast_concat_getLast hne, List.mem_append, List.mem_singleton] at hlast
      rcases hlast with hmem | rfl
      · exact h.endLast last hmem hkind
      · rw [Bool.eq_false_iff, Ne, endsGame_iff] at hend
        exact hend ⟨_, List.getLast?_eq_getLast_of_ne_nil hne, hkind⟩
    constructor
    · exact List.append_ne_nil_of_left_ne_nil hne [op]
    · have hlen : ops.length ≠ Wire.maxGameOps := by simpa using hlen
      have := h.bounded
      rw [List.length_append, List.length_singleton]
      omega
    · rw [List.tail_append_of_ne_nil hne]
      intro op' hmem
      rcases List.mem_append.mp hmem with hold | hnew
      · exact h.startFirst op' hold
      · obtain rfl := List.mem_singleton.mp hnew
        simpa [hne] using hstart
    · rw [List.dropLast_concat]
      exact hnoEnd
  stuck ops op hne hjoins h := by
    simp only [joins, Bool.not_eq_false', Bool.or_eq_true] at hjoins
    rcases hjoins with (hlen | hstart) | hend
    · have := h.bounded
      rw [List.length_append, List.length_singleton, beq_iff_eq.mp hlen] at this
      omega
    · have hmem : op ∈ (ops ++ [op]).tail := by
        rw [List.tail_append_of_ne_nil hne]
        exact List.mem_append_right _ (List.mem_singleton_self op)
      obtain ⟨hkind, -⟩ := Bool.and_eq_true_iff.mp hstart
      exact h.startFirst op hmem (beq_iff_eq.mp hkind)
    · obtain ⟨last, hlast, hkind⟩ := (endsGame_iff ops).mp hend
      refine h.endLast last ?_ hkind
      rw [List.dropLast_concat]
      exact List.mem_of_getLast? hlast
  prefixes ops rest hne h := by
    have hshort : ops.length ≤ (ops ++ rest).length := by
      rw [List.length_append]
      omega
    constructor
    · exact hne
    · exact hshort.trans h.bounded
    · intro op hop
      refine h.startFirst op ?_
      rw [List.tail_append_of_ne_nil hne]
      exact List.mem_append_left rest hop
    · intro op hop
      refine h.endLast op ?_
      by_cases hrest : rest = []
      · rwa [hrest, List.append_nil]
      · rw [List.dropLast_append_of_ne_nil hrest]
        exact List.mem_append_left _ (List.mem_of_mem_dropLast hop)

/-- The posts hold the blocks of the cut.

**Proof sketch.** By induction on the ops: the loop puts an op into the last post exactly where it
joins the last block. -/
theorem map_commitPosts (epoch : ℕ) (ops : List Wire.GameOp) :
    (commitPosts epoch ops).map (·.batch.ops) = Runs.cut joins ops := by
  have hstep : ∀ (posts : List Post) (op : Wire.GameOp),
      (commitOp epoch posts op).map (·.batch.ops) =
        Runs.cutStep joins (posts.map (·.batch.ops)) op := by
    intro posts op
    cases posts with
    | nil => rfl
    | cons post posts =>
      have hfull : joins post.batch.ops op = !post.full op := rfl
      rw [commitOp, List.map_cons, Runs.cutStep, hfull]
      cases post.full op <;> rfl
  rw [commitPosts, Runs.cut, Runs.cutRev, List.map_reverse]
  congr 1
  induction ops using List.reverseRecOn with
  | nil => rfl
  | append_singleton ops op ih =>
    rw [List.foldl_append, List.foldl_append, ← ih]
    exact hstep _ op

/-- The posts carry the epoch of the commit, and no batch id yet.

**Proof sketch.** By induction on the ops: an op begins a post of the epoch or joins the last one,
which keeps its epoch. -/
theorem epoch_of_mem_commitPosts {epoch : ℕ} {ops : List Wire.GameOp} {post : Post}
    (h : post ∈ commitPosts epoch ops) : post.epoch = epoch := by
  rw [commitPosts, List.mem_reverse] at h
  induction ops using List.reverseRecOn generalizing post with
  | nil => cases h
  | append_singleton ops op ih =>
    rw [List.foldl_append] at h
    cases hposts : ops.foldl (commitOp epoch) [] with
    | nil =>
      rw [hposts] at h
      obtain rfl := List.mem_singleton.mp h
      rfl
    | cons last posts =>
      rw [hposts] at h ih
      have h : post ∈ commitOp epoch (last :: posts) op := h
      rw [commitOp] at h
      split at h
      · rcases List.mem_cons.mp h with rfl | hold
        · rfl
        · exact ih hold
      · rcases List.mem_cons.mp h with rfl | hold
        · have hadd : (last.add op).epoch = last.epoch := rfl
          exact hadd.trans (ih (List.mem_cons.mpr (.inl rfl)))
        · exact ih (List.mem_cons_of_mem last hold)

/-! ## The encoder takes every post -/

/-- What a batch may hold, of known kinds, is valid. -/
theorem Admissible.valid {batch : Wire.GameBatch} (h : Admissible batch.ops)
    (hops : ∀ op ∈ batch.ops, Scripted op) : Wire.validGameBatch batch = true := by
  simp only [Wire.validGameBatch, Bool.and_eq_true, List.all_eq_true, decide_eq_true_eq]
  refine ⟨⟨by simpa using h.nonempty, h.bounded⟩, fun p hp => ?_⟩
  obtain ⟨op, i⟩ := p
  have hget : batch.ops[i]? = some op := List.mem_zipIdx_iff_getElem?.mp hp
  refine ⟨⟨(hops op (List.mem_of_getElem? hget)).1, ?_⟩, ?_⟩
  · cases i with
    | zero => simp
    | succ i =>
      have htail : op ∈ batch.ops.tail := by
        refine List.mem_of_getElem? (i := i) ?_
        rw [List.getElem?_tail, hget]
      simpa using h.startFirst op htail
  · by_cases hi : i = batch.ops.length - 1
    · simp [hi]
    · have hlen := (List.getElem?_eq_some_iff.mp hget).1
      have hdrop : op ∈ batch.ops.dropLast := by
        refine List.mem_of_getElem? (i := i) ?_
        rw [List.getElem?_dropLast, if_pos (by omega), hget]
      simp [h.endLast op hdrop]

/-- **The encoder takes every admissible batch** of scripted ops, and it is read back. -/
theorem Admissible.encodes {batch : Wire.GameBatch} (h : Admissible batch.ops)
    (hops : ∀ op ∈ batch.ops, Scripted op) :
    batch.encode ≠ [] ∧ Wire.GameBatch.decode batch.encode = some batch.carried := by
  have hne : batch.encode ≠ [] :=
    Wire.GameBatch.encode_ne_nil_of_short (h.valid hops) fun op hop => (hops op hop).2
  exact ⟨hne, Wire.GameBatch.coding.decode_encode hne⟩

/-- What the worker takes a committed batch to be: an admissible batch of scripted ops that have no
fields but those their kind names, as the script binding builds them. -/
theorem Admissible.committable {ops : List Wire.GameOp} (h : Admissible ops)
    (hops : ∀ op ∈ ops, Scripted op) (hcarried : ∀ op ∈ ops, op.carried = op) :
    Worker.committable ops = true := by
  rw [Worker.committable, Bool.and_eq_true, List.all_eq_true]
  refine ⟨h.valid hops, fun op hop => ?_⟩
  rw [Bool.and_eq_true, decide_eq_true_eq, beq_iff_eq]
  exact ⟨(hops op hop).2, hcarried op hop⟩

/-! ## What a commit hands over -/

/-- The posts are the ops cut into as few batches as may hold them: nothing is lost, each is
admissible, carries the epoch and, whatever its batch id, is encoded and accepted by the other
side, and no two neighbours could be one. -/
structure CutInto (epoch : ℕ) (ops : List Wire.GameOp) (posts : List Post) : Prop where
  whole : posts.flatMap (·.batch.ops) = ops
  admissible : ∀ post ∈ posts, Admissible post.batch.ops
  epoch : ∀ post ∈ posts, post.epoch = epoch
  encoded : ∀ post ∈ posts, ∀ batchId : UInt32,
    Wire.GameBatch.encode { post.batch with batchId } ≠ [] ∧
      Wire.GameBatch.decode (Wire.GameBatch.encode { post.batch with batchId }) =
        some (Wire.GameBatch.carried { post.batch with batchId })
  apart : posts.IsChain fun post next => ¬ Admissible (post.batch.ops ++ next.batch.ops)

/-- The loop cuts the scripted ops into posts. -/
theorem cutInto_commitPosts (epoch : ℕ) {ops : List Wire.GameOp}
    (hops : ∀ op ∈ ops, Scripted op) : CutInto epoch ops (commitPosts epoch ops) := by
  have hmap := map_commitPosts epoch ops
  have hwhole : (commitPosts epoch ops).flatMap (·.batch.ops) = ops := by
    rw [List.flatMap_def, hmap, Runs.flatten_cut]
  have hadmissible : ∀ post ∈ commitPosts epoch ops, Admissible post.batch.ops := by
    intro post hpost
    refine (cuts_joins.forall_mem_cut ops post.batch.ops ?_).2
    rw [← hmap]
    exact List.mem_map_of_mem hpost
  constructor
  · exact hwhole
  · exact hadmissible
  · exact fun post => epoch_of_mem_commitPosts
  · intro post hpost batchId
    refine Admissible.encodes (hadmissible post hpost) fun op hop => hops op ?_
    rw [← hwhole]
    exact List.mem_flatMap.mpr ⟨post, hpost, hop⟩
  · have := cuts_joins.isChain_cut ops
    rw [← hmap] at this
    exact (List.isChain_map _).mp this

end Source
