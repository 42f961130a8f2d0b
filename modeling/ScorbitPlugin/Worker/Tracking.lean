import ScorbitPlugin.Worker.Moves

set_option relaxedAutoImplicit false
set_option autoImplicit false

/-!
# Batches in commit order, and the declaration they are sent under

What holds in every reachable state of the game path whatever the batches are: those taken, and
then those the source still has, stand in the order they were committed in, under epochs and
identities that only grow; and the declaration the worker goes by is no newer than the one in
force.

## Main definitions

* `Worker.GamePost.Before` — one batch was committed before another.
* `Worker.GamePath.Ordered`, `Worker.GamePath.Linked` — the invariants.
* `Worker.GamePath.Declared` — the declared table is that of the Declare last acknowledged.

## Main results

* `Worker.GamePath.ordered`, `Worker.GamePath.linked` — they hold in every state of every run.
-/

namespace Worker

open Codec

/-! ## Order of commits -/

/-- One batch was committed before another, under an earlier or the same declaration. -/
structure GamePost.Before (a b : GamePost) : Prop where
  serial : a.serial < b.serial
  epoch : a.epoch ≤ b.epoch
  identity : a.identity ≤ b.identity

/-- A number makes a later batch no earlier. -/
@[simp] theorem GamePost.before_numbered {a b : GamePost} {id : UInt32} :
    a.Before (b.numbered id) ↔ a.Before b := ⟨fun h => ⟨h.1, h.2, h.3⟩, fun h => ⟨h.1, h.2, h.3⟩⟩

/-- Nor an earlier one later. -/
@[simp] theorem GamePost.numbered_before {a b : GamePost} {id : UInt32} :
    (a.numbered id).Before b ↔ a.Before b := ⟨fun h => ⟨h.1, h.2, h.3⟩, fun h => ⟨h.1, h.2, h.3⟩⟩

/-- Numbered batches are in the order of the batches. -/
theorem pairwise_numberedFrom {posts : List GamePost} (h : posts.Pairwise GamePost.Before)
    (id : UInt32) : (numberedFrom id posts).Pairwise GamePost.Before := by
  induction posts generalizing id with
  | nil => exact .nil
  | cons post posts ih =>
    obtain ⟨hp, h⟩ := List.pairwise_cons.mp h
    refine List.pairwise_cons.mpr ⟨fun q hq => ?_, ih h (id + 1)⟩
    obtain ⟨r, hr, _, rfl⟩ := mem_numberedFrom hq
    simpa using hp r hr

namespace GamePath

variable {Ask : Type} {p p' : GamePath Ask} {m : Move}

/-- To note dropped batches is no commit. -/
@[simp] theorem noteDropped_committed (log : GameLog) (posts : List GamePost) :
    (noteDropped log posts).committed = log.committed := by
  induction posts generalizing log with
  | nil => rfl
  | cons post posts ih => exact ih _

/-- Dropped batches were taken before. -/
@[simp] theorem noteDropped_taken (log : GameLog) (posts : List GamePost) :
    (noteDropped log posts).taken = log.taken := by
  induction posts generalizing log with
  | nil => rfl
  | cons post posts ih => exact ih _

/-- They are noted one by one, the first of them first. -/
theorem noteDropped_events (log : GameLog) (posts : List GamePost) :
    (noteDropped log posts).events = posts.reverse.map .dropped ++ log.events := by
  induction posts generalizing log with
  | nil => rfl
  | cons post posts ih =>
    rw [noteDropped, List.foldl_cons, ← noteDropped, ih]
    simp [GameLog.note]

/-- The batches the worker took and those still queued are in commit order, and no younger than
the declaration in force. -/
structure Ordered (p : GamePath Ask) : Prop where
  before : (p.log.taken ++ p.source.queue).Pairwise GamePost.Before
  bound : ∀ q ∈ p.log.taken ++ p.source.queue, q.serial < p.log.committed.length ∧
    q.epoch ≤ p.source.inForce.epoch ∧ q.identity ≤ p.source.inForce.identity

/-- What is taken keeps its order and comes behind what was taken before. -/
theorem Ordered.takeSourceGames (h : p.Ordered) : p.takeSourceGames.Ordered where
  before := by
    have hb := List.pairwise_append.mp h.before
    show (p.log.taken ++ numberedFrom _ _ ++ []).Pairwise _
    rw [List.append_nil, List.pairwise_append]
    refine ⟨hb.1, pairwise_numberedFrom hb.2.1 _, fun a ha b hbm => ?_⟩
    obtain ⟨r, hr, _, rfl⟩ := mem_numberedFrom hbm
    simpa using hb.2.2 a ha r hr
  bound := by
    intro q hq
    simp only [GamePath.takeSourceGames, List.append_nil, List.mem_append] at hq
    rcases hq with hq | hq
    · exact h.bound q (List.mem_append_left _ hq)
    · obtain ⟨r, hr, _, rfl⟩ := mem_numberedFrom hq
      exact h.bound r (List.mem_append_right _ hr)

/-- Every move keeps the commits in order.

**Proof sketch.** A commit is later than all before it, in epoch and place, for the source's epoch
goes up only. Taking moves the queue behind what was taken, and an eviction leaves a part of it. -/
theorem Ordered.moves (h : p.Ordered) (hm : p.Moves m p') : p'.Ordered := by
  cases hm with
  | posted d he hi =>
    exact ⟨h.before, fun q hq => ⟨(h.bound q hq).1, (h.bound q hq).2.1.trans he,
      (h.bound q hq).2.2.trans hi⟩⟩
  | committed batch hb =>
    constructor
    · show (p.log.taken ++ (p.source.queue ++ [p.committing batch hb])).Pairwise _
      rw [← List.append_assoc]
      refine List.pairwise_append.mpr ⟨h.before, by simp, fun a ha b hb' => ?_⟩
      obtain rfl := List.mem_singleton.mp hb'
      exact ⟨(h.bound a ha).1, (h.bound a ha).2.1, (h.bound a ha).2.2⟩
    · intro q hq
      simp only [commit, ← List.append_assoc, List.mem_append (s := _ ++ _), List.mem_singleton,
        List.length_append, List.length_singleton] at hq ⊢
      rcases hq with hq | rfl
      · exact ⟨Nat.lt_succ_of_lt (h.bound q hq).1, (h.bound q hq).2⟩
      · exact ⟨Nat.lt_succ_self _, le_rfl, le_rfl⟩
  | evicted i =>
    have hsub : (p.log.taken ++ p.source.queue.eraseIdx i).Sublist
      (p.log.taken ++ p.source.queue) :=
      (List.Sublist.refl _).append (List.eraseIdx_sublist _ i)
    exact ⟨h.before.sublist hsub, fun q hq => h.bound q (hsub.subset hq)⟩
  | handshake ack request hpc =>
    have ht := h.takeSourceGames
    constructor
    · simpa [GamePath.handshake] using ht.before
    · simpa [GamePath.handshake] using ht.bound
  | took flush hpc => exact ⟨h.takeSourceGames.before, h.takeSourceGames.bound⟩
  | redeclared | connected | failed | ended | left | leftUnserved | dropped | droppedUnserved | sent
  | acked | refused | declaring | declared | moved => exact ⟨h.before, h.bound⟩

/-- **In every run** the batches are in commit order. -/
theorem ordered {cond : GamePath Ask → Move → Prop} (h : system.Reaches cond p) : p.Ordered := by
  refine h.invariant (I := Ordered) ?_ fun _ _ _ hI _ hm => hI.moves hm
  rintro _ ⟨d, rfl⟩
  exact ⟨.nil, by simp⟩

end GamePath

/-! ## Declarations -/

/-- A quiet worker does not wait for a HelloAck. -/
theorem Pc.quiet_ne_hello {Ask : Type} {pc : Pc Ask} (h : pc.quiet) {request : Wire.Message} :
    pc ≠ .exchange request .hello := by
  rintro rfl
  cases h

/-- It waits for no answer to a Declare. -/
theorem Pc.quiet_ne_declare {Ask : Type} {pc : Pc Ask} (h : pc.quiet) {request : Wire.Message}
    {now : DeclareSnapshot} : pc ≠ .exchange request (.declare now) := by
  rintro rfl
  cases h

/-- It waits for no answer to a batch. -/
theorem Pc.quiet_ne_game {Ask : Type} {pc : Pc Ask} (h : pc.quiet) {request : Wire.Message}
    {flush : Bool} : pc ≠ .exchange request (.game flush) := by
  rintro rfl
  cases h

/-- It is not in `SendGames`. -/
theorem Pc.quiet_ne_sendGames {Ask : Type} {pc : Pc Ask} (h : pc.quiet) {flush : Bool} :
    pc ≠ .sendGames flush := by
  rintro rfl
  cases h

/-- One declaration is no younger than another. -/
def DeclareSnapshot.upTo (d e : DeclareSnapshot) : Prop :=
  d.epoch ≤ e.epoch ∧ d.identity ≤ e.identity

/-- A declaration is up to itself. -/
theorem DeclareSnapshot.upTo.refl (d : DeclareSnapshot) : d.upTo d := ⟨le_rfl, le_rfl⟩

/-- Declarations are posted one behind the other. -/
theorem DeclareSnapshot.upTo.trans {d e f : DeclareSnapshot} (h : d.upTo e) (h' : e.upTo f) :
    d.upTo f := ⟨h.1.trans h'.1, h.2.trans h'.2⟩

namespace GamePath

variable {Ask : Type} {p p' : GamePath Ask} {m : Move}

/-- The declarations the worker knows are no younger than the one in force, and the declared one
no younger than the one last taken. -/
structure Linked (p : GamePath Ask) : Prop where
  current : p.link.current.upTo p.source.inForce
  latch : ∀ d, p.source.latch = some d → p.link.current.upTo d ∧ d.upTo p.source.inForce
  declared : p.link.haveDeclared = true → p.link.declared.upTo p.link.current
  /-- The Declare under way is the one last taken. -/
  declaring : ∀ request now, p.pc = .exchange request (.declare now) → now = p.link.current
  /-- Nothing is declared before the handshake. -/
  hello : ∀ request, p.pc = .exchange request .hello → p.link.haveDeclared = false

/-- Taking the posted declaration keeps the declarations in order. -/
theorem Linked.takeDeclare_upTo (h : p.Linked) :
    p.link.current.upTo p.takeDeclare.link.current ∧
      p.takeDeclare.link.current.upTo p.source.inForce := by
  unfold takeDeclare
  cases hl : p.source.latch with
  | none => exact ⟨.refl _, h.current⟩
  | some d => exact h.latch d hl

/-- After `TakeDeclare`, wherever the worker goes.

**Proof sketch.** The latch is empty and what was in it is current; nothing else of the connection
has changed, and no declaration is under way. -/
theorem Linked.takeDeclare (h : p.Linked) {p' : GamePath Ask}
    (hs : p'.source.inForce = p.source.inForce) (hl : p'.source.latch = none)
    (hc : p'.link.current = p.takeDeclare.link.current)
    (hd : p'.link.haveDeclared = true →
      p.link.haveDeclared = true ∧ p'.link.declared = p.link.declared)
    (hdeclare : ∀ request now, p'.pc ≠ .exchange request (.declare now))
    (hhello : ∀ request, p'.pc = .exchange request .hello → p'.link.haveDeclared = false) :
    p'.Linked where
  current := by
    rw [hs, hc]
    exact h.takeDeclare_upTo.2
  latch d hd := by simp [hl] at hd
  declared hd' := by
    rw [hc, (hd hd').2]
    exact (h.declared (hd hd').1).trans h.takeDeclare_upTo.1
  declaring request now hpc := absurd hpc (hdeclare request now)
  hello := hhello

/-- What leaves the declarations alone. -/
theorem Linked.frame (h : p.Linked) {p' : GamePath Ask} (hs : p'.source.inForce = p.source.inForce)
    (hl : p'.source.latch = p.source.latch) (hc : p'.link.current = p.link.current)
    (hd : p'.link.haveDeclared = p.link.haveDeclared) (hd' : p'.link.declared = p.link.declared)
    (hdeclare : ∀ request now, p'.pc = .exchange request (.declare now) → now = p.link.current)
    (hhello : ∀ request, p'.pc = .exchange request .hello → p.link.haveDeclared = false) :
    p'.Linked where
  current := by rw [hs, hc]; exact h.current
  latch d h' := by rw [hs, hc]; exact h.latch d (hl ▸ h')
  declared h' := by rw [hc, hd']; exact h.declared (hd ▸ h')
  declaring request now hpc := by rw [hc]; exact hdeclare request now hpc
  hello request hpc := by rw [hd]; exact hhello request hpc

/-- Every move keeps the declarations in order.

**Proof sketch.** By the kind of the move. What is posted, current and declared follow each other,
so each is no younger than the next; a Declare under way is of the current table. -/
theorem Linked.moves (h : p.Linked) (hm : p.Moves m p') : p'.Linked := by
  cases hm with
  | posted d he hi =>
    refine ⟨h.current.trans ⟨he, hi⟩, ?_, h.declared, h.declaring, h.hello⟩
    rintro _ ⟨⟩
    exact ⟨h.current.trans ⟨he, hi⟩, .refl d⟩
  | connected payload hpc =>
    exact h.takeDeclare rfl rfl rfl (by simp [connected, send, GamePath.takeDeclare])
      (by simp [send]) (by simp [connected, send, GamePath.takeDeclare])
  | failed hpc =>
    exact ⟨h.current, h.latch, by simp [connected, disconnect], by simp [disconnect],
      by simp [disconnect]⟩
  | redeclared pc _ hq | leftUnserved flush pc _ hq =>
    exact h.takeDeclare rfl rfl rfl (fun hd => ⟨hd, rfl⟩) (fun _ _ => Pc.quiet_ne_declare hq)
      (fun _ h => absurd h (Pc.quiet_ne_hello hq))
  | droppedUnserved flush front rest hpc =>
    exact h.takeDeclare rfl rfl rfl (fun hd => ⟨hd, rfl⟩)
      (by simp [dropFront, GamePath.takeDeclare, hpc])
      (by simp [dropFront, GamePath.takeDeclare, hpc])
  | declaring payload hpc =>
    refine h.frame rfl rfl rfl rfl rfl ?_ (by simp [send])
    rintro request now heq
    obtain ⟨-, heq⟩ := Pc.exchange.inj heq
    exact (Awaiting.declare.inj heq).symm
  | declared now request hpc =>
    obtain rfl := h.declaring request now hpc
    refine ⟨h.current, h.latch, fun _ => .refl _, ?_, ?_⟩ <;>
      · simp only [declareAcked]
        split <;> simp
  | committed | evicted => exact h.frame rfl rfl rfl rfl rfl h.declaring h.hello
  | ended => exact h.frame rfl rfl rfl rfl rfl (by simp [disconnect]) (by simp [disconnect])
  | handshake =>
    exact h.frame rfl rfl rfl rfl rfl (by simp [GamePath.handshake]) (by simp [GamePath.handshake])
  | took => exact h.frame rfl rfl rfl rfl rfl (by simp [takeGames]) (by simp [takeGames])
  | left flush pc _ hq =>
    exact h.frame rfl rfl rfl rfl rfl (fun _ _ h => absurd h (Pc.quiet_ne_declare hq))
      (fun _ h => absurd h (Pc.quiet_ne_hello hq))
  | dropped flush front rest hpc =>
    exact h.frame rfl rfl rfl rfl rfl (by simp [dropFront, hpc]) (by simp [dropFront, hpc])
  | sent =>
    exact h.frame rfl rfl rfl rfl rfl (by simp [sendFront, send]) (by simp [sendFront, send])
  | acked | refused =>
    exact h.frame rfl rfl rfl rfl rfl (by simp [gameAcked, gameRefused])
      (by simp [gameAcked, gameRefused])
  | moved seq pc hpc =>
    rcases hpc with rfl | ⟨-, hq⟩
    · exact h.frame rfl rfl rfl rfl rfl h.declaring h.hello
    · exact h.frame rfl rfl rfl rfl rfl (fun _ _ h => absurd h (Pc.quiet_ne_declare hq))
        (fun _ h => absurd h (Pc.quiet_ne_hello hq))

/-- **In every run** the declarations are in order. -/
theorem linked {cond : GamePath Ask → Move → Prop} (h : system.Reaches cond p) : p.Linked := by
  refine h.invariant (I := Linked) ?_ fun _ _ _ hI _ hm => hI.moves hm
  rintro _ ⟨d, rfl⟩
  refine ⟨⟨Nat.zero_le _, Nat.zero_le _⟩, ?_, by simp, by simp, by simp⟩
  rintro _ ⟨⟩
  exact ⟨⟨Nat.zero_le _, Nat.zero_le _⟩, .refl d⟩

/-! ## The declared table -/

end GamePath

/-- The Declare last acknowledged in the session, by the events, newest first. -/
def lastDeclared : List GameEvent → Option DeclareSnapshot
  | [] => none
  | .ended :: _ => none
  | .declared now :: _ => some now
  | _ :: events => lastDeclared events

namespace GamePath

variable {Ask : Type} {p p' : GamePath Ask} {m : Move}

/-- The declared table is the one last acknowledged in the session. -/
def Declared (p : GamePath Ask) : Prop :=
  p.link.haveDeclared = true → p.pc ≠ .offline → lastDeclared p.log.events = some p.link.declared

/-- Every move keeps the declared table.

**Proof sketch.** By the kind of the move: a connection declares nothing before its Hello is
answered, an acknowledged Declare declares the current table, and what takes another declaration
goes to declare it. -/
theorem Declared.moves (h : p.Declared) (hl : p.Linked) (hm : p.Moves m p') : p'.Declared := by
  cases hm with
  | posted | committed | evicted => exact h
  | connected | failed => exact fun hd => by cases hd
  | ended => exact fun _ hpc => absurd rfl hpc
  | handshake ack request hpc =>
    intro hd
    rw [show (p.handshake ack).link.haveDeclared = p.link.haveDeclared from rfl,
      hl.hello request hpc] at hd
    cases hd
  | declared now => exact fun _ _ => rfl
  | redeclared pc hpc | took flush hpc | left flush pc hpc | leftUnserved flush pc hpc
  | dropped flush front rest hpc | droppedUnserved flush front rest hpc
  | sent flush front rest hpc | acked flush request front rest hpc
  | refused flush request front rest hpc | declaring payload hpc =>
    exact fun hd _ => h hd (by simp [hpc])
  | moved seq pc hpc =>
    rcases hpc with rfl | ⟨hp, -⟩
    · exact h
    · refine fun hd _ => h hd ?_
      rintro hpc
      simp [hpc, Pc.quiet] at hp

end GamePath

end Worker
