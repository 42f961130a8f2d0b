import ScorbitPlugin.Runs.System
import ScorbitPlugin.Source.Commit

set_option relaxedAutoImplicit false
set_option autoImplicit false

/-!
# The session source's declarations

`VpxSessionSource` on the API thread: the events that change the ROM, the table and the machine it
declares, `UpdateDeclare`, which compares and tags, and the script's game calls up to the posts of
`ScriptCommit`.

Paths, ids and versions are bytes. `NativePathToUtf8` is a parameter: on Windows it asks the code
page. What `UpdateDeclare` reads of the display and the overlay may be anything at each call.

## Main definitions

* `Source.VpxSessionSource` — with `onGameStart`, `onGameEnd`, `setRomId`, `declareMachine`,
  `updateDeclare`, `scriptGameOp` and `scriptCommit`.
* `Source.Trail` — the source with what it posted, and when the ops were called.
* `Source.Faithful` — what is claimed of the tags.

## Main results

* `Source.commit_cuts` — the posts of a commit are its ops, cut where they must be.
* `Source.faithful_tags` — the tags are faithful in every run in which no table starts while ops
  are buffered.
* `Source.not_faithful_tags` — and not in every run.
-/

namespace Source

open Codec Worker

/-! ## The state -/

/-- `AuthoredTable`. -/
structure AuthoredTable where
  machineId : Bytes := []
  tablePath : Bytes := []
  vpxPath : Bytes := []
  prefPath : Bytes := []
deriving DecidableEq, Repr

/-- `VpxSessionSource`, as far as the declarations and the game calls go. -/
structure VpxSessionSource where
  romId : Bytes := []
  tablePath : Bytes := []
  authored : AuthoredTable := {}
  epoch : ℕ := 0
  identity : ℕ := 0
  /-- `m_ops`: the script's calls since its last commit. -/
  ops : List Wire.GameOp := []
  posted : DeclareSnapshot := {}
  havePosted : Bool := false
deriving DecidableEq, Repr

/-- What the build and the platform fix: the pinned versions and `NativePathToUtf8`. -/
structure Platform where
  vpxVersion : Bytes
  vpxRevision : Bytes
  nativePathToUtf8 : Option Bytes → Bytes

/-- What VPX answers when a table starts: the table's path, its own and the preferences'. -/
structure HostPaths where
  path : Option Bytes
  vpxPath : Option Bytes
  prefPath : Option Bytes
deriving DecidableEq, Repr

/-- What `UpdateDeclare` reads of the display and the overlay. -/
structure Seen where
  hasSource : Bool := false
  width : UInt32 := 0
  height : UInt32 := 0
  shades : UInt32 := 0
  generation : UInt64 := 0
  surfaceGeneration : ℕ := 0
deriving DecidableEq, Repr

/-- `TableFileName`: what follows the last separator. -/
def tableFileName (path : Bytes) : Bytes :=
  (path.reverse.takeWhile fun c => c != 47 && c != 92).reverse

/-- One character of a machine id, in lower case, at its place. -/
def canonicalChar (i : ℕ) (c : UInt8) : Option UInt8 :=
  if i = 8 ∨ i = 13 ∨ i = 18 ∨ i = 23 then
    if c = 45 then some c else none
  else if 65 ≤ c ∧ c ≤ 70 then some (c - 65 + 97)
  else if (48 ≤ c ∧ c ≤ 57) ∨ (97 ≤ c ∧ c ≤ 102) then some c
  else none

/-- `CanonicalMachineId`. -/
def canonicalMachineId (id : Bytes) : Option Bytes :=
  if id.length ≠ 36 then none else id.zipIdx.mapM fun p => canonicalChar p.2 p.1

namespace VpxSessionSource

variable (platform : Platform) (s : VpxSessionSource)

/-- `AuthoredReady`. -/
def authoredReady : Bool :=
  !s.authored.machineId.isEmpty && s.romId.isEmpty && !s.authored.tablePath.isEmpty
    && !s.authored.vpxPath.isEmpty && !s.authored.prefPath.isEmpty

/-! ## Declaring -/

/-- The declaration `UpdateDeclare` builds. -/
def declaration (seen : Seen) : Wire.Declare :=
  let d : Wire.Declare :=
    { romId := s.romId
      tablePath := s.tablePath
      vpxVersion := platform.vpxVersion
      vpxRevision := platform.vpxRevision
      width := if seen.hasSource then seen.width.toUInt16 else 0
      height := if seen.hasSource then seen.height.toUInt16 else 0
      shades := if seen.hasSource then seen.shades.toUInt8 else 0
      sourceGeneration := seen.generation.toUInt32
      identifyFormat :=
        if !seen.hasSource then []
        else if seen.shades = 16 then "BITPLANE4".toUTF8.toList
        else "BITPLANE2".toUTF8.toList }
  if s.authoredReady then
    { d with
      tableKind := Wire.tableAuthored
      machineUuid := s.authored.machineId
      tableFullPath := s.authored.tablePath
      vpxAppPath := s.authored.vpxPath
      prefsPath := s.authored.prefPath }
  else d

/-- `UpdateDeclare` bumps the identity: another table is declared in the epoch. -/
def newIdentity (now : Wire.Declare) : Bool :=
  s.havePosted && s.epoch == s.posted.epoch && Wire.newIdentity s.posted.declare now

/-- What `UpdateDeclare` compares with the last post. -/
def snapshot (seen : Seen) : DeclareSnapshot :=
  let now := s.declaration platform seen
  { declare := now
    epoch := s.epoch
    surfaceGeneration := seen.surfaceGeneration
    identity := if s.newIdentity now then s.identity + 1 else s.identity }

/-- `UpdateDeclare`. -/
def updateDeclare (seen : Seen) : VpxSessionSource :=
  let now := s.snapshot platform seen
  if s.havePosted && now == s.posted then { s with identity := now.identity }
  else { s with identity := now.identity, posted := now, havePosted := true }

/-- To declare leaves the ops that wait for their commit. -/
@[simp] theorem ops_updateDeclare (seen : Seen) : (s.updateDeclare platform seen).ops = s.ops := by
  unfold updateDeclare
  dsimp only
  split <;> rfl

/-- To declare leaves the epoch. -/
@[simp] theorem epoch_updateDeclare (seen : Seen) :
    (s.updateDeclare platform seen).epoch = s.epoch := by
  unfold updateDeclare
  dsimp only
  split <;> rfl

/-- `UpdateDeclare` posts. -/
def posts (seen : Seen) : Bool := !(s.havePosted && s.snapshot platform seen == s.posted)

/-- `OnGameStart`, up to `UpdateDeclare`; without a VPX API nothing is captured. -/
def onGameStart (info : Option HostPaths) : VpxSessionSource :=
  match info with
  | none => { s with tablePath := [], epoch := s.epoch + 1 }
  | some info =>
    { s with
      tablePath := (info.path.map tableFileName).getD []
      authored := { s.authored with
        tablePath := platform.nativePathToUtf8 info.path
        vpxPath := platform.nativePathToUtf8 info.vpxPath
        prefPath := platform.nativePathToUtf8 info.prefPath }
      epoch := s.epoch + 1 }

/-- `OnGameEnd`, up to `UpdateDeclare`. -/
def onGameEnd : VpxSessionSource :=
  { s with tablePath := [], authored := {}, ops := [], epoch := s.epoch + 1 }

/-- `SetRomId`, up to `UpdateDeclare`. -/
def setRomId (romId : Bytes) : VpxSessionSource := { s with romId }

/-- `DeclareMachine`, up to `UpdateDeclare`; `none` where it returns before that. -/
def declareMachine (machineId : Bytes) : Option VpxSessionSource :=
  match canonicalMachineId machineId with
  | none => none
  | some canonical =>
    if canonical = s.authored.machineId then none
    else if s.authored.machineId = [] then
      some { s with authored := { s.authored with machineId := canonical } }
    else
      some { s with
        authored := { s.authored with machineId := canonical }
        epoch := s.epoch + 1
        ops := [] }

/-! ## Game calls -/

/-- `ScriptGameOp` buffers the op. -/
def takesOp : Bool := s.authoredReady && s.ops.length < maxQueuedGameOps

/-- `ScriptGameOp`. -/
def scriptGameOp (op : Wire.GameOp) : VpxSessionSource :=
  if s.takesOp then { s with ops := s.ops ++ [op] } else s

/-- `ScriptCommit`: the posts it pushes, `none` where it returns before that, and what it leaves. -/
def scriptCommit : Option (List Post) × VpxSessionSource :=
  if s.ops = [] then (none, s)
  else if !s.authoredReady then (none, { s with ops := [] })
  else (some (commitPosts s.epoch s.ops), { s with ops := [] })

end VpxSessionSource

/-- **A commit is cut without loss.** Whatever ops of known kinds with bounded modes are buffered,
the posts `ScriptCommit` pushes are these ops in order, cut into admissible batches of the current
epoch that the encoder takes and the daemon accepts, no two neighbours of which could be one; and
it pushes them whenever there are ops and the table is an authored one.

**Proof sketch.** `cutInto_commitPosts`: the loop's test is exactly the admissibility of the longer
batch (`cuts_joins`), so the greedy cut gives admissible blocks that are stuck at their end. -/
theorem commit_cuts (s : VpxSessionSource) (hops : ∀ op ∈ s.ops, Scripted op) :
    (∀ posts ∈ s.scriptCommit.1, CutInto s.epoch s.ops posts) ∧
      (s.scriptCommit.1.isSome = true ↔ s.ops ≠ [] ∧ s.authoredReady = true) := by
  have hcut := cutInto_commitPosts s.epoch hops
  unfold VpxSessionSource.scriptCommit
  by_cases hempty : s.ops = []
  · simp [hempty]
  · cases hready : s.authoredReady with
    | false => simp [hempty]
    | true => simpa [hempty] using hcut

/-- A table whose script played two games without a commit. -/
def twoGames : VpxSessionSource :=
  { epoch := 3
    authored := { machineId := [97], tablePath := [98], vpxPath := [99], prefPath := [100] }
    ops := [{ kind := Wire.gameStart }, { kind := Wire.gameScore, score := 500 },
      { kind := Wire.gameEnd }, { kind := Wire.gameStart }] }

/-- Its commit is cut between the games. -/
theorem commit_cuts_twoGames :
    (∀ op ∈ twoGames.ops, Scripted op) ∧
      (∀ posts ∈ twoGames.scriptCommit.1, CutInto 3 twoGames.ops posts) ∧
      (twoGames.scriptCommit.1.isSome = true ↔
        twoGames.ops ≠ [] ∧ twoGames.authoredReady = true) := by
  have hops : ∀ op ∈ twoGames.ops, Scripted op := by
    unfold Scripted
    decide
  exact ⟨hops, commit_cuts twoGames hops⟩

/-! ## Runs -/

/-- The source with what it posted, and the epochs its buffered ops were called in. -/
structure Trail where
  source : VpxSessionSource := {}
  /-- The declarations posted, oldest first. -/
  declares : List DeclareSnapshot := []
  /-- The ops called since the last commit, each with the epoch of its call. -/
  calls : List (Wire.GameOp × ℕ) := []
  /-- The posts of each commit, with the calls they were made of. -/
  commits : List (List Post × List (Wire.GameOp × ℕ)) := []

/-- An event of the API thread. -/
inductive Event
  | gameStart (info : Option HostPaths) (seen : Seen)
  | gameEnd (seen : Seen)
  | setRomId (romId : Bytes) (seen : Seen)
  | declareMachine (machineId : Bytes) (seen : Seen)
  | updateDeclare (seen : Seen)
  | scriptGameOp (op : Wire.GameOp)
  | scriptCommit

namespace Trail

variable (platform : Platform) (t : Trail)

/-- `UpdateDeclare`, on a source that an event has changed. -/
def update (s : VpxSessionSource) (seen : Seen) : Trail :=
  { t with
    source := s.updateDeclare platform seen
    declares :=
      if s.posts platform seen then t.declares ++ [s.snapshot platform seen] else t.declares
    calls := if s.ops = [] then [] else t.calls }

/-- One event. -/
def step : Event → Trail
  | .gameStart info seen => t.update platform (t.source.onGameStart platform info) seen
  | .gameEnd seen => t.update platform t.source.onGameEnd seen
  | .setRomId romId seen => t.update platform (t.source.setRomId romId) seen
  | .declareMachine machineId seen =>
    match t.source.declareMachine machineId with
    | none => t
    | some s => t.update platform s seen
  | .updateDeclare seen => t.update platform t.source seen
  | .scriptGameOp op =>
    { t with
      source := t.source.scriptGameOp op
      calls := if t.source.takesOp then t.calls ++ [(op, t.source.epoch)] else t.calls }
  | .scriptCommit =>
    { t with
      source := t.source.scriptCommit.2
      calls := []
      commits := t.commits ++ (t.source.scriptCommit.1.map fun posts => (posts, t.calls)).toList }

end Trail

/-- The source from its construction, which posts a first declaration. -/
def session (platform : Platform) : Runs.System Trail Event :=
  .ofStep (fun t => ∃ seen, t = Trail.update platform {} {} seen)
    fun t e => some (t.step platform e)

/-! ## Faithful tags -/

/-- Two declarations name one table: the same ROM, kind and machine. -/
def SameTable (a b : DeclareSnapshot) : Prop := Wire.newIdentity a.declare b.declare = false

/-- The tags are faithful. -/
structure Faithful (t : Trail) : Prop where
  /-- Epoch and identity never decrease. -/
  ordered : t.declares.Pairwise fun a b => a.epoch ≤ b.epoch ∧ a.identity ≤ b.identity
  /-- One epoch and identity is one table. -/
  oneTable : ∀ a ∈ t.declares, ∀ b ∈ t.declares, a.epoch = b.epoch → a.identity = b.identity →
    SameTable a b
  /-- In one epoch another table is another identity. -/
  tagged : t.declares.IsChain fun a b =>
    a.epoch = b.epoch → ¬ SameTable a b → a.identity ≠ b.identity
  /-- The batches of a commit were made of ops called in the epoch they carry. -/
  called : ∀ posts calls, (posts, calls) ∈ t.commits →
    posts.flatMap (·.batch.ops) = calls.map Prod.fst ∧
      ∀ post ∈ posts, ∀ call ∈ calls, call.2 = post.epoch

/-- **The condition**: no table starts while ops are buffered, so the last one ended or committed
them. -/
def FreshStart (t : Trail) : Event → Prop
  | .gameStart _ _ => t.source.ops = []
  | _ => True

instance (t : Trail) : (e : Event) → Decidable (FreshStart t e)
  | .gameStart _ _ => inferInstanceAs (Decidable (_ = _))
  | .gameEnd _ | .setRomId _ _ | .declareMachine _ _ | .updateDeclare _ | .scriptGameOp _
  | .scriptCommit => .isTrue trivial

/-! ## The declarations -/

/-- One table is the same ROM, kind and machine. -/
theorem sameTable_iff {a b : DeclareSnapshot} :
    SameTable a b ↔ a.declare.romId = b.declare.romId ∧
      a.declare.tableKind = b.declare.tableKind ∧
      a.declare.machineUuid = b.declare.machineUuid := by
  simp only [SameTable, Wire.newIdentity, Bool.or_eq_false_iff, bne_eq_false_iff_eq, and_assoc]

/-- A table is the same as itself. -/
theorem SameTable.refl (a : DeclareSnapshot) : SameTable a a := sameTable_iff.mpr ⟨rfl, rfl, rfl⟩

/-- To be the same table is symmetric. -/
theorem SameTable.symm {a b : DeclareSnapshot} (h : SameTable a b) : SameTable b a := by
  obtain ⟨hrom, hkind, hmachine⟩ := sameTable_iff.mp h
  exact sameTable_iff.mpr ⟨hrom.symm, hkind.symm, hmachine.symm⟩

/-- To be the same table is transitive. -/
theorem SameTable.trans {a b c : DeclareSnapshot} (h : SameTable a b) (h' : SameTable b c) :
    SameTable a c := by
  obtain ⟨hrom, hkind, hmachine⟩ := sameTable_iff.mp h
  obtain ⟨hrom', hkind', hmachine'⟩ := sameTable_iff.mp h'
  exact sameTable_iff.mpr ⟨hrom.trans hrom', hkind.trans hkind', hmachine.trans hmachine'⟩

/-- What is kept of two declarations, the earlier one first. -/
structure TagsKept (a b : DeclareSnapshot) : Prop where
  epoch : a.epoch ≤ b.epoch
  identity : a.identity ≤ b.identity
  oneTable : a.epoch = b.epoch → a.identity = b.identity → SameTable a b

/-- The tags of a declaration are kept by itself. -/
theorem TagsKept.refl (a : DeclareSnapshot) : TagsKept a a :=
  ⟨le_refl _, le_refl _, fun _ _ => SameTable.refl a⟩

/-- Tags between two declarations are theirs where these are the same. -/
theorem TagsKept.trans {a b c : DeclareSnapshot} (h : TagsKept a b) (h' : TagsKept b c) :
    TagsKept a c := by
  have hepoch := h.epoch
  have hidentity := h.identity
  have hepoch' := h'.epoch
  have hidentity' := h'.identity
  refine ⟨hepoch.trans hepoch', hidentity.trans hidentity', fun he hi => ?_⟩
  exact (h.oneTable (by omega) (by omega)).trans (h'.oneTable (by omega) (by omega))

/-- The last declaration posted is the source's, in its epoch and under its identity, and the tags
of every earlier one are kept. -/
structure Tagged (t : Trail) : Prop where
  havePosted : t.source.havePosted = true
  newest : t.source.posted ∈ t.declares.getLast?
  epoch : t.source.posted.epoch = t.source.epoch
  identity : t.source.posted.identity = t.source.identity
  kept : t.declares.Pairwise TagsKept

/-- Every declaration posted keeps its tags up to the last. -/
theorem Tagged.kept_last {t : Trail} (h : Tagged t) {d : DeclareSnapshot} (hd : d ∈ t.declares) :
    TagsKept d t.source.posted := by
  obtain ⟨earlier, hsplit⟩ := List.getLast?_eq_some_iff.mp h.newest
  have hkept := h.kept
  rw [hsplit] at hd hkept
  rcases List.mem_append.mp hd with hold | hlast
  · exact (List.pairwise_append.mp hkept).2.2 d hold _ (List.mem_singleton_self _)
  · rw [List.mem_singleton.mp hlast]
    exact TagsKept.refl _

/-- What an event leaves for `UpdateDeclare`: the last post and its identity, and an epoch that is
not behind. -/
structure Comes (s s' : VpxSessionSource) : Prop where
  havePosted : s'.havePosted = s.havePosted
  posted : s'.posted = s.posted
  identity : s'.identity = s.identity
  epoch : s.epoch ≤ s'.epoch

section Update

variable {platform : Platform} {t : Trail} {s : VpxSessionSource} {seen : Seen}

/-- The tags of what is declared next are kept from the last post on.

**Proof sketch.** Epoch and identity go up only. With both as they were the table is the one that
was posted, for another one gets another identity. -/
theorem Tagged.kept_snapshot (h : Tagged t) (hs : Comes t.source s) :
    TagsKept t.source.posted (s.snapshot platform seen) := by
  have hepoch : (s.snapshot platform seen).epoch = s.epoch := rfl
  have hidentity : (s.snapshot platform seen).identity =
      if s.newIdentity (s.declaration platform seen) then s.identity + 1 else s.identity := rfl
  constructor
  · rw [hepoch, h.epoch]
    exact hs.epoch
  · rw [hidentity, h.identity, hs.identity]
    split <;> omega
  · intro he hi
    rw [hidentity, h.identity, hs.identity] at hi
    -- the same identity: nothing was bumped, in the epoch of the last post
    cases hnew : s.newIdentity (s.declaration platform seen) with
    | true =>
      rw [hnew, if_pos rfl] at hi
      omega
    | false =>
      have hsame : s.epoch == s.posted.epoch := by
        rw [hs.posted, he, hepoch]
        exact beq_self_eq_true _
      rw [VpxSessionSource.newIdentity, hs.havePosted, h.havePosted, hsame, hs.posted] at hnew
      exact hnew

/-- `UpdateDeclare` keeps the tags.

**Proof sketch.** Without a post nothing has changed since the last, and only the source is another.
With one, its tags are kept from the last post (`Tagged.kept_snapshot`), so from each before. -/
theorem Tagged.update (h : Tagged t) (hs : Comes t.source s) :
    Tagged (t.update platform s seen) := by
  have hkept : TagsKept t.source.posted (s.snapshot platform seen) := h.kept_snapshot hs
  cases hposts : s.posts platform seen with
  | false =>
    -- nothing has changed since the last post
    have hsilent : (s.havePosted && s.snapshot platform seen == s.posted) = true :=
      (Bool.not_eq_false' _).mp hposts
    have hsame : s.snapshot platform seen = t.source.posted := by
      rw [← hs.posted]
      exact beq_iff_eq.mp (Bool.and_eq_true_iff.mp hsilent).2
    have hupdate : s.updateDeclare platform seen =
        { s with identity := (s.snapshot platform seen).identity } := by
      unfold VpxSessionSource.updateDeclare
      rw [if_pos hsilent]
    have hsource : (t.update platform s seen).source =
        { s with identity := (s.snapshot platform seen).identity } := hupdate
    have hdeclares : (t.update platform s seen).declares = t.declares := by
      simp [Trail.update, hposts]
    constructor
    · rw [hsource]
      exact hs.havePosted.trans h.havePosted
    · rw [hsource, hdeclares]
      show s.posted ∈ _
      rw [hs.posted]
      exact h.newest
    · rw [hsource]
      show s.posted.epoch = s.epoch
      rw [hs.posted, ← hsame]
      rfl
    · rw [hsource]
      show s.posted.identity = _
      rw [hs.posted, hsame]
    · rw [hdeclares]
      exact h.kept
  | true =>
    have hchanged : (s.havePosted && s.snapshot platform seen == s.posted) = false :=
      (Bool.not_eq_true' _).mp hposts
    have hsource : (t.update platform s seen).source =
        { s with
          identity := (s.snapshot platform seen).identity
          posted := s.snapshot platform seen
          havePosted := true } := by
      show s.updateDeclare platform seen = _
      unfold VpxSessionSource.updateDeclare
      rw [if_neg (ne_true_of_eq_false hchanged)]
    have hdeclares : (t.update platform s seen).declares =
        t.declares ++ [s.snapshot platform seen] := by
      simp [Trail.update, hposts]
    constructor
    · rw [hsource]
    · rw [hsource, hdeclares]
      exact List.getLast?_concat
    · rw [hsource]
      rfl
    · rw [hsource]
    · rw [hdeclares, List.pairwise_append]
      refine ⟨h.kept, List.pairwise_singleton _ _, fun d hd d' hd' => ?_⟩
      obtain rfl := List.mem_singleton.mp hd'
      exact (h.kept_last hd).trans hkept

end Update

/-- The first declaration. -/
theorem tagged_init (platform : Platform) (seen : Seen) :
    Tagged (Trail.update platform {} {} seen) := by
  have hdeclares : (Trail.update platform {} {} seen).declares =
      [VpxSessionSource.snapshot platform {} seen] := rfl
  constructor
  · rfl
  · rw [hdeclares]
    rfl
  · rfl
  · rfl
  · rw [hdeclares]
    exact List.pairwise_singleton _ _

/-- A table start leaves what was posted. -/
theorem comes_onGameStart (platform : Platform) (s : VpxSessionSource) (info : Option HostPaths) :
    Comes s (s.onGameStart platform info) := by
  cases info with
  | none => exact ⟨rfl, rfl, rfl, Nat.le_succ _⟩
  | some info => exact ⟨rfl, rfl, rfl, Nat.le_succ _⟩

/-- A declared machine leaves what was posted. -/
theorem comes_declareMachine {s s' : VpxSessionSource} {machineId : Bytes}
    (h : s.declareMachine machineId = some s') : Comes s s' := by
  unfold VpxSessionSource.declareMachine at h
  split at h
  · cases h
  · split at h
    · cases h
    · split at h
      · obtain rfl := Option.some.inj h
        exact ⟨rfl, rfl, rfl, le_refl _⟩
      · obtain rfl := Option.some.inj h
        exact ⟨rfl, rfl, rfl, Nat.le_succ _⟩

/-- What a game call or a commit leaves: nothing it changes is declared. -/
theorem Tagged.frame {t : Trail} (h : Tagged t) {s : VpxSessionSource}
    {calls : List (Wire.GameOp × ℕ)} {commits : List (List Post × List (Wire.GameOp × ℕ))}
    (hposted : s.posted = t.source.posted) (hhave : s.havePosted = t.source.havePosted)
    (hepoch : s.epoch = t.source.epoch) (hidentity : s.identity = t.source.identity) :
    Tagged { t with source := s, calls, commits } where
  havePosted := hhave.trans h.havePosted
  newest := hposted ▸ h.newest
  epoch := by rw [hposted, hepoch]; exact h.epoch
  identity := by rw [hposted, hidentity]; exact h.identity
  kept := h.kept

/-- Every event keeps the tags.

**Proof sketch.** By the event: those that change the declared table or the epoch are
`Tagged.update`, and an operation or a commit is a frame. -/
theorem Tagged.step {platform : Platform} {t : Trail} (h : Tagged t) (e : Event) :
    Tagged (t.step platform e) := by
  cases e with
  | gameStart info seen => exact h.update (comes_onGameStart platform t.source info)
  | gameEnd seen => exact h.update ⟨rfl, rfl, rfl, Nat.le_succ _⟩
  | setRomId romId seen => exact h.update ⟨rfl, rfl, rfl, le_refl _⟩
  | declareMachine machineId seen =>
    rw [Trail.step]
    cases hdeclare : t.source.declareMachine machineId with
    | none => exact h
    | some s => exact h.update (comes_declareMachine hdeclare)
  | updateDeclare seen => exact h.update ⟨rfl, rfl, rfl, le_refl _⟩
  | scriptGameOp op =>
    refine h.frame ?_ ?_ ?_ ?_ <;> (unfold VpxSessionSource.scriptGameOp; split <;> rfl)
  | scriptCommit =>
    refine h.frame ?_ ?_ ?_ ?_ <;>
      (unfold VpxSessionSource.scriptCommit; split <;> [rfl; (split <;> rfl)])

/-- The declarations of every run keep the tags. -/
theorem tagged {platform : Platform} {t : Trail} (h : (session platform).Reachable t) :
    Tagged t := by
  refine h.invariant ?_ ?_
  · rintro t ⟨seen, rfl⟩
    exact tagged_init platform seen
  · intro t e t' ht _ hstep
    obtain rfl := Option.some.inj hstep
    exact ht.step e

/-! ## The calls -/

/-- The buffered ops were called in the current epoch, and those of each commit in the one its
posts carry. -/
structure Called (t : Trail) : Prop where
  ops : t.calls.map Prod.fst = t.source.ops
  current : ∀ call ∈ t.calls, call.2 = t.source.epoch
  committed : ∀ posts calls, (posts, calls) ∈ t.commits →
    posts.flatMap (·.batch.ops) = calls.map Prod.fst ∧
      ∀ post ∈ posts, ∀ call ∈ calls, call.2 = post.epoch

/-- The posts of a commit make up its ops. -/
theorem flatMap_commitPosts (epoch : ℕ) (ops : List Wire.GameOp) :
    (commitPosts epoch ops).flatMap (·.batch.ops) = ops := by
  rw [List.flatMap_def, map_commitPosts, Runs.flatten_cut]

/-- An event that drops the buffered ops, or stays in the epoch. -/
theorem Called.update {platform : Platform} {t : Trail} (h : Called t) {s : VpxSessionSource}
    (seen : Seen) (hs : s.ops = [] ∨ s.ops = t.source.ops ∧ s.epoch = t.source.epoch) :
    Called (t.update platform s seen) := by
  have hops : (t.update platform s seen).source.ops = s.ops := s.ops_updateDeclare platform seen
  have hepoch : (t.update platform s seen).source.epoch = s.epoch :=
    s.epoch_updateDeclare platform seen
  have hcalls : (t.update platform s seen).calls = if s.ops = [] then [] else t.calls := rfl
  refine ⟨?_, ?_, h.committed⟩
  · rw [hops, hcalls]
    split
    · rename_i hempty
      exact hempty.symm
    · rename_i hne
      exact h.ops.trans (hs.resolve_left hne).1.symm
  · rw [hcalls, hepoch]
    split
    · exact fun call hcall => absurd hcall List.not_mem_nil
    · rename_i hne
      rw [(hs.resolve_left hne).2]
      exact h.current

/-- Every event under the condition keeps the calls.

**Proof sketch.** By the event. A game's start keeps the buffer, which is empty then by the
condition; its end, a new machine and a commit clear it. An operation is buffered with its call, in
the epoch of the source. -/
theorem Called.step {platform : Platform} {t : Trail} (h : Called t) {e : Event}
    (hfresh : FreshStart t e) : Called (t.step platform e) := by
  cases e with
  | gameStart info seen =>
    refine h.update seen (.inl ?_)
    have hops : (t.source.onGameStart platform info).ops = t.source.ops := by
      cases info <;> rfl
    exact hops.trans hfresh
  | gameEnd seen => exact h.update seen (.inl rfl)
  | setRomId romId seen => exact h.update seen (.inr ⟨rfl, rfl⟩)
  | declareMachine machineId seen =>
    rw [Trail.step]
    cases hdeclare : t.source.declareMachine machineId with
    | none => exact h
    | some s =>
      refine h.update seen ?_
      unfold VpxSessionSource.declareMachine at hdeclare
      split at hdeclare
      · cases hdeclare
      · split at hdeclare
        · cases hdeclare
        · split at hdeclare
          · obtain rfl := Option.some.inj hdeclare
            exact .inr ⟨rfl, rfl⟩
          · obtain rfl := Option.some.inj hdeclare
            exact .inl rfl
  | updateDeclare seen => exact h.update seen (.inr ⟨rfl, rfl⟩)
  | scriptGameOp op =>
    rw [Trail.step]
    cases htakes : t.source.takesOp with
    | false =>
      rw [VpxSessionSource.scriptGameOp, htakes]
      exact h
    | true =>
      rw [VpxSessionSource.scriptGameOp, htakes]
      refine ⟨?_, ?_, h.committed⟩
      · show (t.calls ++ [(op, t.source.epoch)]).map Prod.fst = t.source.ops ++ [op]
        rw [List.map_append, h.ops]
        rfl
      · intro call hcall
        rcases List.mem_append.mp hcall with hold | hnew
        · exact h.current call hold
        · rw [List.mem_singleton.mp hnew]
          rfl
  | scriptCommit =>
    rw [Trail.step]
    have hleft : t.source.scriptCommit.2.ops = [] := by
      unfold VpxSessionSource.scriptCommit
      split
      · assumption
      · split <;> rfl
    refine ⟨hleft.symm, fun call hcall => absurd hcall List.not_mem_nil, ?_⟩
    intro posts calls hmem
    rcases List.mem_append.mp hmem with hold | hnew
    · exact h.committed posts calls hold
    · obtain ⟨pushed, hpushed, hpair⟩ := Option.map_eq_some_iff.mp (Option.mem_toList.mp hnew)
      obtain ⟨rfl, rfl⟩ := Prod.mk.inj hpair
      have hposts : pushed = commitPosts t.source.epoch t.source.ops := by
        unfold VpxSessionSource.scriptCommit at hpushed
        split at hpushed
        · cases hpushed
        · split at hpushed
          · cases hpushed
          · exact (Option.some.inj hpushed).symm
      rw [hposts]
      refine ⟨(flatMap_commitPosts _ _).trans h.ops.symm, fun post hpost call hcall => ?_⟩
      rw [epoch_of_mem_commitPosts hpost]
      exact h.current call hcall

/-- **Identity tags are faithful** in every run in which no table starts while ops are buffered:
epoch and identity of the posted declarations never decrease, one epoch and identity is one table,
another table of the epoch has another identity, and a commit's batches were made of ops called in
the epoch they carry.

**Proof sketch.** `UpdateDeclare` is the only function that posts, and it bumps the identity when
the table differs from the last post of the epoch, so the last post carries the tags of all before
it (`Tagged`). The ops of an epoch are dropped with it, or were called in it (`Called`). -/
theorem faithful_tags {platform : Platform} {t : Trail}
    (h : (session platform).Reaches FreshStart t) : Faithful t := by
  have htags : Tagged t := tagged h.reachable
  have hcalled : Called t := by
    refine h.invariant ?_ ?_
    · rintro t ⟨seen, rfl⟩
      exact ⟨rfl, fun call hcall => absurd hcall List.not_mem_nil,
        fun posts calls hmem => absurd hmem List.not_mem_nil⟩
    · intro t e t' ht hfresh hstep
      obtain rfl := Option.some.inj hstep
      exact ht.step hfresh
  constructor
  · exact htags.kept.imp fun hkept => ⟨hkept.epoch, hkept.identity⟩
  · have hpairs : t.declares.Pairwise fun a b =>
        a.epoch = b.epoch → a.identity = b.identity → SameTable a b :=
      htags.kept.imp fun hkept => hkept.oneTable
    have hsymm : Std.Symm fun a b : DeclareSnapshot =>
        a.epoch = b.epoch → a.identity = b.identity → SameTable a b :=
      ⟨fun a b hab he hi => (hab he.symm hi.symm).symm⟩
    intro a ha b hb
    exact List.Pairwise.forall_of_forall (fun d _ _ _ => SameTable.refl d) hpairs ha hb
  · refine htags.kept.isChain.imp fun a b hkept hepoch hother hidentity => ?_
    exact hother (hkept.oneTable hepoch hidentity)
  · exact hcalled.committed

/-- A platform whose paths are UTF-8 already. -/
def plainPlatform : Platform where
  vpxVersion := [49, 48]
  vpxRevision := [97]
  nativePathToUtf8 path := path.getD []

/-- VPX's answer when a table starts. -/
def somePaths : HostPaths :=
  { path := some [47, 116], vpxPath := some [118], prefPath := some [112] }

/-- A machine id. -/
def someMachine : Bytes :=
  List.replicate 8 97 ++ [45] ++ List.replicate 4 98 ++ [45] ++ List.replicate 4 99 ++ [45] ++
    List.replicate 4 70 ++ [45] ++ List.replicate 12 48

/-- A table starts, its script names the machine and begins a game. -/
def gameBegins : List Event :=
  [.gameStart (some somePaths) {}, .declareMachine someMachine {},
    .scriptGameOp { kind := Wire.gameStart }]

/-- Where events lead from the construction of the source. -/
def trailOf (events : List Event) : Option Trail :=
  Runs.runOf (fun t e => some (t.step plainPlatform e)) (Trail.update plainPlatform {} {} {}) events

/-- The run declares five times and hands one commit over, with its own tags. -/
theorem faithful_tags_gameBegins :
    ∃ t, trailOf (gameBegins ++ [.scriptCommit, .setRomId [82] {}, .gameEnd {}]) = some t ∧
      t.commits.length = 1 ∧ t.declares.length = 5 ∧ Faithful t := by
  obtain ⟨t, hrun, hcounts⟩ := (Option.any_eq_true _ _).mp
    (show (trailOf (gameBegins ++ [.scriptCommit, .setRomId [82] {}, .gameEnd {}])).any
      (fun t => t.commits.length == 1 && t.declares.length == 5) = true by decide +kernel)
  obtain ⟨hcommits, hdeclares⟩ := Bool.and_eq_true_iff.mp hcounts
  refine ⟨t, hrun, beq_iff_eq.mp hcommits, beq_iff_eq.mp hdeclares, ?_⟩
  have hok : ∀ t e, decide (FreshStart t e) = true → FreshStart t e := fun t e =>
    of_decide_eq_true
  have hreach : (session plainPlatform).Reaches FreshStart t :=
    Runs.System.Reaches.runOf hok _ (.init ⟨{}, rfl⟩) (by decide +kernel) hrun
  exact faithful_tags hreach

/-- Another table starts with the game begun but not committed: the commit that follows posts it
under the new epoch. -/
theorem not_faithful_tags : ¬ ∀ (platform : Platform) (t : Trail),
    (session platform).Reachable t → Faithful t := by
  intro h
  obtain ⟨t, hrun, hstale⟩ := (Option.any_eq_true _ _).mp
    (show (trailOf (gameBegins ++ [.gameStart (some somePaths) {}, .scriptCommit])).any
      (fun t => t.commits.any fun commit => commit.1.any fun post => commit.2.any fun call =>
        call.2 != post.epoch) = true by decide +kernel)
  have hfaithful := h plainPlatform t (Runs.reachable_of_runOf ⟨{}, rfl⟩ hrun)
  obtain ⟨commit, hcommit, hstale⟩ := List.any_eq_true.mp hstale
  obtain ⟨post, hpost, hstale⟩ := List.any_eq_true.mp hstale
  obtain ⟨call, hcall, hstale⟩ := List.any_eq_true.mp hstale
  exact bne_iff_ne.mp hstale ((hfaithful.called commit.1 commit.2 hcommit).2 post hpost call hcall)

end Source
