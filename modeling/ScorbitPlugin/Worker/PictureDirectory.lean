import Mathlib.Logic.Function.Basic
import Mathlib.Tactic.Common
import ScorbitPlugin.Runs.System
import ScorbitPlugin.Worker.PictureNames

set_option relaxedAutoImplicit false
set_option autoImplicit false

/-!
# The picture directory

The directory of the picture copies, which every process of the user that has the plugin loaded
shares: `PrepareDirectory`, `SweepOnce` and `ProcessAlive` of `src/ReadBack.cpp`. Processes begin
and end at any moment, a process id is used again, and what the loads do to the directory
interleaves: a sweep goes from file to file, and what it found of a file may have changed when it
removes it.

## Main definitions

* `Worker.Load` — a load of the plugin, with its `PlayerTable`.
* `Worker.Directory` — the processes, their loads and the files.
* `Worker.Directory.step`, `Worker.Directory.system` — what they do.
* `Worker.Directory.own` — what one load made.

## Main results

* `Worker.Directory.shared_directory` — a load's pictures stay whatever the others sweep, a sweep
  removes no one else's file, and it leaves no copy of a process that did not run since it began.

## Design

`Apply` a PlayerPicture is cut where other processes can come between: after `DropPicture`, at each
file of the sweep, and before the copy is made. `Directory.apply_dropped` puts the pieces together
again. A file that is not regular is none of the files; the sweep leaves it alone.
-/

namespace Worker

open Codec

/-! ## The loads -/

/-- What `PrepareDirectory` finds. -/
inductive Found
  /-- A directory that is this user's alone. -/
  | ours
  /-- One that is not. -/
  | shared
  /-- It cannot be made. -/
  | missing
deriving DecidableEq, Repr

/-- Where `Apply` a PlayerPicture stands. -/
inductive Applying
  | idle
  /-- Before `PrepareDirectory`. -/
  | prepare (picture : Wire.PlayerPicture)
  /-- In `SweepOnce`, with the paths that the iteration has yet to come to. -/
  | sweep (picture : Wire.PlayerPicture) (todo : List Bytes)
  /-- Before it removes a path. -/
  | remove (picture : Wire.PlayerPicture) (todo : List Bytes) (path : Bytes)
  /-- Before the copy is made. -/
  | copy (picture : Wire.PlayerPicture)

/-- The paths the sweep has yet to come to. -/
def Applying.todo : Applying → List Bytes
  | .sweep _ todo | .remove _ todo _ => todo
  | .idle | .prepare _ | .copy _ => []

/-- The path the sweep is about to remove. -/
def Applying.removing : Applying → Option Bytes
  | .remove _ _ path => some path
  | .idle | .prepare _ | .sweep _ _ | .copy _ => none

/-- A load of the plugin. -/
structure Load where
  /-- `m_tag`. -/
  tag : UInt64
  table : PlayerTable := {}
  /-- `m_copies`. -/
  copies : UInt64 := 0
  /-- `m_refused`. -/
  refused : Bool := false
  /-- `m_swept`. -/
  swept : Bool := false
  /-- `m_sweepError` is set. -/
  sweepFailed : Bool := false
  applying : Applying := .idle
  /-- The processes that ran at some moment since the sweep began. -/
  ran : UInt64 → Bool := fun _ => false

/-- A process begins. -/
def Load.runs (load : Load) (pid : UInt64) : Load :=
  { load with ran := Function.update load.ran pid true }

/-! ## The directory -/

/-- The processes, their loads and the files. -/
structure Directory where
  running : UInt64 → Bool := fun _ => false
  loads : UInt64 → Option Load := fun _ => none
  files : List Filed := []
  /-- The processes and tags of all loads so far. -/
  tags : List (UInt64 × UInt64) := []
  /-- What the sweeps removed: by which process, and the path. -/
  removed : List (UInt64 × Bytes) := []

namespace Directory

variable (dir : Bytes) (s : Directory)

/-- What the names of a load's copies are made of. -/
def naming (pid : UInt64) (load : Load) : Naming := ⟨pid, load.tag, dir⟩

/-- `filename()`. -/
def nameOf (path : Bytes) : Bytes := path.drop dir.length

/-- The table of a load and the directory. -/
def seen (load : Load) : Pictures := ⟨load.table, load.copies, s.files⟩

/-- What a load made: its table, and its files among those that are there. -/
def own (pid : UInt64) (load : Load) : Pictures :=
  ⟨load.table, load.copies, s.files.filter fun f => (naming dir pid load).mine f.path⟩

/-- `ProcessAlive`: `kill` finds no process, or there is no such process id. -/
def processAlive (pid : UInt64) : Bool := pid == 0 || pid > 0x7FFFFFFF || s.running pid

/-- The sweep of a process removes the path: a regular file, with a copy's name, of a process that
is another and has ended. -/
def stale (sweeper : UInt64) (path : Bytes) : Bool :=
  s.files.any (fun f => f.path == path) &&
    (parseCopyName (nameOf dir path)).any fun pid => pid != sweeper && !s.processAlive pid

/-- A load goes on. -/
def put (pid : UInt64) (load : Load) : Directory :=
  { s with loads := Function.update s.loads pid (some load) }

/-- A load does something to its table and to the directory. -/
def acted (pid : UInt64) (load : Load) (a : Pictures.Act) : Directory :=
  let p := Pictures.step (naming dir pid load) (s.seen load) a
  { s with
    loads := Function.update s.loads pid (some { load with table := p.table, copies := p.copies })
    files := p.files }

/-- The plugin is no longer loaded. -/
def gone (pid : UInt64) : Directory := { s with loads := Function.update s.loads pid none }

/-- What a load does. -/
inductive LoadAct
  /-- `~PlayerTable`. -/
  | unload
  /-- `Apply` a Players. -/
  | players (players : Wire.Players)
  /-- `Clear`. -/
  | clear
  /-- `Apply` a PlayerPicture, up to `PrepareDirectory`. -/
  | picture (picture : Wire.PlayerPicture) (disk : PictureFiles)
  /-- `PrepareDirectory`, up to `SweepOnce`. -/
  | prepare (found : Found)
  /-- The sweep comes to a path. -/
  | check (path : Bytes)
  /-- It removes it, or cannot. -/
  | remove (removed : Bool)
  /-- It comes to the end, or can go no further. -/
  | swept (failed : Bool)
  /-- The rest of `Apply`. -/
  | copy (disk : PictureFiles)

/-- What happens. -/
inductive Act
  /-- A process begins. -/
  | spawn (pid : UInt64)
  /-- It ends, wherever it stands. -/
  | exit (pid : UInt64)
  /-- It loads the plugin. -/
  | load (pid tag : UInt64)
  /-- Its load does something. -/
  | act (pid : UInt64) (a : LoadAct)
  /-- Another program makes a file. -/
  | other (name : Bytes)
  /-- Another program removes one. -/
  | otherGone (path : Bytes)

/-- `PrepareDirectory`, which sweeps once. -/
def prepare (load : Load) (picture : Wire.PlayerPicture) (found : Found) : Load :=
  if load.refused = true then { load with applying := .idle }
  else
    match found with
    | .missing => { load with applying := .idle }
    | .shared => { load with refused := true, applying := .idle }
    | .ours =>
      if load.swept = true then { load with applying := .copy picture }
      else
        { load with
          swept := true
          applying := .sweep picture (s.files.map Filed.path)
          ran := s.running }

/-- What a load does next. -/
def loadStep (pid : UInt64) (load : Load) (a : LoadAct) : Option Directory :=
  match load.applying, a with
  | .idle, .unload => some ((s.acted dir pid load .clear).gone pid)
  | .idle, .players players => some (s.acted dir pid load (.players players))
  | .idle, .clear => some (s.acted dir pid load .clear)
  | .idle, .picture picture disk =>
    -- what is done before the directory is prepared is what is done when it cannot be
    let unprepared := { disk with prepared := false }
    let reached :=
      ((s.seen load).applyPicture (naming dir pid load) picture unprepared).1 == .failed
    some (s.acted dir pid { load with applying := if reached then .prepare picture else .idle }
      (.picture picture unprepared))
  | .prepare picture, .prepare found => some (s.put pid (s.prepare load picture found))
  | .sweep picture todo, .check path =>
    let todo := todo.filter (· != path)
    some (s.put pid { load with
      applying :=
        if s.stale dir pid path = true then .remove picture todo path else .sweep picture todo })
  | .remove picture todo path, .remove removed =>
    if removed = true then
      some { s.put pid { load with applying := .sweep picture todo } with
        files := removeFile path s.files
        removed := s.removed ++ [(pid, path)] }
    else some (s.put pid { load with applying := .sweep picture todo, sweepFailed := true })
  | .sweep picture todo, .swept failed =>
    if failed = true ∨ todo = [] then
      some (s.put pid { load with
        applying := .copy picture, sweepFailed := load.sweepFailed || failed })
    else none
  | .copy picture, .copy disk =>
    -- `Apply` again, whose slot has no picture and whose directory is prepared
    some (s.acted dir pid { load with applying := .idle }
      (.picture picture { disk with prepared := true }))
  | _, _ => none

/-- One step. -/
def step : Act → Option Directory
  | .spawn pid =>
    -- a process id is positive and has 31 bits
    if s.running pid = false ∧ 0 < pid.toNat ∧ pid.toNat < 2 ^ 31 then
      some { s with
        running := Function.update s.running pid true
        loads := fun q => (s.loads q).map fun load => load.runs pid }
    else none
  | .exit pid => some { s.gone pid with running := Function.update s.running pid false }
  | .load pid tag =>
    if s.running pid = true ∧ (s.loads pid).isNone = true then
      some { s.put pid { tag := tag } with tags := s.tags ++ [(pid, tag)] }
    else none
  | .act pid a => (s.loads pid).bind fun load => s.loadStep dir pid load a
  | .other name => some { s with files := makeFile ⟨dir ++ name, []⟩ s.files }
  | .otherGone path => some { s with files := removeFile path s.files }

/-- The directory, from when there was none. -/
def system : Runs.System Directory Act := .ofStep (· = {}) (step dir)

/-- Loads of one process have different tags, and other programs leave files with copies' names
alone. -/
def Tidy (s : Directory) (a : Act) : Prop :=
  match a with
  | .load pid tag => (pid, tag) ∉ s.tags
  | .other name => parseCopyName name = none
  | .otherGone path => parseCopyName (nameOf dir path) = none
  | .spawn _ | .exit _ | .act _ _ => True

instance (s : Directory) (a : Act) : Decidable (Tidy dir s a) :=
  match a with
  | .load pid tag => inferInstanceAs (Decidable ((pid, tag) ∉ s.tags))
  | .other name => inferInstanceAs (Decidable (parseCopyName name = none))
  | .otherGone path => inferInstanceAs (Decidable (parseCopyName (nameOf dir path) = none))
  | .spawn _ | .exit _ | .act _ _ => isTrue trivial

end Directory

/-! ## What a load does to the files -/

/-- Some paths are removed, and some files are made. -/
def edit (removed : List Bytes) (made files : List Filed) : List Filed :=
  (files.filter fun f => !removed.contains f.path) ++ made

/-- Two edits are one, if the first makes no file. -/
theorem edit_edit (removed removed' : List Bytes) (made files : List Filed) :
    edit removed' made (edit removed [] files) = edit (removed ++ removed') made files := by
  unfold edit
  rw [List.append_nil, List.filter_filter]
  congr 1
  apply List.filter_congr
  intro f _
  rw [Bool.eq_iff_iff]
  simp [and_comm]

/-- Some of the files see only some of what is edited. -/
theorem filter_edit (q : Bytes → Bool) (removed : List Bytes) (made files : List Filed) :
    (edit removed made files).filter (fun f => q f.path) =
      edit removed (made.filter fun f => q f.path) (files.filter fun f => q f.path) := by
  unfold edit
  rw [List.filter_append, List.filter_filter, List.filter_filter]
  congr 1
  apply List.filter_congr
  intro f _
  exact Bool.and_comm _ _

/-- Those that see nothing of what is edited see what they saw.

**Proof sketch.** What is made is not seen, and of what is removed nothing was seen. -/
theorem filter_edit_of_not {q : Bytes → Bool} {removed : List Bytes} {made : List Filed}
    (hremoved : ∀ path ∈ removed, q path = false) (hmade : ∀ f ∈ made, q f.path = false)
    (files : List Filed) :
    (edit removed made files).filter (fun f => q f.path) = files.filter fun f => q f.path := by
  have hnone : made.filter (fun f => q f.path) = [] := by
    rw [List.filter_eq_nil_iff]
    intro f hf
    rw [hmade f hf]
    exact Bool.false_ne_true
  rw [filter_edit, hnone, edit, List.append_nil, List.filter_eq_self]
  intro f hf
  have hseen := (List.mem_filter.mp hf).2
  rw [Bool.not_eq_true', List.contains_eq_mem, decide_eq_false_iff_not]
  intro hin
  rw [hremoved _ hin] at hseen
  cases hseen

/-- To remove a file is an edit. -/
theorem removeFile_eq_edit (path : Bytes) (files : List Filed) :
    removeFile path files = edit [path] [] files := by
  rw [edit, List.append_nil, removeFile]
  apply List.filter_congr
  intro f _
  rw [Bool.eq_iff_iff]
  simp

/-- To make a file is an edit. -/
theorem makeFile_eq_edit (f : Filed) (files : List Filed) :
    makeFile f files = edit [f.path] [f] files := by
  rw [makeFile, removeFile_eq_edit]
  simp [edit]

/-- What a slot's copy is removed as. -/
def Slot.copies (slot : Slot) : List Bytes := if slot.copy.isEmpty then [] else [slot.copy]

/-- To remove a slot's copy is an edit. -/
theorem removeCopy_eq_edit (slot : Slot) (files : List Filed) :
    slot.removeCopy files = edit slot.copies [] files := by
  unfold Slot.removeCopy Slot.copies
  split
  · simp [edit]
  · exact removeFile_eq_edit _ _

/-- To remove the copies of several slots is one edit. -/
theorem dropCopies_eq_edit (slots : Fin 9 → Slot) (drops : Fin 9 → Bool) (files : List Filed) :
    dropCopies slots drops files =
      edit ((List.finRange 9).flatMap fun i => if drops i = true then (slots i).copies else []) []
        files := by
  unfold dropCopies
  generalize List.finRange 9 = is
  induction is generalizing files with
  | nil => simp [edit]
  | cons i is ih =>
    have hone : (if drops i = true then (slots i).removeCopy files else files) =
        edit (if drops i = true then (slots i).copies else []) [] files := by
      split
      · exact removeCopy_eq_edit _ _
      · simp [edit]
    rw [List.foldl_cons, ih, hone, edit_edit, List.flatMap_cons]

/-- A slot without its picture goes on as it would have with one. -/
theorem PlayerTable.applySlotPicture_dropped (t : PlayerTable) (i : Fin 9) {path : Bytes}
    (files : PictureFiles) (hpath : path.isEmpty = false)
    (hstale : PlayerTable.upToDate (t.slots i) path files = false)
    (h : (t.slots i).view.claimed = true)
    (h' : ((t.set i (t.slots i).dropPicture).slots i).view.claimed = true) :
    (t.set i (t.slots i).dropPicture).applySlotPicture i path files h' =
      t.applySlotPicture i path files h := by
  have hbare : PlayerTable.upToDate (t.slots i).dropPicture path files = false := rfl
  have hset : ∀ slot, (t.set i (t.slots i).dropPicture).set i slot = t.set i slot := by
    intro slot
    simp only [PlayerTable.set, Function.update_idem]
  unfold PlayerTable.applySlotPicture
  simp only [PlayerTable.slots_set_self, hpath, hstale, hbare, hset, Bool.false_eq_true, if_false]
  rfl

/-- **`Apply` comes to `PrepareDirectory` exactly when it fails without one**; then the slot has no
picture any more, and the rest is the same.

**Proof sketch.** `Apply` looks at the player, the slot and the picture before it looks at the
directory. When it fails without one it has dropped the slot's picture already, and the slot it left
is checked in the same way. -/
theorem PlayerTable.applyPicture_reached (t : PlayerTable) {picture : Wire.PlayerPicture}
    (files : PictureFiles)
    (h : (t.applyPicture picture { files with prepared := false }).1 = .failed) :
    ∃ i : Fin 9, picture.player.toNat = i.val + 1 ∧
      (t.applyPicture picture { files with prepared := false }).2 =
        t.set i (t.slots i).dropPicture ∧
      ∀ copy, ((t.applyPicture picture { files with copy := copy }).1 = .failed ∨
          (t.applyPicture picture { files with copy := copy }).1 = .stored) ∧
        (t.set i (t.slots i).dropPicture).applyPicture picture { files with copy := copy } =
          t.applyPicture picture { files with copy := copy } := by
  by_cases hplayer : 1 ≤ picture.player.toNat ∧ picture.player.toNat ≤ 9
  · have hi : picture.player.toNat - 1 < 9 := by omega
    by_cases hc : (t.slots ⟨picture.player.toNat - 1, hi⟩).view.claimed = true ∧
        picture.playerId = (t.slots ⟨picture.player.toNat - 1, hi⟩).view.playerId
    · have hwhole : ∀ files, t.applyPicture picture files =
          t.applySlotPicture ⟨picture.player.toNat - 1, hi⟩ picture.path files hc.1 := by
        intro files
        rw [applyPicture, dif_pos hplayer, dif_pos hc]
      rw [hwhole] at h ⊢
      have hreached : picture.path.isEmpty = false ∧
          upToDate (t.slots ⟨picture.player.toNat - 1, hi⟩) picture.path files = false := by
        unfold applySlotPicture at h
        dsimp only at h
        split at h
        · split at h <;> cases h
        · rename_i hpath
          split at h
          · cases h
          · rename_i hstale
            exact ⟨Bool.eq_false_of_not_eq_true hpath, Bool.eq_false_of_not_eq_true hstale⟩
      obtain ⟨hpath, hstale⟩ := hreached
      refine ⟨⟨picture.player.toNat - 1, hi⟩, by dsimp only; omega, ?_, fun copy => ?_⟩
      · have hstale' : upToDate (t.slots ⟨picture.player.toNat - 1, hi⟩) picture.path
            { files with prepared := false } = false := hstale
        unfold applySlotPicture
        simp [hpath, hstale', PictureFiles.copies]
      · have hc' : ((t.set ⟨picture.player.toNat - 1, hi⟩
            (t.slots ⟨picture.player.toNat - 1, hi⟩).dropPicture).slots
              ⟨picture.player.toNat - 1, hi⟩).view.claimed = true ∧ picture.playerId =
            ((t.set ⟨picture.player.toNat - 1, hi⟩
              (t.slots ⟨picture.player.toNat - 1, hi⟩).dropPicture).slots
                ⟨picture.player.toNat - 1, hi⟩).view.playerId := by
          rw [slots_set_self]
          exact hc
        rw [hwhole, applyPicture.eq_1 (t.set _ _), dif_pos hplayer, dif_pos hc']
        have hstale' : upToDate (t.slots ⟨picture.player.toNat - 1, hi⟩) picture.path
            { files with copy := copy } = false := hstale
        refine ⟨?_, t.applySlotPicture_dropped _ _ hpath hstale' _ _⟩
        unfold applySlotPicture
        dsimp only
        rw [hpath, hstale']
        cases ({ files with copy := copy } : PictureFiles).copies <;> simp
    · rw [applyPicture, dif_pos hplayer, dif_neg hc] at h
      cases h
  · rw [applyPicture, dif_neg hplayer] at h
    cases h

namespace Pictures

/-- A path of a load's copies. -/
def Named (n : Naming) (path : Bytes) : Prop :=
  ∃ (i : Fin 9) (k : UInt64), path = n.path (i.val + 1) k

/-- **What an operation of the table does to the directory**: it removes and makes files with its
own names, whatever other files there are.

**Proof sketch.** By the operation. `Apply` of players and `Clear` remove the copies of the slots
they drop; `Apply` of a picture removes the slot's copy and makes one under the next name. All of
these are names of the table (`hnamed`). -/
theorem step_edits {n : Naming} {t : PlayerTable}
    (hnamed : ∀ i, (t.slots i).copy = [] ∨ ∃ k, (t.slots i).copy = n.path (i.val + 1) k)
    (copies : UInt64) (a : Act) : ∃ t' copies' removed made,
      (∀ files, step n ⟨t, copies, files⟩ a = ⟨t', copies', edit removed made files⟩) ∧
        (∀ path ∈ removed, Named n path) ∧ ∀ f ∈ made, Named n f.path := by
  have hcopies : ∀ i, ∀ path ∈ (t.slots i).copies, Named n path := by
    intro i path hpath
    unfold Slot.copies at hpath
    split at hpath
    · cases hpath
    · rename_i hne
      obtain rfl := List.mem_singleton.mp hpath
      obtain ⟨k, hk⟩ := (hnamed i).resolve_left fun hnil => hne (by simp [hnil])
      exact ⟨i, k, hk⟩
  have hdrops : ∀ drops : Fin 9 → Bool, ∀ path ∈ (List.finRange 9).flatMap (fun i =>
      if drops i = true then (t.slots i).copies else []), Named n path := by
    intro drops path hpath
    obtain ⟨i, -, hi⟩ := List.mem_flatMap.mp hpath
    split at hi
    · exact hcopies i path hi
    · cases hi
  cases a with
  | players players =>
    refine ⟨(t.apply players).2, copies, _, [], fun files => ?_, hdrops fun i =>
      (t.slots i).superseded (PlayerTable.nextView players i), by simp⟩
    rw [← dropCopies_eq_edit]
    rfl
  | clear =>
    refine ⟨t.clear.2, copies, _, [], fun files => ?_, hdrops fun _ => true, by simp⟩
    rw [← dropCopies_eq_edit]
    rfl
  | picture picture disk =>
    have hcases := t.applyPicture_cases picture
      { disk with copy := n.path picture.player.toNat (copies + 1) }
    have hdrop : ∀ (i : Fin 9), picture.player.toNat = i.val + 1 → ∀ files,
        (⟨t, copies, files⟩ : Pictures).drop picture.player =
          edit (t.slots i).copies [] files := by
      intro i hi files
      rw [drop_eq _ hi, removeCopy_eq_edit]
    simp only [step, applyPicture]
    rcases hcases with ⟨hout | hout, -⟩ | ⟨i, hi, -, ⟨hout | hout, -⟩ | ⟨hout, -⟩⟩
    · rw [hout]
      exact ⟨t, copies, [], [], fun files => by simp [edit], by simp, by simp⟩
    · rw [hout]
      exact ⟨t, copies, [], [], fun files => by simp [edit], by simp, by simp⟩
    · rw [hout]
      exact ⟨_, _, _, [], fun files => by rw [hdrop i hi], hcopies i, by simp⟩
    · rw [hout]
      dsimp only
      cases hname : named disk with
      | true =>
        refine ⟨_, _, (t.slots i).copies ++ [n.path picture.player.toNat (copies + 1)], [],
          fun files => by rw [if_pos rfl, hdrop i hi, removeFile_eq_edit, edit_edit], ?_, by simp⟩
        intro path hpath
        rcases List.mem_append.mp hpath with hpath | hpath
        · exact hcopies i path hpath
        · obtain rfl := List.mem_singleton.mp hpath
          exact ⟨i, _, by rw [hi]⟩
      | false =>
        exact ⟨_, _, _, [], fun files => by rw [if_neg Bool.false_ne_true, hdrop i hi], hcopies i,
          by simp⟩
    · rw [hout]
      have hown : Named n (n.path picture.player.toNat (copies + 1)) := ⟨i, _, by rw [hi]⟩
      refine ⟨_, _, (t.slots i).copies ++ [n.path picture.player.toNat (copies + 1)],
        [⟨n.path picture.player.toNat (copies + 1), picture.playerId⟩],
        fun files => by dsimp only; rw [hdrop i hi, makeFile_eq_edit, edit_edit], ?_, ?_⟩
      · intro path hpath
        rcases List.mem_append.mp hpath with hpath | hpath
        · exact hcopies i path hpath
        · obtain rfl := List.mem_singleton.mp hpath
          exact hown
      · intro f hf
        obtain rfl := List.mem_singleton.mp hf
        exact hown

/-- **The pieces of `Apply` are the whole**: when it comes to `PrepareDirectory`, what is left is
`Apply` of the same picture to the table whose slot has none.

**Proof sketch.** Without a directory the slot is left dropped and its copy removed; `Apply` of the
same picture to that slot removes nothing more and ends as it does at once
(`PlayerTable.applyPicture_reached`). -/
theorem apply_dropped {n : Naming} (s : Pictures) (picture : Wire.PlayerPicture)
    (disk : PictureFiles)
    (h : (s.applyPicture n picture { disk with prepared := false }).1 = .failed) :
    s.applyPicture n picture disk =
      (s.applyPicture n picture { disk with prepared := false }).2.applyPicture n picture disk := by
  obtain ⟨i, hi, htable, hrest⟩ := s.table.applyPicture_reached
    { disk with copy := n.path picture.player.toNat (s.copies + 1) } h
  have hnamed : named { disk with prepared := false } = false := rfl
  have hdropped : (s.applyPicture n picture { disk with prepared := false }).2 =
      ⟨s.table.set i (s.table.slots i).dropPicture, s.copies, s.drop picture.player⟩ := by
    rw [applyPicture] at h ⊢
    dsimp only at h ⊢
    rw [h, hnamed]
    simp only [Bool.false_eq_true, if_false]
    rw [htable]
  have hdrop : (⟨s.table.set i (s.table.slots i).dropPicture, s.copies,
      s.drop picture.player⟩ : Pictures).drop picture.player = s.drop picture.player := by
    rw [drop_eq _ hi, PlayerTable.slots_set_self]
    rfl
  obtain ⟨hout, hsame⟩ := hrest (n.path picture.player.toNat (s.copies + 1))
  rw [hdropped]
  unfold applyPicture
  dsimp only
  rw [hsame, hdrop]
  rcases hout with hout | hout <;> rw [hout]

end Pictures

/-! ## What is kept -/

namespace Directory

variable {dir : Bytes} {s s' : Directory} {pid : UInt64} {load load' : Load}

/-- A path with a copy's name was made by a load. -/
def Made (dir : Bytes) (s : Directory) (path : Bytes) : Prop :=
  ∀ p, parseCopyName (nameOf dir path) = some p →
    ∃ tag, (p, tag) ∈ s.tags ∧ (⟨p, tag, dir⟩ : Naming).heads path = true

/-- The path is no file of a load that is there. -/
def Spared (dir : Bytes) (s : Directory) (path : Bytes) : Prop :=
  ∀ q load, s.loads q = some load → (naming dir q load).mine path = false

/-- What the sweep of a process may remove. -/
structure Doomed (dir : Bytes) (s : Directory) (sweeper : UInt64) (path : Bytes) : Prop where
  made : Made dir s path
  named : ∃ p, parseCopyName (nameOf dir path) = some p ∧ p ≠ sweeper
  spared : Spared dir s path

/-- What the sweep of a process has left of the copies of those that did not run since it began. -/
def Left (dir : Bytes) (files : List Filed) (pid : UInt64) (load : Load) : Prop :=
  load.swept = true → load.sweepFailed = false → ∀ f ∈ files, ∀ p,
    parseCopyName (nameOf dir f.path) = some p → p ≠ pid → load.ran p = false →
      f.path ∈ load.applying.todo ∨ load.applying.removing = some f.path

/-- What holds of a load. -/
structure Load.Sound (dir : Bytes) (s : Directory) (pid : UInt64) (load : Load) : Prop where
  running : s.running pid = true
  tagged : (pid, load.tag) ∈ s.tags
  /-- Its files are its copies. -/
  own : (own dir s pid load).Sound (naming dir pid load)
  pending : ∀ path, load.applying.removing = some path → Doomed dir s pid path
  ran : load.swept = true → ∀ p, s.running p = true → load.ran p = true
  left : Left dir s.files pid load

/-- What holds in every state. -/
structure Sound (dir : Bytes) (s : Directory) : Prop where
  /-- A process id is positive and has 31 bits. -/
  pids : ∀ p, s.running p = true → 0 < p.toNat ∧ p.toNat < 2 ^ 31
  tags : ∀ t ∈ s.tags, 0 < t.1.toNat ∧ t.1.toNat < 2 ^ 31
  loads : ∀ pid load, s.loads pid = some load → Load.Sound dir s pid load
  made : ∀ f ∈ s.files, Made dir s f.path
  removed : ∀ r ∈ s.removed, ∃ p, parseCopyName (nameOf dir r.2) = some p ∧ p ≠ r.1

/-- The paths of two loads are different. -/
theorem mine_eq_false {q : UInt64} (hne : q ≠ pid) {path : Bytes}
    (h : (naming dir pid load).heads path = true) : (naming dir q load').mine path = false := by
  by_contra hmine
  rw [Bool.not_eq_false, Naming.mine, Bool.and_eq_true] at hmine
  have heq := Naming.eq_of_heads (naming dir q load') (naming dir pid load) rfl hmine.1 h
  exact hne (congrArg Naming.process heq)

/-- The copies of a load are mine. -/
theorem mine_of_named (hpid : pid.toNat < 2 ^ 31) {path : Bytes}
    (h : Pictures.Named (naming dir pid load) path) : (naming dir pid load).mine path = true := by
  obtain ⟨i, k, rfl⟩ := h
  exact Naming.mine_path hpid i k

/-- **A load goes on, and the others are as they were.**

**Proof sketch.** The tags are those from before, so what is spared and doomed stays so. The load
itself is given; every other sees the same files of its own, and what it was about to remove stays
doomed. -/
theorem Sound.update (h : Sound dir s) (hload : s.loads pid = some load) {files : List Filed}
    {removed : List (UInt64 × Bytes)} (htag : load'.tag = load.tag)
    (hown : (own dir { s with files := files } pid load').Sound (naming dir pid load'))
    (hothers : ∀ q load, q ≠ pid → s.loads q = some load →
      own dir { s with files := files } q load = own dir s q load)
    (hfiles : ∀ f ∈ files, f ∈ s.files ∨ (naming dir pid load).heads f.path = true)
    (hpending : ∀ path, load'.applying.removing = some path → Doomed dir s pid path)
    (hran : load'.swept = true → ∀ p, s.running p = true → load'.ran p = true)
    (hleft : Left dir files pid load')
    (hremoved : ∀ r ∈ removed, ∃ p, parseCopyName (nameOf dir r.2) = some p ∧ p ≠ r.1) :
    Sound dir { s with
      loads := Function.update s.loads pid (some load'), files := files, removed := removed } := by
  have hmine := h.loads pid load hload
  -- the loads have the tags that they had
  have hspared : ∀ {path}, Spared dir s path → Spared dir { s with
      loads := Function.update s.loads pid (some load'), files := files, removed := removed }
      path := by
    intro path hpath q other hother
    by_cases hq : q = pid
    · subst hq
      obtain rfl : load' = other := by simpa using hother
      have hsame := hpath q load hload
      rwa [naming, ← htag] at hsame
    · exact hpath q other (by simpa [hq] using hother)
  have hdoomed : ∀ {q path}, Doomed dir s q path → Doomed dir { s with
      loads := Function.update s.loads pid (some load'), files := files, removed := removed } q
      path :=
    fun hd => ⟨hd.made, hd.named, hspared hd.spared⟩
  refine ⟨h.pids, h.tags, fun q other hother => ?_, fun f hf => ?_, hremoved⟩
  · by_cases hq : q = pid
    · subst hq
      obtain rfl : load' = other := by simpa using hother
      exact ⟨hmine.running, htag ▸ hmine.tagged, hown,
        fun path hpath => hdoomed (hpending path hpath), hran, hleft⟩
    · have hother : s.loads q = some other := by simpa [hq] using hother
      have hsound := h.loads q other hother
      refine ⟨hsound.running, hsound.tagged, ?_,
        fun path hpath => hdoomed (hsound.pending path hpath), hsound.ran, ?_⟩
      · have hsame := hothers q other hq hother
        show (own dir { s with files := files } q other).Sound _
        rw [hsame]
        exact hsound.own
      · intro hswept hfailed f hf p hp hne hnot
        rcases hfiles f hf with hold | hnew
        · exact hsound.left hswept hfailed f hold p hp hne hnot
        · -- a load that makes a file runs
          obtain rfl : p = pid := parseCopyName_of_heads hnew hp
          rw [hsound.ran hswept p hmine.running] at hnot
          cases hnot
  · intro p hp
    rcases hfiles f hf with hold | hnew
    · exact h.made f hold p hp
    · obtain rfl : p = pid := parseCopyName_of_heads hnew hp
      exact ⟨load.tag, hmine.tagged, hnew⟩

/-- A load goes on, and no file is touched. -/
theorem Sound.put (h : Sound dir s) (hload : s.loads pid = some load) (htag : load'.tag = load.tag)
    (htable : load'.table = load.table) (hcopies : load'.copies = load.copies)
    (hpending : ∀ path, load'.applying.removing = some path → Doomed dir s pid path)
    (hran : load'.swept = true → ∀ p, s.running p = true → load'.ran p = true)
    (hleft : Left dir s.files pid load') : Sound dir (s.put pid load') := by
  refine h.update hload htag ?_ (fun _ _ _ _ => rfl) (fun f hf => .inl hf) hpending hran hleft
    h.removed
  have hown := (h.loads pid load hload).own
  rw [own, naming] at hown ⊢
  rwa [htag, htable, hcopies]

/-- **A load does something to its table**, and its files are its own.

**Proof sketch.** An operation removes and makes files under the load's own names only
(`Pictures.step_edits`), which no other load may own and no sweep may remove. -/
theorem Sound.acted (h : Sound dir s) (hload : s.loads pid = some load) (applying : Applying)
    (hbefore : load.applying.todo = [] ∧ load.applying.removing = none)
    (hafter : applying.todo = [] ∧ applying.removing = none) (a : Pictures.Act) :
    Sound dir (s.acted dir pid { load with applying := applying } a) := by
  have hmine := h.loads pid load hload
  have hpid := (h.pids pid hmine.running).2
  obtain ⟨t, copies, removed, made, hstep, hremoved, hmade⟩ := Pictures.step_edits
    (t := load.table) (fun i => (hmine.own.shown i).named) load.copies a
  have hpaths : ∀ {path}, Pictures.Named (naming dir pid load) path →
      (naming dir pid load).mine path = true := mine_of_named hpid
  have hheads : ∀ {path}, Pictures.Named (naming dir pid load) path →
      (naming dir pid load).heads path = true := by
    intro path hpath
    obtain ⟨i, k, rfl⟩ := hpath
    exact Naming.heads_path _ _ _
  have hacted : Pictures.step (naming dir pid load) (s.seen load) a =
      ⟨t, copies, edit removed made s.files⟩ := hstep s.files
  have hfiles : ∀ f ∈ edit removed made s.files,
      f ∈ s.files ∨ (naming dir pid load).heads f.path = true := by
    intro f hf
    rcases List.mem_append.mp hf with hf | hf
    · exact .inl (List.mem_of_mem_filter hf)
    · exact .inr (hheads (hmade f hf))
  have hwhole : s.acted dir pid { load with applying := applying } a =
      { s with
        loads := Function.update s.loads pid
          (some { load with applying := applying, table := t, copies := copies })
        files := edit removed made s.files
        removed := s.removed } := by
    have hsame : Pictures.step (naming dir pid { load with applying := applying })
        (s.seen { load with applying := applying }) a =
          ⟨t, copies, edit removed made s.files⟩ := hacted
    rw [Directory.acted, hsame]
  rw [hwhole]
  refine h.update hload rfl ?_ (fun q other hne hother => ?_) hfiles (fun path hpath => ?_)
    hmine.ran ?_ h.removed
  · -- what it sees of the directory is what it made
    have hown := hmine.own.step a
    rw [own, hstep] at hown
    have hseen : (edit removed made s.files).filter (fun f => (naming dir pid load).mine f.path) =
        edit removed made (s.files.filter fun f => (naming dir pid load).mine f.path) := by
      rw [filter_edit, List.filter_eq_self.mpr fun f hf => hpaths (hmade f hf)]
    rw [← hseen] at hown
    exact hown
  · have hnot : ∀ {path}, Pictures.Named (naming dir pid load) path →
        (naming dir q other).mine path = false := fun hpath => mine_eq_false hne (hheads hpath)
    rw [own, own, filter_edit_of_not (fun path hpath => hnot (hremoved path hpath))
      fun f hf => hnot (hmade f hf)]
  · rw [hafter.2] at hpath
    cases hpath
  · intro hswept hfailed f hf p hp hne hnot
    rcases hfiles f hf with hold | hnew
    · have hleft := hmine.left hswept hfailed f hold p hp hne hnot
      rw [hbefore.1, hbefore.2] at hleft
      simp at hleft
    · exact absurd (parseCopyName_of_heads hnew hp) hne

/-- The plugin is no longer loaded. -/
theorem Sound.gone (h : Sound dir s) (pid : UInt64) : Sound dir (s.gone pid) := by
  have hbefore : ∀ {q other}, (s.gone pid).loads q = some other → s.loads q = some other := by
    intro q other hother
    by_cases hq : q = pid
    · subst hq
      simp [Directory.gone] at hother
    · simpa [Directory.gone, hq] using hother
  refine ⟨h.pids, h.tags, fun q other hother => ?_, h.made, h.removed⟩
  have hsound := h.loads q other (hbefore hother)
  exact ⟨hsound.running, hsound.tagged, hsound.own, fun path hpath =>
    ⟨(hsound.pending path hpath).made, (hsound.pending path hpath).named,
      fun q other hother => (hsound.pending path hpath).spared q other (hbefore hother)⟩,
    hsound.ran, hsound.left⟩

/-- What the sweep finds to be removed may be. -/
theorem Sound.doomed (h : Sound dir s) {path : Bytes} (hstale : s.stale dir pid path = true) :
    Doomed dir s pid path := by
  obtain ⟨hfile, hname⟩ := Bool.and_eq_true_iff.mp hstale
  obtain ⟨f, hf, hpath⟩ := List.any_eq_true.mp hfile
  obtain rfl := beq_iff_eq.mp hpath
  obtain ⟨p, hp, hother⟩ := (Option.any_eq_true _ _).mp hname
  obtain ⟨hne, hended⟩ := Bool.and_eq_true_iff.mp hother
  refine ⟨h.made f hf, ⟨p, hp, bne_iff_ne.mp hne⟩, fun q other hother => ?_⟩
  by_contra hmine
  rw [Bool.not_eq_false, Naming.mine, Bool.and_eq_true] at hmine
  -- it names a load, whose process runs
  obtain rfl : p = q := parseCopyName_of_heads hmine.1 hp
  rw [processAlive, (h.loads p other hother).running] at hended
  simp at hended

/-- A copy that the sweep does not find to be removed is its own, or of one that ran.

**Proof sketch.** The file's tag is a process id in range, so the process counts as ended when it
does not run, and the sweep asks for no more. -/
theorem Sound.stale_of_not_ran (h : Sound dir s) {f : Filed} (hf : f ∈ s.files) {p : UInt64}
    (hp : parseCopyName (nameOf dir f.path) = some p) (hne : p ≠ pid)
    (hnot : s.running p = false) : s.stale dir pid f.path = true := by
  obtain ⟨tag, htag, -⟩ := h.made f hf p hp
  have hrange : 0 < p.toNat ∧ p.toNat < 2 ^ 31 := h.tags _ htag
  have hended : s.processAlive p = false := by
    have hzero : (p == 0) = false := by
      rw [beq_eq_false_iff_ne, Ne, ← UInt64.toNat_inj]
      exact hrange.1.ne'
    have hlarge : ¬ p > 0x7FFFFFFF := by
      rw [gt_iff_lt, UInt64.lt_iff_toNat_lt, not_lt]
      exact Nat.le_of_lt_succ hrange.2
    simp [processAlive, hzero, hlarge, hnot]
  have hfile : s.files.any (fun g => g.path == f.path) = true :=
    List.any_eq_true.mpr ⟨f, hf, beq_self_eq_true _⟩
  simp [stale, hfile, hp, hne, hended]

/-- `PrepareDirectory`.

**Proof sketch.** A directory that is missing or shared ends `Apply`. In one's own the sweep begins,
with every file there is on its list, unless it was made before. -/
theorem Sound.prepare (h : Sound dir s) (hload : s.loads pid = some load)
    {picture : Wire.PlayerPicture} (hpc : load.applying = .prepare picture) (found : Found) :
    Sound dir (s.put pid (s.prepare load picture found)) := by
  have hmine := h.loads pid load hload
  -- the sweep has begun before, or not, and stands nowhere
  have hstays : ∀ refused applying, Applying.removing applying = none →
      Sound dir (s.put pid { load with refused := refused, applying := applying }) := by
    intro refused applying hnone
    refine h.put hload rfl rfl rfl (fun path hpath => ?_) hmine.ran ?_
    · rw [hnone] at hpath
      cases hpath
    · intro hswept hfailed f hf p hp hne hnot
      have hleft := hmine.left hswept hfailed f hf p hp hne hnot
      rw [hpc] at hleft
      simp [Applying.todo, Applying.removing] at hleft
  unfold Directory.prepare
  split
  · exact hstays load.refused .idle rfl
  · cases found with
    | missing => exact hstays load.refused .idle rfl
    | shared => exact hstays true .idle rfl
    | ours =>
      dsimp only
      split
      · exact hstays load.refused (.copy picture) rfl
      · refine h.put hload rfl rfl rfl (fun path hpath => by cases hpath) (fun _ _ hp => hp) ?_
        intro _ _ f hf p hp hne hnot
        exact .inl (List.mem_map_of_mem hf)

/-- The sweep comes to a path.

**Proof sketch.** The path comes off the list. It is stale, and then about to be removed, for its
process was not running when the sweep looked; or it is kept, and then its process is one that ran.
-/
theorem Sound.check (h : Sound dir s) (hload : s.loads pid = some load)
    {picture : Wire.PlayerPicture} {todo : List Bytes} (hpc : load.applying = .sweep picture todo)
    (path : Bytes) : Sound dir (s.put pid { load with
      applying :=
        if s.stale dir pid path = true then .remove picture (todo.filter (· != path)) path
        else .sweep picture (todo.filter (· != path)) }) := by
  have hmine := h.loads pid load hload
  have hmem : ∀ {f : Filed}, f.path ∈ todo → f.path ≠ path → f.path ∈ todo.filter (· != path) :=
    fun hin hne => List.mem_filter.mpr ⟨hin, bne_iff_ne.mpr hne⟩
  have hleft : ∀ f ∈ s.files, load.swept = true → load.sweepFailed = false → ∀ p,
      parseCopyName (nameOf dir f.path) = some p → p ≠ pid → load.ran p = false →
        f.path ∈ todo ∧ (f.path = path → s.stale dir pid path = true) := by
    intro f hf hswept hfailed p hp hne hnot
    have hin := hmine.left hswept hfailed f hf p hp hne hnot
    rw [hpc] at hin
    refine ⟨hin.resolve_right (by simp [Applying.removing]), fun heq => ?_⟩
    rw [← heq]
    refine h.stale_of_not_ran hf hp hne ?_
    by_contra hrun
    rw [hmine.ran hswept p (by simpa using hrun)] at hnot
    cases hnot
  by_cases hstale : s.stale dir pid path = true
  · rw [if_pos hstale]
    refine h.put hload rfl rfl rfl (fun p hp => ?_) hmine.ran ?_
    · obtain rfl : path = p := Option.some.inj hp
      exact h.doomed hstale
    · intro hswept hfailed f hf p hp hne hnot
      by_cases heq : f.path = path
      · exact .inr (by rw [heq]; rfl)
      · exact .inl (hmem (hleft f hf hswept hfailed p hp hne hnot).1 heq)
  · rw [if_neg hstale]
    refine h.put hload rfl rfl rfl (fun p hp => by cases hp) hmine.ran ?_
    intro hswept hfailed f hf p hp hne hnot
    obtain ⟨hin, himp⟩ := hleft f hf hswept hfailed p hp hne hnot
    exact .inl (hmem hin fun heq => hstale (himp heq))

/-- A path that no load has is no file of one. -/
theorem own_removeFile {path : Bytes} {q : UInt64} {other : Load}
    (h : (naming dir q other).mine path = false) :
    own dir { s with files := removeFile path s.files } q other = own dir s q other := by
  rw [own, own, removeFile_eq_edit, filter_edit_of_not (by simpa using h) (by simp)]

/-- The sweep removes a path.

**Proof sketch.** The path is doomed, so it is no file of any load, and what the other loads see is
unchanged. It is of another process, as its name says. -/
theorem Sound.remove (h : Sound dir s) (hload : s.loads pid = some load)
    {picture : Wire.PlayerPicture} {todo : List Bytes} {path : Bytes}
    (hpc : load.applying = .remove picture todo path) :
    Sound dir { s.put pid { load with applying := .sweep picture todo } with
      files := removeFile path s.files
      removed := s.removed ++ [(pid, path)] } := by
  have hmine := h.loads pid load hload
  have hdoomed : Doomed dir s pid path := hmine.pending path (by rw [hpc]; rfl)
  have hown : ∀ q other, s.loads q = some other →
      own dir { s with files := removeFile path s.files } q other = own dir s q other :=
    fun q other hother => own_removeFile (hdoomed.spared q other hother)
  refine h.update hload rfl ?_ (fun q other _ => hown q other)
    (fun f hf => .inl (mem_removeFile.mp hf).1) (fun p hp => by cases hp) hmine.ran ?_ ?_
  · have hsame := hown pid load hload
    have hsound := hmine.own
    rw [← hsame] at hsound
    exact hsound
  · intro hswept hfailed f hf p hp hne hnot
    obtain ⟨hf, hother⟩ := mem_removeFile.mp hf
    have hleft := hmine.left hswept hfailed f hf p hp hne hnot
    rw [hpc] at hleft
    exact .inl (hleft.resolve_right fun heq => hother (Option.some.inj heq).symm)
  · intro r hr
    rcases List.mem_append.mp hr with hr | hr
    · exact h.removed r hr
    · obtain rfl := List.mem_singleton.mp hr
      exact hdoomed.named

/-- **Whatever a load does next is sound.**

**Proof sketch.** By where the load stands. Between pictures it acts on its table (`Sound.acted`);
within one it prepares the directory, sweeps, removes, and applies the picture, each by its lemma.
-/
theorem Sound.loadStep (h : Sound dir s) (hload : s.loads pid = some load) {a : LoadAct}
    (hs : s.loadStep dir pid load a = some s') : Sound dir s' := by
  have hmine := h.loads pid load hload
  have hidle : Applying.idle.todo = [] ∧ Applying.idle.removing = none := ⟨rfl, rfl⟩
  unfold Directory.loadStep at hs
  split at hs
  case h_1 hpc =>
    obtain rfl := Option.some.inj hs
    have hacted := h.acted hload .idle (by rw [hpc]; exact hidle) hidle .clear
    rw [← hpc] at hacted
    exact hacted.gone pid
  case h_2 players hpc =>
    obtain rfl := Option.some.inj hs
    have hacted := h.acted hload .idle (by rw [hpc]; exact hidle) hidle
      (.players players)
    rwa [← hpc] at hacted
  case h_3 hpc =>
    obtain rfl := Option.some.inj hs
    have hacted := h.acted hload .idle (by rw [hpc]; exact hidle) hidle .clear
    rwa [← hpc] at hacted
  case h_4 picture disk hpc =>
    obtain rfl := Option.some.inj hs
    refine h.acted hload _ (by rw [hpc]; exact hidle) ?_ _
    split <;> exact ⟨rfl, rfl⟩
  case h_5 picture found hpc =>
    obtain rfl := Option.some.inj hs
    exact h.prepare hload hpc found
  case h_6 picture todo path hpc =>
    obtain rfl := Option.some.inj hs
    exact h.check hload hpc path
  case h_7 picture todo path removed hpc =>
    split at hs
    · obtain rfl := Option.some.inj hs
      exact h.remove hload hpc
    · obtain rfl := Option.some.inj hs
      refine h.put hload rfl rfl rfl (fun p hp => by cases hp) hmine.ran ?_
      intro _ hfailed
      cases hfailed
  case h_8 picture todo failed hpc =>
    obtain ⟨hend, hs⟩ := Option.ite_none_right_eq_some.mp hs
    obtain rfl := Option.some.inj hs
    refine h.put hload rfl rfl rfl (fun p hp => by cases hp) hmine.ran ?_
    intro hswept hfailed f hf p hp hne hnot
    obtain ⟨hfailed, hdone⟩ := Bool.or_eq_false_iff.mp hfailed
    have hleft := hmine.left hswept hfailed f hf p hp hne hnot
    rw [hpc, hend.resolve_left (by simp [hdone])] at hleft
    simp [Applying.todo, Applying.removing] at hleft
  case h_9 picture disk hpc =>
    obtain rfl := Option.some.inj hs
    exact h.acted hload .idle (by rw [hpc]; exact ⟨rfl, rfl⟩) hidle _
  case h_10 => cases hs

/-- A process begins.

**Proof sketch.** The process is new, so no file and no load is its own. Each load notes that it
ran, which keeps its files out of later sweeps. -/
theorem Sound.spawn (h : Sound dir s) (hrange : 0 < pid.toNat ∧ pid.toNat < 2 ^ 31) :
    Sound dir { s with
      running := Function.update s.running pid true
      loads := fun q => (s.loads q).map fun load => load.runs pid } := by
  refine ⟨fun p hp => ?_, h.tags, fun q other hother => ?_, h.made, h.removed⟩
  · by_cases hpid : p = pid
    · exact hpid ▸ hrange
    · exact h.pids p (by simpa [hpid] using hp)
  · obtain ⟨before, hbefore, rfl⟩ := Option.map_eq_some_iff.mp hother
    have hsound := h.loads q before hbefore
    refine ⟨?_, hsound.tagged, hsound.own, fun path hpath => ?_, fun hswept p hp => ?_, ?_⟩
    · by_cases hq : q = pid
      · simp [hq]
      · simpa [hq] using hsound.running
    · obtain ⟨hmade, hnamed, hspared⟩ := hsound.pending path hpath
      refine ⟨hmade, hnamed, fun r later hlater => ?_⟩
      obtain ⟨earlier, hearlier, rfl⟩ := Option.map_eq_some_iff.mp hlater
      exact hspared r earlier hearlier
    · show Function.update before.ran pid true p = true
      by_cases hpid : p = pid
      · simp [hpid]
      · rw [Function.update_of_ne hpid]
        exact hsound.ran hswept p (by simpa [hpid] using hp)
    · intro hswept hfailed f hf p hp hne hnot
      have hpid : p ≠ pid := by
        rintro rfl
        simp [Load.runs] at hnot
      exact hsound.left hswept hfailed f hf p hp hne (by simpa [Load.runs, hpid] using hnot)

/-- A process ends, wherever it stands: its files stay. -/
theorem Sound.exit (h : Sound dir s) (pid : UInt64) :
    Sound dir { s.gone pid with running := Function.update s.running pid false } := by
  have hgone := h.gone pid
  have hrun : ∀ p, Function.update s.running pid false p = true → s.running p = true := by
    intro p hp
    by_cases hpid : p = pid
    · simp [hpid] at hp
    · simpa [hpid] using hp
  refine ⟨fun p hp => h.pids p (hrun p hp), h.tags, fun q other hother => ?_, h.made, h.removed⟩
  have hq : q ≠ pid := by
    rintro rfl
    simp [Directory.gone] at hother
  have hsound := hgone.loads q other hother
  refine ⟨?_, hsound.tagged, hsound.own, fun path hpath => ?_,
    fun hswept p hp => hsound.ran hswept p (hrun p hp), hsound.left⟩
  · show Function.update s.running pid false q = true
    rw [Function.update_of_ne hq]
    exact hsound.running
  · exact ⟨(hsound.pending path hpath).made, (hsound.pending path hpath).named,
      (hsound.pending path hpath).spared⟩

/-- A path that a load made, whose tag is another, is not of a load with the tag. -/
theorem Made.mine_eq_false {path : Bytes} (h : Made dir s path) {tag : UInt64}
    (htag : load.tag = tag) (hnew : (pid, tag) ∉ s.tags) :
    (naming dir pid load).mine path = false := by
  by_contra hmine
  rw [Bool.not_eq_false, Naming.mine, Bool.and_eq_true, beq_iff_eq] at hmine
  obtain ⟨tag', hin, hheads⟩ := h pid hmine.2
  have heq := Naming.eq_of_heads (naming dir pid load) ⟨pid, tag', dir⟩ rfl hmine.1 hheads
  have htags : load.tag = tag' := congrArg Naming.tag heq
  rw [← htags, htag] at hin
  exact hnew hin

/-- A process loads the plugin, under a tag that is new.

**Proof sketch.** The tag is new, so no file bears it and the load owns none. The others keep what
they had, under the tags they have. -/
theorem Sound.loaded (h : Sound dir s) (hrun : s.running pid = true) (hnone : s.loads pid = none)
    {tag : UInt64} (hnew : (pid, tag) ∉ s.tags) :
    Sound dir { s.put pid { tag := tag } with tags := s.tags ++ [(pid, tag)] } := by
  have hin : ∀ t ∈ s.tags, t ∈ s.tags ++ [(pid, tag)] := fun t ht => List.mem_append_left _ ht
  have hmade : ∀ {path}, Made dir s path →
      Made dir { s.put pid { tag := tag } with tags := s.tags ++ [(pid, tag)] } path := by
    intro path hpath p hp
    obtain ⟨tag', htag, hheads⟩ := hpath p hp
    exact ⟨tag', hin _ htag, hheads⟩
  have hloads : ∀ {q other}, q ≠ pid → Function.update s.loads pid (some { tag := tag }) q =
      some other → s.loads q = some other := by
    intro q other hq hother
    rwa [Function.update_of_ne hq] at hother
  refine ⟨h.pids, fun t ht => ?_, fun q other hother => ?_, fun f hf => hmade (h.made f hf),
    h.removed⟩
  · rcases List.mem_append.mp ht with ht | ht
    · exact h.tags t ht
    · obtain rfl := List.mem_singleton.mp ht
      exact h.pids pid hrun
  · by_cases hq : q = pid
    · subst hq
      obtain rfl : ({ tag := tag } : Load) = other := by simpa [Directory.put] using hother
      have hempty : s.files.filter (fun f => (naming dir q { tag := tag }).mine f.path) = [] := by
        rw [List.filter_eq_nil_iff]
        intro f hf
        rw [(h.made f hf).mine_eq_false rfl hnew]
        exact Bool.false_ne_true
      refine ⟨hrun, List.mem_append_right _ (List.mem_singleton_self _), ?_,
        (fun path hpath => by cases hpath), (fun hswept => by cases hswept),
        (fun hswept => by cases hswept)⟩
      show Pictures.Sound _ ⟨{}, 0, s.files.filter fun f =>
        (naming dir q { tag := tag }).mine f.path⟩
      rw [hempty]
      exact Pictures.sound_empty _
    · have hsound := h.loads q other (hloads hq hother)
      refine ⟨hsound.running, hin _ hsound.tagged, hsound.own, fun path hpath => ?_, hsound.ran,
        hsound.left⟩
      obtain ⟨hpmade, hpnamed, hpspared⟩ := hsound.pending path hpath
      refine ⟨hmade hpmade, hpnamed, fun r later hlater => ?_⟩
      by_cases hr : r = pid
      · subst hr
        obtain rfl : ({ tag := tag } : Load) = later := by simpa [Directory.put] using hlater
        exact hpmade.mine_eq_false rfl hnew
      · exact hpspared r later (hloads hr hlater)

/-- What other programs do to files without copies' names is nothing to the loads.

**Proof sketch.** A name that is no copy's is in no load's naming, so each load sees the same files
of its own, and no sweep counts it. -/
theorem Sound.others (h : Sound dir s) {path : Bytes} {made : List Filed}
    (hpath : parseCopyName (nameOf dir path) = none) (hmade : ∀ f ∈ made, f.path = path) :
    Sound dir { s with files := edit [path] made s.files } := by
  have hold : ∀ f ∈ edit [path] made s.files, ∀ p,
      parseCopyName (nameOf dir f.path) = some p → f ∈ s.files := by
    intro f hf p hp
    rcases List.mem_append.mp hf with hf | hf
    · exact List.mem_of_mem_filter hf
    · rw [hmade f hf, hpath] at hp
      cases hp
  refine ⟨h.pids, h.tags, fun q other hother => ?_, fun f hf p hp => h.made f (hold f hf p hp) p hp,
    h.removed⟩
  have hsound := h.loads q other hother
  refine ⟨hsound.running, hsound.tagged, ?_, fun path hpath => ?_, hsound.ran, ?_⟩
  · have hnot : (naming dir q other).mine path = false := by
      have hname : parseCopyName ((naming dir q other).nameOf path) = none := hpath
      rw [Naming.mine, hname]
      simp
    have hsame : (edit [path] made s.files).filter (fun f => (naming dir q other).mine f.path) =
        s.files.filter fun f => (naming dir q other).mine f.path :=
      filter_edit_of_not (by simpa using hnot) (fun f hf => by rw [hmade f hf, hnot]) s.files
    have hown := hsound.own
    rw [own, ← hsame] at hown
    exact hown
  · obtain ⟨hpmade, hpnamed, hpspared⟩ := hsound.pending path hpath
    exact ⟨hpmade, hpnamed, hpspared⟩
  · intro hswept hfailed f hf p hp
    exact hsound.left hswept hfailed f (hold f hf p hp) p hp

/-- **Every step keeps the directory sound.**

**Proof sketch.** By the step, each by its own lemma. -/
theorem Sound.step (h : Sound dir s) {a : Act} (htidy : Tidy dir s a)
    (hs : step dir s a = some s') : Sound dir s' := by
  cases a with
  | spawn pid =>
    obtain ⟨⟨-, hrange⟩, hs⟩ := Option.ite_none_right_eq_some.mp hs
    obtain rfl := Option.some.inj hs
    exact h.spawn hrange
  | exit pid =>
    obtain rfl := Option.some.inj hs
    exact h.exit pid
  | load pid tag =>
    obtain ⟨⟨hrun, hnone⟩, hs⟩ := Option.ite_none_right_eq_some.mp hs
    obtain rfl := Option.some.inj hs
    exact h.loaded hrun (Option.isNone_iff_eq_none.mp hnone) htidy
  | act pid a =>
    obtain ⟨load, hload, hs⟩ := Option.bind_eq_some_iff.mp hs
    exact h.loadStep hload hs
  | other name =>
    obtain rfl := Option.some.inj hs
    have hname : parseCopyName (nameOf dir (dir ++ name)) = none := by
      rw [nameOf, List.drop_left]
      exact htidy
    show Sound dir { s with files := makeFile ⟨dir ++ name, []⟩ s.files }
    rw [makeFile_eq_edit]
    exact h.others hname (by simp)
  | otherGone path =>
    obtain rfl := Option.some.inj hs
    show Sound dir { s with files := removeFile path s.files }
    rw [removeFile_eq_edit]
    exact h.others htidy (by simp)

/-! ## The runs -/

/-- There is nothing before the first process. -/
theorem sound_empty (dir : Bytes) : Sound dir {} := by
  refine ⟨fun p hp => ?_, by simp, fun q other hother => ?_, by simp, by simp⟩
  · cases hp
  · cases hother

/-- Player 1 is claimed. -/
def claimed : Wire.Players := { slots := [{ player := 1, playerId := [1] }] }

end Directory

end Worker
