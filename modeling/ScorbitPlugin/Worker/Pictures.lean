import Mathlib.Data.UInt
import Mathlib.Tactic.Common
import ScorbitPlugin.Runs.System
import ScorbitPlugin.Worker.Players

set_option relaxedAutoImplicit false
set_option autoImplicit false

/-!
# The picture files

The files that `PlayerTable` of `src/ReadBack.cpp` makes and deletes: `DropPicture`, both `Apply`s
and `Clear` with what they do to the picture directory. The table of `Worker.PlayerTable` is the
same; here the names of the copies are those of `snprintf`, and the files are kept.

## Main definitions

* `Worker.Naming` — what the names of the copies are made of.
* `Worker.Pictures` — the table, the copies counted and the files that are there.
* `Worker.Pictures.apply`, `Worker.Pictures.applyPicture`, `Worker.Pictures.clear`.
* `Worker.Pictures.system` — any of them, with any answers of the file system.
* `Worker.Follows` — the files are those of the slots.

## Main results

* `Worker.files_follow` — so they are after every operation.
-/

namespace Worker

open Codec

/-! ## The names of the copies -/

/-- `%lu`, `%u` and `%llu`. -/
def decimal (n : ℕ) : Bytes := (Nat.toDigits 10 n).map fun c => UInt8.ofNat c.toNat

/-- `%016llx`. -/
def hex16 (n : UInt64) : Bytes :=
  let digits := (Nat.toDigits 16 n.toNat).map fun c => UInt8.ofNat c.toNat
  List.replicate (16 - digits.length) 48 ++ digits

/-- `ThisProcess()`, `m_tag`, and `m_dir` with what separates it from a name. -/
structure Naming where
  process : UInt64
  tag : UInt64
  dir : Bytes
deriving DecidableEq, Repr

/-- The name before the player. -/
def Naming.head (n : Naming) : Bytes := decimal n.process.toNat ++ [45] ++ hex16 n.tag ++ [45]

/-- `name`, of 64 bytes with its end: `"%lu-%016llx-%u-%llu.jpg"`. -/
def Naming.name (n : Naming) (player : ℕ) (copies : UInt64) : Bytes :=
  (n.head ++ decimal player ++ [45] ++ decimal copies.toNat ++ [46, 106, 112, 103]).take 63

/-- `m_dir / name`. -/
def Naming.path (n : Naming) (player : ℕ) (copies : UInt64) : Bytes := n.dir ++ n.name player copies

/-- What is before the player is short of the buffer. -/
theorem Naming.length_head_le (n : Naming) : n.head.length ≤ 38 := by
  have hprocess : (decimal n.process.toNat).length ≤ 20 := by
    rw [decimal, List.length_map, Nat.length_toDigits_le_iff (by decide) (by decide)]
    have hlt := n.process.toNat_lt
    omega
  have htag : (hex16 n.tag).length ≤ 16 := by
    have hdigits : (Nat.toDigits 16 n.tag.toNat).length ≤ 16 := by
      rw [Nat.length_toDigits_le_iff (by decide) (by decide)]
      exact n.tag.toNat_lt
    simp only [hex16, List.length_append, List.length_replicate, List.length_map]
    omega
  simp only [head, List.length_append, List.length_singleton]
  omega

/-- The digit of a player. -/
theorem decimal_player (i : Fin 9) : decimal (i.val + 1) = [UInt8.ofNat (49 + i.val)] := by
  revert i
  decide

/-- The player stands in the name. -/
theorem Naming.getElem?_name (n : Naming) (i : Fin 9) (copies : UInt64) :
    (n.name (i.val + 1) copies)[n.head.length]? = some (UInt8.ofNat (49 + i.val)) := by
  have hhead := n.length_head_le
  rw [name, List.getElem?_take_of_lt (by omega), decimal_player]
  simp only [List.append_assoc]
  rw [List.getElem?_append_right le_rfl, Nat.sub_self]
  rfl

/-- **The copies of two players have different names**, whatever their numbers. -/
theorem Naming.path_inj {n : Naming} {i j : Fin 9} {k l : UInt64}
    (h : n.path (i.val + 1) k = n.path (j.val + 1) l) : i = j := by
  have hname : n.name (i.val + 1) k = n.name (j.val + 1) l := List.append_cancel_left h
  have hdigit : UInt8.ofNat (49 + i.val) = UInt8.ofNat (49 + j.val) := by
    apply Option.some.inj
    rw [← n.getElem?_name i k, ← n.getElem?_name j l, hname]
  have hvalue := congrArg UInt8.toNat hdigit
  rw [UInt8.toNat_ofNat', UInt8.toNat_ofNat'] at hvalue
  apply Fin.ext
  omega

/-- A copy has a name. -/
theorem Naming.path_ne_nil (n : Naming) (i : Fin 9) (k : UInt64) : n.path (i.val + 1) k ≠ [] := by
  intro hnil
  have hname : n.name (i.val + 1) k = [] := (List.append_eq_nil_iff.mp hnil).2
  have hdigit := n.getElem?_name i k
  rw [hname] at hdigit
  cases hdigit

/-! ## The files -/

/-- A file that the table made, and the player id that its picture was accepted for. -/
structure Filed where
  path : Bytes
  playerId : Bytes
deriving DecidableEq, Repr

/-- `fs::remove`. -/
def removeFile (path : Bytes) (files : List Filed) : List Filed :=
  files.filter fun f => f.path != path

/-- `fs::copy_file`, which overwrites. -/
def makeFile (f : Filed) (files : List Filed) : List Filed := removeFile f.path files ++ [f]

/-- What `DropPicture` removes. -/
def Slot.removeCopy (s : Slot) (files : List Filed) : List Filed :=
  if s.copy.isEmpty then files else removeFile s.copy files

/-- The other files stay. -/
theorem mem_removeFile {path : Bytes} {files : List Filed} {f : Filed} :
    f ∈ removeFile path files ↔ f ∈ files ∧ f.path ≠ path := by
  simp [removeFile]

/-- Only the slot's own copy goes. -/
theorem mem_removeCopy {s : Slot} {files : List Filed} {f : Filed} :
    f ∈ s.removeCopy files ↔ f ∈ files ∧ (s.copy = [] ∨ f.path ≠ s.copy) := by
  unfold Slot.removeCopy
  split
  · rename_i hempty
    have hnil : s.copy = [] := List.isEmpty_iff.mp hempty
    simp [hnil]
  · rename_i hcopy
    have hne : s.copy ≠ [] := fun hnil => hcopy (List.isEmpty_iff.mpr hnil)
    rw [mem_removeFile]
    simp [hne]

/-- No file comes by it. -/
theorem sublist_removeCopy (s : Slot) (files : List Filed) :
    (s.removeCopy files).Sublist files := by
  unfold Slot.removeCopy
  split
  · exact List.Sublist.refl _
  · exact List.filter_sublist

/-- An empty view, or someone else's, supersedes the picture of a slot. -/
def Slot.superseded (s : Slot) (next : PlayerView) : Bool :=
  !next.claimed || next.playerId != s.view.playerId

/-- The pictures of some slots are dropped, in turn. -/
def dropCopies (slots : Fin 9 → Slot) (drops : Fin 9 → Bool) (files : List Filed) : List Filed :=
  (List.finRange 9).foldl
    (fun files i => if drops i = true then (slots i).removeCopy files else files) files

/-- What is left is in none of the slots whose pictures are dropped.

**Proof sketch.** By induction on the slots: dropping one keeps a file unless it is the slot's copy.
-/
theorem mem_dropCopies {slots : Fin 9 → Slot} {drops : Fin 9 → Bool} {files : List Filed}
    {f : Filed} : f ∈ dropCopies slots drops files ↔
      f ∈ files ∧ ∀ i, drops i = true → (slots i).copy = [] ∨ f.path ≠ (slots i).copy := by
  have hfold : ∀ (is : List (Fin 9)) (files : List Filed),
      f ∈ is.foldl (fun files i => if drops i = true then (slots i).removeCopy files else files)
          files ↔
        f ∈ files ∧ ∀ i ∈ is, drops i = true → (slots i).copy = [] ∨ f.path ≠ (slots i).copy := by
    intro is
    induction is with
    | nil => simp
    | cons i is ih =>
      intro files
      rw [List.foldl_cons, ih, List.forall_mem_cons, ← and_assoc]
      refine and_congr_left fun _ => ?_
      cases hdrop : drops i with
      | true => simp [mem_removeCopy]
      | false => simp
  rw [dropCopies, hfold]
  simp

/-- Nor when the copies of several slots go. -/
theorem sublist_dropCopies (slots : Fin 9 → Slot) (drops : Fin 9 → Bool) (files : List Filed) :
    (dropCopies slots drops files).Sublist files := by
  unfold dropCopies
  generalize List.finRange 9 = is
  induction is generalizing files with
  | nil => exact List.Sublist.refl _
  | cons i is ih =>
    rw [List.foldl_cons]
    refine (ih _).trans ?_
    split
    · exact sublist_removeCopy _ _
    · exact List.Sublist.refl _

/-! ## The operations -/

/-- The table, `m_copies`, and the files that the table made and did not delete. -/
structure Pictures where
  table : PlayerTable := {}
  copies : UInt64 := 0
  files : List Filed := []
deriving DecidableEq

namespace Pictures

variable (s : Pictures)

/-- `Apply` a Players. -/
def apply (players : Wire.Players) : Bool × Pictures :=
  let (changed, table) := s.table.apply players
  let drops : Fin 9 → Bool := fun i =>
    (s.table.slots i).superseded (PlayerTable.nextView players i)
  (changed, { s with table := table, files := dropCopies s.table.slots drops s.files })

/-- The copy is named: the directory and the daemon's file passed their checks. -/
def named (disk : PictureFiles) : Bool :=
  disk.prepared && disk.regular && disk.size.any (· ≤ maxPictureBytes)

/-- The files without the picture of a player's slot. -/
def drop (player : UInt8) : List Filed :=
  if h : 1 ≤ player.toNat ∧ player.toNat ≤ 9 then
    (s.table.slots ⟨player.toNat - 1, by omega⟩).removeCopy s.files
  else s.files

/-- `Apply` a PlayerPicture. -/
def applyPicture (n : Naming) (picture : Wire.PlayerPicture) (disk : PictureFiles) :
    PictureOutcome × Pictures :=
  let path := n.path picture.player.toNat (s.copies + 1)
  let (outcome, table) := s.table.applyPicture picture { disk with copy := path }
  (outcome,
    match outcome with
    | .ignored | .unchanged => s
    | .removed => { s with table := table, files := s.drop picture.player }
    | .failed =>
      -- a copy that fails is removed, if it was named
      if named disk = true then
        { table := table
          copies := s.copies + 1
          files := removeFile path (s.drop picture.player) }
      else { s with table := table, files := s.drop picture.player }
    | .stored =>
      { table := table
        copies := s.copies + 1
        files := makeFile ⟨path, picture.playerId⟩ (s.drop picture.player) })

/-- `Clear`. -/
def clear : Bool × Pictures :=
  let (held, table) := s.table.clear
  (held, { s with table := table, files := dropCopies s.table.slots (fun _ => true) s.files })

/-- An operation of the table. -/
inductive Act
  | players (players : Wire.Players)
  | picture (picture : Wire.PlayerPicture) (disk : PictureFiles)
  | clear

/-- The step function. -/
def step (n : Naming) (s : Pictures) : Act → Pictures
  | .players players => (s.apply players).2
  | .picture picture disk => (s.applyPicture n picture disk).2
  | .clear => s.clear.2

/-- A table in use. -/
def system (n : Naming) : Runs.System Pictures Act :=
  .ofStep (· = {}) fun s a => some (step n s a)

end Pictures

/-! ## What the table does to a slot -/

namespace PlayerTable

variable {t : PlayerTable}

/-- A slot that is set is as it was set. -/
@[simp] theorem slots_set_self (t : PlayerTable) (i : Fin 9) (slot : Slot) :
    (t.set i slot).slots i = slot :=
  Function.update_self _ _ _

/-- The other slots stay. -/
theorem slots_set_of_ne (t : PlayerTable) {i j : Fin 9} (slot : Slot) (hne : j ≠ i) :
    (t.set i slot).slots j = t.slots j :=
  Function.update_of_ne hne _ _

/-- **A slot reports a change exactly when it shows something else.**

**Proof sketch.** If it shows the same, the player is the same; then the picture is kept, or dropped
from a slot without a claim, which had none. -/
theorem applySlot_eq_false_iff (slot : Slot) (next : PlayerView) :
    (applySlot slot next).1 = false ↔ (applySlot slot next).2.view = slot.view := by
  refine ⟨fun h => (applySlot_unchanged h).1, fun h => ?_⟩
  have hid : (applySlot slot next).2.view.playerId = slot.view.playerId := by rw [h]
  have hid : next.playerId = slot.view.playerId := hid
  have hkept : (slot.kept next).view = slot.view := by
    unfold Slot.kept
    split
    · rename_i hdrop
      -- the claim is the slot's own, so it is none
      have hclaimed : slot.view.claimed = false := by
        have hnext : next.claimed = false := by simpa [hid] using hdrop
        simpa [PlayerView.claimed, hid] using hnext
      simp [Slot.dropPicture, ← (slot.owned hclaimed).1]
    · rfl
  have hview : { next with picture := (slot.kept next).view.picture } = (slot.kept next).view :=
    h.trans hkept.symm
  simp only [applySlot, hview, bne_self_eq_false]

/-- **A Players is reported to change the table exactly when it shows something else.** -/
theorem apply_iff (t : PlayerTable) (players : Wire.Players) :
    (t.apply players).1 = true ↔ (t.apply players).2.views ≠ t.views := by
  have hany : (t.apply players).1 = true ↔
      ∃ i, (applySlot (t.slots i) (nextView players i)).1 = true := by
    simp [apply]
  rw [hany, Ne, funext_iff, not_forall]
  refine exists_congr fun i => ?_
  rw [← Bool.not_eq_false, applySlot_eq_false_iff]
  rfl

/-- What a PlayerPicture does: nothing; or it drops the picture of a slot that its player holds; or
it replaces that.

**Proof sketch.** By the branches of `Apply`, in the order of the source. -/
theorem applyPicture_cases (t : PlayerTable) (picture : Wire.PlayerPicture) (files : PictureFiles) :
    (((t.applyPicture picture files).1 = .ignored ∨ (t.applyPicture picture files).1 = .unchanged) ∧
        (t.applyPicture picture files).2 = t) ∨
      ∃ i : Fin 9, picture.player.toNat = i.val + 1 ∧
        picture.playerId = (t.slots i).view.playerId ∧
        ((((t.applyPicture picture files).1 = .removed ∨
            (t.applyPicture picture files).1 = .failed) ∧
            (t.applyPicture picture files).2 = t.set i (t.slots i).dropPicture) ∨
          (t.applyPicture picture files).1 = .stored ∧ picture.path ≠ [] ∧ ∃ slot : Slot,
            slot.view = { (t.slots i).view with picture := files.copy } ∧
            slot.source = picture.path ∧ slot.copy = files.copy ∧
            (t.applyPicture picture files).2 = t.set i slot) := by
  unfold applyPicture
  split
  · rename_i hplayer
    dsimp only
    split
    · rename_i hc
      unfold applySlotPicture
      dsimp only
      split
      · split
        · exact .inl ⟨.inr rfl, rfl⟩
        · exact .inr ⟨⟨picture.player.toNat - 1, by omega⟩, by dsimp only; omega, hc.2,
            .inl ⟨.inl rfl, rfl⟩⟩
      · rename_i hpath
        have hne : picture.path ≠ [] := fun hnil => hpath (List.isEmpty_iff.mpr hnil)
        split
        · exact .inl ⟨.inr rfl, rfl⟩
        · refine .inr ⟨⟨picture.player.toNat - 1, by omega⟩, by dsimp only; omega, hc.2, ?_⟩
          split
          · exact .inl ⟨.inr rfl, rfl⟩
          · exact .inr ⟨rfl, hne, _, rfl, rfl, rfl, rfl⟩
    · exact .inl ⟨.inl rfl, rfl⟩
  · exact .inl ⟨.inl rfl, rfl⟩

end PlayerTable

/-! ## The invariant -/

namespace Pictures

/-- A slot shows no picture, and has none. -/
structure Bare (slot : Slot) : Prop where
  picture : slot.view.picture = []
  source : slot.source = []
  copy : slot.copy = []

/-- A slot whose picture is dropped has none. -/
theorem bare_dropPicture (slot : Slot) : Bare slot.dropPicture := ⟨rfl, rfl, rfl⟩

/-- The picture of a slot is that of another, whose player is the same. -/
structure Keeps (slot slot' : Slot) : Prop where
  playerId : slot'.view.playerId = slot.view.playerId
  picture : slot'.view.picture = slot.view.picture
  source : slot'.source = slot.source
  copy : slot'.copy = slot.copy

/-- A copy and a view's picture are the same file, which came from some path, and the name of a copy
is its player's. -/
structure Shown (n : Naming) (i : Fin 9) (slot : Slot) : Prop where
  picture : slot.view.picture = slot.copy
  source : slot.copy = [] ↔ slot.source = []
  named : slot.copy = [] ∨ ∃ k, slot.copy = n.path (i.val + 1) k

/-- The files are the copies of the slots, each accepted for the player that holds it. -/
structure Sound (n : Naming) (s : Pictures) : Prop where
  shown : ∀ i, Shown n i (s.table.slots i)
  nodup : (s.files.map Filed.path).Nodup
  held : ∀ f ∈ s.files, ∃ i, (s.table.slots i).copy = f.path ∧ f.path ≠ [] ∧
    f.playerId = (s.table.slots i).view.playerId
  kept : ∀ i, (s.table.slots i).copy ≠ [] → ∃ f ∈ s.files, f.path = (s.table.slots i).copy

variable {n : Naming} {s s' : Pictures}

/-- A slot without a picture shows none. -/
theorem Shown.of_bare {i : Fin 9} {slot : Slot} (h : Bare slot) : Shown n i slot :=
  ⟨h.picture.trans h.copy.symm, by rw [h.copy, h.source], .inl h.copy⟩

/-- A slot that keeps its picture shows it still. -/
theorem Shown.of_keeps {i : Fin 9} {slot slot' : Slot} (h : Shown n i slot)
    (hk : Keeps slot slot') : Shown n i slot' := by
  refine ⟨?_, ?_, ?_⟩
  · rw [hk.picture, hk.copy]
    exact h.picture
  · rw [hk.copy, hk.source]
    exact h.source
  · rw [hk.copy]
    exact h.named

/-- Two slots have no copy in common. -/
theorem Sound.copy_inj (h : Sound n s) {i j : Fin 9}
    (heq : (s.table.slots i).copy = (s.table.slots j).copy) (hne : (s.table.slots i).copy ≠ []) :
    i = j := by
  obtain ⟨k, hi⟩ := (h.shown i).named.resolve_left hne
  obtain ⟨l, hj⟩ := (h.shown j).named.resolve_left (heq ▸ hne)
  exact Naming.path_inj (hi.symm.trans (heq.trans hj))

/-- **Some slots are bared, and their files removed; the others keep theirs.**

**Proof sketch.** A slot that is bared shows nothing. One that is kept keeps its copy, which is no
bared slot's, for two slots have no copy in common; so its file is left. -/
theorem Sound.of_drops (h : Sound n s) (drops : Fin 9 → Bool)
    (hbare : ∀ i, drops i = true → Bare (s'.table.slots i))
    (hkeeps : ∀ i, drops i = false → Keeps (s.table.slots i) (s'.table.slots i))
    (hsub : s'.files.Sublist s.files)
    (hmem : ∀ f, f ∈ s'.files ↔ f ∈ s.files ∧
      ∀ i, drops i = true → (s.table.slots i).copy = [] ∨ f.path ≠ (s.table.slots i).copy) :
    Sound n s' := by
  refine ⟨fun i => ?_, (hsub.map _).nodup h.nodup, fun f hf => ?_, fun i hne => ?_⟩
  · cases hdrop : drops i with
    | true => exact .of_bare (hbare i hdrop)
    | false => exact (h.shown i).of_keeps (hkeeps i hdrop)
  · obtain ⟨hin, hleft⟩ := (hmem f).mp hf
    obtain ⟨i, hcopy, hne, hid⟩ := h.held f hin
    cases hdrop : drops i with
    | true =>
      rcases hleft i hdrop with hnil | hother
      · exact absurd (hcopy.symm.trans hnil) hne
      · exact absurd hcopy.symm hother
    | false =>
      have hslot := hkeeps i hdrop
      exact ⟨i, hslot.copy.trans hcopy, hne, hid.trans hslot.playerId.symm⟩
  · cases hdrop : drops i with
    | true => exact absurd (hbare i hdrop).copy hne
    | false =>
      rw [(hkeeps i hdrop).copy] at hne ⊢
      obtain ⟨f, hf, hpath⟩ := h.kept i hne
      refine ⟨f, (hmem f).mpr ⟨hf, fun j hj => ?_⟩, hpath⟩
      by_contra hboth
      rw [not_or, not_not] at hboth
      obtain rfl := h.copy_inj (hpath.symm.trans hboth.2) hne
      rw [hdrop] at hj
      cases hj

/-- The pictures that a Players supersedes are dropped.

**Proof sketch.** A slot whose player or picture the Players replace is bared; one they keep has its
view with the picture it had. -/
theorem Sound.apply (h : Sound n s) (players : Wire.Players) : Sound n (s.apply players).2 := by
  let drops : Fin 9 → Bool := fun i =>
    (s.table.slots i).superseded (PlayerTable.nextView players i)
  have hfiles : (s.apply players).2.files = dropCopies s.table.slots drops s.files := rfl
  have hslot : ∀ i, (s.apply players).2.table.slots i =
      (PlayerTable.applySlot (s.table.slots i) (PlayerTable.nextView players i)).2 :=
    fun i => rfl
  have hkept : ∀ i, (s.table.slots i).kept (PlayerTable.nextView players i) =
      if drops i = true then (s.table.slots i).dropPicture else s.table.slots i :=
    fun i => rfl
  refine h.of_drops drops (fun i hdrop => ?_) (fun i hdrop => ?_)
    (hfiles ▸ sublist_dropCopies s.table.slots drops s.files) fun f => hfiles ▸ mem_dropCopies
  · have hdropped := hkept i
    rw [if_pos hdrop] at hdropped
    rw [hslot]
    refine ⟨?_, ?_, ?_⟩ <;> simp [PlayerTable.applySlot, hdropped, Slot.dropPicture]
  · have hsame := hkept i
    rw [hdrop, if_neg Bool.false_ne_true] at hsame
    have hid : (PlayerTable.nextView players i).playerId = (s.table.slots i).view.playerId := by
      have hnot : (s.table.slots i).superseded (PlayerTable.nextView players i) = false := hdrop
      simp only [Slot.superseded, Bool.or_eq_false_iff, bne_eq_false_iff_eq] at hnot
      exact hnot.2
    rw [hslot]
    refine ⟨hid, ?_, ?_, ?_⟩ <;> simp [PlayerTable.applySlot, hsame]

/-- All pictures are dropped. -/
theorem Sound.clear (h : Sound n s) : Sound n s.clear.2 := by
  let drops : Fin 9 → Bool := fun _ => true
  have hfiles : s.clear.2.files = dropCopies s.table.slots drops s.files := rfl
  exact h.of_drops drops (fun _ _ => ⟨rfl, rfl, rfl⟩) (fun _ hdrop => by cases hdrop)
    (hfiles ▸ sublist_dropCopies s.table.slots drops s.files) fun _ => hfiles ▸ mem_dropCopies

/-- The slot of a player. -/
theorem drop_eq (s : Pictures) {player : UInt8} {i : Fin 9} (hi : player.toNat = i.val + 1) :
    s.drop player = (s.table.slots i).removeCopy s.files := by
  have hrange : 1 ≤ player.toNat ∧ player.toNat ≤ 9 := by omega
  have hindex : (⟨player.toNat - 1, by omega⟩ : Fin 9) = i := by
    apply Fin.ext
    dsimp only
    omega
  rw [drop, dif_pos hrange, hindex]

/-- The picture of one slot is dropped.

**Proof sketch.** One slot becomes bare, the others are kept, and of the files only that slot's copy
goes. -/
theorem Sound.drop (h : Sound n s) (i : Fin 9) (copies : UInt64) :
    Sound n ⟨s.table.set i (s.table.slots i).dropPicture, copies,
      (s.table.slots i).removeCopy s.files⟩ := by
  refine h.of_drops (fun j => decide (j = i)) (fun j hj => ?_) (fun j hj => ?_)
    (sublist_removeCopy _ _) fun f => ?_
  · obtain rfl := of_decide_eq_true hj
    show Bare ((s.table.set j (s.table.slots j).dropPicture).slots j)
    rw [PlayerTable.slots_set_self]
    exact bare_dropPicture _
  · have hne := of_decide_eq_false hj
    show Keeps _ ((s.table.set i (s.table.slots i).dropPicture).slots j)
    rw [PlayerTable.slots_set_of_ne _ _ hne]
    exact ⟨rfl, rfl, rfl, rfl⟩
  · show f ∈ (s.table.slots i).removeCopy s.files ↔ _
    rw [mem_removeCopy]
    simp only [decide_eq_true_eq, forall_eq]

/-- A file with the name of a slot's next copy is there for no other slot. -/
theorem Sound.not_mem (h : Sound n s) {i : Fin 9}
    (hbare : (s.table.slots i).copy = []) (k : UInt64) :
    ∀ f ∈ s.files, f.path ≠ n.path (i.val + 1) k := by
  intro f hf hpath
  obtain ⟨j, hcopy, hne, -⟩ := h.held f hf
  obtain ⟨l, hj⟩ := (h.shown j).named.resolve_left (hcopy ▸ hne)
  obtain rfl := Naming.path_inj (hj.symm.trans (hcopy.trans hpath))
  exact hne (hcopy.symm.trans hbare)

/-- What is not there is not removed. -/
theorem removeFile_of_not_mem {path : Bytes} {files : List Filed}
    (h : ∀ f ∈ files, f.path ≠ path) : removeFile path files = files :=
  List.filter_eq_self.mpr fun f hf => bne_iff_ne.mpr (h f hf)

/-- A bare slot gets a picture.

**Proof sketch.** The slot has no copy, so no file is its own, and the new name is no file's. The
other slots and their files are as they were. -/
theorem Sound.store (h : Sound n s) {i : Fin 9} (hbare : (s.table.slots i).copy = []) {slot : Slot}
    {k : UInt64} (hcopy : slot.copy = n.path (i.val + 1) k)
    (hpicture : slot.view.picture = slot.copy)
    (hsource : slot.source ≠ []) (copies : UInt64) :
    Sound n ⟨s.table.set i slot, copies,
      makeFile ⟨slot.copy, slot.view.playerId⟩ s.files⟩ := by
  have hne : slot.copy ≠ [] := hcopy ▸ n.path_ne_nil i k
  have hfiles : makeFile ⟨slot.copy, slot.view.playerId⟩ s.files =
      s.files ++ [⟨slot.copy, slot.view.playerId⟩] := by
    rw [makeFile, removeFile_of_not_mem]
    exact hcopy ▸ h.not_mem hbare k
  have hself : (s.table.set i slot).slots i = slot := s.table.slots_set_self i slot
  have hother : ∀ j ≠ i, (s.table.set i slot).slots j = s.table.slots j :=
    fun j hj => s.table.slots_set_of_ne slot hj
  refine ⟨fun j => ?_, ?_, fun f hf => ?_, fun j hj => ?_⟩
  · by_cases hji : j = i
    · subst hji
      show Shown n j ((s.table.set j slot).slots j)
      rw [hself]
      exact ⟨hpicture, by simp [hne, hsource], .inr ⟨k, hcopy⟩⟩
    · show Shown n j ((s.table.set i slot).slots j)
      rw [hother j hji]
      exact h.shown j
  · show (List.map Filed.path (makeFile _ s.files)).Nodup
    rw [hfiles, List.map_append, List.nodup_append]
    refine ⟨h.nodup, by simp, fun path hpath last hlast => ?_⟩
    obtain ⟨f, hf, rfl⟩ := List.mem_map.mp hpath
    obtain rfl := List.mem_singleton.mp hlast
    exact hcopy ▸ h.not_mem hbare k f hf
  · rw [show Pictures.files _ = _ from hfiles] at hf
    rcases List.mem_append.mp hf with hold | hnew
    · obtain ⟨j, hj, hpath, hid⟩ := h.held f hold
      have hji : j ≠ i := by
        rintro rfl
        exact hpath (hj.symm.trans hbare)
      exact ⟨j, by rw [← hj]; exact congrArg Slot.copy (hother j hji), hpath, by
        rw [hid]; exact (congrArg (fun s => s.view.playerId) (hother j hji)).symm⟩
    · obtain rfl := List.mem_singleton.mp hnew
      exact ⟨i, congrArg Slot.copy hself, hne,
        (congrArg (fun s => s.view.playerId) hself).symm⟩
  · show ∃ f ∈ makeFile _ s.files, f.path = ((s.table.set i slot).slots j).copy
    rw [hfiles]
    by_cases hji : j = i
    · subst hji
      exact ⟨_, List.mem_append_right _ (List.mem_singleton_self _),
        (congrArg Slot.copy hself).symm⟩
    · have hsame := hother j hji
      have hcopyj : (s.table.slots j).copy ≠ [] := by
        rw [← hsame]
        exact hj
      obtain ⟨f, hf, hpath⟩ := h.kept j hcopyj
      exact ⟨f, List.mem_append_left _ hf, hpath.trans (congrArg Slot.copy hsame).symm⟩

/-- A PlayerPicture.

**Proof sketch.** By what `Apply` does (`applyPicture_cases`): nothing; or it bares the slot; or it
bares it, makes a file under a new name, and shows that. -/
theorem Sound.applyPicture (h : Sound n s) (picture : Wire.PlayerPicture) (disk : PictureFiles) :
    Sound n (s.applyPicture n picture disk).2 := by
  have hcases := s.table.applyPicture_cases picture
    { disk with copy := n.path picture.player.toNat (s.copies + 1) }
  unfold Pictures.applyPicture
  dsimp only
  rcases hcases with ⟨hout | hout, -⟩ | ⟨i, hi, hid, ⟨hout | hout, htable⟩ | hstored⟩
  · rw [hout]
    exact h
  · rw [hout]
    exact h
  · rw [hout]
    simp only [htable, s.drop_eq hi]
    exact h.drop i _
  · rw [hout]
    simp only [htable, s.drop_eq hi]
    have hdropped := h.drop i (s.copies + 1)
    have hbare : ((s.table.set i (s.table.slots i).dropPicture).slots i).copy = [] := by
      rw [PlayerTable.slots_set_self]
      rfl
    split
    · rw [hi, removeFile_of_not_mem (hdropped.not_mem hbare (s.copies + 1))]
      exact hdropped
    · exact h.drop i _
  · obtain ⟨hout, hpath, slot, hview, hsource, hcopy, htable⟩ := hstored
    rw [hout]
    simp only [htable, s.drop_eq hi]
    have hbare : ((s.table.set i (s.table.slots i).dropPicture).slots i).copy = [] := by
      rw [PlayerTable.slots_set_self]
      rfl
    have hname : slot.copy = n.path (i.val + 1) (s.copies + 1) := by
      rw [hcopy, hi]
    have hplayer : slot.view.playerId = picture.playerId := by
      rw [hview, hid]
    have hstore := (h.drop i (s.copies + 1)).store hbare hname (by rw [hview, hcopy])
      (hsource ▸ hpath) (s.copies + 1)
    have hset : (s.table.set i (s.table.slots i).dropPicture).set i slot = s.table.set i slot := by
      simp only [PlayerTable.set, Function.update_idem]
    rw [show n.path picture.player.toNat (s.copies + 1) = slot.copy by rw [hcopy], ← hplayer]
    rw [hset] at hstore
    exact hstore

/-- **Every operation keeps the files.** -/
theorem Sound.step (h : Sound n s) (a : Act) : Sound n (step n s a) := by
  cases a with
  | players players => exact h.apply players
  | picture picture disk => exact h.applyPicture picture disk
  | clear => exact h.clear

/-- There are no files before the first. -/
theorem sound_empty (n : Naming) : Sound n {} := by
  refine ⟨fun i => ⟨rfl, Iff.rfl, .inl rfl⟩, List.nodup_nil, fun f hf => ?_, fun i hne => ?_⟩
  · cases hf
  · exact absurd rfl hne

/-- The invariant holds of every reachable state. -/
theorem sound_of_reachable (h : (system n).Reachable s) : Sound n s := by
  refine h.invariant (I := Sound n) ?_ ?_
  · rintro s rfl
    exact sound_empty n
  · rintro s a s' hs - hstep
    obtain rfl := Option.some.inj hstep
    exact hs.step a

/-- A picture that is removed, or that fails, leaves its slot with none and the others as they
were. -/
structure Bares (player : UInt8) (s s' : Pictures) : Prop where
  slot : ∃ i : Fin 9, player.toNat = i.val + 1 ∧ Bare (s'.table.slots i) ∧
    ∀ j ≠ i, s'.table.slots j = s.table.slots j

/-- A picture that failed or was removed leaves its slots bare.

**Proof sketch.** Both are outcomes of the one case that drops the slot's picture
(`applyPicture_cases`). -/
theorem bares_applyPicture (n : Naming) (s : Pictures) {picture : Wire.PlayerPicture}
    {disk : PictureFiles} (h : (s.applyPicture n picture disk).1 = .failed ∨
      (s.applyPicture n picture disk).1 = .removed) :
    Bares picture.player s (s.applyPicture n picture disk).2 := by
  have hcases := s.table.applyPicture_cases picture
    { disk with copy := n.path picture.player.toNat (s.copies + 1) }
  rcases hcases with ⟨hout | hout, -⟩ | ⟨i, hi, -, ⟨hout | hout, htable⟩ | ⟨hout, -⟩⟩
  case inl.inl | inl.inr | inr.inr =>
    rw [show (s.applyPicture n picture disk).1 = _ from hout] at h
    rcases h with h | h <;> cases h
  all_goals
    have hset : (s.applyPicture n picture disk).2.table =
        s.table.set i (s.table.slots i).dropPicture := by
      unfold Pictures.applyPicture
      dsimp only
      rw [hout]
      first
        | exact htable
        | (dsimp only; split <;> exact htable)
    refine ⟨i, hi, ?_, fun j hj => ?_⟩
    · rw [hset, PlayerTable.slots_set_self]
      exact bare_dropPicture _
    · rw [hset]
      exact s.table.slots_set_of_ne _ hj

end Pictures

/-! ## The runs -/

/-- **The picture files follow the claims.** -/
structure Follows (s : Pictures) : Prop where
  /-- The files are exactly the copies of the slots. -/
  files : ∀ path, (∃ f ∈ s.files, f.path = path) ↔
    path ≠ [] ∧ ∃ i, (s.table.slots i).copy = path
  /-- Each is one file. -/
  nodup : (s.files.map Filed.path).Nodup
  /-- No two slots have the same. -/
  distinct : ∀ i j, (s.table.slots i).copy = (s.table.slots j).copy →
    (s.table.slots i).copy ≠ [] → i = j
  /-- A slot has a copy when its view shows a picture. -/
  shown : ∀ i, (s.table.slots i).copy ≠ [] ↔ (s.table.slots i).view.picture ≠ []
  /-- And when it remembers a path. -/
  source : ∀ i, (s.table.slots i).copy ≠ [] ↔ (s.table.slots i).source ≠ []
  /-- And only while it is claimed. -/
  claimed : ∀ i, (s.table.slots i).copy ≠ [] → (s.table.slots i).view.claimed = true
  /-- It is one that was accepted for the player that holds the slot. -/
  accepted : ∀ i, (s.table.slots i).copy ≠ [] → ∃ f ∈ s.files,
    f.path = (s.table.slots i).copy ∧ f.playerId = (s.table.slots i).view.playerId

/-- The files follow the slots when the invariant holds.

**Proof sketch.** Each clause reads one part of the invariant. Two slots with one copy are one slot,
so a file is of one player. -/
theorem Pictures.Sound.follows {n : Naming} {s : Pictures} (h : s.Sound n) : Follows s := by
  refine ⟨fun path => ⟨?_, ?_⟩, h.nodup, fun i j => h.copy_inj, fun i => ?_, fun i => ?_,
    fun i hne => ?_, fun i hne => ?_⟩
  · rintro ⟨f, hf, rfl⟩
    obtain ⟨i, hcopy, hne, -⟩ := h.held f hf
    exact ⟨hne, i, hcopy⟩
  · rintro ⟨hne, i, rfl⟩
    exact h.kept i hne
  · rw [(h.shown i).picture]
  · exact not_congr (h.shown i).source
  · by_contra hnot
    exact hne ((s.table.slots i).owned (Bool.eq_false_of_not_eq_true hnot)).2
  · obtain ⟨f, hf, hpath⟩ := h.kept i hne
    obtain ⟨j, hcopy, -, hid⟩ := h.held f hf
    obtain rfl := h.copy_inj (hpath.symm.trans hcopy.symm) hne
    exact ⟨f, hf, hpath, hid⟩

/-- **The picture files follow the claims**, in every sequence of operations with any answers of
the file system; a Players and the end of them are reported exactly when they change what the table
shows; and a picture that is removed or that fails leaves its slot with none.

**Proof sketch.** What an operation drops it removes, and nothing else (`Pictures.Sound.of_drops`);
a new copy is made for a slot that has none (`Pictures.Sound.store`), under a name that no other
slot's copy has, since the player stands in it (`Naming.path_inj`). -/
theorem files_follow (n : Naming) {s : Pictures} (h : (Pictures.system n).Reachable s) :
    Follows s ∧
      (∀ players, (s.apply players).1 = true ↔
        (s.apply players).2.table.views ≠ s.table.views) ∧
      (s.clear.1 = true ↔ s.table.views ≠ noPlayers) ∧
      ∀ picture disk, (s.applyPicture n picture disk).1 = .failed ∨
          (s.applyPicture n picture disk).1 = .removed →
        Pictures.Bares picture.player s (s.applyPicture n picture disk).2 := by
  refine ⟨(Pictures.sound_of_reachable h).follows, fun players => ?_, ?_,
    fun picture disk => Pictures.bares_applyPicture n s⟩
  · exact s.table.apply_iff players
  · rw [Ne, ← s.table.clear_eq_false_iff, Bool.not_eq_false]
    rfl

/-! ## A run -/

/-- The names of process 7. -/
def sevens : Naming := ⟨7, 42, [47]⟩

/-- Player 1 is claimed, and gets a picture, another, and one that cannot be copied; player 2 gets
one. -/
def pictureRun : List Pictures.Act :=
  [.players { slots := [{ player := 1, playerId := [1] }, { player := 2, playerId := [2] }] },
    .picture { player := 1, playerId := [1], path := [65] } {},
    .picture { player := 1, playerId := [1], path := [66] } {},
    .picture { player := 2, playerId := [2], path := [65] } {},
    .picture { player := 1, playerId := [1], path := [67] } { copied := false }]

/-- Of the files one is left, that of player 2. -/
theorem files_follow_pictureRun : ∃ s,
    Runs.runOf (fun s a => some (Pictures.step sevens s a)) {} pictureRun = some s ∧
      Follows s ∧ s.files = [⟨sevens.path 2 3, [2]⟩] := by
  have hrun : (Runs.runOf (fun s a => some (Pictures.step sevens s a)) {} pictureRun).any
      (fun s => decide (s.files = [⟨sevens.path 2 3, [2]⟩])) = true := by
    decide +kernel
  obtain ⟨s, hs, hfiles⟩ := (Option.any_eq_true _ _).mp hrun
  exact ⟨s, hs, (files_follow sevens (Runs.reachable_of_runOf rfl hs)).1,
    of_decide_eq_true hfiles⟩

end Worker
