import Mathlib.Data.Fintype.Pi
import ScorbitPlugin.Wire.GameLayouts

set_option relaxedAutoImplicit false
set_option autoImplicit false

/-!
# Players

The players' read-back of `src/ReadBack.cpp`: the worker's slot table with its pictures, the latch
to the API thread and what the script reads there. What the file system answers to a picture is
given with it.

## Main definitions

* `Worker.PlayerTable` — the worker's slots, with `apply`, `applyPicture` and `clear`.
* `Worker.PlayerBook` — the table, the claim count and the latch, with `answerPlayers`,
  `answerPlayerPicture` and `endReadBacks`.
* `Worker.ReadBackState` — what the script reads, with `newEpoch` and `drain`.

## Main results

* `Worker.PlayerBook.posts_answerPlayers`, `Worker.PlayerBook.posts_answerPlayerPicture` — what a
  message does to the table is posted.
* `Worker.PlayerBook.endReadBacks_spec` — so is its end.
-/

namespace Worker

open Codec

/-! ## The slot table -/

/-- `PlayerView`. -/
structure PlayerView where
  playerId : Bytes := []
  preferredName : Bytes := []
  name : Bytes := []
  initials : Bytes := []
  claimDeeplink : Bytes := []
  /-- The plugin's own copy. -/
  picture : Bytes := []
deriving DecidableEq, Repr

/-- `Claimed`. -/
def PlayerView.claimed (v : PlayerView) : Bool := !v.playerId.isEmpty

/-- The nine slots of a table. -/
abbrev Slots := Fin 9 → PlayerView

/-- Nine empty slots. -/
def noPlayers : Slots := fun _ => {}

/-- `PlayersPost`. -/
structure PlayersPost where
  epoch : ℕ := 0
  slots : Slots := noPlayers
  claims : UInt32 := 0
deriving DecidableEq

/-- An empty view has no picture, and neither has its slot. -/
theorem PlayerView.owned_empty :
    ({} : PlayerView).claimed = false → ({} : PlayerView).picture = [] ∧ ([] : Bytes) = [] :=
  fun _ => ⟨rfl, rfl⟩

/-- `PlayerTable::Slot`. -/
structure Slot where
  view : PlayerView := {}
  /-- The daemon's path the copy was taken from. -/
  source : Bytes := []
  copy : Bytes := []
  /-- A picture belongs to its claim. -/
  owned : view.claimed = false → view.picture = [] ∧ copy = [] := by exact PlayerView.owned_empty
deriving DecidableEq, Repr

/-- `DropPicture`. -/
def Slot.dropPicture (s : Slot) : Slot :=
  { view := { s.view with picture := [] }, owned := fun _ => ⟨rfl, rfl⟩ }

/-- The slot a view is applied to: an empty view, or someone else's, supersedes its picture. -/
def Slot.kept (s : Slot) (next : PlayerView) : Slot :=
  if !next.claimed || next.playerId != s.view.playerId then s.dropPicture else s

/-- The picture kept belongs to the view's claim. -/
theorem Slot.owned_kept (s : Slot) {next : PlayerView} (h : next.claimed = false) :
    (s.kept next).view.picture = [] ∧ (s.kept next).copy = [] := by
  simp [Slot.kept, h, Slot.dropPicture]

/-- `PlayerTable`. -/
structure PlayerTable where
  slots : Fin 9 → Slot := fun _ => {}
deriving DecidableEq

/-- `MAX_PICTURE_BYTES`. -/
def maxPictureBytes : ℕ := 2097152

/-- What the file system answers while a PlayerPicture is applied. -/
structure PictureFiles where
  /-- `fs::exists` of the daemon's file. -/
  present : Bool := true
  /-- `SameBytes` of the daemon's file and the copy. -/
  same : Bool := false
  /-- `PrepareDirectory`. -/
  prepared : Bool := true
  /-- `fs::is_regular_file` of the daemon's file. -/
  regular : Bool := true
  /-- `fs::file_size` of the daemon's file. -/
  size : Option ℕ := some 0
  /-- `fs::copy_file`. -/
  copied : Bool := true
  /-- The path of the copy. -/
  copy : Bytes := []
deriving DecidableEq, Repr

/-- The daemon's file can be copied. -/
def PictureFiles.copies (files : PictureFiles) : Bool :=
  files.prepared && files.regular && files.size.any (· ≤ maxPictureBytes) && files.copied

/-- `PlayerTable::Picture`. -/
inductive PictureOutcome
  | ignored | unchanged | stored | removed | failed
deriving DecidableEq, Repr

namespace PlayerTable

variable (t : PlayerTable)

/-- `Fill`. -/
def views : Slots := fun i => (t.slots i).view

/-- The slot is a player's. -/
def isOf (i : Fin 9) (s : Wire.PlayerSlot) : Bool := s.player.toNat == i.val + 1

/-- `next` of `Apply` takes a slot that is its player's. -/
def takeSlot (i : Fin 9) (next : PlayerView) (s : Wire.PlayerSlot) : PlayerView :=
  if isOf i s then
    { next with
      playerId := s.playerId, preferredName := s.preferredName, name := s.name
      initials := s.initials, claimDeeplink := s.claimDeeplink }
  else next

/-- `next` of `Apply`, without its picture. -/
def nextView (players : Wire.Players) (i : Fin 9) : PlayerView :=
  players.slots.foldl (takeSlot i) {}

/-- A slot of `Apply`: whether it changed, and the slot after. -/
def applySlot (slot : Slot) (next : PlayerView) : Bool × Slot :=
  let view := { next with picture := (slot.kept next).view.picture }
  (view != (slot.kept next).view,
    { slot.kept next with view := view, owned := fun h => slot.owned_kept h })

/-- `Apply` a Players: whether anything changed, and the table after. -/
def apply (players : Wire.Players) : Bool × PlayerTable :=
  let next : Fin 9 → Bool × Slot := fun i => applySlot (t.slots i) (nextView players i)
  (decide (∃ i, (next i).1 = true), ⟨fun i => (next i).2⟩)

/-- A slot changed. -/
def set (i : Fin 9) (slot : Slot) : PlayerTable := ⟨Function.update t.slots i slot⟩

/-- The slot's picture is the one of the daemon's path: its file is gone, or still the same. -/
def upToDate (slot : Slot) (path : Bytes) (files : PictureFiles) : Bool :=
  !slot.copy.isEmpty && path == slot.source && (!files.present || files.same)

/-- `Apply` a PlayerPicture to its slot, which is claimed by its player. -/
def applySlotPicture (i : Fin 9) (path : Bytes) (files : PictureFiles)
    (h : (t.slots i).view.claimed = true) : PictureOutcome × PlayerTable :=
  let slot := t.slots i
  if path.isEmpty then
    if slot.copy.isEmpty then (.unchanged, t) else (.removed, t.set i slot.dropPicture)
  else if upToDate slot path files then (.unchanged, t)
  else if !files.copies then (.failed, t.set i slot.dropPicture)
  else
    (.stored, t.set i { view := { slot.view with picture := files.copy }
                        source := path
                        copy := files.copy
                        owned := fun hc => absurd (h.symm.trans hc) (by decide) })

/-- `Apply` a PlayerPicture. -/
def applyPicture (picture : Wire.PlayerPicture) (files : PictureFiles) :
    PictureOutcome × PlayerTable :=
  if h : 1 ≤ picture.player.toNat ∧ picture.player.toNat ≤ 9 then
    let i : Fin 9 := ⟨picture.player.toNat - 1, by omega⟩
    -- an empty id claims nothing
    if hc : (t.slots i).view.claimed = true ∧ picture.playerId = (t.slots i).view.playerId then
      t.applySlotPicture i picture.path files hc.1
    else (.ignored, t)
  else (.ignored, t)

/-- `Clear`: whether anything was held, and the table after. -/
def clear : Bool × PlayerTable :=
  (decide (∃ i, (t.slots i).view ≠ {} ∨ (t.slots i).copy ≠ []), {})

end PlayerTable

namespace PlayerTable

variable {t : PlayerTable} {players : Wire.Players}

/-- A slot that did not change shows what it showed, of the same player.

**Proof sketch.** A slot whose view did not change has the player it had, so it was kept; the
picture is taken over from there. -/
theorem applySlot_unchanged {slot : Slot} {next : PlayerView}
    (h : (applySlot slot next).1 = false) :
    (applySlot slot next).2.view = slot.view ∧ next.playerId = slot.view.playerId := by
  have hsame : { next with picture := (slot.kept next).view.picture } = (slot.kept next).view := by
    simpa [applySlot] using h
  have hkeptId : (slot.kept next).view.playerId = slot.view.playerId := by
    unfold Slot.kept
    split <;> rfl
  have hid : next.playerId = slot.view.playerId :=
    (congrArg PlayerView.playerId hsame).trans hkeptId
  refine ⟨Eq.trans hsame ?_, hid⟩
  unfold Slot.kept
  split
  · rename_i hdrop
    -- the view is the slot's own, so only an empty one is superseded
    have hnext : next.claimed = false := by simpa [hid] using hdrop
    have hview : slot.view.claimed = false := by
      simpa [PlayerView.claimed, hid] using hnext
    simp [Slot.dropPicture, ← (slot.owned hview).1]
  · rfl

/-- A table that did not change shows what it showed, of the same players. -/
theorem apply_unchanged (h : (t.apply players).1 = false) :
    (t.apply players).2.views = t.views ∧
      ∀ i, (nextView players i).playerId = (t.slots i).view.playerId := by
  have hslot : ∀ i, (applySlot (t.slots i) (nextView players i)).1 = false := by
    simpa [apply] using h
  exact ⟨funext fun i => (applySlot_unchanged (hslot i)).1,
    fun i => (applySlot_unchanged (hslot i)).2⟩

/-- A table that shows no players holds nothing. -/
theorem clear_eq_false_iff (t : PlayerTable) : t.clear.1 = false ↔ t.views = noPlayers := by
  have hheld : t.clear.1 = false ↔ ∀ i, (t.slots i).view = {} ∧ (t.slots i).copy = [] := by
    simp [clear]
  rw [hheld]
  constructor
  · intro hempty
    exact funext fun i => (hempty i).1
  · intro hviews i
    have hview : (t.slots i).view = {} := congrFun hviews i
    have hclaimed : (t.slots i).view.claimed = false := by
      rw [hview]
      rfl
    exact ⟨hview, ((t.slots i).owned hclaimed).2⟩

/-- A slot without a player's view stays as it was when it gets none. -/
theorem applySlot_empty {slot : Slot} (h : slot.view = {}) : (applySlot slot {}).1 = false := by
  have hkept : (slot.kept {}).view = {} := by
    unfold Slot.kept Slot.dropPicture
    split <;> simp [h]
  simp [applySlot, hkept]

/-- Players without any player leave a table that shows none. -/
theorem apply_noPlayers (ht : t.views = noPlayers) (hp : ∀ i, nextView players i = {}) :
    (t.apply players).1 = false := by
  have hslot : ∀ i, (applySlot (t.slots i) (nextView players i)).1 = false := by
    intro i
    rw [hp i]
    exact applySlot_empty (congrFun ht i)
  simpa [apply] using hslot

/-- A table that shows no players ignores pictures. -/
theorem applyPicture_noPlayers (ht : t.views = noPlayers) (picture : Wire.PlayerPicture)
    (files : PictureFiles) : t.applyPicture picture files = (.ignored, t) := by
  unfold applyPicture
  split
  · rename_i hplayer
    have hview : (t.slots ⟨picture.player.toNat - 1, by omega⟩).view = {} := congrFun ht _
    dsimp only
    rw [dif_neg]
    rintro ⟨hclaimed, -⟩
    rw [hview] at hclaimed
    cases hclaimed
  · rfl

/-- Slots that are not a player's leave its view. -/
theorem foldl_nextView (slots : List Wire.PlayerSlot) (i : Fin 9) (v : PlayerView)
    (h : ∀ s ∈ slots, isOf i s = false) :
    slots.foldl (takeSlot i) v = v := by
  induction slots generalizing v with
  | nil => rfl
  | cons s slots ih =>
    rw [List.foldl_cons, takeSlot, h s List.mem_cons_self]
    exact ih v fun s hs => h s (List.mem_cons_of_mem _ hs)

/-- The slots of a valid list ascend. -/
theorem lt_of_validSlots {last : UInt8} {slots : List Wire.PlayerSlot}
    (h : Wire.validSlots last slots = true) : ∀ s ∈ slots, last < s.player := by
  induction slots generalizing last with
  | nil => simp
  | cons s slots ih =>
    simp only [Wire.validSlots, Bool.and_eq_true, Bool.not_eq_true', Bool.or_eq_false_iff,
      decide_eq_false_iff_not, UInt8.not_le] at h
    obtain ⟨⟨⟨hlast, -⟩, -⟩, hrest⟩ := h
    intro x hx
    rcases List.mem_cons.mp hx with rfl | hx
    · exact hlast
    · exact UInt8.lt_trans hlast (ih hrest x hx)

/-- The view of a slot is its player's, for a valid list.

**Proof sketch.** By induction on the slots. The players of a valid list go up, so no slot behind
the player's own is of that player. -/
theorem nextView_of_mem {slots : List Wire.PlayerSlot} {last : UInt8}
    (h : Wire.validSlots last slots = true) {s : Wire.PlayerSlot} (hs : s ∈ slots) {i : Fin 9}
    (hi : isOf i s = true) (v : PlayerView) :
    (slots.foldl (takeSlot i) v).playerId = s.playerId := by
  induction slots generalizing last v with
  | nil => cases hs
  | cons x slots ih =>
    have hrest : Wire.validSlots x.player slots = true := by
      simp only [Wire.validSlots, Bool.and_eq_true] at h
      exact h.2
    rw [List.foldl_cons]
    rcases List.mem_cons.mp hs with rfl | hs
    · -- the players after it are others
      have hothers : ∀ other ∈ slots, isOf i other = false := by
        intro other hother
        have hlt := UInt8.lt_iff_toNat_lt.mp (lt_of_validSlots hrest other hother)
        simp only [isOf, beq_iff_eq, beq_eq_false_iff_ne] at hi ⊢
        omega
      rw [foldl_nextView slots i _ hothers, takeSlot, hi]
      rfl
    · exact ih hrest hs _

end PlayerTable

/-! ## The worker's side -/

/-- The worker's table, claim count and latch: `m_players`, `m_claims`, `m_playersSnapshotDue` and
the channel's `m_players`. -/
structure PlayerBook where
  table : PlayerTable := {}
  claims : UInt32 := 0
  snapshotDue : Bool := false
  latch : Option PlayersPost := none
deriving DecidableEq

namespace PlayerBook

variable (b : PlayerBook)

/-- `PostPlayers`, under the declared epoch. -/
def postPlayers (epoch : ℕ) : PlayerBook :=
  { b with latch := some { epoch := epoch, slots := b.table.views, claims := b.claims } }

/-- `EndReadBacks`, its players. -/
def endReadBacks (epoch : ℕ) : PlayerBook :=
  let (held, table) := b.table.clear
  if held then { b with table := table }.postPlayers epoch else { b with table := table }

/-- The slot is claimed, by a player it did not hold. -/
def claimsAnew (before : Slots) (s : Wire.PlayerSlot) : Bool :=
  !s.playerId.isEmpty &&
    if h : 1 ≤ s.player.toNat ∧ s.player.toNat ≤ 9 then
      s.playerId != (before ⟨s.player.toNat - 1, by omega⟩).playerId
    else false

/-- The claims a Players makes: none when it is a connection's snapshot. -/
def countClaims (players : Wire.Players) : UInt32 :=
  if b.snapshotDue then b.claims
  else players.slots.foldl (fun claims s =>
    if claimsAnew b.table.views s then claims + 1 else claims) b.claims

/-- `AnswerPlayers`, for a payload that decodes. -/
def applyPlayers (epoch : ℕ) (players : Wire.Players) : PlayerBook :=
  let (changed, table) := b.table.apply players
  let b := { b with claims := b.countClaims players, snapshotDue := false, table := table }
  if changed then b.postPlayers epoch else b

/-- `AnswerPlayers`. -/
def answerPlayers (epoch : ℕ) (payload : Bytes) : PlayerBook :=
  match Wire.Players.decode payload with
  | none => b
  | some players => b.applyPlayers epoch players

/-- `AnswerPlayerPicture`. -/
def answerPlayerPicture (epoch : ℕ) (payload : Bytes) (files : PictureFiles) : PlayerBook :=
  match Wire.PlayerPicture.decode payload with
  | none => b
  | some picture =>
    let (outcome, table) := b.table.applyPicture picture files
    let b := { b with table := table }
    if outcome = .ignored ∨ outcome = .unchanged then b else b.postPlayers epoch

end PlayerBook

namespace PlayerBook

variable {b : PlayerBook} {epoch : ℕ}

/-- What the script is to see is posted, or it is what was there before. -/
def Posts (b : PlayerBook) (epoch : ℕ) (b' : PlayerBook) : Prop :=
  (b'.table.views = b.table.views ∧ b'.claims = b.claims ∧ b'.latch = b.latch) ∨
    b'.latch = some { epoch := epoch, slots := b'.table.views, claims := b'.claims }

/-- Players that leave the table make no claim.

**Proof sketch.** Each slot of the players has the view the table has already, or the table would
have changed; so none is claimed anew. -/
theorem countClaims_unchanged {players : Wire.Players} (hvalid : Wire.validPlayers players = true)
    (h : (b.table.apply players).1 = false) : b.countClaims players = b.claims := by
  have hslots : Wire.validSlots 0 players.slots = true := by
    simp only [Wire.validPlayers, Bool.and_eq_true] at hvalid
    exact hvalid.2
  have hnone : ∀ s ∈ players.slots, claimsAnew b.table.views s = false := by
    intro s hs
    unfold claimsAnew
    split
    · rename_i hrange
      have hof : PlayerTable.isOf ⟨s.player.toNat - 1, by omega⟩ s = true := by
        simp only [PlayerTable.isOf, beq_iff_eq]
        omega
      have hid := (PlayerTable.apply_unchanged h).2 ⟨s.player.toNat - 1, by omega⟩
      rw [PlayerTable.nextView, PlayerTable.nextView_of_mem hslots hs hof] at hid
      simp [PlayerTable.views, hid]
    · simp
  have hfold : ∀ (slots : List Wire.PlayerSlot) (claims : UInt32),
      (∀ s ∈ slots, claimsAnew b.table.views s = false) →
      slots.foldl (fun claims s =>
        if claimsAnew b.table.views s then claims + 1 else claims) claims = claims := by
    intro slots
    induction slots with
    | nil => exact fun _ _ => rfl
    | cons s slots ih =>
      intro claims hslots
      rw [List.foldl_cons, hslots s List.mem_cons_self]
      exact ih claims fun s hs => hslots s (List.mem_cons_of_mem _ hs)
  unfold countClaims
  split
  · rfl
  · exact hfold players.slots b.claims hnone

variable (b epoch) in
/-- Players that leave the table are not posted, and others are. -/
theorem applyPlayers_spec {players : Wire.Players} (hvalid : Wire.validPlayers players = true) :
    if (b.table.apply players).1 then
      (b.applyPlayers epoch players).latch =
        some { epoch := epoch, slots := (b.applyPlayers epoch players).table.views
               claims := (b.applyPlayers epoch players).claims }
    else
      (b.applyPlayers epoch players).table.views = b.table.views ∧
        (b.applyPlayers epoch players).claims = b.claims ∧
        (b.applyPlayers epoch players).latch = b.latch := by
  cases h : (b.table.apply players).1 with
  | true => simp [applyPlayers, h, postPlayers]
  | false =>
    have hclaims := countClaims_unchanged (b := b) hvalid h
    have hviews := (PlayerTable.apply_unchanged h).1
    simp [applyPlayers, h, hclaims, hviews]

/-- A Players that decodes is valid. -/
theorem validPlayers_of_decode {payload : Bytes} {players : Wire.Players}
    (h : Wire.Players.decode payload = some players) : Wire.validPlayers players = true := by
  rw [Wire.Players.coding.decodes, Option.map_eq_some_iff] at h
  obtain ⟨⟨w, rest⟩, hget, rfl⟩ := h
  obtain ⟨hvalid, -⟩ := Wire.Players.layout.put_get _ _ _ hget
  exact (Wire.Players.coding.of_valid w hvalid).2.1

/-- **What a Players does is posted.** -/
theorem posts_answerPlayers (payload : Bytes) : b.Posts epoch (b.answerPlayers epoch payload) := by
  unfold answerPlayers
  cases hdecode : Wire.Players.decode payload with
  | none => exact .inl ⟨rfl, rfl, rfl⟩
  | some players =>
    have hspec := applyPlayers_spec b epoch (validPlayers_of_decode hdecode)
    split at hspec
    · exact .inr hspec
    · exact .inl hspec

/-- A PlayerPicture that is ignored or changes nothing leaves the table.

**Proof sketch.** By the branches: the table is written only where the picture is reported as
applied. -/
theorem applyPicture_unchanged {t : PlayerTable} {picture : Wire.PlayerPicture}
    {files : PictureFiles}
    (h : (t.applyPicture picture files).1 = .ignored ∨
      (t.applyPicture picture files).1 = .unchanged) :
    (t.applyPicture picture files).2 = t := by
  revert h
  unfold PlayerTable.applyPicture
  split
  · dsimp only
    split
    · unfold PlayerTable.applySlotPicture
      dsimp only
      split
      · split <;> simp
      · split
        · simp
        · split <;> simp
    · simp
  · simp

/-- **What a PlayerPicture does is posted.** -/
theorem posts_answerPlayerPicture (payload : Bytes) (files : PictureFiles) :
    b.Posts epoch (b.answerPlayerPicture epoch payload files) := by
  unfold answerPlayerPicture
  cases Wire.PlayerPicture.decode payload with
  | none => exact .inl ⟨rfl, rfl, rfl⟩
  | some picture =>
    dsimp only
    split
    · rename_i hsame
      exact .inl ⟨congrArg PlayerTable.views (applyPicture_unchanged hsame), rfl, rfl⟩
    · exact .inr rfl

/-- **The end of the players is posted**, when there were any.

**Proof sketch.** By whether the table held anything: clearing reports exactly that, and only then
is the end posted. -/
theorem endReadBacks_spec (b : PlayerBook) (epoch : ℕ) :
    (b.endReadBacks epoch).table.views = noPlayers ∧ (b.endReadBacks epoch).claims = b.claims ∧
      (b.endReadBacks epoch).latch = if b.table.views = noPlayers then b.latch
        else some { epoch := epoch, slots := noPlayers, claims := b.claims } := by
  have hend : b.endReadBacks epoch =
      if b.table.clear.1 then { b with table := b.table.clear.2 }.postPlayers epoch
      else { b with table := b.table.clear.2 } := rfl
  cases hheld : b.table.clear.1 with
  | true =>
    have hviews : b.table.views ≠ noPlayers := fun hviews => by
      rw [← PlayerTable.clear_eq_false_iff, hheld] at hviews
      cases hviews
    rw [hend, hheld, if_pos rfl, if_neg hviews]
    exact ⟨rfl, rfl, rfl⟩
  | false =>
    rw [hend, hheld, if_neg Bool.false_ne_true,
      if_pos ((PlayerTable.clear_eq_false_iff _).mp hheld)]
    exact ⟨rfl, rfl, rfl⟩

end PlayerBook

/-! ## The script's side -/

/-- `ReadBackState`, its players. -/
structure ReadBackState where
  epoch : ℕ := 0
  players : PlayersPost := {}
deriving DecidableEq

namespace ReadBackState

variable (r : ReadBackState)

/-- `NewEpoch`. -/
def newEpoch (epoch : ℕ) : ReadBackState where
  epoch := epoch
  players := { epoch := epoch, claims := r.players.claims }

/-- `Drain`, of what the latch holds. -/
def drain (latch : Option PlayersPost) : ReadBackState :=
  match latch with
  | none => r
  | some post =>
    if post.epoch = r.epoch then { r with players := post }
    else { r with players := { r.players with claims := post.claims } }

end ReadBackState

end Worker
