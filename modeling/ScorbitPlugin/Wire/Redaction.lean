import ScorbitPlugin.Wire.Dump
import ScorbitPlugin.Wire.RoundTrip

set_option relaxedAutoImplicit false
set_option autoImplicit false

/-!
# What the dump conceals

Three payloads carry strings that a dump must not show: the host paths of a Declare, the claim
deeplinks of a Players and the path of a PlayerPicture. Each is a string in pieces, of which these
strings are the marked ones; the spans that `Encode` and `Decode` record are where they are. So a
blanked payload is the payload of the same value with its sensitive strings starred.

## Main definitions

* `Wire.Declare.starred`, `Wire.Players.starred`, `Wire.PlayerPicture.starred` — the values a dump
  shows.
* `Wire.Declare.pieces`, `Wire.Players.pieces`, `Wire.PlayerPicture.pieces`.
* `Wire.Alike` — two requests that differ only in what is sensitive.
* `Wire.DumpConceals` — what is claimed of the dump.

## Main results

* `Wire.dump_conceals` — it holds.
-/

namespace Wire

open Codec Marked

/-! ## Starred values -/

/-- As many stars as the string has bytes. -/
def stars (s : Bytes) : Bytes := List.replicate s.length star

/-- A Declare with its host paths starred. -/
def Declare.starred (v : Declare) : Declare :=
  { v with
    tableFullPath := stars v.tableFullPath
    vpxAppPath := stars v.vpxAppPath
    prefsPath := stars v.prefsPath }

/-- A slot with its deeplink starred. -/
def PlayerSlot.starred (s : PlayerSlot) : PlayerSlot :=
  { s with claimDeeplink := stars s.claimDeeplink }

/-- A Players with its deeplinks starred. -/
def Players.starred (v : Players) : Players := ⟨v.slots.map PlayerSlot.starred⟩

/-- A PlayerPicture with its path starred. -/
def PlayerPicture.starred (v : PlayerPicture) : PlayerPicture := { v with path := stars v.path }

/-- As many stars as there are bytes. -/
@[simp] theorem length_stars (s : Bytes) : (stars s).length = s.length := by
  simp [stars]

/-! ## Pieces -/

/-- A string whose bytes are marked. -/
def markedStr (s : Bytes) : List (Piece UInt8) := [⟨false, Layout.putLE 2 s.length⟩, ⟨true, s⟩]

/-- The pieces of a marked string are its bytes on the wire. -/
@[simp] theorem flat_markedStr (s : Bytes) : flat (markedStr s) = str.put s := by
  simp [markedStr, flat]

/-- Its bytes are filled. -/
@[simp] theorem filled_markedStr (s : Bytes) :
    (markedStr s).map (fun p => p.filled star) = markedStr (stars s) := by
  simp [markedStr, Piece.filled, stars]

/-- `Span` records where its bytes are. -/
theorem pair_span (sensitive : List SensitiveSpan) (prefixAt : ℕ) (v : Bytes) :
    (span sensitive prefixAt v).map SensitiveSpan.pair =
      sensitive.map SensitiveSpan.pair ++ spans prefixAt (markedStr v) := by
  unfold span markedStr
  cases v with
  | nil => simp [spans]
  | cons b v => simp [spans, SensitiveSpan.pair]

/-- The bytes of a Declare up to its host paths. -/
def Declare.front (v : Declare) : Bytes :=
  Declare.layout.head.put v ++ [v.tableKind] ++ str.put v.machineUuid

/-- A Declare of minor 1 in pieces. -/
def Declare.pieces (v : Declare) : List (Piece UInt8) :=
  ⟨false, v.front⟩ :: [v.tableFullPath, v.vpxAppPath, v.prefsPath].flatMap markedStr

/-- The bytes of a slot up to its deeplink. -/
def PlayerSlot.front (s : PlayerSlot) : Bytes :=
  [s.player] ++ str.put s.playerId ++ str.put s.preferredName ++ str.put s.name ++
    str.put s.initials

/-- A slot in pieces. -/
def PlayerSlot.pieces (s : PlayerSlot) : List (Piece UInt8) :=
  ⟨false, s.front⟩ :: markedStr s.claimDeeplink

/-- A Players in pieces. -/
def Players.pieces (v : Players) : List (Piece UInt8) :=
  ⟨false, Layout.putLE 1 v.slots.length⟩ :: v.slots.flatMap PlayerSlot.pieces

/-- A PlayerPicture in pieces. -/
def PlayerPicture.pieces (v : PlayerPicture) : List (Piece UInt8) :=
  ⟨false, [v.player] ++ str.put v.playerId⟩ :: markedStr v.path

/-- The pieces make up what is written. -/
theorem Declare.flat_pieces (v : Declare) : flat v.pieces = Declare.layout.full.put v := by
  simp [Declare.pieces, Declare.front, Declare.layout, Tailed.ofFields, Declare.headLayout,
    Declare.tailLayout, flat, markedStr]

/-- The pieces of a slot are its bytes on the wire. -/
theorem PlayerSlot.flat_pieces (s : PlayerSlot) : flat s.pieces = PlayerSlot.layout.put s := by
  simp [PlayerSlot.pieces, PlayerSlot.front, PlayerSlot.layout]

/-- The slots in pieces make up the slots. -/
theorem PlayerSlot.flat_flatMap (slots : List PlayerSlot) :
    flat (slots.flatMap PlayerSlot.pieces) = slots.flatMap PlayerSlot.layout.put := by
  induction slots with
  | nil => rfl
  | cons s slots ih =>
    rw [List.flatMap_cons, flat_append, ih, PlayerSlot.flat_pieces, List.flatMap_cons]

/-- So are those of the slots of a Players. -/
theorem Players.flat_pieces (v : Players) : flat v.pieces = Players.layout.put v := by
  simp [Players.pieces, PlayerSlot.flat_flatMap, Players.layout]

/-- And those of a picture. -/
theorem PlayerPicture.flat_pieces (v : PlayerPicture) :
    flat v.pieces = PlayerPicture.layout.put v := by
  simp [PlayerPicture.pieces, PlayerPicture.layout]

/-- Filling the marked pieces stars the value. -/
theorem Declare.filled_pieces (v : Declare) :
    v.pieces.map (fun p => p.filled star) = v.starred.pieces := by
  simp [Declare.pieces, Declare.starred, Declare.front, Declare.layout, Tailed.ofFields]

/-- The pieces of a slot, starred, are those of the starred slot. -/
theorem PlayerSlot.filled_pieces (s : PlayerSlot) :
    s.pieces.map (fun p => p.filled star) = s.starred.pieces := by
  simp [PlayerSlot.pieces, PlayerSlot.starred, PlayerSlot.front]

/-- So it is with a Players. -/
theorem Players.filled_pieces (v : Players) :
    v.pieces.map (fun p => p.filled star) = v.starred.pieces := by
  have hslots : ∀ slots : List PlayerSlot,
      (slots.flatMap PlayerSlot.pieces).map (fun p => p.filled star) =
        (slots.map PlayerSlot.starred).flatMap PlayerSlot.pieces := by
    intro slots
    induction slots with
    | nil => rfl
    | cons s slots ih =>
      rw [List.flatMap_cons, List.map_append, ih, PlayerSlot.filled_pieces, List.map_cons,
        List.flatMap_cons]
  simp only [Players.pieces, Players.starred, List.map_cons, hslots, List.length_map]
  rfl

/-- And with a picture. -/
theorem PlayerPicture.filled_pieces (v : PlayerPicture) :
    v.pieces.map (fun p => p.filled star) = v.starred.pieces := by
  simp [PlayerPicture.pieces, PlayerPicture.starred]

/-! ## The spans of Encode -/

/-- A good writer has written its strings one after another. -/
theorem str_ok {w : Writer} {v : Bytes} (h : (w.str v).ok = true) :
    w.ok = true ∧ (w.str v).data = w.data ++ str.put v := by
  have hself : Writer.Wrote w (w.ok = true) w.data := ⟨by simp [w.bound], fun _ => rfl⟩
  have hwrote := hself.str v
  exact ⟨(hwrote.ok_iff.mp h).1.1, hwrote.data_eq h⟩

/-- The paths are written one after another, and recorded where they are.

**Proof sketch.** By induction on the paths: one path is written at the writer's position, which is
where its mark begins, and the rest is written behind it. -/
theorem Declare.foldl_writePath (paths : List Bytes) (w : Writer) (s : List SensitiveSpan)
    (h : (paths.foldl Declare.writePath (w, s)).1.ok = true) :
    (paths.foldl Declare.writePath (w, s)).1.data = w.data ++ flat (paths.flatMap markedStr) ∧
      (paths.foldl Declare.writePath (w, s)).2.map SensitiveSpan.pair =
        s.map SensitiveSpan.pair ++ spans w.data.length (paths.flatMap markedStr) ∧
      w.ok = true := by
  induction paths generalizing w s with
  | nil => exact ⟨by simp [flat], by simp [spans], h⟩
  | cons path paths ih =>
    obtain ⟨hdata, hspans, hnext⟩ := ih (w.str path) (span s w.data.length path) h
    obtain ⟨hok, hstr⟩ := str_ok hnext
    have hwrite : Declare.writePath (w, s) path = (w.str path, span s w.data.length path) := rfl
    rw [List.foldl_cons, hwrite]
    refine ⟨hdata.trans ?_, hspans.trans ?_, hok⟩
    · rw [hstr, List.flatMap_cons, flat_append, flat_markedStr, List.append_assoc]
    · rw [pair_span, List.flatMap_cons, spans_append, flat_markedStr, hstr, List.length_append,
        List.append_assoc]

/-- A Declare is refused when its starred form is. -/
theorem Declare.starred_encode_eq_nil (v : Declare) (m : UInt16) :
    v.starred.encode m = [] ↔ v.encode m = [] := by
  rw [(Declare.round_trip m v.starred).2, (Declare.round_trip m v).2]
  simp [Declare.starred, Declare.headFits, Declare.tailFits, shortStrings, Declare.headSize,
    Declare.tailSize, strBytes]

/-- **The marks of a Declare are where its host paths are**: its payload is in pieces, and filling
the marked ones gives the payload of the starred Declare.

**Proof sketch.** Under a minor with host paths the payload is their pieces between the other
fields, if it is written at all, and the marks are where these are. Under an older minor there are
no paths and no marks. -/
theorem Declare.encodeSensitive_pieces (v : Declare) (m : UInt16) : ∃ pieces,
    v.encode m = flat pieces ∧
      (v.encodeSensitive m).2.map SensitiveSpan.pair = spans 0 pieces ∧
      v.starred.encode m = flat (pieces.map fun p => p.filled star) := by
  by_cases hm : m ≥ 1
  · cases hok : (v.write m).1.ok with
    | false =>
      have hrefused : v.encodeSensitive m = ([], []) := by
        simp [Declare.encodeSensitive, hok]
      have hnil : v.encode m = [] := congrArg Prod.fst hrefused
      exact ⟨[], hnil, by rw [hrefused]; rfl, (v.starred_encode_eq_nil m).mpr hnil⟩
    | true =>
      have hsent : v.encodeSensitive m = ((v.write m).1.data, (v.write m).2) := by
        simp [Declare.encodeSensitive, hok]
      have hencode : v.encode m = (v.write m).1.data := congrArg Prod.fst hsent
      rw [hsent]
      unfold Declare.write at hok hencode ⊢
      simp only [hm, if_true] at hok hencode ⊢
      obtain ⟨hdata, hspans, -⟩ := Declare.foldl_writePath _ _ _ hok
      rw [hdata] at hencode
      have hne : v.encode m ≠ [] := by
        rw [hencode]
        refine List.append_ne_nil_of_right_ne_nil _ ?_
        simp [flat, markedStr, Layout.putLE]
      have hput : v.encode m = flat v.pieces :=
        ((v.encodes_full hm).of_ne_nil hne).2.2.trans v.flat_pieces.symm
      have hfront : v.front ++
          flat ([v.tableFullPath, v.vpxAppPath, v.prefsPath].flatMap markedStr) =
          v.encode m := hput.symm
      have hstarred : v.starred.encode m = flat v.starred.pieces := by
        have hne := mt (v.starred_encode_eq_nil m).mp hne
        exact ((v.starred.encodes_full hm).of_ne_nil hne).2.2.trans v.starred.flat_pieces.symm
      refine ⟨v.pieces, hput, hspans.trans ?_, hstarred.trans (by rw [Declare.filled_pieces])⟩
      rw [hencode] at hfront
      rw [← List.append_cancel_right hfront, Declare.pieces, spans]
      simp
  · have hsame : v.starred.encode m = v.encode m := by
      rw [Declare.encode_eq, Declare.encode_eq, Declare.write, Declare.write, if_neg hm, if_neg hm]
      rfl
    refine ⟨[⟨false, v.encode m⟩], by simp [flat], ?_, by simp [hsame, flat]⟩
    have hnone : (v.encodeSensitive m).2 = [] := by
      unfold Declare.encodeSensitive Declare.write
      rw [if_neg hm]
      dsimp only
      split <;> rfl
    simp [hnone, spans]

/-! ## The spans of Decode -/

/-- What an accessor of a layout has read, and where it stands then. -/
theorem Reads.moved {α : Type} {m : Read α} {L : Layout α} (h : Reads m L.get) {r r' : Reader}
    {v : α} (hr : m r = some (v, r')) :
    r.rest = L.put v ++ r'.rest ∧ r'.pos = r.pos + (L.put v).length := by
  rw [h.eq, Option.map_eq_some_iff] at hr
  obtain ⟨⟨w, t⟩, hget, hsame⟩ := hr
  obtain ⟨rfl, rfl⟩ := Prod.mk.inj hsame
  obtain ⟨-, hrest⟩ := L.put_get _ _ _ hget
  refine ⟨hrest, ?_⟩
  have hlen := congrArg List.length hrest
  rw [List.length_append] at hlen
  dsimp only
  omega

/-- A step that has read something, and the one after it. -/
theorem Reads.of_bind {α β : Type} {m : Read α} {k : α → Read β} {r r' : Reader} {v : β}
    (h : (m >>= k) r = some (v, r')) : ∃ a s, m r = some (a, s) ∧ k a s = some (v, r') := by
  change (m r).bind (fun p => k p.1 p.2) = _ at h
  obtain ⟨⟨a, s⟩, ha, hk⟩ := Option.bind_eq_some_iff.mp h
  exact ⟨a, s, ha, hk⟩

/-- A slot that is read, with the position of its deeplink.

**Proof sketch.** Field by field, in the order of the read: each moves the position by its bytes,
and the deeplink's is noted behind the fields before it. -/
theorem PlayerSlot.read_moved {r r' : Reader} {s : PlayerSlot} {prefixAt : ℕ}
    (h : PlayerSlot.read r = some ((s, prefixAt), r')) :
    r'.pos = r.pos + (flat s.pieces).length ∧ prefixAt = r.pos + s.front.length := by
  obtain ⟨player, r₁, h₁, h⟩ := Reads.of_bind h
  obtain ⟨playerId, r₂, h₂, h⟩ := Reads.of_bind h
  obtain ⟨preferredName, r₃, h₃, h⟩ := Reads.of_bind h
  obtain ⟨name, r₄, h₄, h⟩ := Reads.of_bind h
  obtain ⟨initials, r₅, h₅, h⟩ := Reads.of_bind h
  obtain ⟨at', r₆, h₆, h⟩ := Reads.of_bind h
  obtain ⟨claimDeeplink, r₇, h₇, h⟩ := Reads.of_bind h
  obtain ⟨hslot, rfl⟩ := Prod.mk.inj (Option.some.inj h)
  obtain ⟨rfl, rfl⟩ := Prod.mk.inj hslot
  obtain ⟨rfl, rfl⟩ := Prod.mk.inj (Option.some.inj h₆)
  have h₁ := (Reads.u8.moved h₁).2
  have h₂ := (Reads.moved (L := str) Reads.str h₂).2
  have h₃ := (Reads.moved (L := str) Reads.str h₃).2
  have h₄ := (Reads.moved (L := str) Reads.str h₄).2
  have h₅ := (Reads.moved (L := str) Reads.str h₅).2
  have h₇ := (Reads.moved (L := str) Reads.str h₇).2
  have hfront : r₅.pos = r.pos + (PlayerSlot.front
      ⟨player, playerId, preferredName, name, initials, claimDeeplink⟩).length := by
    simp only [PlayerSlot.front, List.length_append, List.length_singleton]
    simp only [Layout.put_u8, List.length_singleton] at h₁
    omega
  refine ⟨?_, hfront⟩
  rw [h₇, hfront, PlayerSlot.pieces, flat_cons, flat_markedStr, List.length_append]
  exact Nat.add_assoc _ _ _

/-- Slots that are read: the spans of their deeplinks are where the deeplinks are.

**Proof sketch.** By induction on the number of slots. Each moves the position by its bytes and has
its deeplink where it was noted (`PlayerSlot.read_moved`). -/
theorem PlayerSlot.each_moved (n : ℕ) {r r' : Reader} {read : List (PlayerSlot × ℕ)}
    (h : Reader.each PlayerSlot.read n r = some (read, r')) (s : List SensitiveSpan) :
    (read.foldl (fun sensitive slot => span sensitive slot.2 slot.1.claimDeeplink) s).map
        SensitiveSpan.pair =
      s.map SensitiveSpan.pair ++
        spans r.pos ((read.map Prod.fst).flatMap PlayerSlot.pieces) := by
  induction n generalizing r r' read s with
  | zero =>
    obtain ⟨rfl, -⟩ := Prod.mk.inj (Option.some.inj h)
    simp [spans]
  | succ n ih =>
    obtain ⟨⟨slot, prefixAt⟩, r₁, hslot, h⟩ := Reads.of_bind h
    obtain ⟨rest, r₂, hrest, h⟩ := Reads.of_bind h
    obtain ⟨rfl, -⟩ := Prod.mk.inj (Option.some.inj h)
    obtain ⟨hpos, hprefix⟩ := PlayerSlot.read_moved hslot
    have hspans := ih hrest (span s prefixAt slot.claimDeeplink)
    rw [List.foldl_cons]
    refine hspans.trans ?_
    have hfirst : spans r.pos slot.pieces = spans prefixAt (markedStr slot.claimDeeplink) := by
      rw [PlayerSlot.pieces, spans, hprefix]
      simp
    rw [pair_span, List.map_cons, List.flatMap_cons, spans_append, hfirst, hpos, List.append_assoc]

/-- **The marks of a Players are where its deeplinks are.**

**Proof sketch.** The count is read first, and the slots behind it one by one
(`PlayerSlot.each_moved`). -/
theorem Players.decodeSensitive_pieces {p : Bytes} {v : Players} {s : List SensitiveSpan}
    (h : Players.decodeSensitive p = some (v, s)) :
    s.map SensitiveSpan.pair = spans 0 v.pieces := by
  rw [Players.decodeSensitive, Reader.run, Option.map_eq_some_iff] at h
  obtain ⟨⟨w, r⟩, h, rfl⟩ := h
  obtain ⟨count, r₁, hcount, h⟩ := Reads.of_bind h
  obtain ⟨_, r₂, hmax, h⟩ := Reads.of_bind h
  obtain ⟨read, r₃, hread, h⟩ := Reads.of_bind h
  obtain ⟨_, r₄, -, h⟩ := Reads.of_bind h
  obtain ⟨hv, -⟩ := Prod.mk.inj (Option.some.inj h)
  obtain ⟨rfl, rfl⟩ := Prod.mk.inj hv
  have hpos : r₂.pos = 1 := by
    have hmoved : r₂ = r₁ := by
      unfold Reader.require at hmax
      split at hmax
      · exact (Prod.mk.inj (Option.some.inj hmax)).2.symm
      · cases hmax
    rw [hmoved, (Reads.u8.moved hcount).2]
    rfl
  have hspans := PlayerSlot.each_moved _ hread []
  refine hspans.trans ?_
  rw [hpos, Players.pieces, spans]
  simp

/-- **The mark of a PlayerPicture is where its path is.** -/
theorem PlayerPicture.decodeSensitive_pieces {p : Bytes} {v : PlayerPicture}
    {s : List SensitiveSpan} (h : PlayerPicture.decodeSensitive p = some (v, s)) :
    s.map SensitiveSpan.pair = spans 0 v.pieces := by
  rw [PlayerPicture.decodeSensitive, Reader.run, Option.map_eq_some_iff] at h
  obtain ⟨⟨w, r⟩, h, rfl⟩ := h
  obtain ⟨player, r₁, hplayer, h⟩ := Reads.of_bind h
  obtain ⟨playerId, r₂, hid, h⟩ := Reads.of_bind h
  obtain ⟨prefixAt, r₃, hat, h⟩ := Reads.of_bind h
  obtain ⟨path, r₄, -, h⟩ := Reads.of_bind h
  obtain ⟨_, r₅, -, h⟩ := Reads.of_bind h
  obtain ⟨hv, -⟩ := Prod.mk.inj (Option.some.inj h)
  obtain ⟨rfl, rfl⟩ := Prod.mk.inj hv
  obtain ⟨rfl, -⟩ := Prod.mk.inj (Option.some.inj hat)
  have hplayer := (Reads.u8.moved hplayer).2
  have hid := (Reads.moved (L := str) Reads.str hid).2
  have hprefix : r₂.pos = 0 + ([player] ++ str.put playerId).length := by
    rw [hid, hplayer, List.length_append]
    exact Nat.add_assoc _ _ _
  rw [pair_span, hprefix, PlayerPicture.pieces, spans]
  simp

/-- A payload that decodes is the value's pieces, and what follows them. -/
theorem Players.of_decode {p : Bytes} {v : Players} (h : Players.decode p = some v) :
    Players.layout.valid v ∧ p = flat v.pieces ++ p.drop v.size := by
  rw [Players.coding.decodes, Option.map_eq_some_iff] at h
  obtain ⟨⟨w, t⟩, hget, rfl⟩ := h
  obtain ⟨hvalid, rfl⟩ := Players.layout.put_get _ _ _ hget
  have hsize : (Players.layout.put w).length = w.size := Players.coding.length_put w
  rw [List.drop_left' hsize, Players.flat_pieces]
  exact ⟨hvalid, rfl⟩

/-- A picture that decodes is carried, and the payload begins with its pieces. -/
theorem PlayerPicture.of_decode {p : Bytes} {v : PlayerPicture}
    (h : PlayerPicture.decode p = some v) :
    PlayerPicture.layout.valid v ∧ p = flat v.pieces ++ p.drop v.size := by
  rw [PlayerPicture.coding.decodes, Option.map_eq_some_iff] at h
  obtain ⟨⟨w, t⟩, hget, rfl⟩ := h
  obtain ⟨hvalid, rfl⟩ := PlayerPicture.layout.put_get _ _ _ hget
  have hsize : (PlayerPicture.layout.put w).length = w.size := PlayerPicture.coding.length_put w
  rw [List.drop_left' hsize, PlayerPicture.flat_pieces]
  exact ⟨hvalid, rfl⟩

/-- The rules of the slots look at lengths only. -/
theorem validSlots_starred (last : UInt8) (slots : List PlayerSlot) :
    validSlots last (slots.map PlayerSlot.starred) = validSlots last slots := by
  induction slots generalizing last with
  | nil => rfl
  | cons s slots ih => simp [validSlots, PlayerSlot.starred, ih]

/-- The starred value is in the layout. -/
theorem Players.valid_starred {v : Players} (h : Players.layout.valid v) :
    Players.layout.valid v.starred := by
  obtain ⟨-, hrules, hids⟩ := Players.coding.of_valid v h
  have hrules : validPlayers v.starred = true := by
    simpa [validPlayers, Players.starred, validSlots_starred] using hrules
  have hsame : v.starred.slots.map (fun s => s.playerId) = v.slots.map fun s => s.playerId := by
    simp [Players.starred, PlayerSlot.starred, Function.comp_def]
  obtain ⟨hlen, hfits⟩ := validPlayers_slots hrules
  simp only [Players.layout, Layout.valid_filter, Layout.valid_map, Layout.valid_counted,
    PlayerSlot.valid_layout, and_true]
  exact ⟨⟨lt_of_le_of_lt hlen (by decide), hfits.mpr (hsame ▸ hids)⟩, hrules⟩

/-- The stars make a picture no longer. -/
theorem PlayerPicture.valid_starred {v : PlayerPicture} (h : PlayerPicture.layout.valid v) :
    PlayerPicture.layout.valid v.starred := by
  simp only [PlayerPicture.layout, PlayerPicture.starred] at h ⊢
  simpa [validPicture] using h

/-! ## Frames -/

/-- A blanked frame: the bytes before the payload are left, and its marked pieces are filled. -/
theorem redact_framed {first : Bytes} (hfirst : first.length = lengthBytes + headerBytes)
    {pieces : List (Piece UInt8)} {s : List SensitiveSpan}
    (h : s.map SensitiveSpan.pair = spans 0 pieces) (t : Bytes) :
    redact (first ++ (flat pieces ++ t)) (framed s) =
      first ++ (flat (pieces.map fun p => p.filled star) ++ t) := by
  have hframed : (framed s).map SensitiveSpan.pair = spans first.length pieces := by
    have hshift := spans_add 0 first.length pieces
    rw [Nat.zero_add] at hshift
    rw [hshift, ← h, framed, List.map_map, List.map_map, hfirst]
    rfl
  rw [redact_eq, hframed, ← List.append_assoc, fillAll_flat, List.append_assoc]

/-- A frame is recorded alike in one piece and in two. -/
theorem record_append (direction : UInt8) (micros : UInt64) (first body : Bytes) :
    record direction micros (first ++ body) [] = record direction micros first body := by
  simp [record]

/-- What `MaybeDeclare` adds to the dump when it sends a Declare. -/
def dumpDeclare (micros : UInt64) (header : Header) (v : Declare) (peerMinor : UInt16) : Bytes :=
  dumpSent micros ⟨header, (v.encodeSensitive peerMinor).1⟩ (v.encodeSensitive peerMinor).2

/-- **The record of a Declare is that of the starred Declare.**

**Proof sketch.** The payload is in pieces and its marks are theirs, so filling them in the frame
gives the frame of the starred payload (`redact_framed`). Both are of one length, so one fits
exactly when the other does. -/
theorem dumpDeclare_eq (micros : UInt64) (header : Header) (v : Declare) (m : UInt16) :
    dumpDeclare micros header v m =
      record outward micros (encodeMessage ⟨header, v.starred.encode m⟩) [] := by
  obtain ⟨pieces, hpayload, hspans, hstarred⟩ := v.encodeSensitive_pieces m
  have hlen : (v.starred.encode m).length = (v.encode m).length := by
    rw [hstarred, hpayload]
    simp [flat, List.length_flatMap, Function.comp_def]
  have hfits : (v.encode m).length ≤ maxPayloadBytes := by
    by_cases hnil : v.encode m = []
    · rw [hnil]
      exact Nat.zero_le _
    · exact ((Declare.round_trip m v).1 hnil).1
  have hframe := encodeMessage_eq (m := ⟨header, v.encode m⟩) hfits
  have hframe' := encodeMessage_eq (m := ⟨header, v.starred.encode m⟩) (hlen.trans_le hfits)
  have hne : (encodeMessage ⟨header, v.encode m⟩).isEmpty = false := by
    rw [hframe]
    simp [Layout.putLE]
  have hredact : redact (encodeMessage ⟨header, v.encode m⟩) (framed (v.encodeSensitive m).2) =
      encodeMessage ⟨header, v.starred.encode m⟩ := by
    have hfirst : (Layout.u32.put (UInt32.ofNat (headerBytes + (v.encode m).length)) ++
        headerLayout.put header).length = lengthBytes + headerBytes := by
      simp [lengthBytes]
    have hfilled := redact_framed hfirst hspans []
    rw [List.append_nil, List.append_nil, ← hpayload, ← hstarred] at hfilled
    rw [hframe, hframe', hlen, ← List.append_assoc, ← List.append_assoc]
    exact hfilled
  unfold dumpDeclare dumpSent
  have hpayload : (v.encodeSensitive m).1 = v.encode m := rfl
  rw [hpayload, hne, if_neg Bool.false_ne_true]
  cases hs : (v.encodeSensitive m).2 with
  | nil =>
    rw [hs] at hredact
    have hnothing : redact (encodeMessage ⟨header, v.encode m⟩) (framed []) =
        encodeMessage ⟨header, v.encode m⟩ := rfl
    rw [← hredact, hnothing]
    rfl
  | cons span spans =>
    rw [hs] at hredact
    rw [← hredact]
    rfl

/-- A frame's body is the header and the payload of what it decodes to. -/
theorem RawFrame.body_eq (f : RawFrame) {m : Message} (h : decodeBody f.body = some m) :
    f.body = headerLayout.put m.header ++ m.payload := by
  obtain ⟨header, payload, hbody⟩ := exists_put_header f.bounds.1
  rw [hbody, decodeBody_put] at h
  obtain rfl := Option.some.inj h
  exact hbody

/-- The record of a frame, its payload in pieces and with what follows them.

**Proof sketch.** The body is the header and the payload, and the marks count from the frame's first
byte; filling them fills the pieces and leaves what follows (`redact_framed`). -/
theorem dumpReceived_eq (micros : UInt64) {f : RawFrame} {m : Message}
    (h : decodeBody f.body = some m) {pieces : List (Piece UInt8)} {t : Bytes}
    (hpayload : m.payload = flat pieces ++ t)
    (hspans : (receivedSensitive m).map SensitiveSpan.pair = spans 0 pieces) :
    dumpReceived micros f = record inward micros f.first
      (headerLayout.put m.header ++ (flat (pieces.map fun p => p.filled star) ++ t)) := by
  have hbody := f.body_eq h
  have hsensitive : f.sensitive = framed (receivedSensitive m) := by
    simp [RawFrame.sensitive, h]
  have hfirst : (f.first ++ headerLayout.put m.header).length = lengthBytes + headerBytes := by
    simp [RawFrame.first, lengthBytes]
  have hfilled := redact_framed hfirst hspans t
  rw [List.append_assoc, List.append_assoc, ← hpayload, ← hbody] at hfilled
  unfold dumpReceived received
  rw [hsensitive]
  cases hs : receivedSensitive m with
  | nil =>
    rw [hs] at hfilled
    have hsame : f.body =
        headerLayout.put m.header ++ (flat (pieces.map fun p => p.filled star) ++ t) :=
      List.append_cancel_left hfilled
    rw [← hsame]
    rfl
  | cons span rest =>
    rw [hs] at hfilled
    have hnonempty : (framed (span :: rest)).isEmpty = false := rfl
    rw [hnonempty, if_neg Bool.false_ne_true, hfilled, record_append]

/-! ## What is claimed -/

/-- Two Declares that differ only in the bytes of their host paths. -/
def Declare.SameButPaths (v v' : Declare) : Prop :=
  v.tableFullPath.length = v'.tableFullPath.length ∧ v.vpxAppPath.length = v'.vpxAppPath.length ∧
    v.prefsPath.length = v'.prefsPath.length ∧
    { v with tableFullPath := v'.tableFullPath, vpxAppPath := v'.vpxAppPath,
             prefsPath := v'.prefsPath } = v'

/-- Two slots that differ only in the bytes of their deeplinks. -/
def PlayerSlot.SameButLink (s s' : PlayerSlot) : Prop :=
  s.claimDeeplink.length = s'.claimDeeplink.length ∧
    { s with claimDeeplink := s'.claimDeeplink } = s'

/-- Two tables that differ only in the bytes of their deeplinks. -/
def Players.SameButLinks (v v' : Players) : Prop :=
  List.Forall₂ PlayerSlot.SameButLink v.slots v'.slots

/-- Two pictures that differ only in the bytes of their paths. -/
def PlayerPicture.SameButPath (v v' : PlayerPicture) : Prop :=
  v.path.length = v'.path.length ∧ { v with path := v'.path } = v'

/-- Two received Players or PlayerPicture requests that differ only in what is sensitive, or of
which neither decodes. What a payload holds past its value is the same. -/
inductive Alike : Message → Message → Prop
  | players {header : Header} {p p' : Bytes} {v v' : Players}
      (hrequest : header.isResponse = false) (htype : header.type = typePlayers)
      (hdecode : Players.decode p = some v) (hdecode' : Players.decode p' = some v')
      (hsame : v.SameButLinks v') (hrest : p.drop v.size = p'.drop v'.size) :
      Alike ⟨header, p⟩ ⟨header, p'⟩
  | picture {header : Header} {p p' : Bytes} {v v' : PlayerPicture}
      (hrequest : header.isResponse = false) (htype : header.type = typePlayerPicture)
      (hdecode : PlayerPicture.decode p = some v) (hdecode' : PlayerPicture.decode p' = some v')
      (hsame : v.SameButPath v') (hrest : p.drop v.size = p'.drop v'.size) :
      Alike ⟨header, p⟩ ⟨header, p'⟩
  | unreadablePlayers {header : Header} {p p' : Bytes} (hrequest : header.isResponse = false)
      (htype : header.type = typePlayers) (hdecode : Players.decode p = none)
      (hdecode' : Players.decode p' = none) (hlen : p.length = p'.length) :
      Alike ⟨header, p⟩ ⟨header, p'⟩
  | unreadablePicture {header : Header} {p p' : Bytes} (hrequest : header.isResponse = false)
      (htype : header.type = typePlayerPicture) (hdecode : PlayerPicture.decode p = none)
      (hdecode' : PlayerPicture.decode p' = none) (hlen : p.length = p'.length) :
      Alike ⟨header, p⟩ ⟨header, p'⟩

/-- The payload of the frame a record shows is that of the message, read as `w`. -/
def ShowsAs {α : Type} (decode : Bytes → Option α) (header : Header) (w : α) (out : Bytes) : Prop :=
  ∃ p, decodeBody ((recorded out).drop lengthBytes) = some ⟨header, p⟩ ∧ decode p = some w

/-- **What the dump conceals, and what it shows.** -/
structure DumpConceals (micros : UInt64) : Prop where
  /-- Declares that differ only in their host paths are recorded alike. -/
  declare : ∀ (header : Header) (peerMinor : UInt16) (v v' : Declare), v.SameButPaths v' →
    dumpDeclare micros header v peerMinor = dumpDeclare micros header v' peerMinor
  /-- So are requests that differ only in what is sensitive. -/
  request : ∀ (f f' : RawFrame) (m m' : Message), decodeBody f.body = some m →
    decodeBody f'.body = some m' → Alike m m' → dumpReceived micros f = dumpReceived micros f'
  /-- A message sent is recorded at its length, and as it is outside the marks. -/
  sent : ∀ (m : Message) (sensitive : List SensitiveSpan), encodeMessage m ≠ [] →
    Records (encodeMessage m) (framed sensitive) (dumpSent micros m sensitive)
  /-- So is a frame received. -/
  received : ∀ f : RawFrame, Records f.bytes f.sensitive (dumpReceived micros f)
  /-- A Declare that decodes is shown with its host paths starred. -/
  showsDeclare : ∀ (header : Header) (peerMinor : UInt16) (v u : Declare),
    Declare.decode (v.encode peerMinor) = some u →
    ShowsAs Declare.decode header u.starred (dumpDeclare micros header v peerMinor)
  /-- A Players that decodes is shown with its deeplinks starred. -/
  showsPlayers : ∀ (f : RawFrame) (m : Message) (v : Players), decodeBody f.body = some m →
    m.header.isResponse = false → m.header.type = typePlayers →
    Players.decode m.payload = some v →
    ShowsAs Players.decode m.header v.starred (dumpReceived micros f)
  /-- A PlayerPicture that decodes is shown with its path starred. -/
  showsPicture : ∀ (f : RawFrame) (m : Message) (v : PlayerPicture), decodeBody f.body = some m →
    m.header.isResponse = false → m.header.type = typePlayerPicture →
    PlayerPicture.decode m.payload = some v →
    ShowsAs PlayerPicture.decode m.header v.starred (dumpReceived micros f)

/-! ## It holds -/

/-- Such Declares are starred alike. -/
theorem Declare.SameButPaths.starred_eq {v v' : Declare} (h : v.SameButPaths v') :
    v.starred = v'.starred := by
  obtain ⟨htable, happ, hprefs, hsame⟩ := h
  rw [← hsame]
  simp [Declare.starred, stars, htable, happ, hprefs]

/-- So are such tables. -/
theorem Players.SameButLinks.starred_eq {v v' : Players} (h : v.SameButLinks v') :
    v.starred = v'.starred := by
  obtain ⟨slots⟩ := v
  obtain ⟨slots'⟩ := v'
  simp only [Players.SameButLinks] at h
  simp only [Players.starred, Players.mk.injEq]
  induction h with
  | nil => rfl
  | cons hslot _ ih =>
    obtain ⟨hlen, hsame⟩ := hslot
    rw [List.map_cons, List.map_cons, ih, ← hsame]
    simp [PlayerSlot.starred, stars, hlen]

/-- And such pictures. -/
theorem PlayerPicture.SameButPath.starred_eq {v v' : PlayerPicture} (h : v.SameButPath v') :
    v.starred = v'.starred := by
  obtain ⟨hlen, hsame⟩ := h
  rw [← hsame]
  simp [PlayerPicture.starred, stars, hlen]

/-- The marks of a Players that decodes. -/
theorem receivedSensitive_players {m : Message} (hrequest : m.header.isResponse = false)
    (htype : m.header.type = typePlayers) {v : Players} (h : Players.decode m.payload = some v) :
    (receivedSensitive m).map SensitiveSpan.pair = spans 0 v.pieces := by
  have hne : m.payload.isEmpty = false := by
    have hpayload := (Players.of_decode h).2
    rw [hpayload]
    simp [Players.pieces, Layout.putLE]
  obtain ⟨⟨w, s⟩, hdecoded, rfl⟩ := Option.map_eq_some_iff.mp h
  have hmarks : receivedSensitive m = s := by
    simp [receivedSensitive, hrequest, hne, htype, hdecoded]
  rw [hmarks]
  exact Players.decodeSensitive_pieces hdecoded

/-- The mark of a PlayerPicture that decodes.

**Proof sketch.** It is not empty and no Players, so the marks are those that its decoder recorded,
and these are at its pieces. -/
theorem receivedSensitive_picture {m : Message} (hrequest : m.header.isResponse = false)
    (htype : m.header.type = typePlayerPicture) {v : PlayerPicture}
    (h : PlayerPicture.decode m.payload = some v) :
    (receivedSensitive m).map SensitiveSpan.pair = spans 0 v.pieces := by
  have hne : m.payload.isEmpty = false := by
    have hpayload := (PlayerPicture.of_decode h).2
    rw [hpayload]
    simp [PlayerPicture.pieces]
  have hother : typePlayerPicture ≠ typePlayers := by decide
  obtain ⟨⟨w, s⟩, hdecoded, rfl⟩ := Option.map_eq_some_iff.mp h
  have hmarks : receivedSensitive m = s := by
    simp [receivedSensitive, hrequest, hne, htype, hother, hdecoded]
  rw [hmarks]
  exact PlayerPicture.decodeSensitive_pieces hdecoded

/-- Of a request that does not decode everything is marked.

**Proof sketch.** Either the payload is empty and there is nothing to mark, or the one mark covers
it from its first byte to its last. -/
theorem receivedSensitive_unreadable {m : Message} (hrequest : m.header.isResponse = false)
    (h : (m.header.type = typePlayers ∧ Players.decode m.payload = none) ∨
      (m.header.type = typePlayerPicture ∧ PlayerPicture.decode m.payload = none)) :
    (receivedSensitive m).map SensitiveSpan.pair = spans 0 [⟨true, m.payload⟩] := by
  cases hempty : m.payload.isEmpty with
  | true => simp [receivedSensitive, hrequest, hempty, spans]
  | false =>
    have hother : typePlayerPicture ≠ typePlayers := by decide
    have hmarks : receivedSensitive m = [⟨0, m.payload.length⟩] := by
      rcases h with ⟨htype, hdecode⟩ | ⟨htype, hdecode⟩
      · have hnone := Option.map_eq_none_iff.mp hdecode
        simp [receivedSensitive, hrequest, hempty, htype, hnone]
      · have hnone := Option.map_eq_none_iff.mp hdecode
        simp [receivedSensitive, hrequest, hempty, htype, hother, hnone]
    simp [hmarks, spans, hempty, SensitiveSpan.pair]

/-- Payloads that are filled alike are recorded alike.

**Proof sketch.** Filled alike, the payloads are of one length, so the frames announce the same; and
what is recorded is made of what is filled. -/
theorem dumpReceived_congr (micros : UInt64) {f f' : RawFrame} {header : Header} {p p' t : Bytes}
    (h : decodeBody f.body = some ⟨header, p⟩) (h' : decodeBody f'.body = some ⟨header, p'⟩)
    {pieces pieces' : List (Piece UInt8)} (hp : p = flat pieces ++ t) (hp' : p' = flat pieces' ++ t)
    (hspans : (receivedSensitive ⟨header, p⟩).map SensitiveSpan.pair = spans 0 pieces)
    (hspans' : (receivedSensitive ⟨header, p'⟩).map SensitiveSpan.pair = spans 0 pieces')
    (hfilled : pieces.map (fun p => p.filled star) = pieces'.map fun p => p.filled star) :
    dumpReceived micros f = dumpReceived micros f' := by
  have hflat : ∀ pieces : List (Piece UInt8),
      (flat (pieces.map fun p => p.filled star)).length = (flat pieces).length := by
    intro pieces
    simp [flat, List.length_flatMap, Function.comp_def]
  have hlen : p.length = p'.length := by
    rw [hp, hp', List.length_append, List.length_append, ← hflat pieces, ← hflat pieces', hfilled]
  have hfirst : f.first = f'.first := by
    rw [RawFrame.first, RawFrame.first, f.body_eq h, f'.body_eq h', List.length_append,
      List.length_append, hlen]
  rw [dumpReceived_eq micros h hp hspans, dumpReceived_eq micros h' hp' hspans', hfirst, hfilled]

/-- Such requests are recorded alike.

**Proof sketch.** By the kind of the request. Each is in pieces with its marks, and two that are
alike have the same pieces once they are filled. -/
theorem Alike.dumpReceived_eq {micros : UInt64} {f f' : RawFrame} {m m' : Message}
    (h : decodeBody f.body = some m) (h' : decodeBody f'.body = some m') (halike : Alike m m') :
    dumpReceived micros f = dumpReceived micros f' := by
  cases halike with
  | players hrequest htype hdecode hdecode' hsame hrest =>
    refine dumpReceived_congr micros h h' (Players.of_decode hdecode).2 ?_
      (receivedSensitive_players hrequest htype hdecode)
      (receivedSensitive_players hrequest htype hdecode') ?_
    · rw [hrest]
      exact (Players.of_decode hdecode').2
    · rw [Players.filled_pieces, Players.filled_pieces, hsame.starred_eq]
  | picture hrequest htype hdecode hdecode' hsame hrest =>
    refine dumpReceived_congr micros h h' (PlayerPicture.of_decode hdecode).2 ?_
      (receivedSensitive_picture hrequest htype hdecode)
      (receivedSensitive_picture hrequest htype hdecode') ?_
    · rw [hrest]
      exact (PlayerPicture.of_decode hdecode').2
    · rw [PlayerPicture.filled_pieces, PlayerPicture.filled_pieces, hsame.starred_eq]
  | unreadablePlayers hrequest htype hdecode hdecode' hlen =>
    refine dumpReceived_congr (t := []) micros h h' (by simp [flat]) (by simp [flat])
      (receivedSensitive_unreadable hrequest (.inl ⟨htype, hdecode⟩))
      (receivedSensitive_unreadable hrequest (.inl ⟨htype, hdecode'⟩)) ?_
    simp [Piece.filled, hlen]
  | unreadablePicture hrequest htype hdecode hdecode' hlen =>
    refine dumpReceived_congr (t := []) micros h h' (by simp [flat]) (by simp [flat])
      (receivedSensitive_unreadable hrequest (.inr ⟨htype, hdecode⟩))
      (receivedSensitive_unreadable hrequest (.inr ⟨htype, hdecode'⟩)) ?_
    simp [Piece.filled, hlen]

/-- A record of a frame shows its payload. -/
theorem decodeBody_recorded (direction : UInt8) (micros : UInt64) {first : Bytes}
    (hfirst : first.length = lengthBytes) (header : Header) (p : Bytes) :
    decodeBody ((recorded (record direction micros first (headerLayout.put header ++ p))).drop
      lengthBytes) = some ⟨header, p⟩ := by
  rw [(drop_record direction micros first _).2, List.drop_left' hfirst, decodeBody_put]

/-- A received frame whose payload reads as pieces of `v`, and whose starred pieces still do. -/
theorem showsAs_dumpReceived {α : Type} {decode : Bytes → Option α} (micros : UInt64) {f : RawFrame}
    {m : Message} (h : decodeBody f.body = some m) {pieces : List (Piece UInt8)} {t : Bytes}
    (hpayload : m.payload = flat pieces ++ t)
    (hspans : (receivedSensitive m).map SensitiveSpan.pair = spans 0 pieces) {w : α}
    (hdecode : decode (flat (pieces.map fun p => p.filled star) ++ t) = some w) :
    ShowsAs decode m.header w (dumpReceived micros f) := by
  refine ⟨_, ?_, hdecode⟩
  rw [dumpReceived_eq micros h hpayload hspans]
  exact decodeBody_recorded inward micros (by simp [RawFrame.first, lengthBytes]) _ _

/-- The starred Declare decodes to the starred value. -/
theorem Declare.decode_starred {v u : Declare} {m : UInt16}
    (h : Declare.decode (v.encode m) = some u) :
    Declare.decode (v.starred.encode m) = some u.starred := by
  have hne : v.encode m ≠ [] := by
    intro hnil
    rw [hnil] at h
    cases h
  have hne' := mt (v.starred_encode_eq_nil m).mp hne
  rw [((Declare.round_trip m v).1 hne).2] at h
  rw [((Declare.round_trip m v.starred).1 hne').2, ← Option.some.inj h]
  split <;> rfl

/-- **The dump conceals the sensitive strings, and shows the rest.**

**Proof sketch.** The spans of a Declare, as it is encoded, and of a Players and a PlayerPicture,
as they are decoded, are where the marked pieces of the payload are; those of a request that does
not decode cover all of it. Moved by the length and the header they are where the pieces are in the
frame, so the record is that of the frame with these pieces filled: the frame of the starred value,
which is the same for two values that differ in these strings only. -/
theorem dump_conceals (micros : UInt64) : DumpConceals micros where
  declare header peerMinor v v' h := by
    rw [dumpDeclare_eq, dumpDeclare_eq, h.starred_eq]
  request f f' m m' h h' halike := halike.dumpReceived_eq h h'
  sent m sensitive h := records_dumpSent micros h sensitive
  received f := records_dumpReceived micros f
  showsDeclare header peerMinor v u h := by
    have hstarred := Declare.decode_starred h
    refine ⟨v.starred.encode peerMinor, ?_, hstarred⟩
    have hfits : (v.starred.encode peerMinor).length ≤ maxPayloadBytes := by
      refine ((Declare.round_trip peerMinor v.starred).1 fun hnil => ?_).1
      rw [hnil] at hstarred
      cases hstarred
    rw [dumpDeclare_eq, encodeMessage_eq (m := ⟨header, v.starred.encode peerMinor⟩) hfits,
      record_append]
    exact decodeBody_recorded outward micros (by simp [lengthBytes]) _ _
  showsPlayers f m v h hrequest htype hdecode := by
    obtain ⟨hvalid, hpayload⟩ := Players.of_decode hdecode
    refine showsAs_dumpReceived micros h hpayload
      (receivedSensitive_players hrequest htype hdecode) ?_
    rw [Players.filled_pieces, Players.flat_pieces, Players.coding.decodes,
      Players.layout.get_put _ _ (Players.valid_starred hvalid), Option.map_some]
  showsPicture f m v h hrequest htype hdecode := by
    obtain ⟨hvalid, hpayload⟩ := PlayerPicture.of_decode hdecode
    refine showsAs_dumpReceived micros h hpayload
      (receivedSensitive_picture hrequest htype hdecode) ?_
    rw [PlayerPicture.filled_pieces, PlayerPicture.flat_pieces, PlayerPicture.coding.decodes,
      PlayerPicture.layout.get_put _ _ (PlayerPicture.valid_starred hvalid), Option.map_some]

/-- A PlayerPicture frame of player 1 with a path of three bytes. -/
def pictureFrame (a b c : UInt8) : RawFrame :=
  ⟨[67, 0, 0, 0, 9, 0, 0, 0, 1, 0, 0, 3, 0, a, b, c],
    by simp [inBounds, headerBytes, maxMessageBytes]⟩

/-- A Declare of one ROM, with the host path of its table. -/
def hostedDeclare (path : Bytes) : Declare := { romId := [109, 109], tableFullPath := path }

/-- The pictures `p/q` and `x/y` have one record, which shows the player and stars the path, and so
have two Declares with different host paths, of which the ROM is shown. -/
theorem dump_conceals_pictures :
    dumpReceived 0 (pictureFrame 112 47 113) = dumpReceived 0 (pictureFrame 120 47 121) ∧
    recorded (dumpReceived 0 (pictureFrame 112 47 113)) =
      [16, 0, 0, 0, 67, 0, 0, 0, 9, 0, 0, 0, 1, 0, 0, 3, 0, 42, 42, 42] ∧
    dumpDeclare 0 ⟨3, 0, 1⟩ (hostedDeclare [47, 97]) 1 =
      dumpDeclare 0 ⟨3, 0, 1⟩ (hostedDeclare [47, 98]) 1 ∧
    ShowsAs Declare.decode ⟨3, 0, 1⟩ (hostedDeclare [42, 42])
      (dumpDeclare 0 ⟨3, 0, 1⟩ (hostedDeclare [47, 97]) 1) := by
  have hconceals := dump_conceals 0
  refine ⟨?_, by decide +kernel, ?_, ?_⟩
  · have hdecode : PlayerPicture.decode [1, 0, 0, 3, 0, 112, 47, 113] =
        some ⟨1, [], [112, 47, 113]⟩ := by decide +kernel
    have hdecode' : PlayerPicture.decode [1, 0, 0, 3, 0, 120, 47, 121] =
        some ⟨1, [], [120, 47, 121]⟩ := by decide +kernel
    exact hconceals.request _ _ ⟨⟨67, 0, 9⟩, _⟩ ⟨⟨67, 0, 9⟩, _⟩ (by decide +kernel)
      (by decide +kernel) (.picture rfl rfl hdecode hdecode' ⟨rfl, rfl⟩ (by decide +kernel))
  · exact hconceals.declare _ _ _ _ ⟨rfl, rfl, rfl, rfl⟩
  · exact hconceals.showsDeclare _ _ _ (hostedDeclare [47, 97]) (by decide +kernel)

end Wire
