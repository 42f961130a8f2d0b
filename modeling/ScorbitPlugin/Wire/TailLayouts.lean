import ScorbitPlugin.Wire.GameLayouts

set_option relaxedAutoImplicit false
set_option autoImplicit false

/-!
# Layouts with a tail

A Declare ends in the fields of minor 1, and a Status in the one of minor 2, when their sender
knows them; the payload of an overlay request is whatever follows its op. The overlay control
belongs here as the one payload with a big-endian field.

## Main definitions

* `Wire.Declare.layout`, `Wire.Status.layout` — the heads and the tails.

## Main results

* `Wire.Declare.encodes`, `Wire.Declare.decode_eq`, `Wire.Status.encodes`, `Wire.Status.decode_eq`
  — both sides keep to them.
* `Wire.OverlayControl.coding`, `Wire.OverlayRequest.encodes`, `Wire.OverlayRequest.decode_eq`.
-/

namespace Wire

open Codec

/-! ## Declare -/

/-- The strings of a Declare up to `identifyFormat` fit their lengths. -/
def Declare.headFits (v : Declare) : Prop :=
  shortStrings [v.romId, v.tablePath, v.vpxVersion, v.vpxRevision, v.identifyFormat]

/-- The strings of a Declare after `identifyFormat` fit their lengths. -/
def Declare.tailFits (v : Declare) : Prop :=
  shortStrings [v.machineUuid, v.tableFullPath, v.vpxAppPath, v.prefsPath]

/-- The bytes of a Declare up to `identifyFormat`. -/
def Declare.headSize (v : Declare) : ℕ :=
  strBytes v.romId + strBytes v.tablePath + strBytes v.vpxVersion + strBytes v.vpxRevision + 9
    + strBytes v.identifyFormat

/-- The bytes of a Declare after `identifyFormat`. -/
def Declare.tailSize (v : Declare) : ℕ :=
  1 + strBytes v.machineUuid + strBytes v.tableFullPath + strBytes v.vpxAppPath
    + strBytes v.prefsPath

/-- A Declare with the fields of minor 1 at their defaults. -/
def Declare.minor0 (v : Declare) : Declare :=
  { v with tableKind := tableRom, machineUuid := [], tableFullPath := [], vpxAppPath := [],
           prefsPath := [] }

/-- The fields of a Declare up to `identifyFormat`. -/
def Declare.headLayout :
    Layout (Bytes × Bytes × Bytes × Bytes × UInt16 × UInt16 × UInt8 × UInt32 × Bytes) :=
  str.pair <| str.pair <| str.pair <| str.pair <| Layout.u16.pair <| Layout.u16.pair <|
    Layout.u8.pair <| Layout.u32.pair str

/-- The fields of a Declare after `identifyFormat`. -/
def Declare.tailLayout : Layout (UInt8 × Bytes × Bytes × Bytes × Bytes) :=
  Layout.u8.pair <| str.pair <| str.pair <| str.pair str

/-- The tail of a Declare is not empty. -/
theorem Declare.put_tailLayout (a : UInt8 × Bytes × Bytes × Bytes × Bytes) :
    Declare.tailLayout.put a ≠ [] := by
  simp [Declare.tailLayout]

/-- The layout of a Declare: its tail is there when its sender knows minor 1. -/
def Declare.layout : Tailed Declare :=
  .ofFields Declare.headLayout Declare.tailLayout
    (fun (a, b, c, d, e, f, g, h, i) => ⟨a, b, c, d, e, f, g, h, i, tableRom, [], [], [], []⟩)
    (fun ((a, b, c, d, e, f, g, h, i), j, k, l, m, n) => ⟨a, b, c, d, e, f, g, h, i, j, k, l, m, n⟩)
    (fun v => (v.romId, v.tablePath, v.vpxVersion, v.vpxRevision, v.width, v.height, v.shades,
      v.sourceGeneration, v.identifyFormat))
    (fun v => (v.tableKind, v.machineUuid, v.tableFullPath, v.vpxAppPath, v.prefsPath))
    (fun _ => rfl) (fun _ => rfl) Declare.put_tailLayout

/-- Recording where the paths go does not change what is written. -/
theorem Declare.encode_eq (v : Declare) (peerMinor : UInt16) :
    v.encode peerMinor = (v.write peerMinor).1.finish := by
  simp only [Declare.encode, Declare.encodeSensitive, Writer.finish]
  split_ifs <;> rfl

/-- `Encode` to a peer of minor 0 writes the head. -/
theorem Declare.encodes_head (v : Declare) {m : UInt16} (h : ¬ m ≥ 1) :
    Bounded maxPayloadBytes v.headFits (Declare.layout.head.put v) (v.encode m) := by
  rw [Declare.encode_eq, Declare.write, if_neg h]
  refine Bounded.congr (Writer.Wrote.new.str _ |>.str _ |>.str _ |>.str _ |>.u16 _ |>.u16 _
    |>.u8 _ |>.u32 _ |>.str _ |>.finish) ?_ ?_
  · simp [Declare.headFits, shortStrings, and_assoc, Nat.lt_succ_iff]
  · simp [Declare.layout, Tailed.ofFields, Declare.headLayout]

/-- `Encode` to a peer of minor 1 on writes the head and the tail. -/
theorem Declare.encodes_full (v : Declare) {m : UInt16} (h : m ≥ 1) :
    Bounded maxPayloadBytes (v.headFits ∧ v.tailFits) (Declare.layout.full.put v)
      (v.encode m) := by
  rw [Declare.encode_eq, Declare.write, if_pos h]
  refine Bounded.congr (Writer.Wrote.new.str _ |>.str _ |>.str _ |>.str _ |>.u16 _ |>.u16 _
    |>.u8 _ |>.u32 _ |>.str _ |>.u8 _ |>.str _ |>.str _ |>.str _ |>.str _ |>.finish) ?_ ?_
  · simp [Declare.headFits, Declare.tailFits, shortStrings, and_assoc, Nat.lt_succ_iff]
  · simp [Declare.layout, Tailed.ofFields, Declare.headLayout, Declare.tailLayout]

/-- The fields of a Declare are read as its layout says. -/
theorem Declare.decode_eq (p : Bytes) : Declare.decode p = Declare.layout.get p := by
  rw [Declare.layout, Tailed.get_ofFields, Declare.headLayout, Declare.tailLayout, Declare.decode]
  refine Reads.run (.field .str fun _ => .field .str fun _ => .field .str fun _ =>
    .field .str fun _ => .field .u16 fun _ => .field .u16 fun _ => .field .u8 fun _ =>
    .field .u32 fun _ => .last .str fun _ => ?_) p
  exact .atEnd (.pure _) (.field .u8 fun _ => .field .str fun _ => .field .str fun _ =>
    .field .str fun _ => .last .str fun _ => .pure _)

/-- A Declare without its tail is in the layout exactly if its strings fit. -/
theorem Declare.valid_head (v : Declare) :
    Declare.layout.head.valid v ↔ v.headFits ∧ v.minor0 = v := by
  simp [Declare.layout, Tailed.ofFields, Declare.headLayout, Declare.headFits, Declare.minor0,
    shortStrings, and_assoc]

/-- A Declare is in the layout exactly if its strings fit. -/
theorem Declare.valid_full (v : Declare) :
    Declare.layout.full.valid v ↔ v.headFits ∧ v.tailFits := by
  simp [Declare.layout, Tailed.ofFields, Declare.headLayout, Declare.tailLayout, Declare.headFits,
    Declare.tailFits, shortStrings, and_assoc]

/-- The head of a Declare takes as many bytes as its size says. -/
theorem Declare.length_head (v : Declare) :
    (Declare.layout.head.put v).length = v.headSize := by
  simp [Declare.layout, Tailed.ofFields, Declare.headLayout, Declare.headSize, strBytes]
  omega

/-- A Declare takes as many bytes as its size says. -/
theorem Declare.length_full (v : Declare) :
    (Declare.layout.full.put v).length = v.headSize + v.tailSize := by
  simp [Declare.layout, Tailed.ofFields, Declare.headLayout, Declare.tailLayout, Declare.headSize,
    Declare.tailSize, strBytes]
  omega

/-! ## Status -/

/-- What is carried of a Status: without an `authStatus`, none of it. -/
def Status.carried (v : Status) : Status :=
  if v.hasAuthStatus then v else { v with authStatus := 0 }

/-- The bytes a Status takes. -/
def Status.size (v : Status) : ℕ :=
  2 + strBytes v.supportText + if v.hasAuthStatus then 1 else 0

/-- A Status without its `authStatus`. -/
def Status.withoutAuth (v : Status) : Status := { v with hasAuthStatus := false, authStatus := 0 }

/-- A decoder takes the support text and the `authStatus`, if there is one. -/
def Status.readable (v : Status) : Bool :=
  v.supportText.length ≤ maxSupportTextBytes && !(v.hasAuthStatus && v.authStatus > authFailed)

/-- The fields of a Status up to the support text, which a decoder bounds. -/
def Status.headLayout : Layout (UInt8 × UInt8 × Bytes) :=
  (Layout.u8.pair <| Layout.u8.pair str).filter fun a => a.2.2.length ≤ maxSupportTextBytes

/-- The `authStatus` of a Status, which a decoder bounds. -/
def Status.tailLayout : Layout UInt8 := Layout.u8.filter fun a => a ≤ authFailed

/-- The tail of a Status is not empty. -/
theorem Status.put_tailLayout (a : UInt8) : Status.tailLayout.put a ≠ [] := by
  simp [Status.tailLayout]

/-- The layout of a Status as its decoder takes it: its tail is there when its sender had an
`authStatus`. -/
def Status.layout : Tailed Status :=
  .ofFields Status.headLayout Status.tailLayout (fun (a, b, c) => ⟨a, b, c, false, 0⟩)
    (fun ((a, b, c), d) => ⟨a, b, c, true, d⟩)
    (fun v => (v.sessionState, v.systemState, v.supportText)) (fun v => v.authStatus)
    (fun _ => rfl) (fun _ => rfl) Status.put_tailLayout

/-- `Encode` writes the head, and the tail if the status has an `authStatus`. -/
theorem Status.encodes (v : Status) : Bounded maxPayloadBytes (shortStrings [v.supportText])
    (if v.hasAuthStatus then Status.layout.full.put v else Status.layout.head.put v) v.encode := by
  have h := Writer.Wrote.new.u8 v.sessionState |>.u8 v.systemState |>.str v.supportText
  unfold Status.encode
  rcases hauth : v.hasAuthStatus with _ | _
  · simp only [Bool.false_eq_true, if_false]
    refine h.finish.congr ?_ ?_
    · simp [shortStrings, Nat.lt_succ_iff]
    · simp [Status.layout, Tailed.ofFields, Status.headLayout]
  · simp only [if_true]
    refine (h.u8 v.authStatus).finish.congr ?_ ?_
    · simp [shortStrings, Nat.lt_succ_iff]
    · simp [Status.layout, Tailed.ofFields, Status.headLayout, Status.tailLayout]

/-- The head of a Status is read and then checked. -/
theorem Status.andThen_headLayout {γ : Type}
    (k : UInt8 × UInt8 × Bytes → Bytes → Option (γ × Bytes)) :
    Status.headLayout.andThen k = (Layout.u8.pair (Layout.u8.pair str)).andThen fun a t =>
      if a.2.2.length ≤ maxSupportTextBytes then k a t else none := by
  funext b
  rcases hb : (Layout.u8.pair (Layout.u8.pair str)).get b with _ | ⟨a, t⟩
  · simp [Status.headLayout, Layout.andThen, Layout.filter, hb]
  · by_cases hlen : a.2.2.length ≤ maxSupportTextBytes <;>
      simp [Status.headLayout, Layout.andThen, Layout.filter, Option.filter, hb, hlen]

/-- The tail of a Status is read and then checked. -/
theorem Status.andThen_tailLayout {γ : Type} (k : UInt8 → Bytes → Option (γ × Bytes)) :
    Status.tailLayout.andThen k =
      Layout.u8.andThen fun a t => if a ≤ authFailed then k a t else none := by
  funext b
  rcases hb : Layout.u8.get b with _ | ⟨a, t⟩
  · simp [Status.tailLayout, Layout.andThen, Layout.filter, hb]
  · by_cases ha : a ≤ authFailed <;>
      simp [Status.tailLayout, Layout.andThen, Layout.filter, Option.filter, hb, ha]

/-- From a peer of minor 2 on, the head is read and the tail if there is one. -/
theorem Status.decode_eq (p : Bytes) {peerMinor : UInt16} (h : peerMinor ≥ 2) :
    Status.decode p peerMinor = Status.layout.get p := by
  rw [Status.layout, Tailed.get_ofFields, Status.andThen_headLayout]
  simp only [Status.decode, h, decide_true, Bool.true_and]
  refine Reads.run (.field .u8 fun _ => .field .u8 fun _ => .last .str fun text => ?_) p
  simp only [pure_bind]
  refine .congr (.atEnd (.check _ (.pure _)) (.last .u8 fun _ => .check _ (.check _ (.pure _))))
    fun b => ?_
  by_cases hlen : text.length ≤ maxSupportTextBytes
  · simp [hlen, Status.andThen_tailLayout]
  · simp [hlen, Layout.andThen]

/-- From a peer below minor 2 only the head is read. -/
theorem Status.decode_eq_head (p : Bytes) {peerMinor : UInt16} (h : ¬ peerMinor ≥ 2) :
    Status.decode p peerMinor = (Status.layout.head.get p).map Prod.fst := by
  rw [Status.layout, Tailed.ofFields, Layout.get_map, Status.andThen_headLayout]
  simp only [Status.decode, h, decide_false, Bool.false_and]
  refine Reads.run (.field .u8 fun _ => .field .u8 fun _ => .last .str fun text => ?_) p
  simp only [pure_bind]
  exact .congr (.atEnd (.check _ (.pure _)) (.check _ (.pure _))) fun b => by simp

/-- A Status without an `authStatus` is in the layout exactly if its support text is bounded. -/
theorem Status.valid_head (v : Status) : Status.layout.head.valid v ↔
    v.supportText.length ≤ maxSupportTextBytes ∧ v.withoutAuth = v := by
  have hshort : v.supportText.length ≤ maxSupportTextBytes → v.supportText.length ≤ 0xFFFF :=
    fun h => h.trans (by decide)
  simpa [Status.layout, Tailed.ofFields, Status.headLayout, Status.withoutAuth] using
    fun _ h => hshort h

/-- A Status with an `authStatus` is in the layout exactly if it is readable. -/
theorem Status.valid_full (v : Status) : Status.layout.full.valid v ↔
    v.hasAuthStatus = true ∧ v.readable = true := by
  obtain ⟨a, b, text, auth, status⟩ := v
  have hshort : text.length ≤ maxSupportTextBytes → text.length ≤ 0xFFFF :=
    fun h => h.trans (by decide)
  simp only [Status.layout, Tailed.ofFields, Status.headLayout, Status.tailLayout,
    Layout.valid_map, Layout.valid_pair, Layout.valid_filter, Layout.valid_u8, valid_str,
    Status.readable, Status.mk.injEq, true_and, and_true, decide_eq_true_eq, Bool.and_eq_true]
  rcases auth with _ | _
  · simp
  · simpa [and_comm] using fun _ h => hshort h

/-- The bytes of a Status are those of its head, and one more if it has an `authStatus`. -/
theorem Status.put_eq (v : Status) :
    (if v.hasAuthStatus then Status.layout.full.put v else Status.layout.head.put v) =
      Status.layout.head.put v ++ if v.hasAuthStatus then [v.authStatus] else [] := by
  rcases hauth : v.hasAuthStatus with _ | _ <;>
    simp [Status.layout, Tailed.ofFields, Status.headLayout, Status.tailLayout]

/-- No decoder reads a Status whose support text is over the bound. -/
theorem Status.get_of_long {v : Status} (hshort : shortStrings [v.supportText])
    (hlong : ¬ v.supportText.length ≤ maxSupportTextBytes) (t : Bytes) :
    Status.layout.head.get (Status.layout.head.put v ++ t) = none := by
  have hfilter := Layout.get_filter_of_not (Layout.u8.pair (Layout.u8.pair str))
    (p := fun a => a.2.2.length ≤ maxSupportTextBytes) (v := (v.sessionState, v.systemState,
      v.supportText)) (by simpa [shortStrings] using hshort) (by simpa using hlong) t
  simp only [Status.layout, Tailed.ofFields, Layout.map, Status.headLayout, Option.map_eq_none_iff]
  exact hfilter

/-- No decoder of minor 2 on reads a Status that is not readable.

**Proof sketch.** Either the text is too long for the head, or the head is read and the byte behind
it is no `authStatus`. -/
theorem Status.get_of_unreadable {v : Status} (hshort : shortStrings [v.supportText])
    (hread : v.readable = false) : Status.layout.get (Status.layout.head.put v ++
      if v.hasAuthStatus then [v.authStatus] else []) = none := by
  by_cases hlong : v.supportText.length ≤ maxSupportTextBytes
  · have hauth : v.hasAuthStatus = true ∧ ¬ v.authStatus ≤ authFailed := by
      simpa [Status.readable, hlong] using hread
    have hhead : Status.headLayout.get (Status.headLayout.put (v.sessionState, v.systemState,
        v.supportText) ++ [v.authStatus]) =
          some ((v.sessionState, v.systemState, v.supportText), [v.authStatus]) :=
      Status.headLayout.get_put _ _ ⟨by simpa [shortStrings] using hshort, by simpa using hlong⟩
    have htail : Status.tailLayout.get [v.authStatus] = none :=
      Layout.get_filter_of_not Layout.u8 (v := v.authStatus) trivial (decide_eq_false hauth.2) []
    rw [if_pos hauth.1]
    simp only [Status.layout, Tailed.get, Tailed.ofFields, Layout.map, Layout.pair, Layout.bind,
      hhead, htail, Option.map_some, Option.map_none, Option.bind_some]
  · rw [Tailed.get, Status.get_of_long hshort hlong]

/-! ## Overlay -/

/-- The two bytes of the one big-endian field, joined. -/
theorem join_big (hi lo : UInt8) :
    (hi.toUInt16 <<< 8) ||| lo.toUInt16 = UInt16.ofNat (lo.toNat + 256 * hi.toNat) := by
  rw [UInt16.or_comm, Reads.join_u16]
  simp

/-- The high byte of a 16-bit word. -/
theorem toNat_high (v : UInt16) : (v >>> 8).toUInt8.toNat = v.toNat / 256 := by
  have hv := v.toNat_lt
  simp [Nat.shiftRight_eq_div_pow]
  omega

/-- The low byte of a 16-bit word. -/
theorem toNat_low (v : UInt16) : (v &&& 0xFF).toUInt8.toNat = v.toNat % 256 := by
  have hand : v.toNat % 256 &&& 255 = v.toNat % 256 % 256 := Nat.and_two_pow_sub_one_eq_mod _ 8
  simp [hand]

/-- The layout of an `OverlayControl`: the duration has its high byte first. -/
def OverlayControl.layout : Layout OverlayControl :=
  (Layout.u8.pair <| Layout.u8.pair Layout.u8).map
    (fun p => ⟨p.1, (p.2.1.toUInt16 <<< 8) ||| p.2.2.toUInt16⟩)
    (fun v => (v.control, (v.durationMs >>> 8).toUInt8, (v.durationMs &&& 0xFF).toUInt8))
    fun (a, hi, lo) _ => by
      have hhi := hi.toNat_lt
      have hlo := lo.toNat_lt
      simp only [join_big, Prod.mk.injEq, true_and, ← UInt8.toNat_inj, toNat_high, toNat_low,
        UInt16.toNat_ofNat']
      omega

/-- `OverlayControl` keeps to its layout.

**Proof sketch.** The duration is written high byte first; the layout takes the two bytes and joins
them to the duration again. -/
theorem OverlayControl.coding : Coding maxPayloadBytes OverlayControl.encode OverlayControl.decode
    OverlayControl.layout id (fun _ => True) fun _ => 3 := by
  refine .plain (fun v => ?_) (fun p => ?_) (fun v => ?_) ?_ ?_
  · refine Bounded.congr (Writer.Wrote.new.u8 _ |>.u8 _ |>.u8 _ |>.finish) Iff.rfl ?_
    simp [OverlayControl.layout]
  · refine Reads.run ?_ p
    rw [OverlayControl.layout, Layout.get_map]
    exact .field .u8 fun _ => .field .u8 fun _ => .last .u8 fun _ => .pure _
  · have hjoin : ((v.durationMs >>> 8).toUInt8.toUInt16 <<< 8) |||
        (v.durationMs &&& 0xFF).toUInt8.toUInt16 = v.durationMs := by
      have hv := v.durationMs.toNat_lt
      rw [join_big, ← UInt16.toNat_inj, toNat_high, toNat_low, UInt16.toNat_ofNat']
      omega
    simp only [OverlayControl.layout, Layout.valid_map, Layout.valid_pair, Layout.valid_u8, hjoin,
      and_self]
  · simp [OverlayControl.layout]
  · simp

/-- `Encode` writes the op and the payload as they stand. -/
theorem OverlayRequest.encodes (v : OverlayRequest) :
    Bounded maxPayloadBytes True (v.op :: v.payload) v.encode := by
  refine Bounded.congr (Writer.Wrote.new.u8 _ |>.bytes _ |>.finish) Iff.rfl ?_
  simp

/-- `Decode` takes any string with an op. -/
theorem OverlayRequest.decode_eq (p : Bytes) :
    OverlayRequest.decode p = p.head?.map fun op => ⟨op, p.drop 1⟩ := by
  rcases p with _ | ⟨x, t⟩ <;> simp [OverlayRequest.decode, Reader.run, Reader.u8]

end Wire
