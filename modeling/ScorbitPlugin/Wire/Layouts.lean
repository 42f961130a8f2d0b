import Mathlib.Algebra.Order.BigOperators.Group.List
import ScorbitPlugin.Wire.Codec

set_option relaxedAutoImplicit false
set_option autoImplicit false

/-!
# Layouts of the session and memory payloads

For each payload type, the layout it has on the wire, what it takes for a value to fit it and how
many bytes it takes, and the proof that `Encode` and `Decode` keep to that layout.

## Main definitions

* `Wire.Hello.layout` … `Wire.NvRamParameters.layout`, with `fits` and `size` beside each.
* `Wire.shortStrings`, `Wire.str` — the strings of the wire format.

## Main results

* `Wire.Hello.coding` … `Wire.NvRamParameters.coding` — each type keeps to its layout.
* `Wire.Writer.Wrote.each`, `Wire.Reads.each` — lists, written and read.
* `Wire.Reads.guard` — the checks of a count against what remains refuse nothing the layout takes.
-/

namespace Wire

open Codec

/-! ## Lists and checks -/

/-- Writing the elements of a list one after another appends them in order. -/
theorem Writer.Wrote.each {α : Type} {f : Writer → α → Writer} {P : α → Prop} {g : α → Bytes}
    (hf : ∀ {w : Writer} {c : Prop} {b : Bytes} (a : α), Writer.Wrote w c b →
      Writer.Wrote (f w a) (c ∧ P a) (b ++ g a)) :
    ∀ (l : List α) {w : Writer} {c : Prop} {b : Bytes}, Writer.Wrote w c b →
      Writer.Wrote (w.each l f) (c ∧ ∀ a ∈ l, P a) (b ++ l.flatMap g)
  | [], w, c, b, h => by simpa [Writer.each] using h
  | a :: l, w, c, b, h => by
    have hl := Writer.Wrote.each hf l (hf a h)
    simpa [Writer.each, and_assoc] using hl

/-- A 16-bit count and the elements it counts. -/
theorem Writer.Wrote.counted16 {α : Type} {g : α → Bytes} {f : Writer → α → Writer} {P : α → Prop}
    {w : Writer} {c : Prop} {b : Bytes} (h : Writer.Wrote w c b) (l : List α)
    (hf : ∀ {w : Writer} {c : Prop} {b : Bytes} (a : α), Writer.Wrote w c b →
      Writer.Wrote (f w a) (c ∧ P a) (b ++ g a)) :
    Writer.Wrote ((w.u16 (UInt16.ofNat l.length)).each l f) (c ∧ ∀ a ∈ l, P a)
      (b ++ (Layout.putLE 2 l.length ++ l.flatMap g)) := by
  have hl := Writer.Wrote.each hf l (h.u16 (UInt16.ofNat l.length))
  have hmod : Layout.putLE 2 (UInt16.ofNat l.length).toNat = Layout.putLE 2 l.length := by
    rw [UInt16.toNat_ofNat']
    exact Layout.putLE_mod 2 l.length
  rw [hmod] at hl
  simpa using hl

/-- An 8-bit count and the elements it counts. -/
theorem Writer.Wrote.counted8 {α : Type} {g : α → Bytes} {f : Writer → α → Writer} {P : α → Prop}
    {w : Writer} {c : Prop} {b : Bytes} (h : Writer.Wrote w c b) (l : List α)
    (hf : ∀ {w : Writer} {c : Prop} {b : Bytes} (a : α), Writer.Wrote w c b →
      Writer.Wrote (f w a) (c ∧ P a) (b ++ g a)) :
    Writer.Wrote ((w.u8 (UInt8.ofNat l.length)).each l f) (c ∧ ∀ a ∈ l, P a)
      (b ++ (Layout.putLE 1 l.length ++ l.flatMap g)) := by
  have hl := Writer.Wrote.each hf l (h.u8 (UInt8.ofNat l.length))
  have hmod : Layout.putLE 1 l.length = [UInt8.ofNat l.length] := by
    simp [Layout.putLE, ← UInt8.toNat_inj]
  simpa [hmod] using hl

/-- A 16-bit length and the bytes it counts. -/
theorem Writer.Wrote.counted16Bytes {w : Writer} {c : Prop} {b : Bytes} (h : Writer.Wrote w c b)
    (v : Bytes) : Writer.Wrote ((w.u16 (UInt16.ofNat v.length)).bytes v) c
      (b ++ (Layout.countedBytes 2).put v) := by
  have hv := (h.u16 (UInt16.ofNat v.length)).bytes v
  have hmod : Layout.putLE 2 (UInt16.ofNat v.length).toNat = Layout.putLE 2 v.length := by
    rw [UInt16.toNat_ofNat']
    exact Layout.putLE_mod 2 v.length
  rw [hmod] at hv
  simpa using hv

/-- A 32-bit length and the bytes it counts. -/
theorem Writer.Wrote.counted32Bytes {w : Writer} {c : Prop} {b : Bytes} (h : Writer.Wrote w c b)
    (v : Bytes) : Writer.Wrote ((w.u32 (UInt32.ofNat v.length)).bytes v) c
      (b ++ (Layout.countedBytes 4).put v) := by
  have hv := (h.u32 (UInt32.ofNat v.length)).bytes v
  have hmod : Layout.putLE 4 (UInt32.ofNat v.length).toNat = Layout.putLE 4 v.length := by
    rw [UInt32.toNat_ofNat']
    exact Layout.putLE_mod 4 v.length
  rw [hmod] at hv
  simpa using hv

namespace Reads

variable {α β : Type}

/-- Reading `n` elements one after another. -/
theorem each {m : Read α} {L : Layout α} (hm : Reads m L.get) :
    ∀ n, Reads (Reader.each m n) (L.vec n).get
  | 0 => pure []
  | n + 1 => by
    have h := hm.bind fun a => (each hm n).bind fun l => pure (a :: l)
    have hget : (L.vec (n + 1)).get = fun b => (L.get b).bind fun p =>
        ((L.vec n).get p.2).bind fun q => some (p.1 :: q.1, q.2) := by
      funext b
      simp only [Layout.vec, Layout.getVec, Option.map_eq_bind, Function.comp_def]
    rw [hget]
    exact h

/-- A check that a successful read passes anyway changes nothing. -/
theorem require {m : Read α} {g : Bytes → Option (α × Bytes)} {p : Bool} (hm : Reads m g)
    (hp : ∀ b v t, g b = some (v, t) → p = true) :
    Reads (Reader.require p >>= fun _ => m) g := by
  rcases p with _ | _
  · have hg : ∀ b, g b = none := fun b => by
      rcases hb : g b with _ | ⟨v, t⟩
      · rfl
      · exact absurd (hp b v t hb) (by simp)
    exact ⟨fun r => by rw [hg]; rfl, hm.consumes⟩
  · exact hm

/-- A check against what remains, that a successful read passes anyway, changes nothing. -/
theorem guard {m : Read α} {g : Bytes → Option (α × Bytes)} {p : ℕ → Bool} (hm : Reads m g)
    (hp : ∀ b v t, g b = some (v, t) → p b.length = true) :
    Reads (Reader.remaining >>= fun n => Reader.require (p n) >>= fun _ => m) g where
  eq r := by
    have h : (Reader.remaining >>= fun n => Reader.require (p n) >>= fun _ => m) r =
        (Reader.require (p r.rest.length) >>= fun _ => m) r := rfl
    rw [h]
    rcases hpr : p r.rest.length with _ | _
    · rcases hg : g r.rest with _ | ⟨v, t⟩
      · rfl
      · exact absurd (hp _ v t hg) (by simp [hpr])
    · exact hm.eq r
  consumes := hm.consumes

/-- What is read does not depend on where it stands. -/
theorem position {k : ℕ → Read α} {g : Bytes → Option (α × Bytes)} (hk : ∀ n, Reads (k n) g) :
    Reads (Reader.position >>= k) g where
  eq r := (hk r.pos).eq r
  consumes := (hk 0).consumes

/-- Going on by whether anything is left. -/
theorem atEnd {k : Bool → Read α} {g g' : Bytes → Option (α × Bytes)} (hend : Reads (k true) g)
    (hmore : Reads (k false) g') :
    Reads (Reader.atEnd >>= k) fun b => if b.isEmpty then g b else g' b where
  eq r := by
    have h : (Reader.atEnd >>= k) r = k r.rest.isEmpty r := rfl
    rw [h]
    rcases hr : r.rest.isEmpty with _ | _
    · exact hmore.eq r
    · exact hend.eq r
  consumes b v t h := by
    split_ifs at h
    · exact hend.consumes b v t h
    · exact hmore.consumes b v t h

/-- Reading elements and keeping a part of each. -/
theorem map_each {β : Type} (f : α → β) (m : Read α) :
    ∀ n, List.map f <$> Reader.each m n = Reader.each (f <$> m) n
  | 0 => by simp [Reader.each]
  | n + 1 => by
    simp only [Reader.each, map_bind, map_pure, List.map_cons, bind_map_left, ← map_each f m n]

/-- Running a decoder and keeping a part of the value. -/
theorem run_map {β : Type} (f : α → β) (m : Read α) (p : Bytes) :
    (Reader.run m p).map f = Reader.run (f <$> m) p := by
  simp only [Reader.run, Option.map_map]
  change _ = Option.map Prod.fst ((m ⟨p, 0⟩).bind fun q => some (f q.1, q.2))
  rcases m ⟨p, 0⟩ with _ | q <;> rfl

/-- A check, and what is read once it passes. -/
theorem check {m : Read α} {g : Bytes → Option (α × Bytes)} (p : Bool) (hm : Reads m g) :
    Reads (Reader.require p >>= fun _ => m) fun b => if p then g b else none where
  eq r := by
    rcases p with _ | _
    · rfl
    · exact hm.eq r
  consumes b v t h := by
    split_ifs at h
    exact hm.consumes b v t h

/-- A byte-level parser may be spelled differently. -/
theorem congr {m : Read α} {g g' : Bytes → Option (α × Bytes)} (hm : Reads m g)
    (h : ∀ b, g b = g' b) : Reads m g' := by
  rwa [← funext h]

end Reads

/-- The strings that are written after a two-byte length fit it. -/
def shortStrings (l : List Bytes) : Prop := ∀ s ∈ l, s.length ≤ 0xFFFF

/-- The layout of a string: a two-byte length and the bytes. -/
def str : Layout Bytes := Layout.countedBytes 2

/-- The strings of up to `0xFFFF` bytes are carried. -/
@[simp] theorem valid_str (s : Bytes) : str.valid s ↔ s.length ≤ 0xFFFF := by
  simp [str, Nat.lt_succ_iff]

/-- A string is written behind its two-byte length. -/
@[simp] theorem put_str (s : Bytes) : str.put s = Layout.putLE 2 s.length ++ s := rfl

/-- The bytes a string takes. -/
def strBytes (s : Bytes) : ℕ := 2 + s.length

/-! ## Session payloads -/

/-- The strings of a `Hello` fit their lengths. -/
def Hello.fits (v : Hello) : Prop :=
  shortStrings [v.pluginVersion, v.vpxRevision, v.pluginApiCommit, v.token, v.info]

/-- The bytes a `Hello` takes. -/
def Hello.size (v : Hello) : ℕ :=
  4 + strBytes v.pluginVersion + strBytes v.vpxRevision + strBytes v.pluginApiCommit
    + strBytes v.token + 12 + strBytes v.info

/-- The layout of a `Hello`. -/
def Hello.layout : Layout Hello :=
  (Layout.u16.pair <| Layout.u16.pair <| str.pair <| str.pair <| str.pair <| str.pair <|
    Layout.u64.pair <| Layout.u32.pair str).map
  (fun (a, b, c, d, e, f, g, h, i) => ⟨a, b, c, d, e, f, g, h, i⟩)
  (fun v => (v.protoMajor, v.protoMinor, v.pluginVersion, v.vpxRevision, v.pluginApiCommit,
    v.token, v.instanceId, v.capabilities, v.info))
  fun _ _ => rfl

/-- `Hello` keeps to its layout.

**Proof sketch.** The writer's fields and the reader's fields are those of the layout, one after
another; the lengths are by arithmetic. -/
theorem Hello.coding :
    Coding maxPayloadBytes Hello.encode Hello.decode Hello.layout id Hello.fits Hello.size := by
  refine .plain (fun v => ?_) (fun p => ?_) ?_ ?_ ?_
  · refine Bounded.congr (Writer.Wrote.new.u16 _ |>.u16 _ |>.str _ |>.str _ |>.str _ |>.str _
      |>.u64 _ |>.u32 _ |>.str _ |>.finish) ?_ ?_
    · simp [Hello.fits, shortStrings, and_assoc, Nat.lt_succ_iff]
    · simp [Hello.layout]
  · refine Reads.run ?_ p
    rw [Hello.layout, Layout.get_map]
    exact .field .u16 fun _ => .field .u16 fun _ => .field .str fun _ => .field .str fun _ =>
      .field .str fun _ => .field .str fun _ => .field .u64 fun _ => .field .u32 fun _ =>
      .last .str fun _ => .pure _
  · simp [Hello.layout, Hello.fits, shortStrings]
  · intro v
    simp [Hello.layout, Hello.size, strBytes]
    omega
  · simp [Hello.size]

/-- The strings of a `HelloAck` fit their lengths. -/
def HelloAck.fits (v : HelloAck) : Prop := shortStrings [v.daemonVersion]

/-- The bytes a `HelloAck` takes. -/
def HelloAck.size (v : HelloAck) : ℕ := 12 + strBytes v.daemonVersion

/-- The layout of a `HelloAck`. -/
def HelloAck.layout : Layout HelloAck :=
  (Layout.u16.pair <| Layout.u16.pair <| str.pair <| Layout.u32.pair Layout.u32).map
  (fun (a, b, c, d, e) => ⟨a, b, c, d, e⟩)
  (fun v => (v.protoMajor, v.protoMinor, v.daemonVersion, v.capabilities, v.sessionId))
  fun _ _ => rfl

/-- `HelloAck` keeps to its layout.

**Proof sketch.** As for `Hello`: the writer and the reader go through the layout's fields. -/
theorem HelloAck.coding : Coding maxPayloadBytes HelloAck.encode HelloAck.decode HelloAck.layout id
    HelloAck.fits HelloAck.size := by
  refine .plain (fun v => ?_) (fun p => ?_) ?_ ?_ ?_
  · refine Bounded.congr
      (Writer.Wrote.new.u16 _ |>.u16 _ |>.str _ |>.u32 _ |>.u32 _ |>.finish) ?_ ?_
    · simp [HelloAck.fits, shortStrings, Nat.lt_succ_iff]
    · simp [HelloAck.layout]
  · refine Reads.run ?_ p
    rw [HelloAck.layout, Layout.get_map]
    exact .field .u16 fun _ => .field .u16 fun _ => .field .str fun _ => .field .u32 fun _ =>
      .last .u32 fun _ => .pure _
  · simp [HelloAck.layout, HelloAck.fits, shortStrings]
  · intro v
    simp [HelloAck.layout, HelloAck.size, strBytes]
    omega
  · simp [HelloAck.size]

/-! ## Frames, Pong, Bye and errors -/

/-- The layout of a `FrameRequest`. -/
def FrameRequest.layout : Layout FrameRequest :=
  (Layout.u32.pair Layout.u32).map (fun (a, b) => ⟨a, b⟩)
    (fun v => (v.sinceFrameId, v.sinceGeneration)) fun _ _ => rfl

/-- `FrameRequest` keeps to its layout. -/
theorem FrameRequest.coding : Coding maxPayloadBytes FrameRequest.encode FrameRequest.decode
    FrameRequest.layout id (fun _ => True) fun _ => 8 := by
  refine .plain (fun v => ?_) (fun p => ?_) ?_ ?_ ?_
  · refine Bounded.congr (Writer.Wrote.new.u32 _ |>.u32 _ |>.finish) Iff.rfl ?_
    simp [FrameRequest.layout]
  · refine Reads.run ?_ p
    rw [FrameRequest.layout, Layout.get_map]
    exact .field .u32 fun _ => .last .u32 fun _ => .pure _
  · simp [FrameRequest.layout]
  · simp [FrameRequest.layout]
  · simp

/-- The pixels of a `FrameReply` that has some match its geometry. -/
def FrameReply.fits (v : FrameReply) : Prop :=
  v.hasPixels ≠ 0 → v.pixels.length = v.width.toNat * v.height.toNat

/-- What of a `FrameReply` is carried: its pixels only if it has some. -/
def FrameReply.carried (v : FrameReply) : FrameReply :=
  if v.hasPixels = 0 then { v with pixels := [] } else v

/-- The bytes a `FrameReply` takes. -/
def FrameReply.size (v : FrameReply) : ℕ := 14 + if v.hasPixels = 0 then 0 else v.pixels.length

/-- The layout of a `FrameReply`. -/
def FrameReply.layout : Layout FrameReply :=
  (Layout.u32.pair <| Layout.u32.pair <| Layout.u16.bind fun width => Layout.u16.bind fun height =>
    Layout.u8.pair <| Layout.u8.bind fun hasPixels =>
      if hasPixels ≠ 0 then Layout.raw (width.toNat * height.toNat) else Layout.const []).map
  (fun (a, b, c, d, e, f, g) => ⟨a, b, c, d, e, f, g⟩)
  (fun v => (v.frameId, v.sourceGeneration, v.width, v.height, v.shades, v.hasPixels, v.pixels))
  fun _ _ => rfl

/-- `FrameReply` keeps to its layout.

**Proof sketch.** `Encode` writes the pixels only where it says it has some, and then refuses a
number of them that is not the picture's. `Decode` reads the same, and without them none. -/
theorem FrameReply.coding : Coding maxPayloadBytes FrameReply.encode FrameReply.decode
    FrameReply.layout FrameReply.carried FrameReply.fits FrameReply.size where
  encodes v := by
    have h := Writer.Wrote.new.u32 v.frameId |>.u32 v.sourceGeneration |>.u16 v.width
      |>.u16 v.height |>.u8 v.shades |>.u8 v.hasPixels
    by_cases hpix : v.hasPixels = 0
    · simp only [FrameReply.encode, hpix, ne_eq, not_true_eq_false, if_false]
      rw [hpix] at h
      refine h.finish.congr ?_ ?_
      · simp [FrameReply.fits, hpix]
      · simp [FrameReply.layout, FrameReply.carried, hpix]
    · by_cases hlen : v.pixels.length = v.width.toNat * v.height.toNat
      · simp only [FrameReply.encode, hpix, hlen, ne_eq, not_true_eq_false, not_false_eq_true,
          if_true, if_false]
        refine (h.bytes v.pixels).finish.congr ?_ ?_
        · simp [FrameReply.fits, hlen]
        · simp [FrameReply.layout, FrameReply.carried, hpix]
      · simp only [FrameReply.encode, hpix, hlen, ne_eq, not_false_eq_true, if_true]
        exact Bounded.refuse fun hfits => hlen (hfits hpix)
  decodes p := by
    refine Reads.run ?_ p
    rw [FrameReply.layout, Layout.get_map]
    refine .field .u32 fun _ => .field .u32 fun _ => .field .u16 fun _ => .field .u16 fun _ =>
      .field .u8 fun _ => .field .u8 fun hasPixels => ?_
    by_cases hpix : hasPixels = 0
    · simp only [hpix, ne_eq, not_true_eq_false, if_false]
      exact .last (.pure []) fun _ => .pure _
    · simp only [hpix, ne_eq, not_false_eq_true, if_true]
      exact .last (.bytes _) fun _ => .pure _
  valid_carried v h _ := by
    by_cases hpix : v.hasPixels = 0
    · simp [FrameReply.layout, FrameReply.carried, hpix]
    · simp [FrameReply.layout, FrameReply.carried, hpix, h hpix]
  of_valid v h := by
    by_cases hpix : v.hasPixels = 0
    · have hnil : v.pixels = [] := by simpa [FrameReply.layout, hpix] using h.1
      exact ⟨by rw [FrameReply.carried, if_pos hpix, ← hnil], fun h => absurd hpix h⟩
    · simpa [FrameReply.layout, FrameReply.carried, FrameReply.fits, hpix] using h
  length_put v := by
    by_cases hpix : v.hasPixels = 0
    · simp [FrameReply.layout, FrameReply.carried, FrameReply.size, hpix]
    · simp [FrameReply.layout, FrameReply.carried, FrameReply.size, hpix]
      omega
  size_pos v := by simp [FrameReply.size]

/-- The layout of a `Pong`. -/
def Pong.layout : Layout Pong :=
  (Layout.u64.pair <| Layout.u8.pair Layout.u8).map (fun (a, b, c) => ⟨a, b, c⟩)
    (fun v => (v.renderedFrame, v.playerRunning, v.writesSupported)) fun _ _ => rfl

/-- `Pong` keeps to its layout. -/
theorem Pong.coding : Coding maxPayloadBytes Pong.encode Pong.decode Pong.layout id
    (fun _ => True) fun _ => 10 := by
  refine .plain (fun v => ?_) (fun p => ?_) ?_ ?_ ?_
  · refine Bounded.congr (Writer.Wrote.new.u64 _ |>.u8 _ |>.u8 _ |>.finish) Iff.rfl ?_
    simp [Pong.layout]
  · refine Reads.run ?_ p
    rw [Pong.layout, Layout.get_map]
    exact .field .u64 fun _ => .field .u8 fun _ => .last .u8 fun _ => .pure _
  · simp [Pong.layout]
  · simp [Pong.layout]
  · simp

/-- The layout of a `Bye`. -/
def Bye.layout : Layout Bye := str.map (fun a => ⟨a⟩) (fun v => v.reason) fun _ _ => rfl

/-- `Bye` keeps to its layout. -/
theorem Bye.coding : Coding maxPayloadBytes Bye.encode Bye.decode Bye.layout id
    (fun v => shortStrings [v.reason]) fun v => strBytes v.reason := by
  refine .plain (fun v => ?_) (fun p => ?_) ?_ ?_ ?_
  · refine Bounded.congr (Writer.Wrote.new.str _ |>.finish) ?_ ?_
    · simp [shortStrings, Nat.lt_succ_iff]
    · simp [Bye.layout]
  · refine Reads.run ?_ p
    rw [Bye.layout, Layout.get_map]
    exact .last .str fun _ => .pure _
  · simp [Bye.layout, shortStrings]
  · simp [Bye.layout, strBytes]
  · simp [strBytes]

/-- The layout of an `ErrorPayload`. -/
def ErrorPayload.layout : Layout ErrorPayload :=
  (Layout.u16.pair str).map (fun (a, b) => ⟨a, b⟩) (fun v => (v.code, v.reason)) fun _ _ => rfl

/-- `ErrorPayload` keeps to its layout. -/
theorem ErrorPayload.coding : Coding maxPayloadBytes ErrorPayload.encode ErrorPayload.decode
    ErrorPayload.layout id (fun v => shortStrings [v.reason]) fun v => 2 + strBytes v.reason := by
  refine .plain (fun v => ?_) (fun p => ?_) ?_ ?_ ?_
  · refine Bounded.congr (Writer.Wrote.new.u16 _ |>.str _ |>.finish) ?_ ?_
    · simp [shortStrings, Nat.lt_succ_iff]
    · simp [ErrorPayload.layout]
  · refine Reads.run ?_ p
    rw [ErrorPayload.layout, Layout.get_map]
    exact .field .u16 fun _ => .last .str fun _ => .pure _
  · simp [ErrorPayload.layout, shortStrings]
  · simp [ErrorPayload.layout, strBytes]
  · simp

/-! ## Memory -/

/-- The layout of a memory range. -/
def MemoryRange.layout : Layout MemoryRange :=
  (Layout.u32.pair Layout.u32).map (fun (a, b) => ⟨a, b⟩) (fun v => (v.address, v.length))
    fun _ _ => rfl

/-- The ranges of a `Subscription` fit their count. -/
def Subscription.fits (v : Subscription) : Prop := v.ranges.length ≤ 0xFFFF

/-- The bytes a `Subscription` takes. -/
def Subscription.size (v : Subscription) : ℕ := 2 + 8 * v.ranges.length

/-- The layout of a `Subscription`. -/
def Subscription.layout : Layout Subscription :=
  (Layout.counted 2 MemoryRange.layout).map (fun a => ⟨a⟩) (fun v => v.ranges) fun _ _ => rfl

/-- A range reads as its layout does. -/
theorem MemoryRange.reads : Reads MemoryRange.read MemoryRange.layout.get := by
  rw [MemoryRange.layout, Layout.get_map]
  exact .field .u32 fun _ => .last .u32 fun _ => .pure _

/-- `Subscription` keeps to its layout.

**Proof sketch.** `Encode` refuses more ranges than the count can say and otherwise writes them.
`Decode` reads the same and refuses a count that the bytes left cannot hold. -/
theorem Subscription.coding : Coding maxPayloadBytes Subscription.encode Subscription.decode
    Subscription.layout id Subscription.fits Subscription.size := by
  refine .plain (fun v => ?_) (fun p => ?_) ?_ ?_ ?_
  · by_cases hlen : v.ranges.length > 0xFFFF
    · rw [Subscription.encode, if_pos hlen]
      exact Bounded.refuse (by simpa [Subscription.fits] using hlen)
    · rw [Subscription.encode, if_neg hlen]
      have h := Writer.Wrote.new.counted16 (g := MemoryRange.layout.put)
        (P := fun _ => True) v.ranges
        (fun a h => by simpa [MemoryRange.layout] using (h.u32 a.address).u32 a.length)
      refine h.finish.congr ?_ rfl
      simpa [Subscription.fits] using hlen
  · refine Reads.run ?_ p
    rw [Subscription.layout, Layout.get_map]
    refine .dep .u16 Layout.le_get_u16 fun count =>
      .guard (.last (.each MemoryRange.reads _) fun _ => .pure _) fun b v t h => ?_
    have hlen := Layout.le_length_of_andThen
      (Layout.le_length_put_vec (k := 8) (by simp [MemoryRange.layout])) h
    simpa [Nat.mul_comm] using hlen
  · simp [Subscription.layout, Subscription.fits, MemoryRange.layout, Nat.lt_succ_iff]
  · intro v
    simp [Subscription.layout, Subscription.size, MemoryRange.layout, Nat.mul_comm]
  · simp [Subscription.size]

/-- The layout of a memory block. -/
def MemoryBlock.layout : Layout MemoryBlock :=
  (Layout.u32.pair (Layout.countedBytes 4)).map (fun (a, b) => ⟨a, b⟩)
    (fun v => (v.address, v.bytes)) fun _ _ => rfl

/-- The blocks of a `PollReply` fit their count. -/
def PollReply.fits (v : PollReply) : Prop := v.blocks.length ≤ 0xFFFF

/-- The bytes a `PollReply` takes. -/
def PollReply.size (v : PollReply) : ℕ := 11 + (v.blocks.map fun b => 8 + b.bytes.length).sum

/-- The layout of a `PollReply`. -/
def PollReply.layout : Layout PollReply :=
  (Layout.u64.pair <| Layout.u8.pair <| Layout.counted 2 MemoryBlock.layout).map
    (fun (a, b, c) => ⟨a, b, c⟩) (fun v => (v.frame, v.playerRunning, v.blocks)) fun _ _ => rfl

/-- A block reads as its layout does. -/
theorem MemoryBlock.reads : Reads MemoryBlock.read MemoryBlock.layout.get := by
  rw [MemoryBlock.layout, Layout.get_map]
  refine .field .u32 fun _ => .dep .u32 Layout.le_get_u32 fun length =>
    .guard (.last (.bytes _) fun _ => .pure _) fun b v t h => ?_
  have hlen := Layout.le_length_of_andThen (fun a ha => ge_of_eq ha) h
  simpa using hlen

/-- `PollReply` keeps to its layout.

**Proof sketch.** `Encode` refuses more blocks than the count can say and otherwise writes them,
each with its address and bytes. `Decode` reads the same and refuses a count that the bytes left
cannot hold. -/
theorem PollReply.coding : Coding maxPayloadBytes PollReply.encode PollReply.decode
    PollReply.layout id PollReply.fits PollReply.size where
  encodes v := by
    by_cases hlen : v.blocks.length > 0xFFFF
    · rw [PollReply.encode, if_pos hlen]
      exact Bounded.refuse (by simpa [PollReply.fits] using hlen)
    · rw [PollReply.encode, if_neg hlen]
      have h := (Writer.Wrote.new.u64 v.frame |>.u8 v.playerRunning).counted16
        (g := MemoryBlock.layout.put) (P := fun _ => True) v.blocks
        (fun a h => by simpa [MemoryBlock.layout] using (h.u32 a.address).counted32Bytes a.bytes)
      refine h.finish.congr ?_ ?_
      · simpa [PollReply.fits] using hlen
      · simp [PollReply.layout]
  decodes p := by
    refine Reads.run ?_ p
    rw [PollReply.layout, Layout.get_map]
    exact .field .u64 fun _ => .field .u8 fun _ => .dep .u16 Layout.le_get_u16 fun _ =>
      .last (.each MemoryBlock.reads _) fun _ => .pure _
  valid_carried v h hsize := by
    have hblock : ∀ b ∈ v.blocks, b.bytes.length < 256 ^ 4 := by
      intro b hb
      have hle := List.le_sum_of_mem (List.mem_map_of_mem (f := fun b => 8 + b.bytes.length) hb)
      have hmax : maxPayloadBytes < 256 ^ 4 := by decide
      simp only [PollReply.size] at hsize
      omega
    have hcount : v.blocks.length < 256 ^ 2 := Nat.lt_succ_of_le h
    simpa [PollReply.layout, MemoryBlock.layout] using ⟨hcount, hblock⟩
  of_valid v h := by
    simp [PollReply.layout, PollReply.fits] at h ⊢
    omega
  length_put v := by
    simp [PollReply.layout, PollReply.size, MemoryBlock.layout, ← Nat.add_assoc]
    omega
  size_pos v := by simp [PollReply.size]

/-- The layout of a `ReadDirectRequest`. -/
def ReadDirectRequest.layout : Layout ReadDirectRequest :=
  (Layout.u32.pair Layout.u32).map (fun (a, b) => ⟨a, b⟩) (fun v => (v.address, v.length))
    fun _ _ => rfl

/-- `ReadDirectRequest` keeps to its layout. -/
theorem ReadDirectRequest.coding : Coding maxPayloadBytes ReadDirectRequest.encode
    ReadDirectRequest.decode ReadDirectRequest.layout id (fun _ => True) fun _ => 8 := by
  refine .plain (fun v => ?_) (fun p => ?_) ?_ ?_ ?_
  · refine Bounded.congr (Writer.Wrote.new.u32 _ |>.u32 _ |>.finish) Iff.rfl ?_
    simp [ReadDirectRequest.layout]
  · refine Reads.run ?_ p
    rw [ReadDirectRequest.layout, Layout.get_map]
    exact .field .u32 fun _ => .last .u32 fun _ => .pure _
  · simp [ReadDirectRequest.layout]
  · simp [ReadDirectRequest.layout]
  · simp

/-- The unstable offsets of a `ReadDirectReply` fit their count. -/
def ReadDirectReply.fits (v : ReadDirectReply) : Prop := v.unstableOffsets.length ≤ 0xFFFF

/-- The bytes a `ReadDirectReply` takes. -/
def ReadDirectReply.size (v : ReadDirectReply) : ℕ :=
  18 + 4 * v.unstableOffsets.length + v.bytes.length

/-- The layout of a `ReadDirectReply`: the length of the bytes and the number of offsets both
come before the offsets and the bytes. -/
def ReadDirectReply.layout : Layout ReadDirectReply :=
  (Layout.u64.pair <| Layout.u32.pair <|
    Layout.u32.bind fun length => Layout.u16.bind fun unstable =>
    (Layout.u32.vec unstable.toNat).pair (Layout.raw length.toNat)).map
  (fun (a, b, _, _, c, d) => ⟨a, b, c, d⟩)
  (fun v => (v.frame, v.address, UInt32.ofNat v.bytes.length,
    UInt16.ofNat v.unstableOffsets.length, v.unstableOffsets, v.bytes))
  fun ⟨a, b, length, unstable, c, d⟩ h => by
    obtain ⟨-, -, -, -, ⟨hc, -⟩, hd⟩ := h
    simp only [Layout.valid_raw] at hc hd
    simp [hc, hd]

/-- `ReadDirectReply` keeps to its layout.

**Proof sketch.** `Encode` refuses more offsets than the count can say and otherwise writes the
fields, the offsets and the bytes. `Decode` reads the two lengths first and refuses those that the
bytes left cannot hold. -/
theorem ReadDirectReply.coding : Coding maxPayloadBytes ReadDirectReply.encode
    ReadDirectReply.decode ReadDirectReply.layout id ReadDirectReply.fits ReadDirectReply.size where
  encodes v := by
    by_cases hlen : v.unstableOffsets.length > 0xFFFF
    · rw [ReadDirectReply.encode, if_pos hlen]
      exact Bounded.refuse (by simpa [ReadDirectReply.fits] using hlen)
    · rw [ReadDirectReply.encode, if_neg hlen]
      have h := Writer.Wrote.each (P := fun _ => True) (g := Layout.u32.put) (f := Writer.u32)
        (fun a h => by simpa using h.u32 a) v.unstableOffsets
        (Writer.Wrote.new.u64 v.frame |>.u32 v.address |>.u32 (UInt32.ofNat v.bytes.length)
          |>.u16 (UInt16.ofNat v.unstableOffsets.length))
      refine (h.bytes v.bytes).finish.congr ?_ ?_
      · simpa [ReadDirectReply.fits] using hlen
      · simp [ReadDirectReply.layout]
  decodes p := by
    refine Reads.run ?_ p
    rw [ReadDirectReply.layout, Layout.get_map]
    refine .field .u64 fun _ => .field .u32 fun _ => .field .u32 fun length =>
      .field .u16 fun unstable => .guard (.field (.each .u32 _) fun _ =>
        .guard (.last (.bytes _) fun _ => .pure _) fun b v t h => ?_) fun b v t h => ?_
    · have hlen := Layout.le_length_of_andThen (fun a ha => ge_of_eq ha) h
      simpa using hlen
    · have hlen := Layout.le_length_of_andThen (k := 4 * unstable.toNat) (fun a ha => ?_) h
      · simpa [Nat.mul_comm] using hlen
      · have hvec := Layout.le_length_put_vec (k := 4) (by simp) a.1 ha.1
        rw [Layout.put_pair, List.length_append]
        omega
  valid_carried v h hsize := by
    have hmax : maxPayloadBytes < 2 ^ 32 := by decide
    have hbytes : v.bytes.length < 2 ^ 32 := by
      simp only [ReadDirectReply.size] at hsize
      omega
    have hoffsets : v.unstableOffsets.length < 2 ^ 16 := Nat.lt_succ_of_le h
    simp [ReadDirectReply.layout]
    omega
  of_valid v h := by
    refine ⟨rfl, ?_⟩
    obtain ⟨-, -, -, -, ⟨hc, -⟩, -⟩ := h.1
    have hlt := (UInt16.ofNat v.unstableOffsets.length).toNat_lt
    rw [← hc] at hlt
    exact Nat.le_of_lt_succ hlt
  length_put v := by
    simp [ReadDirectReply.layout, ReadDirectReply.size, Nat.mul_comm]
    omega
  size_pos v := by
    simp only [ReadDirectReply.size]
    omega

/-- The layout of a write op. -/
def WriteOp.layout : Layout WriteOp :=
  (Layout.u32.pair (Layout.countedBytes 2)).map (fun (a, b) => ⟨a, b⟩)
    (fun v => (v.address, v.bytes)) fun _ _ => rfl

/-- The ops of a `WriteRequest` and the bytes of each fit their counts. -/
def WriteRequest.fits (v : WriteRequest) : Prop :=
  v.ops.length ≤ 0xFFFF ∧ ∀ op ∈ v.ops, op.bytes.length ≤ 0xFFFF

/-- The bytes a `WriteRequest` takes. -/
def WriteRequest.size (v : WriteRequest) : ℕ := 2 + (v.ops.map fun op => 6 + op.bytes.length).sum

/-- The layout of a `WriteRequest`. -/
def WriteRequest.layout : Layout WriteRequest :=
  (Layout.counted 2 WriteOp.layout).map (fun a => ⟨a⟩) (fun v => v.ops) fun _ _ => rfl

/-- An op reads as its layout does. -/
theorem WriteOp.reads : Reads WriteOp.read WriteOp.layout.get := by
  rw [WriteOp.layout, Layout.get_map]
  refine .field .u32 fun _ => .dep .u16 Layout.le_get_u16 fun length =>
    .guard (.last (.bytes _) fun _ => .pure _) fun b v t h => ?_
  have hlen := Layout.le_length_of_andThen (fun a ha => ge_of_eq ha) h
  simpa using hlen

/-- `WriteRequest` keeps to its layout.

**Proof sketch.** `Encode` refuses more ops, or longer ones, than the counts can say and otherwise
writes them. `Decode` reads the same and refuses a count that the bytes left cannot hold. -/
theorem WriteRequest.coding : Coding maxPayloadBytes WriteRequest.encode WriteRequest.decode
    WriteRequest.layout id WriteRequest.fits WriteRequest.size := by
  refine .plain (fun v => ?_) (fun p => ?_) ?_ ?_ ?_
  · by_cases hlen : v.ops.length > 0xFFFF || v.ops.any (fun op => op.bytes.length > 0xFFFF)
    · rw [WriteRequest.encode, if_pos hlen]
      refine Bounded.refuse fun hfits => ?_
      simp only [Bool.or_eq_true, decide_eq_true_eq, List.any_eq_true] at hlen
      rcases hlen with hlen | ⟨op, hop, hlen⟩
      · exact absurd hfits.1 (not_le.mpr hlen)
      · exact absurd (hfits.2 op hop) (not_le.mpr hlen)
    · rw [WriteRequest.encode, if_neg hlen]
      have h := Writer.Wrote.new.counted16 (g := WriteOp.layout.put) (P := fun _ => True) v.ops
        (fun a h => by simpa [WriteOp.layout] using (h.u32 a.address).counted16Bytes a.bytes)
      refine h.finish.congr ?_ ?_
      · simpa [WriteRequest.fits] using hlen
      · simp [WriteRequest.layout]
  · refine Reads.run ?_ p
    rw [WriteRequest.layout, Layout.get_map]
    refine .dep .u16 Layout.le_get_u16 fun count =>
      .guard (.last (.each WriteOp.reads _) fun _ => .pure _) fun b v t h => ?_
    have hlen := Layout.le_length_of_andThen (Layout.le_length_put_vec (k := 6)
      (by simp [WriteOp.layout]; omega)) h
    simpa [Nat.mul_comm] using hlen
  · simp [WriteRequest.layout, WriteRequest.fits, WriteOp.layout, Nat.lt_succ_iff]
  · intro v
    simp [WriteRequest.layout, WriteRequest.size, WriteOp.layout, ← Nat.add_assoc]
  · simp [WriteRequest.size]

/-- The layout of a `WriteReply`. -/
def WriteReply.layout : Layout WriteReply :=
  (Layout.u64.pair Layout.u16).map (fun (a, b) => ⟨a, b⟩) (fun v => (v.frame, v.applied))
    fun _ _ => rfl

/-- `WriteReply` keeps to its layout. -/
theorem WriteReply.coding : Coding maxPayloadBytes WriteReply.encode WriteReply.decode
    WriteReply.layout id (fun _ => True) fun _ => 10 := by
  refine .plain (fun v => ?_) (fun p => ?_) ?_ ?_ ?_
  · refine Bounded.congr (Writer.Wrote.new.u64 _ |>.u16 _ |>.finish) Iff.rfl ?_
    simp [WriteReply.layout]
  · refine Reads.run ?_ p
    rw [WriteReply.layout, Layout.get_map]
    exact .field .u64 fun _ => .last .u16 fun _ => .pure _
  · simp [WriteReply.layout]
  · simp [WriteReply.layout]
  · simp

/-- The layout of an `NvRamParameters`. -/
def NvRamParameters.layout : Layout NvRamParameters :=
  (Layout.u32.pair <| Layout.u32.pair <| Layout.u32.pair <| Layout.u8.pair Layout.u8).map
    (fun (a, b, c, d, e) => ⟨a, b, c, d, e⟩)
    (fun v => (v.start, v.length, v.unlockAddress, v.unlockValue, v.lockValue)) fun _ _ => rfl

/-- `NvRamParameters` keeps to its layout. -/
theorem NvRamParameters.coding : Coding maxPayloadBytes NvRamParameters.encode
    NvRamParameters.decode NvRamParameters.layout id (fun _ => True) fun _ => 14 := by
  refine .plain (fun v => ?_) (fun p => ?_) ?_ ?_ ?_
  · refine Bounded.congr (Writer.Wrote.new.u32 _ |>.u32 _ |>.u32 _ |>.u8 _ |>.u8 _ |>.finish)
      Iff.rfl ?_
    simp [NvRamParameters.layout]
  · refine Reads.run ?_ p
    rw [NvRamParameters.layout, Layout.get_map]
    exact .field .u32 fun _ => .field .u32 fun _ => .field .u32 fun _ => .field .u8 fun _ =>
      .last .u8 fun _ => .pure _
  · simp [NvRamParameters.layout]
  · simp [NvRamParameters.layout]
  · simp

end Wire
