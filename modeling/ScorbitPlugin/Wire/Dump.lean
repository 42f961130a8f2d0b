import ScorbitPlugin.Codec.Marked
import ScorbitPlugin.Wire.Framing

set_option relaxedAutoImplicit false
set_option autoImplicit false

/-!
# The wire dump

`WireDump` of `src/WireDump.cpp`, which records every frame, and the two places of
`src/SocketWorker.cpp` that hand it one: `SendWireMessage` and `ReadMessage`. A record is what is
appended to the file, at the microseconds since it was opened. The strings marked sensitive are
blanked in it; the marks of a payload are moved by the bytes before it.

## Main definitions

* `Wire.receivedSensitive` — the marks of a received message.
* `Wire.redact`, `Wire.record` — a frame blanked and recorded.
* `Wire.dumpSent`, `Wire.dumpReceived` — what a message sent and one received add to the dump.
* `Wire.Records` — that a record shows a frame up to its marks.

## Main results

* `Wire.records_dumpSent`, `Wire.records_dumpReceived` — every record does.
* `Wire.records_readMessage` — every message that `ReadMessage` returns is recorded so.
-/

namespace Wire

open Codec

/-- `ReceivedSensitive`: what a payload that does not decode holds is unknown. -/
def receivedSensitive (m : Message) : List SensitiveSpan :=
  if m.header.isResponse || m.payload.isEmpty then []
  else
    let decoded : Option (List SensitiveSpan) :=
      if m.header.type = typePlayers then (Players.decodeSensitive m.payload).map Prod.snd
      else if m.header.type = typePlayerPicture then
        (PlayerPicture.decodeSensitive m.payload).map Prod.snd
      else some []
    decoded.getD [⟨0, m.payload.length⟩]

/-! ## WireDump -/

/-- `'*'`. -/
def star : UInt8 := 42

/-- `'>'`, plugin to daemon. -/
def outward : UInt8 := 62

/-- `'<'`, daemon to plugin. -/
def inward : UInt8 := 60

/-- `WireDump::Redact`: a span is clipped to the frame. -/
def redact (frame : Bytes) (sensitive : List SensitiveSpan) : Bytes :=
  sensitive.foldl (fun b span =>
    if span.offset ≥ frame.length then b
    else
      let last := span.offset + min span.length (frame.length - span.offset)
      b.take span.offset ++ List.replicate (last - span.offset) star ++ b.drop last) frame

/-- `WireDump::Record`. -/
def record (direction : UInt8) (micros : UInt64) (first body : Bytes) : Bytes :=
  direction :: (Layout.putLE 8 micros.toNat
    ++ Layout.putLE 4 (UInt32.ofNat (first.length + body.length)).toNat) ++ first ++ body

/-- `WireDump::Sent`. -/
def sent (micros : UInt64) (data : Bytes) (sensitive : List SensitiveSpan) : Bytes :=
  if sensitive.isEmpty then record outward micros data []
  else record outward micros (redact data sensitive) []

/-- `WireDump::Received`. -/
def received (micros : UInt64) (first body : Bytes) (sensitive : List SensitiveSpan) : Bytes :=
  if sensitive.isEmpty then record inward micros first body
  else record inward micros (redact (first ++ body) sensitive) []

/-! ## SocketWorker -/

/-- Marks counted from the payload, counted from the frame. -/
def framed (sensitive : List SensitiveSpan) : List SensitiveSpan :=
  sensitive.map fun span => { span with offset := span.offset + (lengthBytes + headerBytes) }

/-- `SendWireMessage`: a message too long is refused, and not recorded. -/
def dumpSent (micros : UInt64) (m : Message) (sensitive : List SensitiveSpan) : Bytes :=
  if (encodeMessage m).isEmpty then []
  else if sensitive.isEmpty then sent micros (encodeMessage m) []
  else sent micros (encodeMessage m) (framed sensitive)

/-- A frame that `ReadMessage` has taken off the socket: the body is as long as the length before
it says, and that is within the bounds. -/
structure RawFrame where
  body : Bytes
  bounds : inBounds body.length

/-- `lengthBytes`. -/
def RawFrame.first (f : RawFrame) : Bytes := Layout.u32.put (UInt32.ofNat f.body.length)

/-- The frame as it crossed. -/
def RawFrame.bytes (f : RawFrame) : Bytes := f.first ++ f.body

/-- The marks of what the frame decodes to. -/
def RawFrame.sensitive (f : RawFrame) : List SensitiveSpan :=
  match decodeBody f.body with
  | some m => framed (receivedSensitive m)
  | none => []

/-- `ReadMessage`. -/
def dumpReceived (micros : UInt64) (f : RawFrame) : Bytes :=
  received micros f.first f.body f.sensitive

/-- The frame in a record. -/
def recorded (out : Bytes) : Bytes := out.drop 13

/-- The record announces the frame's length, and shows the frame's own bytes outside the marks. -/
structure Records (frame : Bytes) (sensitive : List SensitiveSpan) (out : Bytes) : Prop where
  length : (recorded out).length = frame.length
  announced : Layout.getLE 4 (out.drop 9) = some (frame.length, recorded out)
  outside : ∀ i, (∀ span ∈ sensitive, i < span.offset ∨ span.offset + span.length ≤ i) →
    (recorded out)[i]? = frame[i]?

/-- A message that `ReadMessage` returns came in such a frame.

**Proof sketch.** By what `ReadMessage` took from the stream: only in the case of a message does it
return one, and there the length and the body are the frame. -/
theorem RawFrame.of_readMessage {chunks : List Bytes} {m : Message}
    (h : (readMessage chunks).outcome = .message m) : ∃ f : RawFrame,
    decodeBody f.body = some m ∧
      chunks.flatten = f.bytes ++ (readMessage chunks).left.flatten := by
  have htook := took_readMessage chunks
  generalize readMessage chunks = r at h htook ⊢
  cases htook with
  | message length m left hgood hlen hbytes hleft =>
    obtain rfl := Outcome.message.inj h
    have hbody : (headerLayout.put m.header ++ m.payload).length = length.toNat := by
      rw [List.length_append, length_put_header, hlen]
    have hword : UInt32.ofNat (headerLayout.put m.header ++ m.payload).length = length := by
      rw [hbody, UInt32.ofNat_toNat]
    refine ⟨⟨headerLayout.put m.header ++ m.payload, hbody ▸ hgood⟩, decodeBody_put _ _, ?_⟩
    simp only [RawFrame.bytes, RawFrame.first, hword, hbytes, List.append_assoc]
  | outOfBounds => cases h
  | noLength => cases h
  | noBody => cases h

/-! ## What a record shows -/

/-- A span as a pair. -/
def SensitiveSpan.pair (span : SensitiveSpan) : ℕ × ℕ := (span.offset, span.length)

/-- `Redact` fills its spans. -/
theorem redact_eq (frame : Bytes) (sensitive : List SensitiveSpan) :
    redact frame sensitive = Marked.fillAll star frame (sensitive.map SensitiveSpan.pair) := by
  unfold redact
  -- every span leaves the length
  suffices h : ∀ b : Bytes, b.length = frame.length →
      sensitive.foldl (fun b span =>
        if span.offset ≥ frame.length then b
        else
          let last := span.offset + min span.length (frame.length - span.offset)
          b.take span.offset ++ List.replicate (last - span.offset) star ++ b.drop last) b =
        Marked.fillAll star b (sensitive.map SensitiveSpan.pair) from h frame rfl
  induction sensitive with
  | nil => exact fun _ _ => rfl
  | cons span sensitive ih =>
    intro b hb
    have hfill : (if span.offset ≥ frame.length then b
        else
          let last := span.offset + min span.length (frame.length - span.offset)
          b.take span.offset ++ List.replicate (last - span.offset) star ++ b.drop last) =
        Marked.fill star b span.offset span.length := by
      rw [← hb]
      split
      · rename_i hpast
        have hclip : min span.length (b.length - span.offset) = 0 := by omega
        rw [Marked.fill, hclip, List.take_of_length_le hpast, List.drop_of_length_le (by omega)]
        simp
      · rename_i hin
        dsimp only
        rw [Nat.add_sub_cancel_left, Marked.fill]
        congr 1
        by_cases hclip : span.length ≤ b.length - span.offset
        · rw [Nat.min_eq_left hclip]
        · rw [List.drop_of_length_le (by omega), List.drop_of_length_le (by omega)]
    rw [List.foldl_cons, hfill, List.map_cons, Marked.fillAll, List.foldl_cons, ← Marked.fillAll]
    exact ih _ ((Marked.length_fill star b _ _).trans hb)

/-- What `Record` writes before the frame.

**Proof sketch.** The direction and the time take nine bytes and the length four; what is behind
them is dropped to. -/
theorem drop_record (direction : UInt8) (micros : UInt64) (first body : Bytes) :
    (record direction micros first body).drop 9 =
      Layout.putLE 4 (UInt32.ofNat (first.length + body.length)).toNat ++ (first ++ body) ∧
    recorded (record direction micros first body) = first ++ body := by
  have hbefore : (record direction micros first body).drop 9 =
      Layout.putLE 4 (UInt32.ofNat (first.length + body.length)).toNat ++ (first ++ body) := by
    have hassoc : record direction micros first body =
        (direction :: Layout.putLE 8 micros.toNat) ++
          (Layout.putLE 4 (UInt32.ofNat (first.length + body.length)).toNat ++
            (first ++ body)) := by
      simp [record]
    rw [hassoc, List.drop_left' (by simp)]
  refine ⟨hbefore, ?_⟩
  have hdrop : recorded (record direction micros first body) =
      ((record direction micros first body).drop 9).drop 4 := by
    rw [List.drop_drop]
    rfl
  rw [hdrop, hbefore, List.drop_left' (by simp)]

/-- A record of the two pieces of a frame.

**Proof sketch.** What is recorded behind the head is the two pieces (`drop_record`), which are as
long as the frame, so the length announced is the frame's. -/
theorem records_record (direction : UInt8) (micros : UInt64) {frame first body : Bytes}
    {sensitive : List SensitiveSpan} (hlen : (first ++ body).length = frame.length)
    (hsmall : frame.length < 256 ^ 4)
    (houtside : ∀ i, (∀ span ∈ sensitive, i < span.offset ∨ span.offset + span.length ≤ i) →
      (first ++ body)[i]? = frame[i]?) :
    Records frame sensitive (record direction micros first body) := by
  obtain ⟨hannounced, hframe⟩ := drop_record direction micros first body
  rw [← hframe] at hlen houtside
  refine ⟨hlen, ?_, houtside⟩
  have hsum : first.length + body.length = frame.length := by
    rw [← List.length_append, ← hframe, hlen]
  have hword : (UInt32.ofNat (first.length + body.length)).toNat = frame.length := by
    rw [hsum]
    exact UInt32.toNat_ofNat_of_lt hsmall
  rw [hannounced, hword, hframe]
  exact Layout.getLE_putLE _ 4 _ hsmall

/-- A blanked frame keeps its length, and its bytes outside the marks. -/
theorem redact_outside (frame : Bytes) (sensitive : List SensitiveSpan) :
    (redact frame sensitive).length = frame.length ∧
      ∀ i, (∀ span ∈ sensitive, i < span.offset ∨ span.offset + span.length ≤ i) →
        (redact frame sensitive)[i]? = frame[i]? := by
  rw [redact_eq]
  refine ⟨Marked.length_fillAll star _ _, fun i h => Marked.getElem?_fillAll star _ ?_⟩
  intro span hspan
  obtain ⟨marked, hmarked, rfl⟩ := List.mem_map.mp hspan
  exact h marked hmarked

/-- A message that is sent fits a frame's length. -/
theorem length_encodeMessage {m : Message} (h : encodeMessage m ≠ []) :
    m.payload.length ≤ maxPayloadBytes ∧ (encodeMessage m).length < 256 ^ 4 := by
  have hfits : m.payload.length ≤ maxPayloadBytes := by
    by_contra hlong
    exact h (if_pos (Nat.lt_of_not_le hlong))
  refine ⟨hfits, ?_⟩
  rw [encodeMessage_eq hfits]
  simp only [maxPayloadBytes, maxMessageBytes, lengthBytes, headerBytes] at hfits
  simp only [List.length_append, Layout.put_u32, Layout.length_putLE, length_put_header,
    headerBytes]
  omega

/-- **Every record of a message sent** shows it up to its marks.

**Proof sketch.** Without marks the frame is recorded as it is; with marks it is redacted, which
keeps its length and all bytes outside of the marks. -/
theorem records_dumpSent (micros : UInt64) {m : Message} (h : encodeMessage m ≠ [])
    (sensitive : List SensitiveSpan) :
    Records (encodeMessage m) (framed sensitive) (dumpSent micros m sensitive) := by
  have hsmall := (length_encodeMessage h).2
  have hne : (encodeMessage m).isEmpty = false := by simpa using h
  rw [dumpSent, hne, if_neg Bool.false_ne_true]
  cases sensitive with
  | nil =>
    refine records_record outward micros (by simp) hsmall fun i _ => by simp
  | cons span sensitive =>
    obtain ⟨hlen, houtside⟩ := redact_outside (encodeMessage m) (framed (span :: sensitive))
    refine records_record outward micros (by simpa using hlen) hsmall fun i hi => ?_
    rw [List.append_nil]
    exact houtside i hi

/-- **Every record of a frame received** shows it up to its marks.

**Proof sketch.** A frame without marks is recorded as it is. Any other is redacted, which keeps its
length and all bytes outside of the marks. -/
theorem records_dumpReceived (micros : UInt64) (f : RawFrame) :
    Records f.bytes f.sensitive (dumpReceived micros f) := by
  have hsmall : f.bytes.length < 256 ^ 4 := by
    have hhigh := f.bounds.2
    simp only [maxMessageBytes] at hhigh
    simp only [RawFrame.bytes, RawFrame.first, List.length_append, Layout.put_u32,
      Layout.length_putLE]
    omega
  unfold dumpReceived received
  split
  · exact records_record inward micros rfl hsmall fun i _ => rfl
  · obtain ⟨hlen, houtside⟩ := redact_outside (f.first ++ f.body) f.sensitive
    refine records_record inward micros ?_ hsmall fun i hi => ?_
    · rw [List.append_nil]
      exact hlen
    · rw [List.append_nil]
      exact houtside i hi

/-- **What `ReadMessage` takes off the socket is recorded**: a message that it returns came in a
frame, which is what it took, and the record shows that frame. -/
theorem records_readMessage (micros : UInt64) {chunks : List Bytes} {m : Message}
    (h : (readMessage chunks).outcome = .message m) : ∃ f : RawFrame,
    decodeBody f.body = some m ∧ chunks.flatten = f.bytes ++ (readMessage chunks).left.flatten ∧
      Records f.bytes f.sensitive (dumpReceived micros f) := by
  obtain ⟨f, hdecode, htook⟩ := RawFrame.of_readMessage h
  exact ⟨f, hdecode, htook, records_dumpReceived micros f⟩

end Wire
