import ScorbitPlugin.Codec.Stream
import ScorbitPlugin.Wire.Layouts
import ScorbitPlugin.Wire.Message

set_option relaxedAutoImplicit false
set_option autoImplicit false

/-!
# Framing

`EncodeMessage` and `DecodeBody` of `src/WireProtocol.cpp`, and `ReadExact` and `ReadMessage` of
`src/SocketWorker.cpp` on a stream of chunks. The end of the stream is a peer that closed, a wait
that timed out or a worker told to stop: each ends the read, and with it the session.

## Main definitions

* `Wire.encodeMessage`, `Wire.decodeBody` — a framed message.
* `Wire.readMessage` — one message off a stream, with what was refused, allocated and left.
* `Wire.readStream` — messages until one is not read.

## Main results

* `Wire.readMessage_eq` — what is read depends on the bytes alone, not on the chunks.
* `Wire.framing_lossless` — what was framed is read back.
-/

namespace Wire

open Codec

/-! ## A framed message -/

/-- The lambda `u16` of `EncodeMessage`. -/
def frameU16 (v : UInt16) : Bytes := [(v &&& 0xFF).toUInt8, ((v >>> 8) &&& 0xFF).toUInt8]

/-- The lambda `u32` of `EncodeMessage`. -/
def frameU32 (v : UInt32) : Bytes :=
  frameU16 (v &&& 0xFFFF).toUInt16 ++ frameU16 ((v >>> 16) &&& 0xFFFF).toUInt16

/-- `EncodeMessage`: nothing when the payload is too long. -/
def encodeMessage (m : Message) : Bytes :=
  if m.payload.length > maxPayloadBytes then []
  else
    frameU32 (UInt32.ofNat (headerBytes + m.payload.length)) ++ frameU16 m.header.type ++
      frameU16 m.header.flags ++ frameU32 m.header.seq ++ m.payload

/-- The reads of `DecodeBody`. -/
def readHeader : Read Header := do
  let type ← Reader.u16
  let flags ← Reader.u16
  let seq ← Reader.u32
  return { type := type, flags := flags, seq := seq }

/-- `DecodeBody`. -/
def decodeBody (body : Bytes) : Option Message :=
  if body.length < headerBytes then none
  else (Reader.run readHeader body).map fun header => ⟨header, body.drop headerBytes⟩

/-! ## Reading a message -/

/-- Why `ReadMessage` returned. -/
inductive Outcome
  /-- It returned true, with the message. -/
  | message (m : Message)
  /-- The length was out of bounds: `SendError` with `ERR_MALFORMED`. -/
  | outOfBounds (length : ℕ)
  /-- The body did not decode: `SendError` with `ERR_MALFORMED`. -/
  | shortHeader
  /-- The stream ended in the length bytes. -/
  | noLength
  /-- The stream ended in the body. -/
  | noBody (length : ℕ)
deriving DecidableEq, Repr

/-- What `SendError` answers before `ReadMessage` returns false. -/
def Outcome.answer : Outcome → Option ErrorPayload
  | .outOfBounds _ => some ⟨errMalformed, "message length out of bounds".toUTF8.toList⟩
  | .shortHeader => some ⟨errMalformed, "message shorter than a header".toUTF8.toList⟩
  | _ => none

/-- What `ReadMessage` did. -/
structure ReadResult where
  outcome : Outcome
  /-- The size of the body allocated, if one was. -/
  allocated : Option ℕ
  /-- The chunks left on the stream. -/
  left : List Bytes
deriving DecidableEq, Repr

/-- `ReadMessage`, once the length is read. -/
def readBody (length : ℕ) (left : List Bytes) : ReadResult :=
  if length < headerBytes ∨ length > maxMessageBytes then ⟨.outOfBounds length, none, left⟩
  else
    let body := Stream.readExact length [] left
    if !body.complete then ⟨.noBody length, some length, body.left⟩
    else
      match decodeBody body.got with
      | none => ⟨.shortHeader, some length, body.left⟩
      | some m => ⟨.message m, some length, body.left⟩

/-- `ReadMessage`. -/
def readMessage (chunks : List Bytes) : ReadResult :=
  let bytes := Stream.readExact lengthBytes [] chunks
  if !bytes.complete then ⟨.noLength, none, bytes.left⟩
  else readBody ((Reader.run Reader.u32 bytes.got).getD 0).toNat bytes.left

/-! ## The header is read back -/

/-- A framed 16-bit word is its two bytes, least significant first. -/
theorem frameU16_eq (v : UInt16) : frameU16 v = Layout.u16.put v := (Writer.putLE_u16 v).symm

/-- A framed 32-bit word is its four bytes, least significant first. -/
theorem frameU32_eq (v : UInt32) : frameU32 v = Layout.u32.put v := by
  rw [frameU32, frameU16_eq, frameU16_eq]
  exact (Writer.putLE_u32 v).symm

/-- Enough bytes begin with a number.

**Proof sketch.** By induction on the width: the first byte is the lowest, and the others are a
number of a smaller width. -/
theorem exists_putLE : ∀ {k : ℕ} {bytes : Bytes}, k ≤ bytes.length →
    ∃ v t, v < 256 ^ k ∧ bytes = Layout.putLE k v ++ t := by
  intro k bytes h
  obtain ⟨v, t, hget⟩ : ∃ v t, Layout.getLE k bytes = some (v, t) := by
    induction k generalizing bytes with
    | zero => exact ⟨0, bytes, rfl⟩
    | succ k ih =>
      cases bytes with
      | nil => simp at h
      | cons byte bytes =>
        have hk : k ≤ bytes.length := by simpa using h
        obtain ⟨v, t, hget⟩ := ih hk
        exact ⟨byte.toNat + 256 * v, t, by simp [Layout.getLE, hget]⟩
  exact ⟨v, t, Layout.putLE_getLE k bytes v t hget⟩

/-- Enough bytes begin with a 16-bit word. -/
theorem exists_put_u16 {bytes : Bytes} (h : 2 ≤ bytes.length) :
    ∃ v t, bytes = Layout.u16.put v ++ t := by
  obtain ⟨v, t, hv, rfl⟩ := exists_putLE h
  have hv : (UInt16.ofNat v).toNat = v := UInt16.toNat_ofNat_of_lt hv
  exact ⟨UInt16.ofNat v, t, by simp [hv]⟩

/-- Enough bytes begin with a 32-bit word. -/
theorem exists_put_u32 {bytes : Bytes} (h : 4 ≤ bytes.length) :
    ∃ v t, bytes = Layout.u32.put v ++ t := by
  obtain ⟨v, t, hv, rfl⟩ := exists_putLE h
  have hv : (UInt32.ofNat v).toNat = v := UInt32.toNat_ofNat_of_lt hv
  exact ⟨UInt32.ofNat v, t, by simp [hv]⟩

/-- The layout of a header. -/
def headerLayout : Layout Header :=
  (Layout.u16.pair <| Layout.u16.pair Layout.u32).map (fun (a, b, c) => ⟨a, b, c⟩)
    (fun h => (h.type, h.flags, h.seq)) fun _ _ => rfl

/-- A header takes `HEADER_BYTES`. -/
@[simp] theorem length_put_header (h : Header) : (headerLayout.put h).length = headerBytes := by
  simp [headerLayout, headerBytes]

/-- Every header can be written. -/
theorem valid_header (h : Header) : headerLayout.valid h := by
  simp [headerLayout]

/-- Enough bytes begin with a header. -/
theorem exists_put_header {bytes : Bytes} (h : headerBytes ≤ bytes.length) :
    ∃ header t, bytes = headerLayout.put header ++ t := by
  have h : 8 ≤ bytes.length := h
  have h2 : 2 ≤ bytes.length := by omega
  obtain ⟨type, t, rfl⟩ := exists_put_u16 h2
  simp only [List.length_append, Layout.put_u16, Layout.length_putLE] at h
  have h2 : 2 ≤ t.length := by omega
  obtain ⟨flags, t, rfl⟩ := exists_put_u16 h2
  simp only [List.length_append, Layout.put_u16, Layout.length_putLE] at h
  have h4 : 4 ≤ t.length := by omega
  obtain ⟨seq, t, rfl⟩ := exists_put_u32 h4
  exact ⟨⟨type, flags, seq⟩, t, by simp [headerLayout]⟩

/-- The reads of `DecodeBody` read a header. -/
theorem reads_readHeader : Reads readHeader headerLayout.get := by
  rw [headerLayout, Layout.get_map]
  exact .field .u16 fun _ => .field .u16 fun _ => .last .u32 fun _ => .pure _

/-- `DecodeBody` takes a header and leaves the payload. -/
theorem decodeBody_put (header : Header) (payload : Bytes) :
    decodeBody (headerLayout.put header ++ payload) = some ⟨header, payload⟩ := by
  have hlen : ¬ (headerLayout.put header ++ payload).length < headerBytes := by
    rw [List.length_append, length_put_header]
    omega
  rw [decodeBody, if_neg hlen, reads_readHeader.run,
    headerLayout.get_put _ _ (valid_header header)]
  simp [List.drop_left' (length_put_header header)]

/-! ## What `ReadMessage` does -/

/-- The announced length is one `ReadMessage` takes. -/
def inBounds (length : ℕ) : Prop := headerBytes ≤ length ∧ length ≤ maxMessageBytes

/-- What can come of reading a message, told by the bytes that were on the stream. -/
inductive Took (chunks : List Bytes) : ReadResult → Prop
  | message (length : UInt32) (m : Message) (left : List Bytes) (hgood : inBounds length.toNat)
      (hlen : headerBytes + m.payload.length = length.toNat)
      (hbytes : chunks.flatten = Layout.u32.put length ++
        (headerLayout.put m.header ++ m.payload ++ left.flatten))
      (hleft : (∀ chunk ∈ chunks, chunk ≠ []) → ∀ chunk ∈ left, chunk ≠ []) :
      Took chunks ⟨.message m, some length.toNat, left⟩
  | outOfBounds (length : UInt32) (left : List Bytes) (hbad : ¬ inBounds length.toNat)
      (hbytes : chunks.flatten = Layout.u32.put length ++ left.flatten) :
      Took chunks ⟨.outOfBounds length.toNat, none, left⟩
  | noLength (left : List Bytes)
      (hend : (∀ chunk ∈ chunks, chunk ≠ []) →
        chunks.flatten.length < lengthBytes ∧ left = []) :
      Took chunks ⟨.noLength, none, left⟩
  | noBody (length : UInt32) (rest : Bytes) (left : List Bytes) (hgood : inBounds length.toNat)
      (hbytes : chunks.flatten = Layout.u32.put length ++ rest)
      (hend : (∀ chunk ∈ chunks, chunk ≠ []) → rest.length < length.toNat ∧ left = []) :
      Took chunks ⟨.noBody length.toNat, some length.toNat, left⟩

/-- What `ReadMessage` does once it has read the length.

**Proof sketch.** The length is out of bounds and nothing more is read, or a body of that length is
read; that is cut short, or read whole, and then it decodes or does not. -/
theorem took_readBody {chunks left : List Bytes} (length : UInt32)
    (hbytes : chunks.flatten = Layout.u32.put length ++ left.flatten)
    (hleft : (∀ chunk ∈ chunks, chunk ≠ []) → ∀ chunk ∈ left, chunk ≠ []) :
    Took chunks (readBody length.toNat left) := by
  unfold readBody
  split
  · rename_i hbad
    refine .outOfBounds length _ (fun hgood => ?_) hbytes
    obtain ⟨hlow, hhigh⟩ := hgood
    omega
  · rename_i hgood
    have hgood : inBounds length.toNat := by
      unfold inBounds
      omega
    dsimp only
    cases hbody : (Stream.readExact length.toNat [] left).complete with
    | false =>
      rw [Bool.not_false, if_pos rfl]
      refine .noBody length _ _ hgood hbytes fun hne => ?_
      obtain ⟨hiff, -, hnone⟩ :=
        Stream.complete_readExact (List.length_nil.trans_le (Nat.zero_le _)) (hleft hne)
      refine ⟨?_, hnone hbody⟩
      by_contra hlong
      have hcomplete := hiff.mpr (by simpa using hlong)
      exact Bool.false_ne_true (hbody.symm.trans hcomplete)
    | true =>
      rw [Bool.not_true, if_neg Bool.false_ne_true]
      obtain ⟨body, hlen, hgot, hflat⟩ :=
        Stream.of_readExact (Nat.zero_le length.toNat) hbody
      have hlen : body.length = length.toNat := hlen
      -- a body of that length has a header
      obtain ⟨header, payload, rfl⟩ := exists_put_header (hlen ▸ hgood.1)
      rw [hgot, List.nil_append, decodeBody_put]
      rw [List.length_append, length_put_header] at hlen
      refine .message length ⟨header, payload⟩ _ hgood hlen (hbytes.trans (by rw [hflat]))
        fun hne => ?_
      exact (Stream.complete_readExact (List.length_nil.trans_le (Nat.zero_le _)) (hleft hne)).2.1

/-- **What `ReadMessage` does**, on any stream.

**Proof sketch.** The length is read, or cut short with less than its bytes; with it the rest is
`took_readBody`. -/
theorem took_readMessage (chunks : List Bytes) : Took chunks (readMessage chunks) := by
  unfold readMessage
  dsimp only
  cases hlength : (Stream.readExact lengthBytes [] chunks).complete with
  | false =>
    rw [Bool.not_false, if_pos rfl]
    refine .noLength _ fun hne => ?_
    obtain ⟨hiff, -, hnone⟩ :=
      Stream.complete_readExact (List.length_nil.trans_le (Nat.zero_le _)) hne
    refine ⟨?_, hnone hlength⟩
    by_contra hlong
    have hcomplete := hiff.mpr (by simpa using hlong)
    exact Bool.false_ne_true (hlength.symm.trans hcomplete)
  | true =>
    rw [Bool.not_true, if_neg Bool.false_ne_true]
    obtain ⟨bytes, hlen, hgot, hflat⟩ := Stream.of_readExact (Nat.zero_le lengthBytes) hlength
    have hlen : bytes.length = 4 := hlen
    obtain ⟨length, t, rfl⟩ := exists_put_u32 hlen.ge
    obtain rfl : t = [] := by
      refine List.eq_nil_of_length_eq_zero ?_
      simpa using hlen
    have hword : (Reader.run Reader.u32 (Layout.u32.put length ++ [])).getD 0 = length := by
      rw [Reads.u32.run, Layout.u32.get_put _ _ (by simp)]
      rfl
    rw [hgot, List.nil_append, hword]
    rw [List.append_nil] at hflat
    exact took_readBody length hflat fun hne =>
      (Stream.complete_readExact (List.length_nil.trans_le (Nat.zero_le _)) hne).2.1

/-- Two streams of bytes that begin with a word and agree have the same word. -/
theorem put_u32_append_inj {a b : UInt32} {s t : Bytes}
    (h : Layout.u32.put a ++ s = Layout.u32.put b ++ t) : a = b ∧ s = t := by
  have ha := Layout.u32.get_put a s (by simp)
  rw [h, Layout.u32.get_put b t (by simp)] at ha
  obtain ⟨rfl, rfl⟩ := Prod.mk.inj (Option.some.inj ha)
  exact ⟨rfl, rfl⟩

/-- A message of a stream shortens it. -/
theorem length_of_message {chunks : List Bytes} {m : Message}
    (h : (readMessage chunks).outcome = .message m) :
    (readMessage chunks).left.flatten.length < chunks.flatten.length := by
  have htook := took_readMessage chunks
  generalize readMessage chunks = r at h htook
  cases htook with
  | message length m left hgood hlen hbytes hleft =>
    rw [hbytes]
    simp only [List.length_append, Layout.put_u32, Layout.length_putLE]
    omega
  | outOfBounds => cases h
  | noLength => cases h
  | noBody => cases h

/-- The messages `ReadMessage` reads off a stream until it reads none, and what it did then. -/
def readStream (chunks : List Bytes) : List Message × ReadResult :=
  match _h : (readMessage chunks).outcome with
  | .message m =>
    (m :: (readStream (readMessage chunks).left).1, (readStream (readMessage chunks).left).2)
  | _ => ([], readMessage chunks)
termination_by chunks.flatten.length
decreasing_by all_goals exact length_of_message _h

/-! ## Framing is lossless -/

/-- A message that fits is framed as its length, its header and its payload. -/
theorem encodeMessage_eq {m : Message} (h : m.payload.length ≤ maxPayloadBytes) :
    encodeMessage m = Layout.u32.put (UInt32.ofNat (headerBytes + m.payload.length)) ++
      (headerLayout.put m.header ++ m.payload) := by
  rw [encodeMessage, if_neg (Nat.not_lt.mpr h), frameU16_eq, frameU16_eq, frameU32_eq,
    frameU32_eq]
  simp [headerLayout]

/-- The length of a message that fits is not cut short by its word. -/
theorem toNat_length {m : Message} (h : m.payload.length ≤ maxPayloadBytes) :
    (UInt32.ofNat (headerBytes + m.payload.length)).toNat = headerBytes + m.payload.length ∧
      inBounds (headerBytes + m.payload.length) := by
  simp only [maxPayloadBytes, maxMessageBytes, lengthBytes, headerBytes, inBounds] at h ⊢
  have hlt : 8 + m.payload.length < 4294967296 := by omega
  exact ⟨UInt32.toNat_ofNat_of_lt hlt, by omega, by omega⟩

/-- A message that begins a stream is read, and what follows it is left.

**Proof sketch.** Of the outcomes of `ReadMessage` (`took_readMessage`) only a message is left: the
first bytes are the length, which is in bounds, and the body behind it is whole and decodes to the
message. -/
theorem readMessage_encodeMessage {m : Message} (h : m.payload.length ≤ maxPayloadBytes)
    {chunks : List Bytes} (hne : ∀ chunk ∈ chunks, chunk ≠ []) {rest : Bytes}
    (hbytes : chunks.flatten = encodeMessage m ++ rest) :
    (readMessage chunks).outcome = .message m ∧ (readMessage chunks).left.flatten = rest ∧
      ∀ chunk ∈ (readMessage chunks).left, chunk ≠ [] := by
  obtain ⟨hlength, hgood⟩ := toNat_length h
  rw [encodeMessage_eq h, List.append_assoc] at hbytes
  have htook := took_readMessage chunks
  generalize readMessage chunks = r at htook ⊢
  cases htook with
  | message length m' left hgood' hlen hbytes' hnonempty =>
    obtain ⟨hword, hrest⟩ := put_u32_append_inj (hbytes'.symm.trans hbytes)
    rw [hword, hlength] at hlen
    rw [List.append_assoc, List.append_assoc] at hrest
    obtain ⟨hheader, hrest⟩ := List.append_inj hrest (by simp)
    obtain ⟨hpayload, hleft⟩ := List.append_inj hrest (by omega)
    have hheader : m'.header = m.header :=
      headerLayout.put_injective (valid_header _) (valid_header _) hheader
    exact ⟨by rw [show m' = m from congr (congrArg Message.mk hheader) hpayload], hleft,
      hnonempty hne⟩
  | outOfBounds length left hbad hbytes' =>
    obtain ⟨rfl, -⟩ := put_u32_append_inj (hbytes'.symm.trans hbytes)
    exact absurd (by rw [hlength]; exact hgood) hbad
  | noLength left hend =>
    have hshort := (hend hne).1
    simp only [hbytes, List.length_append, Layout.put_u32, Layout.length_putLE, lengthBytes]
      at hshort
    omega
  | noBody length rest' left hgood' hbytes' hend =>
    obtain ⟨rfl, rfl⟩ := put_u32_append_inj (hbytes'.symm.trans hbytes)
    have hshort := (hend hne).1
    rw [hlength] at hshort
    simp only [List.length_append, length_put_header] at hshort
    omega

/-- A stream without bytes or empty chunks has no chunks left to read.

**Proof sketch.** No chunk is empty, so there is none. Then of the four ways of `ReadMessage` only
the end of the stream is left. -/
theorem readMessage_of_flatten_nil {chunks : List Bytes} (hne : ∀ chunk ∈ chunks, chunk ≠ [])
    (h : chunks.flatten = []) : readMessage chunks = ⟨.noLength, none, []⟩ := by
  obtain rfl : chunks = [] := by
    cases chunks with
    | nil => rfl
    | cons chunk chunks =>
      exact absurd (List.append_eq_nil_iff.mp h).1 (hne chunk List.mem_cons_self)
  have htook := took_readMessage []
  generalize readMessage [] = r at htook ⊢
  cases htook with
  | message length m left hgood hlen hbytes hleft => simp [Layout.putLE] at hbytes
  | outOfBounds length left hbad hbytes => simp [Layout.putLE] at hbytes
  | noLength left hend => rw [(hend (by simp)).2]
  | noBody length rest left hgood hbytes hend => simp [Layout.putLE] at hbytes

/-- What is read off a stream that begins with a framed message. -/
theorem readStream_cons {m : Message} {chunks : List Bytes}
    (h : (readMessage chunks).outcome = .message m) :
    readStream chunks =
      (m :: (readStream (readMessage chunks).left).1,
        (readStream (readMessage chunks).left).2) := by
  rw [readStream]
  split
  · rename_i m' h'
    rw [h] at h'
    cases h'
    rfl
  · rename_i hno
    exact absurd h (hno m)

/-- A stream of framed messages is read as these messages, and ends with them. -/
theorem readStream_encode : ∀ (msgs : List Message) {chunks : List Bytes},
    (∀ m ∈ msgs, m.payload.length ≤ maxPayloadBytes) → (∀ chunk ∈ chunks, chunk ≠ []) →
    chunks.flatten = msgs.flatMap encodeMessage →
    readStream chunks = (msgs, ⟨.noLength, none, []⟩)
  | [], chunks, _, hne, hbytes => by
    rw [readStream, readMessage_of_flatten_nil hne hbytes]
  | m :: msgs, chunks, hfit, hne, hbytes => by
    obtain ⟨hm, hmsgs⟩ := List.forall_mem_cons.mp hfit
    rw [List.flatMap_cons] at hbytes
    obtain ⟨hread, hleft, hneLeft⟩ := readMessage_encodeMessage hm hne hbytes
    rw [readStream_cons hread, readStream_encode msgs hmsgs hneLeft hleft]

/-- **Framing is lossless.** The framed messages, cut in any way, are read back as exactly these
messages, and each keeps to the bounds. On any stream a message takes its four length bytes and as
many bytes as they announce; a length out of bounds takes the four bytes and allocates nothing.

**Proof sketch.** `ReadMessage` is followed once, on any stream: what it takes is told by the bytes
alone. A framed message begins with its length, so the two lengths agree, and with them the
header, the payload and what is left. -/
theorem framing_lossless (msgs : List Message) (chunks : List Bytes)
    (hfit : ∀ m ∈ msgs, m.payload.length ≤ maxPayloadBytes)
    (hne : ∀ chunk ∈ chunks, chunk ≠ [])
    (hbytes : chunks.flatten = msgs.flatMap encodeMessage) :
    (readStream chunks = (msgs, ⟨.noLength, none, []⟩) ∧
      ∀ m ∈ msgs, inBounds (headerBytes + m.payload.length) ∧
        (encodeMessage m).length ≤ maxMessageBytes) ∧
    (∀ (stream : List Bytes) (m : Message), (readMessage stream).outcome = .message m →
      ∃ (length : UInt32) (body : Bytes), inBounds length.toNat ∧ body.length = length.toNat ∧
        stream.flatten = Layout.u32.put length ++ body ++ (readMessage stream).left.flatten ∧
        decodeBody body = some m ∧ (readMessage stream).allocated = some length.toNat) ∧
    ∀ (stream : List Bytes) (length : UInt32) (rest : Bytes), (∀ chunk ∈ stream, chunk ≠ []) →
      stream.flatten = Layout.u32.put length ++ rest → ¬ inBounds length.toNat →
      (readMessage stream).outcome = .outOfBounds length.toNat ∧
        (readMessage stream).allocated = none ∧ (readMessage stream).left.flatten = rest := by
  refine ⟨⟨readStream_encode msgs hfit hne hbytes, fun m hm => ?_⟩, fun stream m hread => ?_,
    fun stream length rest hstream hflat hbad => ?_⟩
  · refine ⟨(toNat_length (hfit m hm)).2, ?_⟩
    have hm := hfit m hm
    rw [encodeMessage_eq hm]
    simp only [maxPayloadBytes, maxMessageBytes, lengthBytes, headerBytes, List.length_append,
      length_put_header, Layout.put_u32, Layout.length_putLE] at hm ⊢
    omega
  · have htook := took_readMessage stream
    generalize readMessage stream = r at hread htook ⊢
    cases htook with
    | message length m' left hgood hlen hflat hleft =>
      cases hread
      refine ⟨length, headerLayout.put m.header ++ m.payload, hgood, ?_, ?_,
        decodeBody_put _ _, rfl⟩
      · rw [List.length_append, length_put_header, hlen]
      · rw [hflat]
        simp only [List.append_assoc]
    | outOfBounds => cases hread
    | noLength => cases hread
    | noBody => cases hread
  · have htook := took_readMessage stream
    generalize readMessage stream = r at htook ⊢
    cases htook with
    | message length' m left hgood hlen hflat' hleft =>
      obtain ⟨rfl, -⟩ := put_u32_append_inj (hflat'.symm.trans hflat)
      exact absurd hgood hbad
    | outOfBounds length' left hbad' hflat' =>
      obtain ⟨rfl, rfl⟩ := put_u32_append_inj (hflat'.symm.trans hflat)
      exact ⟨rfl, rfl, rfl⟩
    | noLength left hend =>
      have hshort := (hend hstream).1
      simp only [hflat, List.length_append, Layout.put_u32, Layout.length_putLE, lengthBytes]
        at hshort
      omega
    | noBody length' rest' left hgood hflat' hend =>
      obtain ⟨rfl, -⟩ := put_u32_append_inj (hflat'.symm.trans hflat)
      exact absurd hgood hbad

/-- A `Ping` and a `Bye`, the stream cut inside the first length and after the first header. -/
theorem framing_lossless_pingBye :
    readStream [[8, 0], [0, 0, 5, 0, 0, 0, 1, 0, 0, 0, 10],
      [0, 0, 0, 7, 0, 0, 0, 2, 0, 0, 0, 0, 0]] =
      ([⟨⟨typePing, 0, 1⟩, []⟩, ⟨⟨typeBye, 0, 2⟩, [0, 0]⟩], ⟨.noLength, none, []⟩) :=
  (framing_lossless [⟨⟨typePing, 0, 1⟩, []⟩, ⟨⟨typeBye, 0, 2⟩, [0, 0]⟩]
    [[8, 0], [0, 0, 5, 0, 0, 0, 1, 0, 0, 0, 10], [0, 0, 0, 7, 0, 0, 0, 2, 0, 0, 0, 0, 0]]
    (by decide) (by decide) (by decide)).1.1

end Wire
