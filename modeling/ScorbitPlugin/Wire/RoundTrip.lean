import ScorbitPlugin.Wire.TailLayouts

set_option relaxedAutoImplicit false
set_option autoImplicit false

/-!
# The wire format as a whole

Every payload type under one `encode` and one `decode`: decoding undoes encoding, decoders take
only what encoders write, and what a truncated or an extended payload is read as.

## Main definitions

* `Wire.PayloadType` — the payload types that are both encoded and decoded.
* `Wire.PayloadType.carried`, `Wire.PayloadType.fits`, `Wire.PayloadType.size` — what of a value
  is on the wire, what it takes to be encoded, and how many bytes it takes.

## Main results

* `Wire.payload_round_trip` — decoding undoes encoding.
* `Wire.payload_canonical` — decoders take only what encoders write.
* `Wire.payload_truncation` — truncated and extended payloads.
-/

namespace Wire

open Codec

/-- The payload types with both an `Encode` and a `Decode`. -/
inductive PayloadType where
  | hello | helloAck | declare | frameRequest | frameReply | pong | bye | errorPayload
  | subscription | pollReply | readDirectRequest | readDirectReply | writeRequest | writeReply
  | nvRamParameters | overlayRequest | overlayControl | status | gameBatch | topScoresRequest
  | topScores | players | playerPicture
deriving DecidableEq, Repr

namespace PayloadType

/-- The values of a payload type. -/
def Value : PayloadType → Type
  | hello => Hello
  | helloAck => HelloAck
  | declare => Declare
  | frameRequest => FrameRequest
  | frameReply => FrameReply
  | pong => Pong
  | bye => Bye
  | errorPayload => ErrorPayload
  | subscription => Subscription
  | pollReply => PollReply
  | readDirectRequest => ReadDirectRequest
  | readDirectReply => ReadDirectReply
  | writeRequest => WriteRequest
  | writeReply => WriteReply
  | nvRamParameters => NvRamParameters
  | overlayRequest => OverlayRequest
  | overlayControl => OverlayControl
  | status => Status
  | gameBatch => GameBatch
  | topScoresRequest => TopScoresRequest
  | topScores => TopScores
  | players => Players
  | playerPicture => PlayerPicture

/-- `Encode`, to a peer of minor `peerMinor`; only a Declare looks at it. -/
def encode : (k : PayloadType) → (peerMinor : UInt16) → k.Value → Bytes
  | hello, _, v => Hello.encode v
  | helloAck, _, v => HelloAck.encode v
  | declare, peerMinor, v => Declare.encode v peerMinor
  | frameRequest, _, v => FrameRequest.encode v
  | frameReply, _, v => FrameReply.encode v
  | pong, _, v => Pong.encode v
  | bye, _, v => Bye.encode v
  | errorPayload, _, v => ErrorPayload.encode v
  | subscription, _, v => Subscription.encode v
  | pollReply, _, v => PollReply.encode v
  | readDirectRequest, _, v => ReadDirectRequest.encode v
  | readDirectReply, _, v => ReadDirectReply.encode v
  | writeRequest, _, v => WriteRequest.encode v
  | writeReply, _, v => WriteReply.encode v
  | nvRamParameters, _, v => NvRamParameters.encode v
  | overlayRequest, _, v => OverlayRequest.encode v
  | overlayControl, _, v => OverlayControl.encode v
  | status, _, v => Status.encode v
  | gameBatch, _, v => GameBatch.encode v
  | topScoresRequest, _, v => TopScoresRequest.encode v
  | topScores, _, v => TopScores.encode v
  | players, _, v => Players.encode v
  | playerPicture, _, v => PlayerPicture.encode v

/-- `Decode`, from a peer of minor `peerMinor`; only a Status looks at it. -/
def decode : (k : PayloadType) → (peerMinor : UInt16) → Bytes → Option k.Value
  | hello, _, p => Hello.decode p
  | helloAck, _, p => HelloAck.decode p
  | declare, _, p => Declare.decode p
  | frameRequest, _, p => FrameRequest.decode p
  | frameReply, _, p => FrameReply.decode p
  | pong, _, p => Pong.decode p
  | bye, _, p => Bye.decode p
  | errorPayload, _, p => ErrorPayload.decode p
  | subscription, _, p => Subscription.decode p
  | pollReply, _, p => PollReply.decode p
  | readDirectRequest, _, p => ReadDirectRequest.decode p
  | readDirectReply, _, p => ReadDirectReply.decode p
  | writeRequest, _, p => WriteRequest.decode p
  | writeReply, _, p => WriteReply.decode p
  | nvRamParameters, _, p => NvRamParameters.decode p
  | overlayRequest, _, p => OverlayRequest.decode p
  | overlayControl, _, p => OverlayControl.decode p
  | status, peerMinor, p => Status.decode p peerMinor
  | gameBatch, _, p => GameBatch.decode p
  | topScoresRequest, _, p => TopScoresRequest.decode p
  | topScores, _, p => TopScores.decode p
  | players, _, p => Players.decode p
  | playerPicture, _, p => PlayerPicture.decode p

/-- What of a value is on the wire to a peer of minor `peerMinor`; the rest is at its defaults. -/
def carried : (k : PayloadType) → (peerMinor : UInt16) → k.Value → k.Value
  | declare, peerMinor, v => if peerMinor ≥ 1 then v else Declare.minor0 v
  | frameReply, _, v => FrameReply.carried v
  | status, _, v => Status.carried v
  | gameBatch, _, v => GameBatch.carried v
  | _, _, v => v

/-- The lengths of a value fit, and it meets the rules of its type. -/
def fits : (k : PayloadType) → (peerMinor : UInt16) → k.Value → Prop
  | hello, _, v => Hello.fits v
  | helloAck, _, v => HelloAck.fits v
  | declare, peerMinor, v => Declare.headFits v ∧ (peerMinor ≥ 1 → Declare.tailFits v)
  | frameReply, _, v => FrameReply.fits v
  | bye, _, v => shortStrings [Bye.reason v]
  | errorPayload, _, v => shortStrings [ErrorPayload.reason v]
  | subscription, _, v => Subscription.fits v
  | pollReply, _, v => PollReply.fits v
  | readDirectReply, _, v => ReadDirectReply.fits v
  | writeRequest, _, v => WriteRequest.fits v
  | status, _, v => shortStrings [Status.supportText v]
  | gameBatch, _, v => GameBatch.fits v
  | topScoresRequest, _, v => validRequest v = true
  | topScores, _, v => validTopScores v = true
  | players, _, v => Players.fits v
  | playerPicture, _, v => PlayerPicture.fits v
  | frameRequest, _, _ | pong, _, _ | readDirectRequest, _, _ | writeReply, _, _
  | nvRamParameters, _, _ | overlayRequest, _, _ | overlayControl, _, _ => True

/-- The bytes a value takes. -/
def size : (k : PayloadType) → (peerMinor : UInt16) → k.Value → ℕ
  | hello, _, v => Hello.size v
  | helloAck, _, v => HelloAck.size v
  | declare, peerMinor, v =>
    Declare.headSize v + if peerMinor ≥ 1 then Declare.tailSize v else 0
  | frameRequest, _, _ => 8
  | frameReply, _, v => FrameReply.size v
  | pong, _, _ => 10
  | bye, _, v => strBytes (Bye.reason v)
  | errorPayload, _, v => 2 + strBytes (ErrorPayload.reason v)
  | subscription, _, v => Subscription.size v
  | pollReply, _, v => PollReply.size v
  | readDirectRequest, _, _ => 8
  | readDirectReply, _, v => ReadDirectReply.size v
  | writeRequest, _, v => WriteRequest.size v
  | writeReply, _, _ => 10
  | nvRamParameters, _, _ => 14
  | overlayRequest, _, v => 1 + (OverlayRequest.payload v).length
  | overlayControl, _, _ => 3
  | status, _, v => Status.size v
  | gameBatch, _, v => GameBatch.size v
  | topScoresRequest, _, v => TopScoresRequest.size v
  | topScores, _, v => TopScores.size v
  | players, _, v => Players.size v
  | playerPicture, _, v => PlayerPicture.size v

/-- The types whose payload may mean something else when it is cut short or goes on. -/
def tailed : PayloadType → Bool
  | declare | status | overlayRequest => true
  | _ => false

/-- Every other type keeps to a layout. -/
theorem coding (k : PayloadType) (hk : k.tailed = false) (m m' : UInt16) :
    ∃ layout, Coding maxPayloadBytes (k.encode m) (k.decode m') layout (k.carried m) (k.fits m)
      (k.size m) := by
  cases k with
  | hello => exact ⟨_, Hello.coding⟩
  | helloAck => exact ⟨_, HelloAck.coding⟩
  | declare => simp [tailed] at hk
  | frameRequest => exact ⟨_, FrameRequest.coding⟩
  | frameReply => exact ⟨_, FrameReply.coding⟩
  | pong => exact ⟨_, Pong.coding⟩
  | bye => exact ⟨_, Bye.coding⟩
  | errorPayload => exact ⟨_, ErrorPayload.coding⟩
  | subscription => exact ⟨_, Subscription.coding⟩
  | pollReply => exact ⟨_, PollReply.coding⟩
  | readDirectRequest => exact ⟨_, ReadDirectRequest.coding⟩
  | readDirectReply => exact ⟨_, ReadDirectReply.coding⟩
  | writeRequest => exact ⟨_, WriteRequest.coding⟩
  | writeReply => exact ⟨_, WriteReply.coding⟩
  | nvRamParameters => exact ⟨_, NvRamParameters.coding⟩
  | overlayRequest => simp [tailed] at hk
  | overlayControl => exact ⟨_, OverlayControl.coding⟩
  | status => simp [tailed] at hk
  | gameBatch => exact ⟨_, GameBatch.coding⟩
  | topScoresRequest => exact ⟨_, TopScoresRequest.coding⟩
  | topScores => exact ⟨_, TopScores.coding⟩
  | players => exact ⟨_, Players.coding⟩
  | playerPicture => exact ⟨_, PlayerPicture.coding⟩

/-- A decoder of minor 2 on takes what was encoded; only a Status may be encoded and then
refused. -/
def readable : (k : PayloadType) → k.Value → Bool
  | status, v => Status.readable v
  | _, _ => true

end PayloadType

/-! ## Round trip -/

/-- A Declare is read back as it was written at its peer's minor.

**Proof sketch.** From minor 1 on the whole layout is written, and read back as it was. Below it
only the head, which is read back as the Declare of minor 0. -/
theorem Declare.round_trip (m : UInt16) (v : Declare) :
    (v.encode m ≠ [] → (v.encode m).length ≤ maxPayloadBytes ∧
      Declare.decode (v.encode m) = some (if m ≥ 1 then v else v.minor0)) ∧
    (v.encode m = [] ↔ ¬ ((v.headFits ∧ (m ≥ 1 → v.tailFits)) ∧
      v.headSize + (if m ≥ 1 then v.tailSize else 0) ≤ maxPayloadBytes)) := by
  by_cases hm : m ≥ 1
  · have h := v.encodes_full hm
    have hlen := v.length_full
    simp only [hm, if_true, forall_true_left]
    refine ⟨fun hne => ?_, ?_⟩
    · obtain ⟨hfits, hmax, heq⟩ := h.of_ne_nil hne
      rw [heq, Declare.decode_eq]
      refine ⟨hmax, ?_⟩
      simpa using Declare.layout.get_full (v.valid_full.mpr hfits) []
    · rw [h.eq_nil_iff (List.ne_nil_of_length_pos (by rw [hlen, Declare.tailSize]; omega)), hlen]
  · have h := v.encodes_head hm
    have hlen := v.length_head
    simp only [hm, if_false, IsEmpty.forall_iff, and_true, Nat.add_zero]
    refine ⟨fun hne => ?_, ?_⟩
    · obtain ⟨hfits, hmax, heq⟩ := h.of_ne_nil hne
      rw [heq, Declare.decode_eq]
      exact ⟨hmax,
        Declare.layout.get_head (v := v.minor0) ((Declare.valid_head _).mpr ⟨hfits, rfl⟩)⟩
    · rw [h.eq_nil_iff (List.ne_nil_of_length_pos (by rw [hlen, Declare.headSize]; omega)), hlen]

/-- The bytes of a Status are not none. -/
theorem Status.length_put (v : Status) : (Status.layout.head.put v ++
    if v.hasAuthStatus then [v.authStatus] else []).length = v.size := by
  rcases hauth : v.hasAuthStatus with _ | _ <;>
    simp [Status.layout, Tailed.ofFields, Status.headLayout, Status.size, strBytes, hauth] <;> omega

/-- A readable Status is read back, and no other is read.

**Proof sketch.** The layout writes what fits, and the decoder reads it and then checks the states;
a Status that is not readable fails that check. -/
theorem Status.round_trip (m' : UInt16) (hm' : 2 ≤ m') (v : Status) :
    (v.encode ≠ [] → v.encode.length ≤ maxPayloadBytes ∧
      Status.decode v.encode m' = if v.readable then some v.carried else none) ∧
    (v.encode = [] ↔ ¬ (shortStrings [v.supportText] ∧ v.size ≤ maxPayloadBytes)) := by
  have h := v.encodes
  rw [Status.put_eq] at h
  have hlen := v.length_put
  refine ⟨fun hne => ?_, ?_⟩
  · obtain ⟨hshort, hmax, heq⟩ := h.of_ne_nil hne
    refine ⟨heq ▸ hmax, ?_⟩
    rw [heq, Status.decode_eq _ hm']
    rcases hread : v.readable with _ | _
    · simpa using Status.get_of_unreadable hshort hread
    · rw [← Status.put_eq]
      rcases hauth : v.hasAuthStatus with _ | _
      · have hvalid : Status.layout.head.valid v.withoutAuth := by
          rw [Status.valid_head]
          simpa [Status.readable, hauth, Status.withoutAuth] using hread
        have hcarried : v.carried = v.withoutAuth := by
          simp [Status.carried, Status.withoutAuth, hauth]
        rw [hcarried]
        exact Status.layout.get_head hvalid
      · have hvalid := (Status.valid_full v).mpr ⟨hauth, hread⟩
        simpa [Status.carried, hauth] using Status.layout.get_full hvalid []
  · rw [h.eq_nil_iff (List.ne_nil_of_length_pos (by rw [hlen, Status.size]; omega)), hlen]

/-- **Decoding undoes encoding**: what is encoded keeps to the payload bound and is read back, with
what the layout does not carry at its defaults, unless it is a Status that its decoder refuses; and
encoding fails exactly on a broken length, bound or rule.

**Proof sketch.** The types without a tail keep to a layout, whose laws give all of it; a Declare
and a Status are a head with an optional tail, and an overlay request is its own bytes. -/
theorem payload_round_trip (k : PayloadType) (m m' : UInt16) (hm' : 2 ≤ m') (v : k.Value) :
    (k.encode m v ≠ [] → (k.encode m v).length ≤ maxPayloadBytes ∧
      k.decode m' (k.encode m v) = if k.readable v then some (k.carried m v) else none) ∧
    (k.encode m v = [] ↔ ¬ (k.fits m v ∧ k.size m v ≤ maxPayloadBytes)) := by
  rcases hk : k.tailed with _ | _
  · obtain ⟨layout, hcoding⟩ := k.coding hk m m'
    have hread : k.readable v = true := by cases k <;> first | rfl | simp [PayloadType.tailed] at hk
    refine ⟨fun hne => ⟨hcoding.length_encode hne, ?_⟩, hcoding.encode_eq_nil_iff v⟩
    rw [hread, if_pos rfl]
    exact hcoding.decode_encode hne
  · cases k with
    | declare => exact Declare.round_trip m v
    | status => exact Status.round_trip m' hm' v
    | overlayRequest =>
      have h := OverlayRequest.encodes v
      refine ⟨fun hne => ?_, ?_⟩
      · obtain ⟨-, hmax, heq⟩ := h.of_ne_nil hne
        change (OverlayRequest.encode v).length ≤ _ ∧
          OverlayRequest.decode (OverlayRequest.encode v) = some v
        rw [heq, OverlayRequest.decode_eq]
        exact ⟨hmax, rfl⟩
      · have hnil := h.eq_nil_iff (List.cons_ne_nil _ _)
        rw [List.length_cons, Nat.add_comm] at hnil
        exact hnil
    | _ => simp [PayloadType.tailed] at hk

/-- A batch whose one op has a field its kind does not name comes back without it. -/
theorem payload_round_trip_gameBatch :
    PayloadType.gameBatch.decode 2 (PayloadType.gameBatch.encode 0
      ({ ops := [{ kind := 1, value := 3, score := 7 }], batchId := 9 } : GameBatch)) =
        some ({ ops := [{ kind := 1, value := 3 }], batchId := 9 } : GameBatch) :=
  ((payload_round_trip .gameBatch 0 2 (by decide)
    ({ ops := [{ kind := 1, value := 3, score := 7 }], batchId := 9 } : GameBatch)).1
      (by decide)).2

/-! ## Canonicity -/

namespace PayloadType

/-- A payload `p` decoded as `v` is what `Encode` writes, perhaps with something after it. A Declare
that goes on past `identifyFormat` is one of minor 1, any other one of minor 0 and nothing else; a
Status has its tail when it is decoded at minor 2 or more and goes on past the support text, and
then nothing may follow a Status without one; an overlay request is all of `p`. -/
def canonical : (k : PayloadType) → (peerMinor : UInt16) → k.Value → Bytes → Prop
  | declare, _, v, p =>
    (encode declare 0 v ≠ [] ∧ p = encode declare 0 v) ∨
      (encode declare 0 v <+: p ∧ p ≠ encode declare 0 v ∧
        encode declare 1 v ≠ [] ∧ encode declare 1 v <+: p)
  | status, peerMinor, v, p => encode status peerMinor v ≠ [] ∧ encode status peerMinor v <+: p ∧
    (2 ≤ peerMinor → Status.hasAuthStatus v = false → p = encode status peerMinor v) ∧
    (¬ 2 ≤ peerMinor → Status.hasAuthStatus v = false)
  | overlayRequest, peerMinor, v, p =>
    encode overlayRequest peerMinor v ≠ [] ∧ p = encode overlayRequest peerMinor v
  | k, peerMinor, v, p => encode k peerMinor v ≠ [] ∧ encode k peerMinor v <+: p

end PayloadType

/-- A Declare that is decoded was written, at minor 1 if it goes on past `identifyFormat`.

**Proof sketch.** What is decoded is the head alone, or head and tail with something behind
(`of_get`). Either is what the layout writes of it, and so what `Encode` does. -/
theorem Declare.canonical {p : Bytes} (hp : p.length ≤ maxPayloadBytes) {v : Declare}
    (h : Declare.decode p = some v) :
    (v.encode 0 ≠ [] ∧ p = v.encode 0) ∨
      (v.encode 0 <+: p ∧ p ≠ v.encode 0 ∧ v.encode 1 ≠ [] ∧ v.encode 1 <+: p) := by
  rw [Declare.decode_eq] at h
  have hhead := v.encodes_head (m := 0) (by decide)
  have hfull := v.encodes_full (m := 1) (by decide)
  have hne : Declare.layout.head.put v ≠ [] :=
    List.ne_nil_of_length_pos (by rw [v.length_head, Declare.headSize]; omega)
  rcases Declare.layout.of_get h with ⟨hvalid, rfl⟩ | ⟨hvalid, hmore, hpre⟩
  · have heq := hhead.eq_bytes ((Declare.valid_head v).mp hvalid).1 hp
    exact Or.inl ⟨heq ▸ hne, heq.symm⟩
  · obtain ⟨r, hr, hput⟩ := Declare.layout.put_full v
    have hlen := hpre.length_le.trans hp
    have hshort : (Declare.layout.head.put v).length ≤ maxPayloadBytes := by
      rw [v.length_full] at hlen
      rw [v.length_head]
      omega
    obtain ⟨hheadFits, htailFits⟩ := (Declare.valid_full v).mp hvalid
    have heq₀ := hhead.eq_bytes hheadFits hshort
    have heq₁ := hfull.eq_bytes ⟨hheadFits, htailFits⟩ hlen
    rw [heq₀, heq₁]
    refine Or.inr ⟨?_, hmore, ?_, hpre⟩
    · exact (hput ▸ List.prefix_append _ r).trans hpre
    · rw [hput]
      simp [hr]

/-- A Status without an `authStatus` that its decoder takes is written as its head.

**Proof sketch.** What the head takes has no `authStatus`, so the encoder writes the head alone, and
this fits. -/
theorem Status.encode_of_head {v : Status} (h : Status.layout.head.valid v)
    (hlen : (Status.layout.head.put v).length ≤ maxPayloadBytes) :
    v.hasAuthStatus = false ∧ v.encode = Status.layout.head.put v ∧ v.encode ≠ [] := by
  obtain ⟨htext, hsame⟩ := v.valid_head.mp h
  have hauth : v.hasAuthStatus = false := by rw [← hsame]; rfl
  have hencodes := v.encodes
  simp only [hauth, Bool.false_eq_true, if_false] at hencodes
  have hshort : shortStrings [v.supportText] := by
    simpa [shortStrings] using htext.trans (by decide)
  have heq := hencodes.eq_bytes hshort hlen
  refine ⟨hauth, heq, ?_⟩
  have hsize := v.length_put
  simp only [hauth, Bool.false_eq_true, if_false, List.append_nil] at hsize
  rw [heq]
  exact List.ne_nil_of_length_pos (by rw [hsize, Status.size]; omega)

/-- A Status that is decoded was written.

**Proof sketch.** From minor 2 on it is the head alone, or the head, the auth status and anything
behind. Below it the head and anything behind, which is not read. -/
theorem Status.canonical {p : Bytes} (hp : p.length ≤ maxPayloadBytes) {m : UInt16} {v : Status}
    (h : Status.decode p m = some v) : v.encode ≠ [] ∧ v.encode <+: p ∧
      (2 ≤ m → v.hasAuthStatus = false → p = v.encode) ∧ (¬ 2 ≤ m → v.hasAuthStatus = false) := by
  by_cases hm : 2 ≤ m
  · rw [Status.decode_eq p hm] at h
    rcases Status.layout.of_get h with ⟨hvalid, rfl⟩ | ⟨hvalid, -, hpre⟩
    · obtain ⟨-, heq, hne⟩ := Status.encode_of_head hvalid hp
      exact ⟨hne, heq ▸ List.prefix_rfl, fun _ _ => heq.symm, fun hlow => absurd hm hlow⟩
    · obtain ⟨hauth, hread⟩ := v.valid_full.mp hvalid
      have hencodes := v.encodes
      have hput := v.put_eq
      have hsize := v.length_put
      rw [if_pos hauth] at hencodes
      rw [← hput, if_pos hauth] at hsize
      have htext : v.supportText.length ≤ maxSupportTextBytes := by
        simp only [Status.readable, Bool.and_eq_true, decide_eq_true_eq] at hread
        exact hread.1
      have hshort : shortStrings [v.supportText] := by
        simpa [shortStrings] using htext.trans (by decide)
      have heq := hencodes.eq_bytes hshort (hpre.length_le.trans hp)
      refine ⟨?_, heq ▸ hpre, fun _ hno => absurd hauth (by simp [hno]), fun hlow => absurd hm hlow⟩
      rw [heq]
      exact List.ne_nil_of_length_pos (by rw [hsize, Status.size]; omega)
  · rw [Status.decode_eq_head p hm, Option.map_eq_some_iff] at h
    obtain ⟨⟨w, t⟩, hget, rfl⟩ := h
    obtain ⟨hvalid, rfl⟩ := Status.layout.head.put_get p w t hget
    rw [List.length_append] at hp
    obtain ⟨hauth, heq, hne⟩ := Status.encode_of_head hvalid (by omega)
    exact ⟨hne, heq ▸ List.prefix_append _ t, fun hhigh => absurd hhigh hm, fun _ => hauth⟩

/-- An overlay request that is decoded was written, and is all of the payload. -/
theorem OverlayRequest.canonical {p : Bytes} (hp : p.length ≤ maxPayloadBytes) {v : OverlayRequest}
    (h : OverlayRequest.decode p = some v) : v.encode ≠ [] ∧ p = v.encode := by
  rw [OverlayRequest.decode_eq] at h
  rcases p with _ | ⟨x, t⟩
  · simp at h
  · simp only [List.head?_cons, Option.map_some, Option.some.injEq] at h
    subst h
    have heq := (OverlayRequest.encodes ⟨x, t⟩).eq_bytes trivial hp
    refine ⟨?_, heq.symm⟩
    change OverlayRequest.encode ⟨x, t⟩ ≠ []
    rw [heq]
    exact List.cons_ne_nil x t

/-- **Decoders take only what encoders write.**

**Proof sketch.** What a layout reads is what it writes, followed by the rest; a head that is read
without its tail has nothing after it. -/
theorem payload_canonical (k : PayloadType) (m : UInt16) (p : Bytes)
    (hp : p.length ≤ maxPayloadBytes) (v : k.Value) (h : k.decode m p = some v) :
    k.canonical m v p := by
  rcases hk : k.tailed with _ | _
  · obtain ⟨layout, hcoding⟩ := k.coding hk m m
    have hplain := hcoding.encode_of_decode h hp
    cases k <;> first | exact hplain | simp [PayloadType.tailed] at hk
  · cases k with
    | declare => exact Declare.canonical hp h
    | status => exact Status.canonical hp h
    | overlayRequest => exact OverlayRequest.canonical hp h
    | _ => simp [PayloadType.tailed] at hk

/-- A Declare cut to its fields of minor 0 is one of minor 0. -/
theorem payload_canonical_declare :
    PayloadType.declare.canonical 0 ({ romId := [1] } : Declare)
      (PayloadType.declare.encode 0 ({ romId := [1] } : Declare)) :=
  payload_canonical .declare 0 _ (by decide) _ (by
    change Declare.decode _ = some ({ romId := [1] } : Declare)
    decide)

/-! ## Truncation and extension -/

namespace PayloadType

/-- The proper prefixes of an encoded value that are still decoded: a Declare cut after
`identifyFormat`, a Status cut before its `authStatus`, and an overlay request cut anywhere after
its op. -/
def readableCut : (k : PayloadType) → (peerMinor : UInt16) → k.Value → Bytes → Prop
  | declare, peerMinor, v, q => peerMinor ≥ 1 ∧ q = encode declare 0 v
  | status, peerMinor, v, q =>
    Status.hasAuthStatus v = true ∧ q = encode status peerMinor (Status.withoutAuth v)
  | overlayRequest, _, _, q => q ≠ []
  | _, _, _, _ => False

/-- The encoded values whose meaning changes with what follows them: a Declare of minor 0, a Status
without an `authStatus` when its decoder looks for one, and an overlay request. -/
def openEnded : (k : PayloadType) → (peerMinor peerMinor' : UInt16) → k.Value → Prop
  | declare, peerMinor, _, _ => peerMinor = 0
  | status, _, peerMinor', v => Status.hasAuthStatus v = false ∧ 2 ≤ peerMinor'
  | overlayRequest, _, _, _ => True
  | _, _, _, _ => False

end PayloadType

/-- A proper prefix leaves something out. -/
theorem exists_rest {q b : Bytes} (h : q <+: b) (hne : q ≠ b) : ∃ r, r ≠ [] ∧ b = q ++ r := by
  obtain ⟨r, rfl⟩ := h
  exact ⟨r, by rintro rfl; simp at hne, rfl⟩

/-- Every way to cut or extend a Declare.

**Proof sketch.** A cut of a whole Declare is read only where it ends with the head, which is the
Declare of minor 0; one of the head alone is not. What follows a whole one is not read. -/
theorem Declare.truncation (m : UInt16) (v : Declare) (hne : v.encode m ≠ []) :
    (∀ q, q <+: v.encode m → q ≠ v.encode m →
      (Declare.decode q ≠ none ↔ m ≥ 1 ∧ q = v.encode 0)) ∧
    (∀ t, m ≠ 0 → Declare.decode (v.encode m ++ t) = Declare.decode (v.encode m)) := by
  by_cases hm : m ≥ 1
  · obtain ⟨hfits, hmax, heq⟩ := (v.encodes_full hm).of_ne_nil hne
    have hvalid := v.valid_full.mpr hfits
    have hshort : (Declare.layout.head.put v).length ≤ maxPayloadBytes := by
      rw [v.length_full] at hmax
      rw [v.length_head]
      omega
    have hhead := (v.encodes_head (m := 0) (by decide)).eq_bytes hfits.1 hshort
    rw [heq, hhead]
    refine ⟨fun q hq hqne => ?_, fun t _ => ?_⟩
    · obtain ⟨r, hr, hput⟩ := exists_rest hq hqne
      obtain ⟨hcut, hother⟩ := Declare.layout.get_of_prefix hvalid hput hr
      rw [Declare.decode_eq]
      refine ⟨fun hread => ⟨hm, not_not.mp fun hq => hread (hother hq)⟩, fun hq => ?_⟩
      simp [hcut hq.2]
    · have hself := Declare.layout.get_full hvalid []
      rw [List.append_nil] at hself
      rw [Declare.decode_eq, Declare.decode_eq, Declare.layout.get_full hvalid, hself]
  · obtain ⟨hfits, hmax, heq⟩ := (v.encodes_head hm).of_ne_nil hne
    have hvalid : Declare.layout.head.valid v.minor0 := (Declare.valid_head _).mpr ⟨hfits, rfl⟩
    refine ⟨fun q hq hqne => ?_, fun t hzero => ?_⟩
    · rw [heq] at hq hqne
      obtain ⟨r, hr, hput⟩ := exists_rest hq hqne
      have hnone := Declare.layout.get_of_head_prefix hvalid hput hr
      rw [Declare.decode_eq, hnone]
      simp [hm]
    · exact absurd (UInt16.pos_iff_ne_zero.mpr hzero) (by simpa [UInt16.lt_iff_toNat_lt] using hm)

/-- The head of a Status is decoded by every decoder, and no proper prefix of it is. -/
theorem Status.decode_head (m : UInt16) {v : Status} (h : Status.layout.head.valid v) :
    Status.decode (Status.layout.head.put v) m = some v ∧
      ∀ q r, Status.layout.head.put v = q ++ r → r ≠ [] → Status.decode q m = none := by
  by_cases hm : m ≥ 2
  · refine ⟨by rw [Status.decode_eq _ hm, Status.layout.get_head h], fun q r hq hr => ?_⟩
    rw [Status.decode_eq _ hm, Status.layout.get_of_head_prefix h hq hr]
  · refine ⟨?_, fun q r hq hr => ?_⟩
    · rw [Status.decode_eq_head _ hm, Status.layout.head.get_put_self h, Option.map_some]
    · rw [Status.decode_eq_head _ hm, Status.layout.head.get_of_prefix h hq hr, Option.map_none]

/-- A Status that is encoded and then decoded is within what its decoder takes.

**Proof sketch.** If the text were too long, or the Status not readable at minor 2, the decoder
would return nothing. -/
theorem Status.bounded_of_decode {m : UInt16} {v : Status} (hshort : shortStrings [v.supportText])
    (hread : (Status.decode (Status.layout.head.put v ++
      if v.hasAuthStatus then [v.authStatus] else []) m).isSome) :
    v.supportText.length ≤ maxSupportTextBytes ∧ (m ≥ 2 → v.readable = true) := by
  by_cases hm : m ≥ 2
  · have hreadable : v.readable = true := by
      by_contra hno
      rw [Status.decode_eq _ hm, Status.get_of_unreadable hshort (by simpa using hno)] at hread
      simp at hread
    refine ⟨?_, fun _ => hreadable⟩
    simp only [Status.readable, Bool.and_eq_true, decide_eq_true_eq] at hreadable
    exact hreadable.1
  · refine ⟨?_, fun hhigh => absurd hhigh hm⟩
    by_contra hlong
    rw [Status.decode_eq_head _ hm, Status.get_of_long hshort hlong] at hread
    simp at hread

/-- Every way to cut or extend a Status that its decoder takes.

**Proof sketch.** A cut is read only where it ends with the head, and the head is the Status without
its auth status. Something behind is read as one only where there was none and the peer's minor has
it. -/
theorem Status.truncation (m : UInt16) (v : Status) (hne : v.encode ≠ [])
    (hread : (Status.decode v.encode m).isSome) :
    (∀ q, q <+: v.encode → q ≠ v.encode →
      (Status.decode q m ≠ none ↔ v.hasAuthStatus = true ∧ q = v.withoutAuth.encode)) ∧
    (∀ t, ¬ (v.hasAuthStatus = false ∧ 2 ≤ m) →
      Status.decode (v.encode ++ t) m = Status.decode v.encode m) := by
  have hencodes := v.encodes
  rw [Status.put_eq] at hencodes
  obtain ⟨hshort, hmax, heq⟩ := hencodes.of_ne_nil hne
  rw [heq] at hread
  obtain ⟨htext, hreadable⟩ := Status.bounded_of_decode hshort hread
  -- the head of `v` is a Status of its own, and the same bytes
  have hvalid : Status.layout.head.valid v.withoutAuth := (Status.valid_head _).mpr ⟨htext, rfl⟩
  have hsame : Status.layout.head.put v.withoutAuth = Status.layout.head.put v := rfl
  obtain ⟨hhead, hcut⟩ := Status.decode_head m hvalid
  rw [hsame] at hhead hcut
  have hwithout : v.withoutAuth.encode = Status.layout.head.put v := by
    refine (Status.encode_of_head hvalid ?_).2.1
    rw [List.length_append] at hmax
    exact hsame ▸ (Nat.le_add_right _ _).trans hmax
  rw [heq, hwithout]
  refine ⟨fun q hq hqne => ?_, fun t hopen => ?_⟩
  · rcases hauth : v.hasAuthStatus with _ | _
    · simp only [hauth, Bool.false_eq_true, if_false, List.append_nil] at hq hqne
      obtain ⟨r, hr, hput⟩ := exists_rest hq hqne
      simp [hcut q r hput hr]
    · simp only [hauth, if_true] at hq hqne
      have hpre := (List.prefix_concat_iff.mp hq).resolve_left hqne
      by_cases hall : q = Status.layout.head.put v
      · simp [hall, hhead]
      · obtain ⟨r, hr, hput⟩ := exists_rest hpre hall
        simp [hcut q r hput hr, hall]
  · by_cases hm : m ≥ 2
    · have hauth : v.hasAuthStatus = true := by
        by_contra hno
        exact hopen ⟨by simpa using hno, hm⟩
      have hfull := (Status.valid_full v).mpr ⟨hauth, hreadable hm⟩
      have hself := Status.layout.get_full hfull []
      rw [List.append_nil] at hself
      rw [← Status.put_eq, if_pos hauth, Status.decode_eq _ hm, Status.decode_eq _ hm, hself,
        Status.layout.get_full hfull]
    · rw [Status.decode_eq_head _ hm, Status.decode_eq_head _ hm, List.append_assoc, ← hsame,
        Status.layout.head.get_put _ _ hvalid, Status.layout.head.get_put _ _ hvalid,
        Option.map_some, Option.map_some]

/-- Every cut of an overlay request that has an op is one. -/
theorem OverlayRequest.truncation (q : Bytes) : OverlayRequest.decode q ≠ none ↔ q ≠ [] := by
  rw [OverlayRequest.decode_eq]
  rcases q with _ | ⟨x, t⟩ <;> simp

/-- **Truncated and extended payloads.** Of an encoded value that its decoder takes, no proper
prefix is decoded but those of `readableCut`, and what follows it does not change what it is decoded
as unless it is `openEnded`.

**Proof sketch.** By whether the type has an optional tail. One without keeps to a layout, of which
no proper cut is read and which leaves what follows unread. The three with one have lemmas of their
own, where the cut before the tail is read. -/
theorem payload_truncation (k : PayloadType) (m m' : UInt16) (v : k.Value)
    (hne : k.encode m v ≠ []) (hread : (k.decode m' (k.encode m v)).isSome) :
    (∀ q, q <+: k.encode m v → q ≠ k.encode m v →
      (k.decode m' q ≠ none ↔ k.readableCut m v q)) ∧
    (∀ t, ¬ k.openEnded m m' v →
      k.decode m' (k.encode m v ++ t) = k.decode m' (k.encode m v)) := by
  rcases hk : k.tailed with _ | _
  · obtain ⟨layout, hcoding⟩ := k.coding hk m m'
    have hcut : ∀ q, ¬ k.readableCut m v q := by
      intro q
      cases k <;> first | exact id | simp [PayloadType.tailed] at hk
    refine ⟨fun q hq hqne => ?_, fun t _ => hcoding.decode_append hne t⟩
    simp [hcoding.decode_of_prefix hne hq hqne, hcut q]
  · cases k with
    | declare => exact Declare.truncation m v hne
    | status => exact Status.truncation m' v hne hread
    | overlayRequest =>
      exact ⟨fun q _ _ => OverlayRequest.truncation q, fun t h => absurd trivial h⟩
    | _ => simp [PayloadType.tailed] at hk

/-- Of a Declare with its tail, the fields of minor 0 alone are still a Declare. -/
theorem payload_truncation_declare :
    PayloadType.declare.decode 0
      (PayloadType.declare.encode 0 ({ romId := [1] } : Declare)) ≠ none :=
  ((payload_truncation .declare 1 0 ({ romId := [1] } : Declare) (by decide) (by
    change (Declare.decode _).isSome = true
    decide)).1 _ (by decide) (by decide)).mpr ⟨by decide, rfl⟩

end Wire
