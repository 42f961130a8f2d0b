import ScorbitPlugin.Memory.Replies
import ScorbitPlugin.Overlay.Bitmap
import ScorbitPlugin.Wire.Framing
import ScorbitPlugin.Worker.Dispatch

set_option relaxedAutoImplicit false
set_option autoImplicit false

/-!
# How requests are answered

The handlers that `Dispatch` of `src/SocketWorker.cpp` calls, as far as they answer: the messages
they hand to `SendWireMessage`, and whether the session goes on. What a handler does to the players,
the leaderboard requests, the overlay and the notice is with those; none of it sends anything.

What a handler finds beside the message is given: what the bridge gives back to the one call it
makes, the frame and the session it reads, and whether the socket takes what is sent.

## Main definitions

* `Worker.Serving` — what the handlers find, with a definition for each of them.
* `Worker.Serving.dispatch` — the messages sent in answer, and what is returned.
* `Worker.Serving.refusal` — why a request is refused.
* `Worker.Serving.AnsweredOnce` — what is claimed of an answer.

## Main results

* `Worker.answered_exactly_once` — it holds of every message.
-/

namespace Wire

open Codec

/-- `TYPE_PONG`. -/
def typePong : UInt16 := 6

/-- `ERR_BUSY`. -/
def errBusy : UInt16 := 4

/-- `ERR_NO_GAME`. -/
def errNoGame : UInt16 := 8

/-- `ERR_OUT_OF_RANGE`. -/
def errOutOfRange : UInt16 := 9

/-- `ERR_TOO_LARGE`. -/
def errTooLarge : UInt16 := 10

/-- `SINCE_FRAME_NONE`. -/
def sinceFrameNone : UInt32 := 0xFFFFFFFF

/-- `OVERLAY_OP_UPLOAD`. -/
def overlayOpUpload : UInt8 := 1

/-- `OVERLAY_OP_CONTROL`. -/
def overlayOpControl : UInt8 := 2

/-- The names of the message types. -/
def typeNames : List (UInt16 × String) :=
  [(1, "Hello"), (2, "HelloAck"), (3, "Declare"), (4, "Frame"), (5, "Ping"), (6, "Pong"),
    (7, "Bye"), (16, "Subscribe"), (17, "Poll"), (18, "ReadDirect"), (19, "Write"), (20, "NvRam"),
    (32, "Overlay"), (33, "Status"), (48, "Game"), (49, "GameStartRequested"),
    (64, "TopScoresRequest"), (65, "TopScores"), (66, "Players"), (67, "PlayerPicture"),
    (68, "CreditsAddRequested"), (69, "CreditsStatusRequested"), (70, "CreditsDropped"),
    (71, "CreditsStatus"), (72, "Pricing")]

/-- `TypeName`. -/
def typeName (type : UInt16) : String :=
  ((typeNames.find? (·.1 == type)).map Prod.snd).getD "unknown"

/-- The bytes still to be listed, and those listed already. -/
theorem length_toList_loop (b : ByteArray) (i : ℕ) (l : Bytes) :
    (ByteArray.toList.loop b i l).length = l.length + (b.size - i) := by
  fun_induction ByteArray.toList.loop b i l with
  | case1 i l h ih =>
    rw [ih, List.length_cons]
    omega
  | case2 i l h =>
    rw [List.length_reverse]
    omega

/-- The length of a text is that of its encoding. -/
theorem length_toUTF8_le {s : String} {n : ℕ} (h : s.utf8ByteSize ≤ n) :
    s.toUTF8.toList.length ≤ n := by
  have hlength : s.toUTF8.toList.length = s.utf8ByteSize := by
    simp [ByteArray.toList, length_toList_loop, String.toUTF8]
  omega

end Wire

namespace Worker

open Codec

/-! ## What the handlers find -/

/-- `FrameSnapshot`. -/
structure FrameSnapshot where
  hasSource : Bool := false
  frameId : UInt32 := 0
  generation : UInt32 := 0
  width : UInt16 := 0
  height : UInt16 := 0
  shades : UInt8 := 0
  pixels : Bytes := []
deriving DecidableEq, Repr

/-- `SessionSnapshot`. -/
structure SessionSnapshot where
  renderedFrame : UInt64 := 0
  playerRunning : Bool := false
deriving DecidableEq, Repr

/-- The messages handed to `SendWireMessage`, in order, and what was returned. -/
structure Replied where
  sent : List Wire.Message := []
  ok : Bool := true
deriving DecidableEq, Repr

/-- A handler that ends the session after it sent. -/
def Replied.closing (r : Replied) : Replied := { r with ok := false }

/-- What the handlers find: the worker's targets and its session, and what the calls they make of
others give back. -/
structure Serving where
  cfg : Config
  /-- There is a status latch. -/
  status : Bool
  link : Link
  frame : FrameSnapshot
  session : SessionSnapshot
  memory : Memory.Asked → Memory.Handed
  /-- `WritesUnsupported`. -/
  writesUnsupported : Bool
  /-- `OverlaySurface`. -/
  overlaySurface : Bool
  /-- `SendAll`, of the bytes of a message. -/
  sendAll : Bytes → Bool

/-- The answer to a Frame request, before it is encoded. -/
def frameReply (req : Wire.FrameRequest) (snapshot : FrameSnapshot) : Wire.FrameReply :=
  if !snapshot.hasSource then { sourceGeneration := snapshot.generation }
  else
    -- the reserved id says the daemon holds no frame, whatever generation it names
    let holdsNothing := req.sinceFrameId == Wire.sinceFrameNone
    let unchanged := !holdsNothing && snapshot.frameId == req.sinceFrameId
      && snapshot.generation == req.sinceGeneration
    { frameId := snapshot.frameId
      sourceGeneration := snapshot.generation
      width := snapshot.width
      height := snapshot.height
      shades := snapshot.shades
      hasPixels := if unchanged then 0 else 1
      pixels := if unchanged then [] else snapshot.pixels }

namespace Serving

variable (w : Serving)

/-! ## Sending -/

/-- `SendWireMessage`. -/
def sendWireMessage (type flags : UInt16) (seq : UInt32) (payload : Bytes) : Replied :=
  let msg : Wire.Message := ⟨⟨type, flags, seq⟩, payload⟩
  let bytes := Wire.encodeMessage msg
  { sent := [msg], ok := !bytes.isEmpty && w.sendAll bytes }

/-- `SendError`. -/
def sendError (type : UInt16) (seq : UInt32) (code : UInt16) (reason : Bytes) : Replied :=
  w.sendWireMessage type (Wire.flagResponse ||| Wire.flagError) seq
    (Wire.ErrorPayload.encode ⟨code, reason⟩)

/-- An error in answer to a request. -/
def refuse (msg : Wire.Message) (code : UInt16) (reason : String) : Replied :=
  w.sendError msg.header.type msg.header.seq code reason.toUTF8.toList

/-- The response to a request, under its own type. -/
def respond (msg : Wire.Message) (payload : Bytes) : Replied :=
  w.sendWireMessage msg.header.type Wire.flagResponse msg.header.seq payload

/-- A handler that ends the session when it cannot read its request. -/
def reading {α : Type} (msg : Wire.Message) (decoded : Option α) (reason : String)
    (serve : α → Replied) : Replied :=
  match decoded with
  | none => (w.refuse msg Wire.errMalformed reason).closing
  | some req => serve req

/-- A handler that acknowledges its request as soon as it could read it. -/
def acknowledging {α : Type} (msg : Wire.Message) (decoded : Option α) (reason : String) :
    Replied :=
  match decoded with
  | none => w.refuse msg Wire.errMalformed reason
  | some _ => w.respond msg []

/-! ## The handlers -/

/-- `SendMemoryError`. -/
def sendMemoryError (msg : Wire.Message) : Memory.Result → Replied
  | .noGame => w.refuse msg Wire.errNoGame "no ROM is running"
  | .outOfRange => w.refuse msg Wire.errOutOfRange "range is outside readable memory"
  | .tooLarge => w.refuse msg Wire.errTooLarge "request exceeds the slice 2 limits"
  | .unsupported =>
    w.refuse msg Wire.errUnsupportedOperation
      "this PinMAME applies no memory writes (needs pinmame #634)"
  | .ok | .busy => w.refuse msg Wire.errBusy "memory was not serviced in time, ask again"

/-- `AnswerSubscribe`. -/
def answerSubscribe (msg : Wire.Message) : Replied :=
  w.reading msg (Wire.Subscription.decode msg.payload) "Subscribe request payload" fun req =>
    let handed := w.memory (.subscribe req.ranges)
    if handed.result ≠ .ok then w.sendMemoryError msg handed.result
    else w.respond msg (Wire.Subscription.encode ⟨handed.accepted⟩)

/-- `AnswerPoll`. -/
def answerPoll (msg : Wire.Message) : Replied :=
  let handed := w.memory .poll
  if handed.result ≠ .ok then w.sendMemoryError msg handed.result
  else w.respond msg (Wire.PollReply.encode handed.polled)

/-- `AnswerReadDirect`. -/
def answerReadDirect (msg : Wire.Message) : Replied :=
  w.reading msg (Wire.ReadDirectRequest.decode msg.payload) "ReadDirect request payload" fun req =>
    let handed := w.memory (.readDirect req.address req.length)
    if handed.result ≠ .ok then w.sendMemoryError msg handed.result
    else w.respond msg (Wire.ReadDirectReply.encode handed.read)

/-- `AnswerWrite`, which names its own reason for `OutOfRange`. -/
def answerWrite (msg : Wire.Message) : Replied :=
  w.reading msg (Wire.WriteRequest.decode msg.payload) "Write request payload" fun req =>
    let handed := w.memory (.write req.ops)
    if handed.result = .outOfRange then
      w.refuse msg Wire.errOutOfRange
        "the Write names no ops, or an op runs past the end of the address space"
    else if handed.result ≠ .ok then w.sendMemoryError msg handed.result
    else w.respond msg (Wire.WriteReply.encode handed.written)

/-- `AnswerNvRam`. -/
def answerNvRam (msg : Wire.Message) : Replied :=
  w.reading msg (Wire.NvRamParameters.decode msg.payload) "NvRam request payload" fun _ =>
    w.respond msg []

/-- `AnswerFrame`: a frame that does not fit a message is refused, and the session goes on. -/
def answerFrame (msg : Wire.Message) : Replied :=
  w.reading msg (Wire.FrameRequest.decode msg.payload) "Frame request payload" fun req =>
    let payload := Wire.FrameReply.encode (frameReply req w.frame)
    if payload.isEmpty then w.refuse msg Wire.errMalformed "frame exceeds the message bound"
    else w.respond msg payload

/-- The `Pong` of `AnswerPing`. -/
def pong : Wire.Pong where
  renderedFrame := w.session.renderedFrame
  playerRunning := if w.session.playerRunning then 1 else 0
  writesSupported := if w.cfg.memory && !w.writesUnsupported then 1 else 0

/-- `AnswerPing`, which reads nothing of the payload. -/
def answerPing (msg : Wire.Message) : Replied :=
  w.sendWireMessage Wire.typePong Wire.flagResponse msg.header.seq (Wire.Pong.encode w.pong)

/-- The request an Overlay payload decodes to, if its op is known and a control reads. -/
def overlayRequest (payload : Bytes) : Option Wire.OverlayRequest :=
  (Wire.OverlayRequest.decode payload).filter fun req =>
    req.op == Wire.overlayOpUpload ||
      (req.op == Wire.overlayOpControl && (Wire.OverlayControl.decode req.payload).isSome)

/-- `AnswerOverlay`: an upload that is ignored is acknowledged. -/
def answerOverlay (msg : Wire.Message) : Replied :=
  if !w.link.haveDeclared then
    w.refuse msg Wire.errNotDeclared "Overlay before the first Declare"
  else if w.link.declared.declare.shades == 0 || !w.overlaySurface then
    w.refuse msg Wire.errUnsupportedOperation "no DMD source"
  else
    match overlayRequest msg.payload with
    | none => w.refuse msg Wire.errMalformed "unknown op, or a payload shorter than its fields"
    | some req =>
      if req.op = Wire.overlayOpUpload then
        match Overlay.check (some req.payload) with
        | .malformed => w.refuse msg Wire.errMalformed "upload shorter than its width and height"
        | .ignored | .stored => w.respond msg []
      else w.respond msg []

/-- `AnswerStatus`. -/
def answerStatus (msg : Wire.Message) : Replied :=
  if !w.link.haveDeclared then
    w.refuse msg Wire.errNotDeclared "Status before the first Declare"
  else
    w.acknowledging msg (Wire.Status.decode msg.payload w.link.peerMinor)
      "a short payload, support_text over 256 bytes, or an unknown auth_status"

/-- `AnswerTopScores`: a result for no pending request is acknowledged too. -/
def answerTopScores (msg : Wire.Message) : Replied :=
  w.acknowledging msg (Wire.TopScores.decode msg.payload) "TopScores payload"

/-- `AnswerPlayers`. -/
def answerPlayers (msg : Wire.Message) : Replied :=
  w.acknowledging msg (Wire.Players.decode msg.payload)
    "a short payload, slots not 1 to 9 ascending, or an over-long string"

/-- `AnswerPlayerPicture`: acknowledged whatever became of the copy. -/
def answerPlayerPicture (msg : Wire.Message) : Replied :=
  w.acknowledging msg (Wire.PlayerPicture.decode msg.payload)
    "a short payload, or a player not 1 to 9"

/-- The type is refused explicitly. -/
def answerUnsupported (msg : Wire.Message) : Replied :=
  w.sendError msg.header.type msg.header.seq Wire.errUnsupportedType
    ((Wire.typeName msg.header.type).toUTF8.toList
      ++ " is not served by this plugin".toUTF8.toList)

/-- Which handler a message has. -/
def handlerOf (msg : Wire.Message) : Handler := handler w.cfg w.status w.link msg.header.type

/-- `Dispatch`. -/
def dispatch (msg : Wire.Message) : Replied :=
  match w.handlerOf msg with
  | .frame => w.answerFrame msg
  | .ping => w.answerPing msg
  | .subscribe => w.answerSubscribe msg
  | .poll => w.answerPoll msg
  | .readDirect => w.answerReadDirect msg
  | .write => w.answerWrite msg
  | .nvRam => w.answerNvRam msg
  | .overlay => w.answerOverlay msg
  | .status => w.answerStatus msg
  | .topScores => w.answerTopScores msg
  | .players => w.answerPlayers msg
  | .playerPicture => w.answerPlayerPicture msg
  | .bye => { ok := false }
  | .unsupported => w.answerUnsupported msg

/-! ## What is claimed -/

/-- The code a request is refused with by the bridge. -/
def memoryCode : Memory.Result → Option UInt16
  | .ok => none
  | .busy => some Wire.errBusy
  | .noGame => some Wire.errNoGame
  | .outOfRange => some Wire.errOutOfRange
  | .tooLarge => some Wire.errTooLarge
  | .unsupported => some Wire.errUnsupportedOperation

/-- The call a message makes of the bridge. -/
def asks (msg : Wire.Message) : Option Memory.Asked :=
  match w.handlerOf msg with
  | .subscribe => (Wire.Subscription.decode msg.payload).map fun req => .subscribe req.ranges
  | .poll => some .poll
  | .readDirect =>
    (Wire.ReadDirectRequest.decode msg.payload).map fun req => .readDirect req.address req.length
  | .write => (Wire.WriteRequest.decode msg.payload).map fun req => .write req.ops
  | _ => none

/-- A request is refused before it is read: nothing serves it, or not yet. -/
def unready : Handler → Option UInt16
  | .unsupported => some Wire.errUnsupportedType
  | .overlay =>
    if !w.link.haveDeclared then some Wire.errNotDeclared
    else if w.link.declared.declare.shades == 0 || !w.overlaySurface then
      some Wire.errUnsupportedOperation
    else none
  | .status => if !w.link.haveDeclared then some Wire.errNotDeclared else none
  | _ => none

/-- A request's payload is one that its handler reads. -/
def readable (payload : Bytes) : Handler → Bool
  | .frame => (Wire.FrameRequest.decode payload).isSome
  | .subscribe => (Wire.Subscription.decode payload).isSome
  | .readDirect => (Wire.ReadDirectRequest.decode payload).isSome
  | .write => (Wire.WriteRequest.decode payload).isSome
  | .nvRam => (Wire.NvRamParameters.decode payload).isSome
  | .overlay => (overlayRequest payload).isSome
  | .status => (Wire.Status.decode payload w.link.peerMinor).isSome
  | .topScores => (Wire.TopScores.decode payload).isSome
  | .players => (Wire.Players.decode payload).isSome
  | .playerPicture => (Wire.PlayerPicture.decode payload).isSome
  | .ping | .poll | .bye | .unsupported => true

instance (reply : Wire.FrameReply) : Decidable reply.fits := inferInstanceAs (Decidable (_ → _))

/-- A request that was read cannot be served: the bridge says so, the frame does not fit a message,
or the upload has too few pixels. -/
def unserved (msg : Wire.Message) : Handler → Option UInt16
  | .frame => (Wire.FrameRequest.decode msg.payload).bind fun req =>
    let reply := frameReply req w.frame
    if reply.fits ∧ reply.size ≤ Wire.maxPayloadBytes then none else some Wire.errMalformed
  | .overlay => (overlayRequest msg.payload).bind fun req =>
    if req.op = Wire.overlayOpUpload ∧ Overlay.check (some req.payload) = .malformed then
      some Wire.errMalformed
    else none
  | _ => (w.asks msg).bind fun asked => memoryCode (w.memory asked).result

/-- Why a request is refused: the code of its error. -/
def refusal (msg : Wire.Message) : Option UInt16 :=
  let h := w.handlerOf msg
  match w.unready h with
  | some code => some code
  | none => if w.readable msg.payload h then w.unserved msg h else some Wire.errMalformed

/-- The `Decode` of the payload a handler's response carries; `none` when it is meant to be
empty. -/
def decoder : Handler → Option (Bytes → Bool)
  | .frame => some fun payload => (Wire.FrameReply.decode payload).isSome
  | .ping => some fun payload => (Wire.Pong.decode payload).isSome
  | .subscribe => some fun payload => (Wire.Subscription.decode payload).isSome
  | .poll => some fun payload => (Wire.PollReply.decode payload).isSome
  | .readDirect => some fun payload => (Wire.ReadDirectReply.decode payload).isSome
  | .write => some fun payload => (Wire.WriteReply.decode payload).isSome
  | _ => none

/-- A message is the answer to a request. -/
structure Answers (msg reply : Wire.Message) : Prop where
  response : reply.header.isResponse = true
  seq : reply.header.seq = msg.header.seq
  type : reply.header.type =
    if msg.header.type = Wire.typePing then Wire.typePong else msg.header.type
  /-- It is an error exactly when the request is refused, and says why. -/
  error : reply.header.isError = (w.refusal msg).isSome
  code : ∀ code, w.refusal msg = some code →
    ∃ reason, Wire.ErrorPayload.decode reply.payload = some ⟨code, reason⟩
  /-- A response that is not meant to be empty is not, and its own `Decode` accepts it. -/
  payload : reply.header.isError = false →
    match decoder (w.handlerOf msg) with
    | none => reply.payload = []
    | some accepts => reply.payload ≠ [] ∧ accepts reply.payload = true
  /-- `EncodeMessage` does not refuse it. -/
  encodes : Wire.encodeMessage reply ≠ []

/-- A message is answered once, unless it is a Bye; and when the session ends all the same, the
answer was a malformed error or it was not sent. -/
structure AnsweredOnce (msg : Wire.Message) (r : Replied) : Prop where
  bye : msg.header.type = Wire.typeBye → r.sent = []
  one : msg.header.type ≠ Wire.typeBye → ∃ reply, r.sent = [reply] ∧ w.Answers msg reply ∧
    (r.ok = false → w.refusal msg = some Wire.errMalformed ∨
      w.sendAll (Wire.encodeMessage reply) = false)

/-! ## Which handler a type has -/

variable {w : Serving} {msg : Wire.Message}

/-- The type that a handler serves. -/
def served : Handler → Option UInt16
  | .frame => some typeFrame
  | .ping => some Wire.typePing
  | .subscribe => some typeSubscribe
  | .poll => some typePoll
  | .readDirect => some typeReadDirect
  | .write => some typeWrite
  | .nvRam => some typeNvRam
  | .overlay => some typeOverlay
  | .status => some typeStatus
  | .topScores => some Wire.typeTopScores
  | .players => some Wire.typePlayers
  | .playerPicture => some Wire.typePlayerPicture
  | .bye => some Wire.typeBye
  | .unsupported => none

/-- A handler serves a type, or nothing. -/
def Serves (type : UInt16) (h : Handler) : Prop := h ≠ .unsupported → served h = some type

/-- A case of `Dispatch`: a handler that serves the type, when its target is there. -/
theorem Serves.case {type t : UInt16} {h rest : Handler} (target : Bool)
    (hserved : served h = some t) (hrest : Serves type rest) :
    Serves type (if type = t then h.when target else rest) := by
  split
  · rename_i htype
    intro hne
    cases target with
    | true => exact htype ▸ hserved
    | false => exact absurd rfl hne
  · exact hrest

/-- **A handler serves its own type only.** -/
theorem serves_handlerOf : Serves msg.header.type (w.handlerOf msg) :=
  .case true rfl <| .case true rfl <| .case w.cfg.memory rfl <| .case w.cfg.memory rfl <|
    .case w.cfg.memory rfl <| .case w.cfg.memory rfl <| .case w.cfg.memory rfl <|
    .case w.cfg.overlay rfl <| .case w.status rfl <| .case _ rfl <| .case _ rfl <| .case _ rfl <|
    .case true rfl fun h => absurd rfl h

/-- Only a Ping is answered as one. -/
theorem handlerOf_eq_ping_iff : w.handlerOf msg = .ping ↔ msg.header.type = Wire.typePing := by
  constructor
  · intro h
    have hserved := serves_handlerOf (show w.handlerOf msg ≠ .unsupported by simp [h])
    rw [h] at hserved
    exact (Option.some.inj hserved).symm
  · intro h
    rw [handlerOf, h]
    rfl

/-- Only a Bye ends the session as one. -/
theorem handlerOf_eq_bye_iff : w.handlerOf msg = .bye ↔ msg.header.type = Wire.typeBye := by
  constructor
  · intro h
    have hserved := serves_handlerOf (show w.handlerOf msg ≠ .unsupported by simp [h])
    rw [h] at hserved
    exact (Option.some.inj hserved).symm
  · intro h
    rw [handlerOf, h]
    rfl

/-! ## Answers -/

/-- `EncodeMessage` takes a payload that keeps to the bound. -/
theorem encodeMessage_ne_nil {reply : Wire.Message}
    (h : reply.payload.length ≤ Wire.maxPayloadBytes) : Wire.encodeMessage reply ≠ [] := by
  intro hnil
  have hlength := congrArg List.length hnil
  rw [Wire.encodeMessage_eq h] at hlength
  simp at hlength

/-- An error names its code, when its reason is short. -/
theorem decode_error (code : UInt16) {reason : Bytes} (h : reason.length ≤ 0xFFFF) :
    Wire.ErrorPayload.encode ⟨code, reason⟩ ≠ [] ∧
      Wire.ErrorPayload.decode (Wire.ErrorPayload.encode ⟨code, reason⟩) = some ⟨code, reason⟩ := by
  have hmax : 4 + 0xFFFF ≤ Wire.maxPayloadBytes := by decide
  have hne : Wire.ErrorPayload.encode ⟨code, reason⟩ ≠ [] := by
    rw [ne_eq, Wire.ErrorPayload.coding.encode_eq_nil_iff, not_not]
    refine ⟨by simpa [Wire.shortStrings] using h, ?_⟩
    simp only [Wire.strBytes]
    omega
  exact ⟨hne, Wire.ErrorPayload.coding.decode_encode hne⟩

/-- The flags of an error. -/
theorem flags_error : (Wire.flagResponse ||| Wire.flagError) &&&
    (Wire.flagResponse ||| Wire.flagError) ≠ 0 ∧
      (Wire.flagResponse ||| Wire.flagError) &&& Wire.flagError ≠ 0 := by decide

/-- The flags of a response that is none. -/
theorem flags_response : Wire.flagResponse &&& (Wire.flagResponse ||| Wire.flagError) ≠ 0 ∧
    Wire.flagResponse &&& Wire.flagError = 0 := by decide

/-- An error is the answer to a request that is refused with its code.

**Proof sketch.** The flags mark it as a response and an error; its payload is the code, which its
decoder reads again. -/
theorem answers_error {code : UInt16} {reason : Bytes} (hreason : reason.length ≤ 0xFFFF)
    (hping : msg.header.type ≠ Wire.typePing) (hrefusal : w.refusal msg = some code) :
    w.Answers msg ⟨⟨msg.header.type, Wire.flagResponse ||| Wire.flagError, msg.header.seq⟩,
      Wire.ErrorPayload.encode ⟨code, reason⟩⟩ := by
  obtain ⟨hne, hdecode⟩ := decode_error code hreason
  have herror : (Wire.flagResponse ||| Wire.flagError) &&& Wire.flagError != 0 :=
    bne_iff_ne.mpr flags_error.2
  exact
    { response := bne_iff_ne.mpr flags_error.1
      seq := rfl
      type := (if_neg hping).symm
      error := by
        rw [hrefusal]
        exact herror
      code := fun code' hcode' => by
        obtain rfl := Option.some.inj (hrefusal.symm.trans hcode')
        exact ⟨reason, hdecode⟩
      payload := fun hnot => by cases herror.symm.trans hnot
      encodes := encodeMessage_ne_nil (Wire.ErrorPayload.coding.length_encode hne) }

/-- A request that is refused is answered by its error, and by nothing else. -/
theorem answeredOnce_error {code : UInt16} {reason : Bytes} (hreason : reason.length ≤ 0xFFFF)
    (hping : msg.header.type ≠ Wire.typePing) (hbye : msg.header.type ≠ Wire.typeBye)
    (hrefusal : w.refusal msg = some code) :
    w.AnsweredOnce msg (w.sendError msg.header.type msg.header.seq code reason) ∧
      (code = Wire.errMalformed →
        w.AnsweredOnce msg (w.sendError msg.header.type msg.header.seq code reason).closing) := by
  have hanswers := answers_error (w := w) hreason hping hrefusal
  refine ⟨⟨fun h => absurd h hbye, fun _ => ⟨_, rfl, hanswers, fun hfailed => .inr ?_⟩⟩,
    fun hcode => ⟨fun h => absurd h hbye, fun _ => ⟨_, rfl, hanswers, fun _ => .inl ?_⟩⟩⟩
  · have hbytes := hanswers.encodes
    have hok := Bool.and_eq_false_iff.mp hfailed
    simpa [List.isEmpty_iff, hbytes] using hok
  · exact hcode ▸ hrefusal

/-- A request that is served is answered by its response, and by nothing else.

**Proof sketch.** The response is of the request's type and number, and its payload decodes. It is
sent whole or not at all, and then the connection has failed. -/
theorem answeredOnce_respond {payload : Bytes} {type : UInt16}
    (htype : type = if msg.header.type = Wire.typePing then Wire.typePong else msg.header.type)
    (hbye : msg.header.type ≠ Wire.typeBye) (hrefusal : w.refusal msg = none)
    (hlength : payload.length ≤ Wire.maxPayloadBytes)
    (hpayload : match decoder (w.handlerOf msg) with
      | none => payload = []
      | some accepts => payload ≠ [] ∧ accepts payload = true) :
    w.AnsweredOnce msg
      (w.sendWireMessage type Wire.flagResponse msg.header.seq payload) := by
  have hanswers : w.Answers msg ⟨⟨type, Wire.flagResponse, msg.header.seq⟩, payload⟩ :=
    { response := bne_iff_ne.mpr flags_response.1
      seq := rfl
      type := htype
      error := by
        rw [hrefusal]
        exact bne_eq_false_iff_eq.mpr flags_response.2
      code := fun code hcode => by cases hrefusal.symm.trans hcode
      payload := fun _ => hpayload
      encodes := encodeMessage_ne_nil hlength }
  refine ⟨fun h => absurd h hbye, fun _ => ⟨_, rfl, hanswers, fun hfailed => .inr ?_⟩⟩
  have hbytes := hanswers.encodes
  have hok := Bool.and_eq_false_iff.mp hfailed
  simpa [List.isEmpty_iff, hbytes] using hok

/-! ## Each handler answers once -/

/-- Why a request of a handler is refused. -/
theorem refusal_of {h : Handler} (hh : w.handlerOf msg = h) : w.refusal msg =
    match w.unready h with
    | some code => some code
    | none => if w.readable msg.payload h then w.unserved msg h else some Wire.errMalformed := by
  subst hh
  rfl

/-- A handler refuses a request. -/
theorem answeredOnce_refuse {h : Handler} {code : UInt16} {reason : String}
    (hh : w.handlerOf msg = h) (hplain : h ≠ .ping ∧ h ≠ .bye)
    (hreason : reason.toUTF8.toList.length ≤ 0xFFFF) (hrefusal : w.refusal msg = some code) :
    w.AnsweredOnce msg (w.refuse msg code reason) ∧
      (code = Wire.errMalformed → w.AnsweredOnce msg (w.refuse msg code reason).closing) :=
  answeredOnce_error hreason (fun hping => hplain.1 (hh ▸ handlerOf_eq_ping_iff.mpr hping))
    (fun hbye => hplain.2 (hh ▸ handlerOf_eq_bye_iff.mpr hbye)) hrefusal

/-- A handler responds to a request. -/
theorem answeredOnce_respond_of {h : Handler} {payload : Bytes} (hh : w.handlerOf msg = h)
    (hplain : h ≠ .ping ∧ h ≠ .bye) (hrefusal : w.refusal msg = none)
    (hlength : payload.length ≤ Wire.maxPayloadBytes)
    (hpayload : match decoder h with
      | none => payload = []
      | some accepts => payload ≠ [] ∧ accepts payload = true) :
    w.AnsweredOnce msg (w.respond msg payload) :=
  answeredOnce_respond (if_neg fun hping => hplain.1 (hh ▸ handlerOf_eq_ping_iff.mpr hping)).symm
    (fun hbye => hplain.2 (hh ▸ handlerOf_eq_bye_iff.mpr hbye)) hrefusal hlength
    (by rw [hh]; exact hpayload)

/-- `SendMemoryError` answers what the bridge refused. -/
theorem answeredOnce_sendMemoryError {h : Handler} {result : Memory.Result}
    (hh : w.handlerOf msg = h) (hplain : h ≠ .ping ∧ h ≠ .bye) (hresult : result ≠ .ok)
    (hrefusal : w.refusal msg = memoryCode result) :
    w.AnsweredOnce msg (w.sendMemoryError msg result) := by
  cases result with
  | ok => exact absurd rfl hresult
  | busy => exact (answeredOnce_refuse hh hplain (Wire.length_toUTF8_le (by decide)) hrefusal).1
  | noGame => exact (answeredOnce_refuse hh hplain (Wire.length_toUTF8_le (by decide)) hrefusal).1
  | outOfRange =>
    exact (answeredOnce_refuse hh hplain (Wire.length_toUTF8_le (by decide)) hrefusal).1
  | tooLarge => exact (answeredOnce_refuse hh hplain (Wire.length_toUTF8_le (by decide)) hrefusal).1
  | unsupported =>
    exact (answeredOnce_refuse hh hplain (Wire.length_toUTF8_le (by decide)) hrefusal).1

/-- A response to a call of the bridge, which succeeded, and what it gave back encodes. -/
theorem answeredOnce_handed {h : Handler} {result : Memory.Result} {payload : Bytes}
    (hh : w.handlerOf msg = h) (hplain : h ≠ .ping ∧ h ≠ .bye)
    (hrefusal : w.refusal msg = memoryCode result)
    (hlength : payload.length ≤ Wire.maxPayloadBytes)
    (hpayload : match decoder h with
      | none => payload = []
      | some accepts => payload ≠ [] ∧ accepts payload = true) :
    w.AnsweredOnce msg
      (if result ≠ .ok then w.sendMemoryError msg result else w.respond msg payload) := by
  by_cases hok : result = .ok
  · rw [if_neg (not_not.mpr hok)]
    exact answeredOnce_respond_of hh hplain (hrefusal.trans (by rw [hok]; rfl)) hlength hpayload
  · rw [if_pos hok]
    exact answeredOnce_sendMemoryError hh hplain hok hrefusal

/-- A handler that reads its request first answers once when it serves what it read so. -/
theorem answeredOnce_reading {α : Type} {h : Handler} {decoded : Option α} {reason : String}
    {serve : α → Replied} (hh : w.handlerOf msg = h) (hplain : h ≠ .ping ∧ h ≠ .bye)
    (hreason : reason.toUTF8.toList.length ≤ 0xFFFF) (hready : w.unready h = none)
    (hreads : w.readable msg.payload h = decoded.isSome)
    (hserve : ∀ req, decoded = some req → w.refusal msg = w.unserved msg h →
      w.AnsweredOnce msg (serve req)) :
    w.AnsweredOnce msg (w.reading msg decoded reason serve) := by
  have hrefusal := refusal_of hh
  rw [hready, hreads] at hrefusal
  cases decoded with
  | none => exact (answeredOnce_refuse hh hplain hreason hrefusal).2 rfl
  | some req => exact hserve req rfl hrefusal

/-- A handler that acknowledges what it can read answers once. -/
theorem answeredOnce_acknowledging {α : Type} {h : Handler} {decoded : Option α} {reason : String}
    (hh : w.handlerOf msg = h) (hplain : h ≠ .ping ∧ h ≠ .bye)
    (hreason : reason.toUTF8.toList.length ≤ 0xFFFF) (hempty : decoder h = none)
    (hready : w.unready h = none) (hreads : w.readable msg.payload h = decoded.isSome)
    (hserved : w.unserved msg h = none) :
    w.AnsweredOnce msg (w.acknowledging msg decoded reason) := by
  have hrefusal := refusal_of hh
  rw [hready, hreads, hserved] at hrefusal
  cases decoded with
  | none => exact (answeredOnce_refuse hh hplain hreason hrefusal).1
  | some req => exact answeredOnce_respond_of hh hplain hrefusal (Nat.zero_le _) (by rw [hempty])

/-- A handler that asks nothing of the bridge leaves nothing unserved. -/
theorem unserved_of_asks {h : Handler} (hframe : h ≠ .frame) (hoverlay : h ≠ .overlay)
    (hasks : w.asks msg = none) : w.unserved msg h = none := by
  cases h with
  | frame => exact absurd rfl hframe
  | overlay => exact absurd rfl hoverlay
  | _ =>
    unfold unserved
    rw [hasks]
    rfl

/-- A handler that calls the bridge leaves unserved what the bridge refuses. -/
theorem unserved_of_handed {h : Handler} {asked : Memory.Asked} (hframe : h ≠ .frame)
    (hoverlay : h ≠ .overlay) (hasks : w.asks msg = some asked) :
    w.unserved msg h = memoryCode (w.memory asked).result := by
  cases h with
  | frame => exact absurd rfl hframe
  | overlay => exact absurd rfl hoverlay
  | _ =>
    unfold unserved
    rw [hasks]
    rfl

/-- `AnswerSubscribe` answers once. -/
theorem answeredOnce_subscribe (hh : w.handlerOf msg = .subscribe)
    (hmemory : ∀ asked, w.asks msg = some asked → (w.memory asked).Sendable) :
    w.AnsweredOnce msg (w.answerSubscribe msg) := by
  refine answeredOnce_reading hh (by simp) (Wire.length_toUTF8_le (by decide)) rfl rfl
    fun req hdecode hcode => ?_
  have hasks : w.asks msg = some (.subscribe req.ranges) := by simp [asks, hh, hdecode]
  have hne := (hmemory _ hasks).accepted
  refine answeredOnce_handed hh (by simp) ?_ (Wire.Subscription.coding.length_encode hne) ⟨hne, ?_⟩
  · exact hcode.trans (unserved_of_handed (by simp) (by simp) hasks)
  · exact Option.isSome_iff_exists.mpr ⟨_, Wire.Subscription.coding.decode_encode hne⟩

/-- `AnswerPoll` answers once. -/
theorem answeredOnce_poll (hh : w.handlerOf msg = .poll)
    (hmemory : ∀ asked, w.asks msg = some asked → (w.memory asked).Sendable) :
    w.AnsweredOnce msg (w.answerPoll msg) := by
  have hasks : w.asks msg = some .poll := by simp [asks, hh]
  have hserved : w.unserved msg .poll = _ := unserved_of_handed (by simp) (by simp) hasks
  have hne := (hmemory _ hasks).polled
  refine answeredOnce_handed hh (by simp) ?_ (Wire.PollReply.coding.length_encode hne) ⟨hne, ?_⟩
  · exact (refusal_of hh).trans hserved
  · exact Option.isSome_iff_exists.mpr ⟨_, Wire.PollReply.coding.decode_encode hne⟩

/-- `AnswerReadDirect` answers once. -/
theorem answeredOnce_readDirect (hh : w.handlerOf msg = .readDirect)
    (hmemory : ∀ asked, w.asks msg = some asked → (w.memory asked).Sendable) :
    w.AnsweredOnce msg (w.answerReadDirect msg) := by
  refine answeredOnce_reading hh (by simp) (Wire.length_toUTF8_le (by decide)) rfl rfl
    fun req hdecode hcode => ?_
  have hasks : w.asks msg = some (.readDirect req.address req.length) := by
    simp [asks, hh, hdecode]
  have hne := (hmemory _ hasks).read
  refine answeredOnce_handed hh (by simp) ?_ (Wire.ReadDirectReply.coding.length_encode hne)
    ⟨hne, ?_⟩
  · exact hcode.trans (unserved_of_handed (by simp) (by simp) hasks)
  · exact Option.isSome_iff_exists.mpr ⟨_, Wire.ReadDirectReply.coding.decode_encode hne⟩

/-- Every `WriteReply` can be encoded. -/
theorem encode_writeReply (reply : Wire.WriteReply) : Wire.WriteReply.encode reply ≠ [] := by
  rw [ne_eq, Wire.WriteReply.coding.encode_eq_nil_iff, not_not]
  exact ⟨trivial, by decide⟩

/-- `AnswerWrite` answers once.

**Proof sketch.** A write out of range is refused with its code. Any other is handed to the bridge,
and its reply is encoded. -/
theorem answeredOnce_write (hh : w.handlerOf msg = .write) :
    w.AnsweredOnce msg (w.answerWrite msg) := by
  have hplain : Handler.write ≠ .ping ∧ Handler.write ≠ .bye := by simp
  refine answeredOnce_reading hh hplain (Wire.length_toUTF8_le (by decide)) rfl rfl
    fun req hdecode hcode => ?_
  have hasks : w.asks msg = some (.write req.ops) := by simp [asks, hh, hdecode]
  have hcode := hcode.trans (unserved_of_handed (by simp) (by simp) hasks)
  have hne := encode_writeReply (w.memory (.write req.ops)).written
  dsimp only
  by_cases hrange : (w.memory (.write req.ops)).result = .outOfRange
  · rw [if_pos hrange]
    rw [hrange] at hcode
    exact (answeredOnce_refuse hh hplain (Wire.length_toUTF8_le (by decide)) hcode).1
  · rw [if_neg hrange]
    refine answeredOnce_handed hh hplain hcode (Wire.WriteReply.coding.length_encode hne) ⟨hne, ?_⟩
    exact Option.isSome_iff_exists.mpr ⟨_, Wire.WriteReply.coding.decode_encode hne⟩

/-- `AnswerNvRam` answers once. -/
theorem answeredOnce_nvRam (hh : w.handlerOf msg = .nvRam) :
    w.AnsweredOnce msg (w.answerNvRam msg) := by
  refine answeredOnce_reading hh (by simp) (Wire.length_toUTF8_le (by decide)) rfl rfl
    fun _ _ hcode => ?_
  refine answeredOnce_respond_of hh (by simp) ?_ (Nat.zero_le _) rfl
  exact hcode.trans (unserved_of_asks (by simp) (by simp) (by simp [asks, hh]))

/-- `AnswerStatus` answers once. -/
theorem answeredOnce_status (hh : w.handlerOf msg = .status) :
    w.AnsweredOnce msg (w.answerStatus msg) := by
  have hplain : Handler.status ≠ .ping ∧ Handler.status ≠ .bye := by simp
  unfold answerStatus
  by_cases hdeclared : w.link.haveDeclared = true
  · rw [if_neg (by simp [hdeclared])]
    exact answeredOnce_acknowledging hh hplain (Wire.length_toUTF8_le (by decide)) rfl
      (by simp [unready, hdeclared]) rfl
      (unserved_of_asks (by simp) (by simp) (by simp [asks, hh]))
  · rw [if_pos (by simp [hdeclared])]
    refine (answeredOnce_refuse hh hplain (Wire.length_toUTF8_le (by decide)) ?_).1
    simpa [unready, hdeclared] using refusal_of hh

/-- `AnswerOverlay` answers once.

**Proof sketch.** By the branch of the source: nothing declared, no surface, a payload that does not
decode, an operation that is refused or one that is done. Each sends one answer. -/
theorem answeredOnce_overlay (hh : w.handlerOf msg = .overlay) :
    w.AnsweredOnce msg (w.answerOverlay msg) := by
  have hplain : Handler.overlay ≠ .ping ∧ Handler.overlay ≠ .bye := by simp
  have hrefusal := refusal_of hh
  unfold answerOverlay
  by_cases hdeclared : w.link.haveDeclared = true
  · rw [if_neg (by simp [hdeclared])]
    by_cases hdmd : (w.link.declared.declare.shades == 0 || !w.overlaySurface) = true
    · rw [if_pos hdmd]
      refine (answeredOnce_refuse hh hplain (Wire.length_toUTF8_le (by decide)) ?_).1
      simpa [unready, hdeclared, hdmd] using hrefusal
    · rw [if_neg hdmd]
      have hready : w.unready .overlay = none := by
        unfold unready
        rw [if_neg (by simp [hdeclared]), if_neg hdmd]
      rw [hready] at hrefusal
      cases hread : overlayRequest msg.payload with
      | none =>
        refine (answeredOnce_refuse hh hplain (Wire.length_toUTF8_le (by decide)) ?_).1
        simpa [readable, hread] using hrefusal
      | some req =>
        have hresponse : w.refusal msg = none → w.AnsweredOnce msg (w.respond msg []) := fun h =>
          answeredOnce_respond_of hh hplain h (Nat.zero_le _) rfl
        simp only [readable, hread, Option.isSome_some, if_true, unserved, Option.bind_some]
          at hrefusal
        dsimp only
        split
        · rename_i hop
          cases hcheck : Overlay.check (some req.payload) with
          | malformed =>
            rw [if_pos ⟨hop, hcheck⟩] at hrefusal
            exact (answeredOnce_refuse hh hplain (Wire.length_toUTF8_le (by decide)) hrefusal).1
          | ignored | stored =>
            rw [if_neg (by simp [hcheck])] at hrefusal
            exact hresponse hrefusal
        · rename_i hop
          rw [if_neg fun h => hop h.1] at hrefusal
          exact hresponse hrefusal
  · rw [if_pos (by simp [hdeclared])]
    refine (answeredOnce_refuse hh hplain (Wire.length_toUTF8_le (by decide)) ?_).1
    simpa [unready, hdeclared] using hrefusal

/-- `AnswerFrame` answers once, also with a frame that does not fit a message.

**Proof sketch.** A frame that the encoder does not take is refused. Any other is the reply, and its
decoder reads it. -/
theorem answeredOnce_frame (hh : w.handlerOf msg = .frame) :
    w.AnsweredOnce msg (w.answerFrame msg) := by
  have hplain : Handler.frame ≠ .ping ∧ Handler.frame ≠ .bye := by simp
  refine answeredOnce_reading hh hplain (Wire.length_toUTF8_le (by decide)) rfl rfl
    fun req hdecode hcode => ?_
  have hfits := Wire.FrameReply.coding.encode_eq_nil_iff (frameReply req w.frame)
  simp only [unserved, hdecode, Option.bind_some] at hcode
  dsimp only
  by_cases hnil : Wire.FrameReply.encode (frameReply req w.frame) = []
  · rw [if_pos (List.isEmpty_iff.mpr hnil)]
    rw [if_neg (hfits.mp hnil)] at hcode
    exact (answeredOnce_refuse hh hplain (Wire.length_toUTF8_le (by decide)) hcode).1
  · rw [if_neg fun h => hnil (List.isEmpty_iff.mp h)]
    rw [if_pos (not_not.mp fun h => hnil (hfits.mpr h))] at hcode
    refine answeredOnce_respond_of hh hplain hcode (Wire.FrameReply.coding.length_encode hnil)
      ⟨hnil, ?_⟩
    exact Option.isSome_iff_exists.mpr ⟨_, Wire.FrameReply.coding.decode_encode hnil⟩

/-- `AnswerPing` answers once, with a Pong. -/
theorem answeredOnce_ping (hh : w.handlerOf msg = .ping) :
    w.AnsweredOnce msg (w.answerPing msg) := by
  have htype := handlerOf_eq_ping_iff.mp hh
  have hne : Wire.Pong.encode w.pong ≠ [] := by
    rw [ne_eq, Wire.Pong.coding.encode_eq_nil_iff, not_not]
    exact ⟨trivial, by decide⟩
  refine answeredOnce_respond (if_pos htype).symm (by rw [htype]; decide) ?_
    (Wire.Pong.coding.length_encode hne) ?_
  · simpa [unready, readable, unserved, asks, hh] using refusal_of hh
  · rw [hh]
    exact ⟨hne, Option.isSome_iff_exists.mpr ⟨_, Wire.Pong.coding.decode_encode hne⟩⟩

/-- A type name is short. -/
theorem length_typeName (type : UInt16) : (Wire.typeName type).toUTF8.toList.length ≤ 64 := by
  have hnames : ∀ p ∈ Wire.typeNames, p.2.utf8ByteSize ≤ 64 := by decide
  refine Wire.length_toUTF8_le ?_
  unfold Wire.typeName
  cases hfind : Wire.typeNames.find? (·.1 == type) with
  | none => decide
  | some p => exact hnames p (List.mem_of_find?_eq_some hfind)

/-- A type that is not served is refused once. -/
theorem answeredOnce_unsupported (hh : w.handlerOf msg = .unsupported) :
    w.AnsweredOnce msg (w.answerUnsupported msg) := by
  have hname := length_typeName msg.header.type
  have htext : " is not served by this plugin".toUTF8.toList.length ≤ 64 :=
    Wire.length_toUTF8_le (by decide)
  refine (answeredOnce_error ?_ (fun hping => ?_) (fun hbye => ?_) ?_).1
  · rw [List.length_append]
    omega
  · cases hh.symm.trans (handlerOf_eq_ping_iff.mpr hping)
  · cases hh.symm.trans (handlerOf_eq_bye_iff.mpr hbye)
  · simpa [unready] using refusal_of hh

end Serving

/-- **Every request is answered exactly once**: a message of any type but Bye by one response with
its seq and its type, a Ping by a Pong; by an error exactly when it is refused, with the code of the
refusal, and otherwise by an empty payload where that is meant, or by one that its own `Decode`
accepts. The session ends after a Bye, a malformed error or a send that failed. The bridge may give
back to the one call that is made of it anything that it gives back to it in some run.

**Proof sketch.** A handler serves one type only, so each is looked at alone: its refusals are the
requests that are not ready, not readable or not served, in this order. A payload that is encoded
decodes; what the bridge gives back can be encoded, and a frame that cannot is refused. -/
theorem answered_exactly_once (w : Serving) (msg : Wire.Message)
    (hmemory : ∀ asked, w.asks msg = some asked → Memory.Hands asked (w.memory asked)) :
    w.AnsweredOnce msg (w.dispatch msg) := by
  have hsendable : ∀ asked, w.asks msg = some asked → (w.memory asked).Sendable :=
    fun asked hasks => Memory.sendable_of_hands (hmemory asked hasks)
  unfold Serving.dispatch
  cases hh : w.handlerOf msg with
  | frame => exact Serving.answeredOnce_frame hh
  | ping => exact Serving.answeredOnce_ping hh
  | subscribe => exact Serving.answeredOnce_subscribe hh hsendable
  | poll => exact Serving.answeredOnce_poll hh hsendable
  | readDirect => exact Serving.answeredOnce_readDirect hh hsendable
  | write => exact Serving.answeredOnce_write hh
  | overlay => exact Serving.answeredOnce_overlay hh
  | status => exact Serving.answeredOnce_status hh
  | unsupported => exact Serving.answeredOnce_unsupported hh
  | bye =>
    refine ⟨fun _ => rfl, fun hbye => ?_⟩
    exact absurd (Serving.handlerOf_eq_bye_iff.mp hh) hbye
  | nvRam => exact Serving.answeredOnce_nvRam hh
  | topScores | players | playerPicture =>
    exact Serving.answeredOnce_acknowledging hh (by simp)
      (Wire.length_toUTF8_le (by decide)) rfl rfl rfl
      (Serving.unserved_of_asks (by simp) (by simp) (by simp [Serving.asks, hh]))

/-- A game runs, and two ranges are subscribed to and read. -/
def subscribedRun : List Memory.Act :=
  [.setGameRunning true, .subscribe [⟨0, 2⟩, ⟨16, 1⟩], .advance 0, .advance 0, .advance 0,
    .service { read := .filled (fun _ _ size => size) fun calls => UInt8.ofNat calls,
               frame := 1, gameRunning := true },
    .phase, .phase, .advance 0]

/-- What a Poll finds then. -/
def polledFrame : Wire.PollReply := { frame := 1, blocks := [⟨0, [2, 2]⟩, ⟨16, [3]⟩] }

/-- A `Poll` gives it back, in three steps after its first. -/
theorem hands_polledFrame : Memory.Hands .poll { result := .ok, polled := polledFrame } := by
  have hbefore : (Runs.runOf Memory.step {} subscribedRun).any (fun s => decide (s.started = 1) &&
      (Memory.step s .poll).any fun s₁ =>
        Runs.holdsAlong Memory.step (fun t _ => decide (t.calls 1 ≠ .returned)) s₁
            [.advance 1, .advance 1] &&
          (Runs.runOf Memory.step s₁ [.advance 1, .advance 1]).any fun s₂ =>
            (Memory.step s₂ (.advance 1)).isSome &&
              decide (s₂.returns 1 (.advance 1) =
                some { result := .ok, polled := polledFrame })) = true := by
    decide +kernel
  obtain ⟨s, hs, hbefore⟩ := (Option.any_eq_true _ _).mp hbefore
  obtain ⟨hstarted, hbefore⟩ := Bool.and_eq_true_iff.mp hbefore
  obtain ⟨s₁, hs₁, hbefore⟩ := (Option.any_eq_true _ _).mp hbefore
  obtain ⟨halong, hbefore⟩ := Bool.and_eq_true_iff.mp hbefore
  obtain ⟨s₂, hs₂, hbefore⟩ := (Option.any_eq_true _ _).mp hbefore
  obtain ⟨hlast, hreturns⟩ := Bool.and_eq_true_iff.mp hbefore
  obtain ⟨s', hlast⟩ := Option.isSome_iff_exists.mp hlast
  have hone : s.started = 1 := of_decide_eq_true hstarted
  have hreach : Memory.system.Reachable s := Runs.reachable_of_runOf rfl hs
  refine .later hreach hs₁ ?_ hlast ?_ <;> rw [hone]
  case refine_2 => exact of_decide_eq_true hreturns
  exact Runs.System.Reaches.runOf (fun _ _ h => of_decide_eq_true h) _ (.init rfl) halong hs₂

/-- A worker with that bridge, and a socket that takes everything. -/
def pollServing : Serving where
  cfg := {}
  status := false
  link := {}
  frame := {}
  session := { renderedFrame := 1, playerRunning := true }
  memory asked := if asked = .poll then { result := .ok, polled := polledFrame }
    else { result := .busy }
  writesUnsupported := false
  overlaySurface := false
  sendAll _ := true

/-- A Poll. -/
def pollRequest : Wire.Message := ⟨⟨typePoll, 0, 7⟩, []⟩

/-- It is answered once, by the bytes that were read for the two ranges. -/
theorem answered_exactly_once_pollRequest :
    pollServing.dispatch pollRequest =
      { sent := [⟨⟨typePoll, Wire.flagResponse, 7⟩, Wire.PollReply.encode polledFrame⟩]
        ok := true } ∧
    Wire.PollReply.decode (Wire.PollReply.encode polledFrame) = some polledFrame ∧
    pollServing.AnsweredOnce pollRequest (pollServing.dispatch pollRequest) := by
  refine ⟨by decide +kernel, by decide +kernel,
    answered_exactly_once pollServing pollRequest ?_⟩
  intro asked hasks
  obtain rfl : Memory.Asked.poll = asked := by
    refine Option.some.inj (Eq.trans ?_ hasks)
    decide +kernel
  exact hands_polledFrame

end Worker
