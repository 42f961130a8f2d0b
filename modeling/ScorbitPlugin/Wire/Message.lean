import ScorbitPlugin.Wire.Codec

set_option relaxedAutoImplicit false
set_option autoImplicit false

/-!
# Messages

A message as the worker handles it once it is off the socket: the header of `src/WireProtocol.h`
and the payload. The message types and error codes are the numbers they are on the wire.

## Main definitions

* `Wire.Header`, `Wire.Message` — a message.
* `Wire.Header.isResponse`, `Wire.Header.isError` — the flag tests.
* `Wire.Message.answers` — the response `Exchange` waits for.
-/

namespace Wire

open Codec

/-- `TYPE_HELLO`. -/
def typeHello : UInt16 := 1

/-- `TYPE_HELLO_ACK`. -/
def typeHelloAck : UInt16 := 2

/-- `TYPE_DECLARE`. -/
def typeDeclare : UInt16 := 3

/-- `TYPE_PING`. -/
def typePing : UInt16 := 5

/-- `TYPE_BYE`. -/
def typeBye : UInt16 := 7

/-- `TYPE_GAME`. -/
def typeGame : UInt16 := 48

/-- `TYPE_TOP_SCORES_REQUEST`, plugin to daemon. -/
def typeTopScoresRequest : UInt16 := 64

/-- `TYPE_TOP_SCORES`, daemon to plugin. -/
def typeTopScores : UInt16 := 65

/-- `TYPE_PLAYERS`, daemon to plugin. -/
def typePlayers : UInt16 := 66

/-- `TYPE_PLAYER_PICTURE`, daemon to plugin. -/
def typePlayerPicture : UInt16 := 67

/-- `FLAG_RESPONSE`. -/
def flagResponse : UInt16 := 1

/-- `FLAG_ERROR`. -/
def flagError : UInt16 := 2

/-- `ERR_UNSUPPORTED_TYPE`. -/
def errUnsupportedType : UInt16 := 1

/-- `ERR_NOT_DECLARED`. -/
def errNotDeclared : UInt16 := 5

/-- `ERR_UNSUPPORTED_OPERATION`. -/
def errUnsupportedOperation : UInt16 := 6

/-- `ERR_MALFORMED`. -/
def errMalformed : UInt16 := 7

/-- `Header`. -/
structure Header where
  type : UInt16 := 0
  flags : UInt16 := 0
  seq : UInt32 := 0
deriving DecidableEq, Repr

/-- `IsResponse`: either bit says so, since a peer may send an error with bit 1 only. -/
def Header.isResponse (h : Header) : Bool := h.flags &&& (flagResponse ||| flagError) != 0

/-- `IsError`. -/
def Header.isError (h : Header) : Bool := h.flags &&& flagError != 0

/-- `Message`. -/
structure Message where
  header : Header := {}
  payload : Bytes := []
deriving DecidableEq, Repr

/-- The message is the response to the request: a response with its seq. -/
def Message.answers (reply request : Message) : Bool :=
  reply.header.isResponse && reply.header.seq == request.header.seq

end Wire
