import ScorbitPlugin.Wire.Bytes

set_option relaxedAutoImplicit false
set_option autoImplicit false

/-!
# The payload types

The payloads of `src/WireProtocol.h`, with the source's field names, defaults and limits. An
enumeration of the source is the byte it is on the wire, since a peer may send any byte there; a
`std::string` or a `std::vector<uint8_t>` is a byte list.

## Main definitions

* `Wire.Hello` … `Wire.PlayerPicture` — the payload types.
* `Wire.newIdentity` — two Declares name different tables.
* `Wire.validGameBatch`, `Wire.validRequest`, `Wire.validTopScores`, `Wire.validPlayers`,
  `Wire.validPicture` — the rules both sides hold a payload to.
-/

namespace Wire

open Codec

/-! ## Protocol version and capabilities -/

/-- `PROTO_MAJOR`. -/
def protoMajor : UInt16 := 1

/-- `PROTO_MINOR`. -/
def protoMinor : UInt16 := 2

/-- `CAP_IDENTIFY_FRAMES`. -/
def capIdentifyFrames : UInt32 := 1

/-- `CAP_MEMORY_READ`. -/
def capMemoryRead : UInt32 := 2

/-- `CAP_MEMORY_WRITE`. -/
def capMemoryWrite : UInt32 := 4

/-- `CAP_OVERLAY`. -/
def capOverlay : UInt32 := 32

/-- `CAP_AUTHORED_TABLES`. -/
def capAuthoredTables : UInt32 := 128

/-- `CAP_LEADERBOARDS`. -/
def capLeaderboards : UInt32 := 256

/-- `CAP_PLAYERS`. -/
def capPlayers : UInt32 := 512

/-- `CAP_PLAYER_PICTURES`. -/
def capPlayerPictures : UInt32 := 1024

/-! ## Session payloads -/

/-- `Hello`. -/
structure Hello where
  protoMajor : UInt16 := Wire.protoMajor
  protoMinor : UInt16 := Wire.protoMinor
  pluginVersion : Bytes := []
  vpxRevision : Bytes := []
  pluginApiCommit : Bytes := []
  token : Bytes := []
  instanceId : UInt64 := 0
  capabilities : UInt32 := 0
  info : Bytes := []
deriving DecidableEq, Repr

/-- `HelloAck`. -/
structure HelloAck where
  protoMajor : UInt16 := 0
  protoMinor : UInt16 := 0
  daemonVersion : Bytes := []
  capabilities : UInt32 := 0
  sessionId : UInt32 := 0
deriving DecidableEq, Repr

/-- `TABLE_ROM`. -/
def tableRom : UInt8 := 0

/-- `TABLE_AUTHORED`. -/
def tableAuthored : UInt8 := 1

/-- `Declare`; the fields from `tableKind` on were appended in minor 1. -/
structure Declare where
  romId : Bytes := []
  tablePath : Bytes := []
  vpxVersion : Bytes := []
  vpxRevision : Bytes := []
  width : UInt16 := 0
  height : UInt16 := 0
  shades : UInt8 := 0
  sourceGeneration : UInt32 := 0
  identifyFormat : Bytes := []
  tableKind : UInt8 := tableRom
  machineUuid : Bytes := []
  tableFullPath : Bytes := []
  vpxAppPath : Bytes := []
  prefsPath : Bytes := []
deriving DecidableEq, Repr

/-- `NewIdentity`: two Declares name different tables, by ROM, kind or machine. -/
def newIdentity (was now : Declare) : Bool :=
  was.romId != now.romId || was.tableKind != now.tableKind || was.machineUuid != now.machineUuid

/-- `FrameRequest`. -/
structure FrameRequest where
  sinceFrameId : UInt32 := 0
  sinceGeneration : UInt32 := 0
deriving DecidableEq, Repr

/-- `FrameReply`. -/
structure FrameReply where
  frameId : UInt32 := 0
  sourceGeneration : UInt32 := 0
  width : UInt16 := 0
  height : UInt16 := 0
  shades : UInt8 := 0
  hasPixels : UInt8 := 0
  pixels : Bytes := []
deriving DecidableEq, Repr

/-- `Pong`. -/
structure Pong where
  renderedFrame : UInt64 := 0
  playerRunning : UInt8 := 0
  writesSupported : UInt8 := 0
deriving DecidableEq, Repr

/-- `Bye`. -/
structure Bye where
  reason : Bytes := []
deriving DecidableEq, Repr

/-- `ErrorPayload`. -/
structure ErrorPayload where
  code : UInt16 := 0
  reason : Bytes := []
deriving DecidableEq, Repr

/-! ## Memory payloads -/

/-- `MAX_SUBSCRIBE_RANGES`. -/
def maxSubscribeRanges : ℕ := 64

/-- `MAX_SUBSCRIBE_BYTES`. -/
def maxSubscribeBytes : ℕ := 16 * 1024

/-- `MAX_READ_DIRECT_BYTES`. -/
def maxReadDirectBytes : ℕ := 64 * 1024

/-- `READ_CHUNK_BYTES`. -/
def readChunkBytes : ℕ := 256

/-- `MAX_WRITE_OPS`. -/
def maxWriteOps : ℕ := 16

/-- `MemoryRange`. -/
structure MemoryRange where
  address : UInt32 := 0
  length : UInt32 := 0
deriving DecidableEq, Repr

/-- `Subscription`. -/
structure Subscription where
  ranges : List MemoryRange := []
deriving DecidableEq, Repr

/-- `MemoryBlock`. -/
structure MemoryBlock where
  address : UInt32 := 0
  bytes : Bytes := []
deriving DecidableEq, Repr

/-- `PollReply`. -/
structure PollReply where
  frame : UInt64 := 0
  playerRunning : UInt8 := 0
  blocks : List MemoryBlock := []
deriving DecidableEq, Repr

/-- `ReadDirectRequest`. -/
structure ReadDirectRequest where
  address : UInt32 := 0
  length : UInt32 := 0
deriving DecidableEq, Repr

/-- `ReadDirectReply`. -/
structure ReadDirectReply where
  frame : UInt64 := 0
  address : UInt32 := 0
  unstableOffsets : List UInt32 := []
  bytes : Bytes := []
deriving DecidableEq, Repr

/-- `WriteOp`. -/
structure WriteOp where
  address : UInt32 := 0
  bytes : Bytes := []
deriving DecidableEq, Repr

/-- `WriteRequest`. -/
structure WriteRequest where
  ops : List WriteOp := []
deriving DecidableEq, Repr

/-- `WriteReply`. -/
structure WriteReply where
  frame : UInt64 := 0
  applied : UInt16 := 0
deriving DecidableEq, Repr

/-- `NvRamParameters`. -/
structure NvRamParameters where
  start : UInt32 := 0
  length : UInt32 := 0
  unlockAddress : UInt32 := 0
  unlockValue : UInt8 := 0
  lockValue : UInt8 := 0
deriving DecidableEq, Repr

/-! ## Overlay and status payloads -/

/-- `OverlayRequest`: the payload is everything after `op`. -/
structure OverlayRequest where
  op : UInt8 := 0
  payload : Bytes := []
deriving DecidableEq, Repr

/-- `OverlayControl`; `durationMs` is the protocol's one big-endian field. -/
structure OverlayControl where
  control : UInt8 := 0
  durationMs : UInt16 := 0
deriving DecidableEq, Repr

/-- `MAX_SUPPORT_TEXT_BYTES`. -/
def maxSupportTextBytes : ℕ := 256

/-- `AUTH_FAILED`, the largest known `auth_status`. -/
def authFailed : UInt8 := 5

/-- `Status`; `authStatus` was appended in minor 2. -/
structure Status where
  sessionState : UInt8 := 0
  systemState : UInt8 := 0
  supportText : Bytes := []
  hasAuthStatus : Bool := false
  authStatus : UInt8 := 0
deriving DecidableEq, Repr

/-! ## Authored tables -/

/-- `MAX_GAME_OPS`. -/
def maxGameOps : ℕ := 256

/-- `GAME_START`. -/
def gameStart : UInt8 := 1

/-- `GAME_END`. -/
def gameEnd : UInt8 := 2

/-- `GAME_BALL`. -/
def gameBall : UInt8 := 3

/-- `GAME_ACTIVE_PLAYER`. -/
def gameActivePlayer : UInt8 := 4

/-- `GAME_SCORE`. -/
def gameScore : UInt8 := 5

/-- `GAME_ADD_MODE`. -/
def gameAddMode : UInt8 := 6

/-- `GAME_ADD_MODE_EXPIRING`. -/
def gameAddModeExpiring : UInt8 := 7

/-- `GAME_MODE_COMPLETED`. -/
def gameModeCompleted : UInt8 := 8

/-- `GAME_REMOVE_MODE`. -/
def gameRemoveMode : UInt8 := 9

/-- `GAME_CLEAR_MODES`. -/
def gameClearModes : UInt8 := 10

/-- `GameOp`; only the fields its kind names are on the wire. -/
structure GameOp where
  kind : UInt8 := 0
  value : UInt8 := 0
  score : Int64 := 0
  feature : Int32 := 0
  seconds : UInt32 := 0
  mode : Bytes := []
deriving DecidableEq, Repr

/-- `GameBatch`. -/
structure GameBatch where
  ops : List GameOp := []
  batchId : UInt32 := 0
deriving DecidableEq, Repr

/-- The batch begins with `GAME_START`. -/
def GameBatch.startsGame (b : GameBatch) : Bool :=
  match b.ops.head? with
  | some op => op.kind == gameStart
  | none => false

/-- The batch ends with `GAME_END`. -/
def GameBatch.endsGame (b : GameBatch) : Bool :=
  match b.ops.getLast? with
  | some op => op.kind == gameEnd
  | none => false

/-- `KnownGameOp`. -/
def knownGameOp (kind : UInt8) : Bool := kind ≥ gameStart && kind ≤ gameClearModes

/-- `ValidGameBatch`: at least one op and at most `MAX_GAME_OPS`, each of a known kind,
`GAME_START` only first and `GAME_END` only last. -/
def validGameBatch (v : GameBatch) : Bool :=
  !v.ops.isEmpty && v.ops.length ≤ maxGameOps && v.ops.zipIdx.all fun p =>
    knownGameOp p.1.kind && !(p.1.kind == gameStart && p.2 != 0)
      && !(p.1.kind == gameEnd && p.2 != v.ops.length - 1)

/-! ## Read-backs -/

/-- `SCOPE_GAME`, the largest known scope. -/
def scopeGame : UInt8 := 2

/-- `PERIOD_DAYS_365`, the largest known period. -/
def periodDays365 : UInt8 := 5

/-- `VPIN_REAL_ONLY`, the largest known filter. -/
def vpinRealOnly : UInt8 := 2

/-- `TOP_SCORES_OK`. -/
def topScoresOk : UInt8 := 0

/-- `TOP_SCORES_FAILED`. -/
def topScoresFailed : UInt8 := 3

/-- `TOP_SCORES_SUPERSEDED`, the largest known result. -/
def topScoresSuperseded : UInt8 := 4

/-- `MAX_TOP_SCORES`. -/
def maxTopScores : UInt8 := 20

/-- `MAX_SINCE_BYTES`. -/
def maxSinceBytes : ℕ := 32

/-- `MAX_NAME_BYTES`. -/
def maxNameBytes : ℕ := 64

/-- `MAX_INITIALS_BYTES`. -/
def maxInitialsBytes : ℕ := 8

/-- `MAX_CREATED_BYTES`. -/
def maxCreatedBytes : ℕ := 32

/-- `MAX_CLAIM_DEEPLINK_BYTES`. -/
def maxClaimDeeplinkBytes : ℕ := 512

/-- `MAX_PLAYERS`. -/
def maxPlayers : UInt8 := 9

/-- `TopScoresRequest`. -/
structure TopScoresRequest where
  requestId : UInt32 := 0
  scope : UInt8 := 0
  period : UInt8 := 0
  vpinFilter : UInt8 := 0
  limit : UInt8 := 10
  since : Bytes := []
deriving DecidableEq, Repr

/-- `TopScoreEntry`. -/
structure TopScoreEntry where
  rank : UInt16 := 0
  highScore : Int64 := 0
  displayName : Bytes := []
  initials : Bytes := []
  flags : UInt8 := 0
  created : Bytes := []
deriving DecidableEq, Repr

/-- `TopScores`. -/
structure TopScores where
  requestId : UInt32 := 0
  result : UInt8 := topScoresOk
  ageS : UInt32 := 0
  entries : List TopScoreEntry := []
deriving DecidableEq, Repr

/-- `PlayerSlot`; the slot is claimed exactly when `playerId` is not empty. -/
structure PlayerSlot where
  player : UInt8 := 0
  playerId : Bytes := []
  preferredName : Bytes := []
  name : Bytes := []
  initials : Bytes := []
  claimDeeplink : Bytes := []
deriving DecidableEq, Repr

/-- `Players`: the whole slot table. -/
structure Players where
  slots : List PlayerSlot := []
deriving DecidableEq, Repr

/-- `PlayerPicture`. -/
structure PlayerPicture where
  player : UInt8 := 0
  playerId : Bytes := []
  path : Bytes := []
deriving DecidableEq, Repr

/-- `ValidRequest`. -/
def validRequest (v : TopScoresRequest) : Bool :=
  v.scope ≤ scopeGame && v.period ≤ periodDays365 && v.vpinFilter ≤ vpinRealOnly && v.limit ≥ 1
    && v.limit ≤ maxTopScores && v.since.length ≤ maxSinceBytes

/-- `ValidTopScores`. -/
def validTopScores (v : TopScores) : Bool :=
  !(v.result > topScoresSuperseded || v.entries.length > maxTopScores.toNat)
    && !(v.result != topScoresOk && !v.entries.isEmpty)
    && v.entries.all fun e => !(e.displayName.length > maxNameBytes
      || e.initials.length > maxInitialsBytes || e.created.length > maxCreatedBytes)

/-- The loop of `ValidPlayers`, with the last player seen. -/
def validSlots (last : UInt8) : List PlayerSlot → Bool
  | [] => true
  | s :: slots =>
    !(s.player ≤ last || s.player > maxPlayers)
      && !(s.preferredName.length > maxNameBytes || s.name.length > maxNameBytes
        || s.initials.length > maxInitialsBytes || s.claimDeeplink.length > maxClaimDeeplinkBytes)
      && validSlots s.player slots

/-- `ValidPlayers`: at most nine slots, ascending by player, with bounded strings. -/
def validPlayers (v : Players) : Bool :=
  !(v.slots.length > maxPlayers.toNat) && validSlots 0 v.slots

/-- `ValidPicture`. -/
def validPicture (v : PlayerPicture) : Bool := v.player ≥ 1 && v.player ≤ maxPlayers

end Wire
