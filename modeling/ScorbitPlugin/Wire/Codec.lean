import ScorbitPlugin.Wire.Payloads

set_option relaxedAutoImplicit false
set_option autoImplicit false

/-!
# Encode and Decode

Every `Encode` and `Decode` of `src/WireProtocol.cpp`, over the writer and the reader. An
`Encode` gives the empty list for what it refuses; a `Decode` gives `none`. What a decoder reads
into its out-parameter before it fails is not modelled: no caller looks at it, except for the
code of an error payload, which `ErrorPayload.codeOf` keeps.

## Main definitions

* `Wire.Hello.encode`, `Wire.Hello.decode`, and so on for each payload type.
* `Wire.SensitiveSpan` — the bytes of a string that a wire dump blanks.
-/

namespace Wire

open Codec

/-- `SensitiveSpan`: the bytes of a sensitive string, counted from the start of the payload. -/
structure SensitiveSpan where
  offset : ℕ := 0
  length : ℕ := 0
deriving DecidableEq, Repr

/-- Writes the elements of a list one after another. -/
def Writer.each {α : Type} (w : Writer) (l : List α) (f : Writer → α → Writer) : Writer :=
  l.foldl f w

/-- Reads `n` elements one after another. -/
def Reader.each {α : Type} (m : Read α) : ℕ → Read (List α)
  | 0 => return []
  | n + 1 => do
    let a ← m
    let l ← Reader.each m n
    return a :: l

/-- Refuses the payload unless `p` holds. -/
def Reader.require (p : Bool) : Read Unit := if p then return () else Reader.fail

/-! ## Hello to Declare -/

/-- `Encode(const Hello&)`. -/
def Hello.encode (v : Hello) : Bytes :=
  Writer.new.u16 v.protoMajor |>.u16 v.protoMinor |>.str v.pluginVersion |>.str v.vpxRevision
    |>.str v.pluginApiCommit |>.str v.token |>.u64 v.instanceId |>.u32 v.capabilities
    |>.str v.info |>.finish

/-- The fields of a `Hello`, in order. -/
def Hello.read : Read Hello := do
  let protoMajor ← Reader.u16
  let protoMinor ← Reader.u16
  let pluginVersion ← Reader.str
  let vpxRevision ← Reader.str
  let pluginApiCommit ← Reader.str
  let token ← Reader.str
  let instanceId ← Reader.u64
  let capabilities ← Reader.u32
  let info ← Reader.str
  return { protoMajor, protoMinor, pluginVersion, vpxRevision, pluginApiCommit, token, instanceId,
           capabilities, info }

/-- `Decode(payload, Hello&)`. -/
def Hello.decode (payload : Bytes) : Option Hello := Reader.run Hello.read payload

/-- `Encode(const HelloAck&)`. -/
def HelloAck.encode (v : HelloAck) : Bytes :=
  Writer.new.u16 v.protoMajor |>.u16 v.protoMinor |>.str v.daemonVersion |>.u32 v.capabilities
    |>.u32 v.sessionId |>.finish

/-- The fields of a `HelloAck`, in order. -/
def HelloAck.read : Read HelloAck := do
  let protoMajor ← Reader.u16
  let protoMinor ← Reader.u16
  let daemonVersion ← Reader.str
  let capabilities ← Reader.u32
  let sessionId ← Reader.u32
  return { protoMajor, protoMinor, daemonVersion, capabilities, sessionId }

/-- `Decode(payload, HelloAck&)`. -/
def HelloAck.decode (payload : Bytes) : Option HelloAck := Reader.run HelloAck.read payload

/-- Writes a path of a Declare, recording where its bytes go. -/
def Declare.writePath (s : Writer × List SensitiveSpan) (path : Bytes) :
    Writer × List SensitiveSpan :=
  (s.1.str path, if path.isEmpty then s.2 else s.2 ++ [⟨s.1.data.length + 2, path.length⟩])

/-- The fields of a Declare for a peer of minor `peerMinor`, with the spans of its paths. -/
def Declare.write (v : Declare) (peerMinor : UInt16) : Writer × List SensitiveSpan :=
  let w := Writer.new.str v.romId |>.str v.tablePath |>.str v.vpxVersion |>.str v.vpxRevision
    |>.u16 v.width |>.u16 v.height |>.u8 v.shades |>.u32 v.sourceGeneration |>.str v.identifyFormat
  if peerMinor ≥ 1 then
    [v.tableFullPath, v.vpxAppPath, v.prefsPath].foldl Declare.writePath
      ((w.u8 v.tableKind).str v.machineUuid, [])
  else (w, [])

/-- `Encode(const Declare&, peerMinor, sensitive)`: the payload and the spans of its paths. -/
def Declare.encodeSensitive (v : Declare) (peerMinor : UInt16) : Bytes × List SensitiveSpan :=
  let (w, sensitive) := v.write peerMinor
  if w.ok then (w.data, sensitive) else ([], [])

/-- `Encode(const Declare&, peerMinor)`. -/
def Declare.encode (v : Declare) (peerMinor : UInt16) : Bytes := (v.encodeSensitive peerMinor).1

/-- The fields of a Declare; those of minor 1 are read when the payload goes on. -/
def Declare.read : Read Declare := do
  let romId ← Reader.str
  let tablePath ← Reader.str
  let vpxVersion ← Reader.str
  let vpxRevision ← Reader.str
  let width ← Reader.u16
  let height ← Reader.u16
  let shades ← Reader.u8
  let sourceGeneration ← Reader.u32
  let identifyFormat ← Reader.str
  let out : Declare := { romId, tablePath, vpxVersion, vpxRevision, width, height, shades,
                         sourceGeneration, identifyFormat }
  if ← Reader.atEnd then return out
  let tableKind ← Reader.u8
  let machineUuid ← Reader.str
  let tableFullPath ← Reader.str
  let vpxAppPath ← Reader.str
  let prefsPath ← Reader.str
  return { out with tableKind, machineUuid, tableFullPath, vpxAppPath, prefsPath }

/-- `Decode(payload, Declare&)`. -/
def Declare.decode (payload : Bytes) : Option Declare := Reader.run Declare.read payload

/-! ## Frames, Pong, Bye and errors -/

/-- `Encode(const FrameRequest&)`. -/
def FrameRequest.encode (v : FrameRequest) : Bytes :=
  Writer.new.u32 v.sinceFrameId |>.u32 v.sinceGeneration |>.finish

/-- `Decode(payload, FrameRequest&)`. -/
def FrameRequest.decode (payload : Bytes) : Option FrameRequest := Reader.run (do
  let sinceFrameId ← Reader.u32
  let sinceGeneration ← Reader.u32
  return { sinceFrameId, sinceGeneration }) payload

/-- `Encode(const FrameReply&)`: pixels that disagree with the geometry are refused. -/
def FrameReply.encode (v : FrameReply) : Bytes :=
  let w := Writer.new.u32 v.frameId |>.u32 v.sourceGeneration |>.u16 v.width |>.u16 v.height
    |>.u8 v.shades |>.u8 v.hasPixels
  if v.hasPixels ≠ 0 then
    if v.pixels.length ≠ v.width.toNat * v.height.toNat then []
    else (w.bytes v.pixels).finish
  else w.finish

/-- `Decode(payload, FrameReply&)`. -/
def FrameReply.decode (payload : Bytes) : Option FrameReply := Reader.run (do
  let frameId ← Reader.u32
  let sourceGeneration ← Reader.u32
  let width ← Reader.u16
  let height ← Reader.u16
  let shades ← Reader.u8
  let hasPixels ← Reader.u8
  let pixels ← if hasPixels ≠ 0 then Reader.bytes (width.toNat * height.toNat) else pure []
  return { frameId, sourceGeneration, width, height, shades, hasPixels, pixels }) payload

/-- `Encode(const Pong&)`. -/
def Pong.encode (v : Pong) : Bytes :=
  Writer.new.u64 v.renderedFrame |>.u8 v.playerRunning |>.u8 v.writesSupported |>.finish

/-- `Decode(payload, Pong&)`. -/
def Pong.decode (payload : Bytes) : Option Pong := Reader.run (do
  let renderedFrame ← Reader.u64
  let playerRunning ← Reader.u8
  let writesSupported ← Reader.u8
  return { renderedFrame, playerRunning, writesSupported }) payload

/-- `Encode(const Bye&)`. -/
def Bye.encode (v : Bye) : Bytes := Writer.new.str v.reason |>.finish

/-- `Decode(payload, Bye&)`. -/
def Bye.decode (payload : Bytes) : Option Bye := Reader.run (do
  let reason ← Reader.str
  return { reason }) payload

/-- `Encode(const ErrorPayload&)`. -/
def ErrorPayload.encode (v : ErrorPayload) : Bytes :=
  Writer.new.u16 v.code |>.str v.reason |>.finish

/-- `Decode(payload, ErrorPayload&)`. -/
def ErrorPayload.decode (payload : Bytes) : Option ErrorPayload := Reader.run (do
  let code ← Reader.u16
  let reason ← Reader.str
  return { code, reason }) payload

/-- The code a caller that ignores `Decode`'s result is left with: the one read, or 0. -/
def ErrorPayload.codeOf (payload : Bytes) : UInt16 := (Reader.run Reader.u16 payload).getD 0

/-! ## Memory -/

/-- `Encode(const Subscription&)`. -/
def Subscription.encode (v : Subscription) : Bytes :=
  if v.ranges.length > 0xFFFF then []
  else (Writer.new.u16 (UInt16.ofNat v.ranges.length)).each v.ranges
    (fun w range => w.u32 range.address |>.u32 range.length) |>.finish

/-- One range of a Subscription. -/
def MemoryRange.read : Read MemoryRange := do
  let address ← Reader.u32
  let length ← Reader.u32
  return { address, length }

/-- `Decode(payload, Subscription&)`: a count the payload cannot hold is refused first. -/
def Subscription.decode (payload : Bytes) : Option Subscription := Reader.run (do
  let count ← Reader.u16
  Reader.require (count.toNat * 8 ≤ (← Reader.remaining))
  let ranges ← Reader.each MemoryRange.read count.toNat
  return { ranges }) payload

/-- `Encode(const PollReply&)`. -/
def PollReply.encode (v : PollReply) : Bytes :=
  if v.blocks.length > 0xFFFF then []
  else (Writer.new.u64 v.frame |>.u8 v.playerRunning |>.u16 (UInt16.ofNat v.blocks.length)).each
    v.blocks (fun w block =>
      w.u32 block.address |>.u32 (UInt32.ofNat block.bytes.length) |>.bytes block.bytes) |>.finish

/-- One block of a PollReply. -/
def MemoryBlock.read : Read MemoryBlock := do
  let address ← Reader.u32
  let length ← Reader.u32
  Reader.require (length.toNat ≤ (← Reader.remaining))
  let bytes ← Reader.bytes length.toNat
  return { address, bytes }

/-- `Decode(payload, PollReply&)`. -/
def PollReply.decode (payload : Bytes) : Option PollReply := Reader.run (do
  let frame ← Reader.u64
  let playerRunning ← Reader.u8
  let count ← Reader.u16
  let blocks ← Reader.each MemoryBlock.read count.toNat
  return { frame, playerRunning, blocks }) payload

/-- `Encode(const ReadDirectRequest&)`. -/
def ReadDirectRequest.encode (v : ReadDirectRequest) : Bytes :=
  Writer.new.u32 v.address |>.u32 v.length |>.finish

/-- `Decode(payload, ReadDirectRequest&)`. -/
def ReadDirectRequest.decode (payload : Bytes) : Option ReadDirectRequest := Reader.run (do
  let address ← Reader.u32
  let length ← Reader.u32
  return { address, length }) payload

/-- `Encode(const ReadDirectReply&)`. -/
def ReadDirectReply.encode (v : ReadDirectReply) : Bytes :=
  if v.unstableOffsets.length > 0xFFFF then []
  else (Writer.new.u64 v.frame |>.u32 v.address |>.u32 (UInt32.ofNat v.bytes.length)
    |>.u16 (UInt16.ofNat v.unstableOffsets.length)).each v.unstableOffsets Writer.u32
    |>.bytes v.bytes |>.finish

/-- `Decode(payload, ReadDirectReply&)`. -/
def ReadDirectReply.decode (payload : Bytes) : Option ReadDirectReply := Reader.run (do
  let frame ← Reader.u64
  let address ← Reader.u32
  let length ← Reader.u32
  let unstable ← Reader.u16
  Reader.require (unstable.toNat * 4 ≤ (← Reader.remaining))
  let unstableOffsets ← Reader.each Reader.u32 unstable.toNat
  Reader.require (length.toNat ≤ (← Reader.remaining))
  let bytes ← Reader.bytes length.toNat
  return { frame, address, unstableOffsets, bytes }) payload

/-- `Encode(const WriteRequest&)`. -/
def WriteRequest.encode (v : WriteRequest) : Bytes :=
  if v.ops.length > 0xFFFF || v.ops.any (fun op => op.bytes.length > 0xFFFF) then []
  else (Writer.new.u16 (UInt16.ofNat v.ops.length)).each v.ops (fun w op =>
    w.u32 op.address |>.u16 (UInt16.ofNat op.bytes.length) |>.bytes op.bytes) |>.finish

/-- One op of a WriteRequest. -/
def WriteOp.read : Read WriteOp := do
  let address ← Reader.u32
  let length ← Reader.u16
  Reader.require (length.toNat ≤ (← Reader.remaining))
  let bytes ← Reader.bytes length.toNat
  return { address, bytes }

/-- `Decode(payload, WriteRequest&)`. -/
def WriteRequest.decode (payload : Bytes) : Option WriteRequest := Reader.run (do
  let count ← Reader.u16
  Reader.require (count.toNat * 6 ≤ (← Reader.remaining))
  let ops ← Reader.each WriteOp.read count.toNat
  return { ops }) payload

/-- `Encode(const WriteReply&)`. -/
def WriteReply.encode (v : WriteReply) : Bytes :=
  Writer.new.u64 v.frame |>.u16 v.applied |>.finish

/-- `Decode(payload, WriteReply&)`. -/
def WriteReply.decode (payload : Bytes) : Option WriteReply := Reader.run (do
  let frame ← Reader.u64
  let applied ← Reader.u16
  return { frame, applied }) payload

/-- `Encode(const NvRamParameters&)`. -/
def NvRamParameters.encode (v : NvRamParameters) : Bytes :=
  Writer.new.u32 v.start |>.u32 v.length |>.u32 v.unlockAddress |>.u8 v.unlockValue
    |>.u8 v.lockValue |>.finish

/-- `Decode(payload, NvRamParameters&)`. -/
def NvRamParameters.decode (payload : Bytes) : Option NvRamParameters := Reader.run (do
  let start ← Reader.u32
  let length ← Reader.u32
  let unlockAddress ← Reader.u32
  let unlockValue ← Reader.u8
  let lockValue ← Reader.u8
  return { start, length, unlockAddress, unlockValue, lockValue }) payload

/-! ## Overlay and status -/

/-- `Encode(const OverlayRequest&)`. -/
def OverlayRequest.encode (v : OverlayRequest) : Bytes :=
  Writer.new.u8 v.op |>.bytes v.payload |>.finish

/-- `Decode(payload, OverlayRequest&)`: everything after the op. -/
def OverlayRequest.decode (payload : Bytes) : Option OverlayRequest :=
  (Reader.run Reader.u8 payload).map fun op => { op, payload := payload.drop 1 }

/-- `Encode(const OverlayControl&)`. -/
def OverlayControl.encode (v : OverlayControl) : Bytes :=
  Writer.new.u8 v.control |>.u8 (v.durationMs >>> 8).toUInt8 |>.u8 (v.durationMs &&& 0xFF).toUInt8
    |>.finish

/-- `Decode(payload, OverlayControl&)`. -/
def OverlayControl.decode (payload : Bytes) : Option OverlayControl := Reader.run (do
  let control ← Reader.u8
  let hi ← Reader.u8
  let lo ← Reader.u8
  return { control, durationMs := (hi.toUInt16 <<< 8) ||| lo.toUInt16 }) payload

/-- `Encode(const Status&)`. -/
def Status.encode (v : Status) : Bytes :=
  let w := Writer.new.u8 v.sessionState |>.u8 v.systemState |>.str v.supportText
  (if v.hasAuthStatus then w.u8 v.authStatus else w).finish

/-- `Decode(payload, Status&, peerMinor)`: the `authStatus` tail is read from minor 2 on, when
there is one. -/
def Status.decode (payload : Bytes) (peerMinor : UInt16) : Option Status := Reader.run (do
  let sessionState ← Reader.u8
  let systemState ← Reader.u8
  let supportText ← Reader.str
  let out : Status := { sessionState, systemState, supportText }
  let out ← if peerMinor ≥ 2 && !(← Reader.atEnd) then do
      let authStatus ← Reader.u8
      Reader.require (authStatus ≤ authFailed)
      pure { out with hasAuthStatus := true, authStatus }
    else pure out
  Reader.require (out.supportText.length ≤ maxSupportTextBytes)
  return out) payload

/-! ## Game batches -/

/-- One op, with the fields its kind names. -/
def GameOp.write (w : Writer) (op : GameOp) : Writer :=
  let w := w.u8 op.kind
  if op.kind = gameStart ∨ op.kind = gameBall ∨ op.kind = gameActivePlayer then w.u8 op.value
  else if op.kind = gameScore then
    w.u8 op.value |>.u64 op.score.toUInt64 |>.u32 op.feature.toUInt32
  else if op.kind = gameAddModeExpiring then w.u32 op.seconds |>.str op.mode
  else if op.kind = gameAddMode ∨ op.kind = gameModeCompleted ∨ op.kind = gameRemoveMode then
    w.str op.mode
  else w

/-- `Encode(const GameBatch&)`. -/
def GameBatch.encode (v : GameBatch) : Bytes :=
  if !validGameBatch v then []
  else (Writer.new.u32 v.batchId |>.u16 (UInt16.ofNat v.ops.length)).each v.ops GameOp.write
    |>.finish

/-- One op; an unknown kind carries no length, so it cannot be skipped. -/
def GameOp.read : Read GameOp := do
  let kind ← Reader.u8
  if kind = gameStart ∨ kind = gameBall ∨ kind = gameActivePlayer then
    let value ← Reader.u8
    return { kind, value }
  else if kind = gameScore then
    let value ← Reader.u8
    let score ← Reader.u64
    let feature ← Reader.u32
    return { kind, value, score := score.toInt64, feature := feature.toInt32 }
  else if kind = gameAddModeExpiring then
    let seconds ← Reader.u32
    let mode ← Reader.str
    return { kind, seconds, mode }
  else if kind = gameAddMode ∨ kind = gameModeCompleted ∨ kind = gameRemoveMode then
    let mode ← Reader.str
    return { kind, mode }
  else if kind = gameEnd ∨ kind = gameClearModes then return { kind }
  else Reader.fail

/-- `Decode(payload, GameBatch&)`. -/
def GameBatch.decode (payload : Bytes) : Option GameBatch := Reader.run (do
  let batchId ← Reader.u32
  let count ← Reader.u16
  Reader.require (count ≠ 0 && count.toNat ≤ maxGameOps && count.toNat ≤ (← Reader.remaining))
  let ops ← Reader.each GameOp.read count.toNat
  let out : GameBatch := { ops, batchId }
  Reader.require (validGameBatch out)
  return out) payload

/-! ## Read-backs -/

/-- `Encode(const TopScoresRequest&)`. -/
def TopScoresRequest.encode (v : TopScoresRequest) : Bytes :=
  if !validRequest v then []
  else Writer.new.u32 v.requestId |>.u8 v.scope |>.u8 v.period |>.u8 v.vpinFilter |>.u8 v.limit
    |>.str v.since |>.finish

/-- `Decode(payload, TopScoresRequest&)`. -/
def TopScoresRequest.decode (payload : Bytes) : Option TopScoresRequest := Reader.run (do
  let requestId ← Reader.u32
  let scope ← Reader.u8
  let period ← Reader.u8
  let vpinFilter ← Reader.u8
  let limit ← Reader.u8
  let since ← Reader.str
  let out : TopScoresRequest := { requestId, scope, period, vpinFilter, limit, since }
  Reader.require (validRequest out)
  return out) payload

/-- One entry of a TopScores. -/
def TopScoreEntry.write (w : Writer) (e : TopScoreEntry) : Writer :=
  w.u16 e.rank |>.u64 e.highScore.toUInt64 |>.str e.displayName |>.str e.initials |>.u8 e.flags
    |>.str e.created

/-- `Encode(const TopScores&)`. -/
def TopScores.encode (v : TopScores) : Bytes :=
  if !validTopScores v then []
  else (Writer.new.u32 v.requestId |>.u8 v.result |>.u32 v.ageS
    |>.u8 (UInt8.ofNat v.entries.length)).each v.entries TopScoreEntry.write |>.finish

/-- One entry of a TopScores. -/
def TopScoreEntry.read : Read TopScoreEntry := do
  let rank ← Reader.u16
  let score ← Reader.u64
  let displayName ← Reader.str
  let initials ← Reader.str
  let flags ← Reader.u8
  let created ← Reader.str
  return { rank, highScore := score.toInt64, displayName, initials, flags, created }

/-- `Decode(payload, TopScores&)`. -/
def TopScores.decode (payload : Bytes) : Option TopScores := Reader.run (do
  let requestId ← Reader.u32
  let result ← Reader.u8
  let ageS ← Reader.u32
  let count ← Reader.u8
  Reader.require (count ≤ maxTopScores)
  let entries ← Reader.each TopScoreEntry.read count.toNat
  let out : TopScores := { requestId, result, ageS, entries }
  Reader.require (validTopScores out)
  return out) payload

/-- `Span`: records the bytes of a string whose length prefix stands at `prefixAt`. -/
def span (sensitive : List SensitiveSpan) (prefixAt : ℕ) (v : Bytes) : List SensitiveSpan :=
  if v.isEmpty then sensitive else sensitive ++ [⟨prefixAt + 2, v.length⟩]

/-- One slot of a Players, recording where its deeplink goes. -/
def PlayerSlot.write (st : Writer × List SensitiveSpan) (s : PlayerSlot) :
    Writer × List SensitiveSpan :=
  let w := st.1.u8 s.player |>.str s.playerId |>.str s.preferredName |>.str s.name |>.str s.initials
  (w.str s.claimDeeplink, span st.2 w.data.length s.claimDeeplink)

/-- `Encode(const Players&, sensitive)`: the payload and the spans of its deeplinks. -/
def Players.encodeSensitive (v : Players) : Bytes × List SensitiveSpan :=
  if !validPlayers v then ([], [])
  else
    let (w, sensitive) := v.slots.foldl PlayerSlot.write
      (Writer.new.u8 (UInt8.ofNat v.slots.length), [])
    if w.ok then (w.data, sensitive) else ([], [])

/-- `Encode(const Players&)`. -/
def Players.encode (v : Players) : Bytes := v.encodeSensitive.1

/-- One slot of a Players, with the position of its deeplink. -/
def PlayerSlot.read : Read (PlayerSlot × ℕ) := do
  let player ← Reader.u8
  let playerId ← Reader.str
  let preferredName ← Reader.str
  let name ← Reader.str
  let initials ← Reader.str
  let prefixAt ← Reader.position
  let claimDeeplink ← Reader.str
  return ({ player, playerId, preferredName, name, initials, claimDeeplink }, prefixAt)

/-- `Decode(payload, Players&, sensitive)`: the players and the spans of their deeplinks. -/
def Players.decodeSensitive (payload : Bytes) : Option (Players × List SensitiveSpan) :=
  Reader.run (do
    let count ← Reader.u8
    Reader.require (count ≤ maxPlayers)
    let read ← Reader.each PlayerSlot.read count.toNat
    let out : Players := { slots := read.map Prod.fst }
    Reader.require (validPlayers out)
    return (out, read.foldl (fun sensitive s => span sensitive s.2 s.1.claimDeeplink) [])) payload

/-- `Decode(payload, Players&)`. -/
def Players.decode (payload : Bytes) : Option Players :=
  (Players.decodeSensitive payload).map Prod.fst

/-- `Encode(const PlayerPicture&, sensitive)`: the payload and the span of its path. -/
def PlayerPicture.encodeSensitive (v : PlayerPicture) : Bytes × List SensitiveSpan :=
  if !validPicture v then ([], [])
  else
    let w := Writer.new.u8 v.player |>.str v.playerId
    let prefixAt := w.data.length
    let w := w.str v.path
    if w.ok then (w.data, span [] prefixAt v.path) else ([], [])

/-- `Encode(const PlayerPicture&)`. -/
def PlayerPicture.encode (v : PlayerPicture) : Bytes := v.encodeSensitive.1

/-- `Decode(payload, PlayerPicture&, sensitive)`: the picture and the span of its path. -/
def PlayerPicture.decodeSensitive (payload : Bytes) :
    Option (PlayerPicture × List SensitiveSpan) :=
  Reader.run (do
    let player ← Reader.u8
    let playerId ← Reader.str
    let prefixAt ← Reader.position
    let path ← Reader.str
    let out : PlayerPicture := { player, playerId, path }
    Reader.require (validPicture out)
    return (out, span [] prefixAt path)) payload

/-- `Decode(payload, PlayerPicture&)`. -/
def PlayerPicture.decode (payload : Bytes) : Option PlayerPicture :=
  (PlayerPicture.decodeSensitive payload).map Prod.fst

end Wire
