import ScorbitPlugin.Wire.Payloads

set_option relaxedAutoImplicit false
set_option autoImplicit false

/-!
# Memory requests and snapshots

What the API thread does with a request of the worker, and with the subscribed ranges, in
`src/MemoryBridge.cpp`: `Answer`, `TakeSnapshot` and what `PublishSnapshot` puts in the buffer that
`Poll` takes apart.

The host's functions may do anything at every call, so they are given the number of calls made in
the pass so far. The ids of subscriptions are `uint64_t` counters of the source, numbers here.

## Main definitions

* `Memory.ReadFn`, `Memory.WriteFn` — the host's functions.
* `Memory.Request`, `Memory.Request.answer` — a request and its answer.
* `Memory.takeSnapshot` — the subscribed ranges read.
* `Memory.Snapshot`, `Memory.publishSnapshot`, `Memory.Snapshot.poll` — the buffer.
-/

namespace Memory

open Codec

/-- `MemoryBridge::Result`. -/
inductive Result
  | ok
  | busy
  | noGame
  | outOfRange
  | tooLarge
  | unsupported
deriving DecidableEq, Repr

/-- `ReadFn`: the bytes read, and the buffer after the call. -/
structure ReadFn where
  read : ℕ → UInt32 → UInt32 → UInt32 × Bytes
  /-- The buffer is as long as it was. -/
  fits : ∀ calls address size, (read calls address size).2.length = size.toNat

/-- A host that fills the buffer with one byte a call, of which it says how many were read. -/
def ReadFn.filled (reads : ℕ → UInt32 → UInt32 → UInt32) (byte : ℕ → UInt8) : ReadFn where
  read calls address size := (reads calls address size, List.replicate size.toNat (byte calls))
  fits _ _ _ := List.length_replicate

/-- `WriteFn`, which may be empty: the ops applied, or `NO_WRITE_HANDLER`. -/
abbrev WriteFn : Type := Option (ℕ → List Wire.WriteOp → UInt32)

/-- `NO_WRITE_HANDLER`. -/
def noWriteHandler : UInt32 := 0xFFFFFFFF

/-- `QUEUE_LIMIT`. -/
def queueLimit : ℕ := 64

/-- What `Service` is called with. -/
structure Service where
  read : ReadFn
  frame : UInt64 := 0
  playerRunning : Bool := false
  gameRunning : Bool := false
  write : WriteFn := none

/-- `Request::Kind`. -/
inductive Kind
  | subscribe
  | readDirect
  | write
deriving DecidableEq, Repr

/-- `Request`. -/
structure Request where
  kind : Kind := .readDirect
  ranges : List Wire.MemoryRange := []
  address : UInt32 := 0
  length : UInt32 := 0
  /-- A `uint64_t` counted on by one from 1, which no run of the plugin brings to wrap: a number. -/
  subscriptionId : ℕ := 0
  ops : List Wire.WriteOp := []
  accepted : List Wire.MemoryRange := []
  reply : Wire.ReadDirectReply := {}
  writeReply : Wire.WriteReply := {}
  result : Result := .busy
  done : Bool := false
  abandoned : Bool := false
  taken : Bool := false
deriving DecidableEq, Repr

/-- `Wraps`. -/
def wraps (address length : UInt32) : Bool := address.toNat + length.toNat > 2 ^ 32

/-- `BeyondSpace`. -/
def beyondSpace (ops : List Wire.WriteOp) (space : ℕ) : Bool :=
  ops.any fun op =>
    space != 0 && !op.bytes.isEmpty && op.address.toNat + op.bytes.length > space

/-! ## Answers -/

/-- An answered request, the calls of the host's functions so far, and what the host reported of a
write when it was called. -/
structure Answered where
  request : Request
  calls : ℕ
  applied : Option UInt32 := none

namespace Request

variable (r : Request)

/-- What a write is answered when the host reported `applied`. -/
def written (applied : UInt32) (frame : UInt64) : Request :=
  if applied = noWriteHandler then { r with result := .unsupported }
  else if applied = 0 then { r with result := .busy }
  else { r with writeReply := ⟨frame, applied.toUInt16⟩, result := .ok }

/-- `Answer` of a write. -/
def answerWrite (s : Service) (space calls : ℕ) : Answered :=
  if !s.gameRunning then ⟨{ r with result := .noGame }, calls, none⟩
  else if beyondSpace r.ops space then ⟨{ r with result := .outOfRange }, calls, none⟩
  else
    match s.write with
    | none => ⟨r.written noWriteHandler s.frame, calls, none⟩
    | some write =>
      ⟨r.written (write calls r.ops) s.frame, calls + 1, some (write calls r.ops)⟩

/-- The ranges that read in full, in order. -/
def readable (read : ReadFn) : ℕ → List Wire.MemoryRange → List Wire.MemoryRange × ℕ
  | calls, [] => ([], calls)
  | calls, range :: ranges =>
    if range.length = 0 then readable read calls ranges
    else
      let (accepted, after) := readable read (calls + 1) ranges
      if (read.read calls range.address range.length).1 = range.length then
        (range :: accepted, after)
      else (accepted, after)

/-- `Answer` of a subscription. -/
def answerSubscribe (s : Service) (calls : ℕ) : Answered :=
  if !s.gameRunning then ⟨{ r with accepted := [], result := .ok }, calls, none⟩
  else
    let (accepted, after) := readable s.read calls r.ranges
    ⟨{ r with accepted := accepted, result := .ok }, after, none⟩

/-- The loop of `Answer` over any read function: the chunks of a direct read, each read twice, up to
the first that is cut short. The offsets whose two reads differ, and the bytes. -/
def readChunksM {m : Type → Type} [Monad m] (read : UInt32 → UInt32 → m (UInt32 × Bytes))
    (address length : UInt32) : List ℕ → List UInt32 → Bytes → m (List UInt32 × Bytes)
  | [], unstable, bytes => pure (unstable, bytes)
  | offset :: offsets, unstable, bytes => do
    let want := min Wire.readChunkBytes (length.toNat - offset)
    let first ← read (address + UInt32.ofNat offset) (UInt32.ofNat want)
    let again ← read (address + UInt32.ofNat offset) (UInt32.ofNat want)
    let got := min (min first.1.toNat again.1.toNat) want
    if got = 0 then return (unstable, bytes)
    let unstable :=
      if again.1 ≠ first.1 ∨ first.2.take got ≠ again.2.take got then
        unstable ++ [UInt32.ofNat offset]
      else unstable
    let bytes := bytes ++ first.2.take got
    if got < want then return (unstable, bytes)
    readChunksM read address length offsets unstable bytes

/-- The host's read function, which counts its calls. -/
def counted (read : ReadFn) (address size : UInt32) : StateM ℕ (UInt32 × Bytes) :=
  fun calls => (read.read calls address size, calls + 1)

/-- The loop over the host's read function, and the calls so far. -/
def readChunks (read : ReadFn) (address length : UInt32) (offsets : List ℕ) (calls : ℕ)
    (unstable : List UInt32) (bytes : Bytes) : List UInt32 × Bytes × ℕ :=
  let out := (readChunksM (counted read) address length offsets unstable bytes).run calls
  (out.1.1, out.1.2, out.2)

/-- No chunk is left. -/
theorem readChunks_nil (read : ReadFn) (address length : UInt32) (calls : ℕ)
    (unstable : List UInt32) (bytes : Bytes) :
    readChunks read address length [] calls unstable bytes = (unstable, bytes, calls) := rfl

/-- One chunk takes two calls. -/
theorem readChunks_cons (read : ReadFn) (address length : UInt32) (offset : ℕ)
    (offsets : List ℕ) (calls : ℕ) (unstable : List UInt32) (bytes : Bytes) :
    readChunks read address length (offset :: offsets) calls unstable bytes =
      let want := min Wire.readChunkBytes (length.toNat - offset)
      let first := read.read calls (address + UInt32.ofNat offset) (UInt32.ofNat want)
      let again := read.read (calls + 1) (address + UInt32.ofNat offset) (UInt32.ofNat want)
      let got := min (min first.1.toNat again.1.toNat) want
      if got = 0 then (unstable, bytes, calls + 2)
      else
        let unstable :=
          if again.1 ≠ first.1 ∨ first.2.take got ≠ again.2.take got then
            unstable ++ [UInt32.ofNat offset]
          else unstable
        let bytes := bytes ++ first.2.take got
        if got < want then (unstable, bytes, calls + 2)
        else readChunks read address length offsets (calls + 2) unstable bytes := by
  simp only [readChunks, readChunksM, counted, StateT.run, bind, StateT.bind, pure]
  split
  · rfl
  · split <;> rfl

/-- `Answer` of a direct read. -/
def answerReadDirect (s : Service) (calls : ℕ) : Answered :=
  if !s.gameRunning then ⟨{ r with result := .noGame }, calls, none⟩
  else
    let offsets :=
      (List.range ((r.length.toNat + Wire.readChunkBytes - 1) / Wire.readChunkBytes)).map
      (· * Wire.readChunkBytes)
    let (unstable, bytes, after) := readChunks s.read r.address r.length offsets calls [] []
    ⟨{ r with
        reply := ⟨s.frame, r.address, unstable, bytes⟩
        result := if bytes = [] then .outOfRange else .ok }, after, none⟩

/-- `Answer`. -/
def answer (s : Service) (space calls : ℕ) : Answered :=
  match r.kind with
  | .write => r.answerWrite s space calls
  | .subscribe => r.answerSubscribe s calls
  | .readDirect => r.answerReadDirect s calls

/-- `Answer` without a game, which calls nothing of the host. -/
def answerNoGame : Request :=
  match r.kind with
  | .subscribe => { r with accepted := [], result := .ok }
  | _ => { r with result := .noGame }

end Request

/-! ## Snapshots -/

/-- `resize`: the first blocks stay as they are. -/
def resized (blocks : List Wire.MemoryBlock) (count : ℕ) : List Wire.MemoryBlock :=
  blocks.take count ++ List.replicate (count - blocks.length) ⟨0, []⟩

/-- The ranges read into the blocks, in order, up to the first that does not read in full. -/
def fillBlocks (read : ReadFn) :
    ℕ → List Wire.MemoryRange → List Wire.MemoryBlock → List Wire.MemoryBlock × Bool
  | calls, range :: ranges, _ :: blocks =>
    let got := read.read calls range.address range.length
    let block : Wire.MemoryBlock := ⟨range.address, got.2⟩
    if got.1 ≠ range.length then (block :: blocks, false)
    else
      let (filled, complete) := fillBlocks read (calls + 1) ranges blocks
      (block :: filled, complete)
  | _, _, blocks => (blocks, true)

/-- `TakeSnapshot`: the next snapshot, and whether every range read in full. -/
def takeSnapshot (next : Wire.PollReply) (s : Service) (ranges : List Wire.MemoryRange)
    (calls : ℕ) : Wire.PollReply × Bool :=
  let next := { next with frame := s.frame, playerRunning := if s.playerRunning then 1 else 0 }
  if ranges.isEmpty || !s.gameRunning then ({ next with blocks := [] }, false)
  else
    let (blocks, complete) := fillBlocks s.read calls ranges (resized next.blocks ranges.length)
    ({ next with blocks := blocks }, complete)

/-- `SnapshotHeader`. -/
structure SnapshotHeader where
  frame : UInt64 := 0
  /-- A subscription id: a number, as in a request. -/
  rangesId : ℕ := 0
  blocks : UInt32 := 0
  playerRunning : UInt8 := 0
  complete : Bool := false
deriving DecidableEq, Repr

/-- `sizeof(SnapshotHeader)`. -/
def snapshotHeaderBytes : ℕ := 24

/-- `SNAPSHOT_BYTES`, the capacity of the buffer. -/
def snapshotBytes : ℕ :=
  snapshotHeaderBytes + Wire.maxSubscribeRanges * 8 + Wire.maxSubscribeBytes

/-- The published buffer: its header, then every block's address and length and then their bytes,
as they lie in the memory of a little-endian host. -/
structure Snapshot where
  header : SnapshotHeader := {}
  body : Bytes := []
deriving DecidableEq, Repr

/-- A block's address and length. -/
def blockHead : Layout (UInt32 × UInt32) := .pair .u32 .u32

/-- The address and length of a block as they are published. -/
def headOf (block : Wire.MemoryBlock) : UInt32 × UInt32 :=
  (block.address, UInt32.ofNat block.bytes.length)

/-- `PublishSnapshot`: the buffer after it, which stays as it was when the snapshot does not fit. -/
def publishSnapshot (next : Wire.PollReply) (rangesId : ℕ) (complete : Bool)
    (published : Option Snapshot) : Option Snapshot :=
  let snapshot : Snapshot :=
    { header :=
        { frame := next.frame, rangesId := rangesId, blocks := UInt32.ofNat next.blocks.length
          playerRunning := next.playerRunning, complete := complete }
      body := next.blocks.flatMap (fun block => blockHead.put (headOf block))
        ++ next.blocks.flatMap Wire.MemoryBlock.bytes }
  if snapshotHeaderBytes + snapshot.body.length > snapshotBytes then published else some snapshot

/-- The blocks with the heads read, out of the bytes that follow; `none` when they run out. -/
def takeBlocks : List (UInt32 × UInt32) → Bytes → Option (List Wire.MemoryBlock)
  | [], _ => some []
  | head :: heads, body =>
    if head.2.toNat > body.length then none
    else (takeBlocks heads (body.drop head.2.toNat)).map
      (⟨head.1, body.take head.2.toNat⟩ :: ·)

/-- `Poll` on the buffer it read: the reply, `none` when it is busy. The source does not check that
the heads are all there, since they are part of what `PublishSnapshot` writes. -/
def Snapshot.poll (snapshot : Snapshot) (subscriptionId : ℕ) : Option Wire.PollReply :=
  if !snapshot.header.complete || snapshot.header.rangesId != subscriptionId then none
  else
    ((Layout.vec blockHead snapshot.header.blocks.toNat).get snapshot.body).bind fun p =>
      (takeBlocks p.1 p.2).map fun blocks =>
        { frame := snapshot.header.frame, playerRunning := snapshot.header.playerRunning
          blocks := blocks }

end Memory
