import ScorbitPlugin.Runs.System
import ScorbitPlugin.Worker.Serving

set_option relaxedAutoImplicit false
set_option autoImplicit false

/-!
# Frames on their way to the daemon

The frame tap of `src/DmdTap.cpp`, the view `Refresh` and `GetFrame` of `src/VpxSessionSource.cpp`
keep of it, and a daemon that asks with Frame requests. The API thread selects sources, the tap's
thread captures and publishes frames, the worker answers; each step is what one thread does in one
hold of the source mutex, or one access to an atomic.

A source may rewrite its buffer at any time, so what a capture copies is given with the step, and
so is the frame id read after the copy; so is whether a copy of the published record tears. What
equality of sources means is not the tap's to say, and is given too. Generations are counted in
`ℕ`; the skipped frames, which are only logged, are left out.

## Main definitions

* `Display.Tap`, `Display.TapView` — the tap, and the worker's view of it.
* `Display.Daemon` — what the daemon holds.
* `Display.step`, `Display.system` — the steps, and the system from its start.
-/

namespace Display

open Codec

/-! ## The tap -/

/-- A `DisplaySrcId`, as far as the tap reads it. -/
structure DisplaySrcId where
  width : UInt32 := 0
  height : UInt32 := 0
  /-- `identifyFormat` is `CTLPI_DISPLAY_ID_FORMAT_BITPLANE4`. -/
  bitplane4 : Bool := false
deriving DecidableEq, Repr

/-- The pixels of a frame of the source. -/
def DisplaySrcId.size (src : DisplaySrcId) : ℕ := src.width.toNat * src.height.toNat

/-- The shades of a frame of the source. -/
def DisplaySrcId.shades (src : DisplaySrcId) : UInt32 := if src.bitplane4 then 16 else 4

/-- `DmdTap::Frame`. -/
structure Frame where
  frameId : UInt32 := 0
  width : UInt32 := 0
  height : UInt32 := 0
  shades : UInt32 := 0
  generation : ℕ := 0
  pixels : Bytes := []
deriving DecidableEq, Repr

/-- `MAX_PIXELS`. -/
def maxPixels : ℕ := 256 * 128

/-- `DmdTap`, with the variables of its thread. -/
structure Tap where
  source : DisplaySrcId := {}
  hasSource : Bool := false
  sourceGeneration : ℕ := 0
  /-- `m_back`. -/
  back : Frame := {}
  published : Option Frame := none
  lastGeneration : ℕ := 0
  lastFrameId : UInt32 := 0
  haveLast : Bool := false
deriving DecidableEq, Repr

/-- What `GetIdentifyFrame` and the copy after it give: the frame's id, what was copied, and the id
read after the copy. -/
structure Look where
  frameId : UInt32
  copied : Bytes
  check : UInt32
deriving DecidableEq, Repr

namespace Tap

variable (t : Tap)

/-- `OnSourcesChanged` until it bumps the generation; `none` when the source is the selected one,
which is then kept. -/
def select (selected : Option DisplaySrcId) (same : Bool) : Option Tap :=
  match selected with
  | none => some { t with source := {}, hasSource := false }
  | some src =>
    if t.hasSource && same then none else some { t with source := src, hasSource := true }

/-- The duplicate check of the tap's thread starts over when the source changed. -/
def followGeneration : Tap :=
  if t.sourceGeneration ≠ t.lastGeneration then
    { t with lastGeneration := t.sourceGeneration, haveLast := false }
  else t

/-- The tap's thread copied a frame that it then found unchanged: its header. -/
def keep (frameId : UInt32) : Tap :=
  { t with
    lastFrameId := frameId
    haveLast := true
    back :=
      { t.back with
        frameId := frameId
        width := t.source.width
        height := t.source.height
        shades := t.source.shades
        generation := t.sourceGeneration } }

/-- `Worker` in one hold of the mutex, and whether there is a frame to publish then. -/
def capture (look : Option Look) : Tap × Bool :=
  if !t.hasSource then ({ t with haveLast := false }, false)
  else
    let t := t.followGeneration
    match look with
    | none => (t, false)
    | some look =>
      if t.haveLast && look.frameId == t.lastFrameId then (t, false)
      else
        let t := { t with back := { t.back with pixels := look.copied } }
        if look.check ≠ look.frameId then (t, false) else (t.keep look.frameId, true)

/-- `Publish`: a display past `MAX_PIXELS` publishes nothing. -/
def publish : Tap :=
  if t.back.pixels.length > maxPixels then t else { t with published := some t.back }

end Tap

/-! ## The worker's view -/

/-- `TapView`. -/
structure TapView where
  latest : Frame := {}
  hasSource : Bool := false
  generation : ℕ := 0
deriving DecidableEq, Repr

namespace TapView

variable (view : TapView)

/-- `Refresh`, the copy: a torn one keeps the frame the view already held, if it held one.
`HasFrame` has nothing to say then, since a frame that is held was captured. -/
def readLatest (published : Option Frame) (torn : Bool) : TapView × Bool :=
  match published with
  | some frame =>
    if torn then (view, view.latest.width != 0) else ({ view with latest := frame }, true)
  | none => (view, false)

/-- `Refresh`, its end. -/
def refreshed (tapHasSource haveFrame : Bool) (tapGeneration : ℕ) : TapView :=
  let hasSource := tapHasSource && haveFrame && view.latest.generation == tapGeneration
  { view with
    hasSource := hasSource
    generation := if hasSource then view.latest.generation else tapGeneration }

/-- `GetFrame`, once the view is refreshed. -/
def frame : Worker.FrameSnapshot :=
  let generation := UInt32.ofNat view.generation
  if !view.hasSource then { generation := generation }
  else
    { hasSource := true
      frameId := view.latest.frameId
      generation := generation
      width := view.latest.width.toUInt16
      height := view.latest.height.toUInt16
      shades := view.latest.shades.toUInt8
      pixels := view.latest.pixels }

end TapView

/-! ## The daemon -/

/-- The daemon's frame cache: the id and generation of the last reply that carried pixels, and these
pixels; and the reply it got last. -/
structure Daemon where
  held : Option (UInt32 × UInt32) := none
  pixels : Bytes := []
  reply : Option Wire.FrameReply := none
deriving DecidableEq, Repr

/-- The daemon gets the answer to a Frame request, which is an error when it could not be
encoded. -/
def Daemon.receive (d : Daemon) (payload : Bytes) : Daemon :=
  match Wire.FrameReply.decode payload with
  | none => { d with reply := none }
  | some reply =>
    if reply.hasPixels = 0 then { d with reply := some reply }
    else
      { held := some (reply.frameId, reply.sourceGeneration), pixels := reply.pixels
        reply := some reply }

/-! ## The steps -/

/-- Where the worker stands with a Frame request: what it reads next. -/
inductive Asker
  | idle
  | hasSource (req : Wire.FrameRequest)
  | latest (req : Wire.FrameRequest) (tapHasSource : Bool)
  | generation (req : Wire.FrameRequest) (tapHasSource haveFrame : Bool)
deriving DecidableEq, Repr

/-- The frame that was on a source when it was captured, and the generation of then. -/
structure Capture where
  source : DisplaySrcId
  generation : ℕ
  frameId : UInt32
  pixels : Bytes
deriving DecidableEq, Repr

/-- The source of each generation, and what was captured. No function reads it. -/
structure History where
  sources : ℕ → Option DisplaySrcId := fun _ => none
  captures : List Capture := []

/-- The tap, the worker's view and the daemon. -/
structure State where
  tap : Tap := {}
  /-- `OnSourcesChanged` is about to bump the generation, and holds the mutex. -/
  changing : Bool := false
  /-- The tap's thread is about to publish. -/
  publishing : Bool := false
  view : TapView := {}
  asker : Asker := .idle
  daemon : Daemon := {}
  history : History := {}

/-- What can happen. -/
inductive Act
  /-- `OnSourcesChanged` with the source selected, and whether it is the one selected before. -/
  | select (selected : Option DisplaySrcId) (same : Bool)
  /-- The generation is bumped. -/
  | bump
  /-- The tap's thread looks for a frame. -/
  | capture (look : Option Look)
  | publish
  /-- The daemon asks. -/
  | request (req : Wire.FrameRequest)
  /-- The worker goes on; a copy it makes may be torn. -/
  | answer (torn : Bool)

namespace State

variable (s : State)

/-- The generation is bumped: it is now that of the source selected. -/
def bump : State :=
  let generation := s.tap.sourceGeneration + 1
  { s with
    tap := { s.tap with sourceGeneration := generation }
    changing := false
    history :=
      { s.history with sources := fun g =>
          if g = generation then if s.tap.hasSource then some s.tap.source else none
          else s.history.sources g } }

/-- The tap's thread looks for a frame; what it captures is recorded. -/
def capture (look : Option Look) : State :=
  let (tap, publishing) := s.tap.capture look
  let captures :=
    if publishing then
      ⟨s.tap.source, s.tap.sourceGeneration, tap.back.frameId, tap.back.pixels⟩ ::
        s.history.captures
    else s.history.captures
  { s with
    tap := tap, publishing := publishing, history := { s.history with captures := captures } }

/-- The worker answers with the view refreshed: `AnswerFrame`, and the daemon gets the reply. -/
def reply (req : Wire.FrameRequest) (tapHasSource haveFrame : Bool) : State :=
  let view := s.view.refreshed tapHasSource haveFrame s.tap.sourceGeneration
  { s with
    view := view
    asker := .idle
    daemon := s.daemon.receive (Wire.FrameReply.encode (Worker.frameReply req view.frame)) }

/-- The worker goes on with a Frame request. -/
def answer (torn : Bool) : Option State :=
  match s.asker with
  | .idle => none
  | .hasSource req => some { s with asker := .latest req s.tap.hasSource }
  | .latest req tapHasSource =>
    let (view, haveFrame) := s.view.readLatest s.tap.published torn
    some { s with view := view, asker := .generation req tapHasSource haveFrame }
  | .generation req tapHasSource haveFrame => some (s.reply req tapHasSource haveFrame)

/-- As many bytes are copied as the source has pixels. -/
def copies (look : Option Look) : Bool :=
  look.all fun look => look.copied.length == s.tap.source.size

end State

/-- One step. -/
def step (s : State) : Act → Option State
  | .select selected same =>
    if s.changing then none
    else
      match s.tap.select selected same with
      | none => some s
      | some tap => some { s with tap := tap, changing := true }
  | .bump => if s.changing then some s.bump else none
  | .capture look =>
    if !s.changing && !s.publishing && s.copies look then some (s.capture look) else none
  | .publish =>
    if s.publishing then some { s with tap := s.tap.publish, publishing := false } else none
  | .request req => if s.asker = .idle then some { s with asker := .hasSource req } else none
  | .answer torn => s.answer torn

/-- The system, from its start. -/
def system : Runs.System State Act := .ofStep (· = {}) step

end Display
