import Mathlib.Logic.Function.Basic
import ScorbitPlugin.Overlay.Cache
import ScorbitPlugin.Overlay.Composite
import ScorbitPlugin.Runs.Refinement

set_option relaxedAutoImplicit false
set_option autoImplicit false

/-!
# What a render call hands out

`DmdOverlay::GetRenderFrame` of `src/DmdOverlay.cpp`: the render calls of one override, by any
number of consumers, while the cache is written, the target goes on to other frames and the override
goes dark. A call hands out an id and a pointer: to the target's own frame, to one of the override's
two buffers, or to its dark one. A consumer that skips repeated ids copies a frame only when its id
is new to it.

The frames of the target are named by their ids, and are of the target's size, as the source relies
on. A consumer copies before the next call. Shades are given as tables, as in `Overlay.composite`.

## Main definitions

* `Overlay.RenderEntry.getRenderFrame` — the call.
* `Overlay.Rendering`, `Overlay.rendering` — an override with its consumers, and its runs.
* `Overlay.RenderEntry.current` — the picture that is to be seen.

## Main results

* `Overlay.shows_current` — every call returns, and its consumer shows that picture, but for an
  overlay that was hidden under an id that stayed.
-/

namespace Overlay

open Codec

/-! ## Platforms -/

/-- `Platform`. -/
inductive Platform
  | unknown
  | wpc
  | dataEast
  | sam
  | gts3
  | capcom
  | alvinG
deriving DecidableEq, Repr

/-- `PlatformOf`. -/
def platformOf (hardwareGen : UInt64) : Platform :=
  if hardwareGen &&& 0xff ≠ 0 then .wpc
  else if hardwareGen &&& (0x2000 ||| 0x4000 ||| 0x8000 ||| 0x1c000000000) ≠ 0 then .dataEast
  else if hardwareGen &&& 0x100000000000 ≠ 0 then .sam
  else if hardwareGen &&& 0x20000000000 ≠ 0 then .gts3
  else if hardwareGen &&& 0x20000000000000 ≠ 0 then .capcom
  else if hardwareGen &&& (0x200000000000 ||| 0x400000000000) ≠ 0 then .alvinG
  else .unknown

/-! ## A render call -/

/-- `DisplayFrame`: an id and a frame, which may be null. -/
structure DisplayFrame where
  frameId : UInt32 := 0
  frame : Option Bytes := none
deriving DecidableEq, Repr

/-- Where a frame is that was handed out. -/
inductive Pointer
  | out (buffer : Bool)
  | dark
  /-- The target's own. -/
  | target (frame : Bytes)
deriving DecidableEq, Repr

/-- What a call hands out. -/
structure Handed where
  frameId : UInt32
  pointer : Pointer
deriving DecidableEq, Repr

/-- `DmdOverlay::Entry`, as far as the render calls use it. -/
structure RenderEntry where
  live : Bool := true
  servedDark : Bool := false
  /-- `out[2]`. -/
  out : Bool → Bytes
  dark : Bytes
  /-- The buffer the next composite writes. -/
  next : Bool := false
  srcFrameId : UInt32 := 0
  outFrameId : UInt32 := 0
  lastComposited : Bool := false
  record : Record := {}
  recordSequence : ℕ := 0
  /-- -1 is `none`. -/
  platform : Option Platform := none

namespace RenderEntry

variable (e : RenderEntry)

/-- `ReadIfChanged`, and what follows when it copied: the pixels past those of the published record
stay. -/
def readIfChanged (published : Record) (sequence : ℕ) (torn : Bool) : RenderEntry :=
  if sequence = e.recordSequence ∨ torn = true then e
  else
    { e with
      record :=
        { published with
          pixels := published.pixels ++ e.record.pixels.drop published.pixels.length }
      recordSequence := sequence
      lastComposited := false }

/-- The platform is another. -/
def followPlatform (platform : Platform) : RenderEntry :=
  if e.platform = some platform then e
  else { e with platform := some platform, lastComposited := false }

/-- The call until it judges whether the overlay is visible. -/
def refreshed (published : Record) (sequence : ℕ) (torn : Bool) (platform : Platform) :
    RenderEntry :=
  (e.readIfChanged published sequence torn).followPlatform platform

/-- The target's frame goes through untouched. -/
def passThrough (frameId : UInt32) : RenderEntry :=
  { e with
    outFrameId :=
      if e.lastComposited || frameId != e.srcFrameId then e.outFrameId + 1 else e.outFrameId
    lastComposited := false
    srcFrameId := frameId }

section Composite

variable (t : Target) (tables : Platform → ShadeTable)

/-- `Composite` into the spare buffer. -/
def compositeInto (platform : Platform) (frame : Bytes) : Option RenderEntry :=
  (composite t e.record (tables platform) (e.out e.next).length frame).map fun out =>
    { e with out := Function.update e.out e.next out, next := !e.next }

/-- The overlay is visible: it is composited, unless that was done of this very frame. -/
def light (platform : Platform) (frameId : UInt32) (frame : Bytes) : Option RenderEntry :=
  if !e.lastComposited || frameId != e.srcFrameId then
    (e.compositeInto t tables platform frame).map fun e =>
      { e with lastComposited := true, srcFrameId := frameId, outFrameId := e.outFrameId + 1 }
  else some e

/-- The buffer that was composited last. -/
def lit : Handed := ⟨e.outFrameId, .out (!e.next)⟩

/-- `DmdOverlay::GetRenderFrame`, from what it reads; `none` where it would read or write past a
buffer. -/
def getRenderFrame (src : DisplayFrame) (published : Record) (sequence : ℕ) (torn : Bool)
    (platform : Platform) (now : Time) : Option (RenderEntry × Handed) :=
  if !e.live then
    let e := if e.servedDark then e else
      { e with servedDark := true, outFrameId := e.outFrameId + 1 }
    some (e, ⟨e.outFrameId, .dark⟩)
  else
    match src.frame with
    | none => some (e, e.lit)
    | some frame =>
      let e := e.refreshed published sequence torn platform
      if !e.record.visible now then
        let e := e.passThrough src.frameId
        some (e, ⟨e.outFrameId, .target frame⟩)
      else (e.light t tables platform src.frameId frame).map fun e => (e, e.lit)

end Composite

end RenderEntry

/-- `DmdOverlay::MakeEntry`, the buffers. -/
def makeRenderEntry (t : Target) : RenderEntry :=
  let size := t.source.width.toNat * t.source.height.toNat * bytesPerPixel t.source.frameFormat
  { out := fun _ => List.replicate size 0, dark := List.replicate size 0 }

/-! ## The consumers -/

namespace RenderEntry

variable (e : RenderEntry)

/-- What is at a pointer. -/
def read : Pointer → Bytes
  | .out buffer => e.out buffer
  | .dark => e.dark
  | .target frame => frame

/-- The picture that is to be seen, unless the target has no frame: the dark one when the override
is not live, and otherwise the target's frame, with the overlay composited over it when the record
that was read is visible. -/
def current (t : Target) (tables : Platform → ShadeTable) (src : DisplayFrame)
    (platform : Platform) (now : Time) : Option Bytes :=
  if !e.live then some e.dark
  else
    src.frame.bind fun frame =>
      if e.record.visible now then
        composite t e.record (tables platform) frame.length frame
      else some frame

end RenderEntry

/-- A frame that a consumer copied, with its id. As history: how many ids there had been, and
whether the target had no frame. -/
structure Took where
  frameId : UInt32
  bytes : Bytes
  page : ℕ
  blank : Bool
deriving DecidableEq, Repr

/-- A consumer skips an id that it has, and copies the frame of another. -/
def skipOrTake (shown : Option Took) (took : Took) : Took :=
  match shown with
  | none => took
  | some shown => if shown.frameId = took.frameId then shown else took

/-- An override, with all that its render calls read, and its consumers. -/
structure Rendering (ι : Type) where
  cache : Cache := .start
  /-- `m_published.Sequence()`. -/
  sequence : ℕ := 2
  platformKnown : Bool := false
  platform : Platform := .unknown
  /-- What the target's `GetRenderFrame` returns. -/
  source : DisplayFrame := {}
  entry : RenderEntry
  /-- What each consumer shows. -/
  shown : ι → Option Took := fun _ => none
  /-- How many ids there were. -/
  pages : ℕ := 0
  /-- The overlay was taken off the picture of the present id. -/
  hidden : Bool := false

/-- The step of the cache writes the record. -/
def Cache.writes (s : Cache) : Cache.Act → Bool
  | .worker => decide (s.worker = .publishing .write)
  | .api _ => decide (s.api = .publishing .write)
  | _ => false

namespace Rendering

variable {ι : Type} [DecidableEq ι] (t : Target) (tables : Platform → ShadeTable)
  (frames : UInt32 → Bytes) (s : Rendering ι)

/-- The frame that a call hands out. -/
def takes (entry : RenderEntry) (handed : Handed) : Took :=
  ⟨handed.frameId, entry.read handed.pointer,
    if entry.outFrameId = s.entry.outFrameId then s.pages else s.pages + 1,
    entry.live && s.source.frame.isNone⟩

/-- A call returned to a consumer. -/
def handOut (c : ι) (entry : RenderEntry) (handed : Handed) : Rendering ι :=
  let took := s.takes entry handed
  { s with
    entry := entry
    shown := Function.update s.shown c (some (skipOrTake (s.shown c) took))
    pages := took.page
    hidden := entry.outFrameId = s.entry.outFrameId &&
      (s.hidden || (s.entry.lastComposited && !entry.lastComposited)) }

/-- A consumer calls `GetRenderFrame`. -/
def call (c : ι) (torn : Bool) : Option (Rendering ι) :=
  (s.entry.getRenderFrame t tables s.source s.cache.published s.sequence torn s.platform
    s.cache.now).map fun (entry, handed) => s.handOut c entry handed

/-- `QueryPlatform`, with a controller. -/
def queryPlatform (hardwareGen : UInt64) : Rendering ι :=
  if s.platformKnown || hardwareGen == 0 then s
  else { s with platformKnown := true, platform := platformOf hardwareGen }

/-- What can happen. -/
inductive Act (ι : Type)
  | cache (a : Cache.Act)
  /-- `SetController`, the platform. -/
  | setController
  | queryPlatform (hardwareGen : UInt64)
  /-- The target has its frame of an id. -/
  | produce (frameId : UInt32)
  /-- The target has no frame. -/
  | lose
  /-- The override is not live any more: `DarkenStale`, `Apply` or `Detach`. -/
  | darken
  | call (c : ι) (torn : Bool)
deriving DecidableEq

/-- One step. -/
def step (s : Rendering ι) : Act ι → Option (Rendering ι)
  | .cache a =>
    (s.cache.step a).map fun cache =>
      { s with
        cache := cache
        sequence := if s.cache.writes a then s.sequence + 2 else s.sequence }
  | .setController => some { s with platformKnown := false, platform := .unknown }
  | .queryPlatform hardwareGen => some (s.queryPlatform hardwareGen)
  | .produce frameId => some { s with source := ⟨frameId, some (frames frameId)⟩ }
  | .lose => some { s with source := { s.source with frame := none } }
  | .darken => some { s with entry := { s.entry with live := false } }
  | .call c torn => s.call t tables c torn

/-- An override that was just made. -/
def start : Rendering ι := { entry := makeRenderEntry t }

end Rendering

/-- An override in use. -/
def rendering (ι : Type) [DecidableEq ι] (t : Target) (tables : Platform → ShadeTable)
    (frames : UInt32 → Bytes) : Runs.System (Rendering ι) (Rendering.Act ι) :=
  .ofStep (· = .start t) (Rendering.step t tables frames)

/-! ## What is published -/

namespace Cache

variable {s s' : Cache} {a : Cache.Act}

/-- A step leaves what is published, unless it is a write.

**Proof sketch.** By the step. Each thread's next step is in its program: only `publishing .write`
writes. Posting, moving a counter and the render calls leave the published record. -/
theorem published_step (h : step s a = some s') :
    s'.published = s.published ∧ s.writes a = false ∨
      s'.published = s.write.published ∧ s.writes a = true ∧
        (s.worker = .publishing .write ∨ s.api = .publishing .write) := by
  have hpost : ∀ p lucky, (s.post p lucky).published = s.published := by
    intro p lucky
    unfold post
    split
    · rfl
    · split <;> rfl
  cases a with
  | worker =>
    have hstep : s.workerStep = some s' := h
    unfold workerStep at hstep
    split at hstep
    · cases hstep
    · split at hstep
      · cases hstep
      · cases hstep
        rename_i hw _
        exact .inl ⟨rfl, by simp [writes, hw]⟩
    · cases hstep
      rename_i hw
      exact .inl ⟨rfl, by simp [writes, hw]⟩
    · cases hstep
      rename_i hw
      exact .inl ⟨rfl, by simp [writes, hw]⟩
    · cases hstep
      rename_i hw
      exact .inr ⟨rfl, by simp [writes, hw], .inl hw⟩
    · cases hstep
      rename_i hw
      exact .inl ⟨rfl, by simp [writes, hw]⟩
  | api lucky =>
    have hstep : s.apiStep lucky = some s' := h
    unfold apiStep at hstep
    split at hstep
    · cases hstep
    · cases hstep
      rename_i ha
      exact .inl ⟨hpost _ _, by simp [writes, ha]⟩
    · cases hstep
      rename_i ha
      exact .inl ⟨rfl, by simp [writes, ha]⟩
    · cases hstep
      rename_i ha
      refine .inl ⟨?_, by simp [writes, ha]⟩
      split <;> rfl
    · rename_i ha
      split at hstep
      · cases hstep
        exact .inl ⟨rfl, by simp [writes, ha]⟩
      · cases hstep
        exact .inl ⟨rfl, by simp [writes, ha]⟩
    · cases hstep
      rename_i ha
      exact .inl ⟨rfl, by simp [writes, ha]⟩
    · cases hstep
      rename_i ha
      exact .inr ⟨rfl, by simp [writes, ha], .inr ha⟩
    · cases hstep
      rename_i ha
      exact .inl ⟨rfl, by simp [writes, ha]⟩
  | tick | call | postUpload | postControl | drain =>
    refine .inl ⟨?_, rfl⟩
    simp only [step] at h
    first
      | cases h
        rfl
      | split at h
        · cases h
          first
            | rfl
            | unfold postUpload
              split <;> rfl
        · cases h

/-- What is published is the record of some state, and no longer than a record. -/
structure Published (s : Cache) : Prop where
  shows : ∃ state, Shows s.published state
  length : s.published.pixels.length ≤ maxPixels

/-- To write publishes the record of the state. -/
theorem Published.write (h : Shows s.scratch s.state) : Published s.write := by
  refine ⟨⟨_, Shown.shows_write h⟩, ?_⟩
  have hroom : s.state.pixels.length ≤ maxPixels := s.state.length_le
  unfold Cache.write
  rw [if_pos hroom]
  exact (List.length_take_le _ _).trans hroom

/-- It always is.

**Proof sketch.** By induction on the run: a step leaves what is published, or writes the scratch
record, which shows the state where it is written (`Shown`). -/
theorem published_of_reachable (h : system.Reachable s) : Published s := by
  refine (Runs.System.Reaches.along h).invariant ?_ ?_
  · rintro s rfl
    exact .write (shows_fill _ _)
  · rintro s a s' hs ⟨hreach, -⟩ hstep
    rcases published_step hstep with ⟨hsame, -⟩ | ⟨hwritten, -, hat⟩
    · refine ⟨?_, ?_⟩
      · rw [hsame]
        exact hs.shows
      · rw [hsame]
        exact hs.length
    · have hnew : Published s.write := .write ((sound_of_reachable hreach).2.filled hat)
      refine ⟨?_, ?_⟩
      · rw [hwritten]
        exact hnew.shows
      · rw [hwritten]
        exact hnew.length

end Cache

/-! ## What an entry keeps of it -/

/-- A record in its fixed buffer, of some state. -/
structure Record.Kept (r : Record) : Prop where
  shows : ∃ state, Shows r state
  length : r.pixels.length = maxPixels

/-- The record before the first copy. -/
theorem Record.kept_empty : Record.Kept {} := by
  refine ⟨⟨.blank, rfl, rfl, rfl, rfl, rfl, ?_⟩, List.length_replicate⟩
  rfl

/-- What is shown of a record is in its first pixels. -/
theorem Shows.extend {r : Record} {state : State} (h : Shows r state) (rest : Bytes) :
    Shows { r with pixels := r.pixels ++ rest } state := by
  refine ⟨h.width, h.height, h.enabled, h.untilHidden, h.hideAt, ?_⟩
  have hlength : r.width.toNat * r.height.toNat ≤ r.pixels.length := by
    have htake := congrArg List.length h.pixels
    rw [List.length_take, state.whole, h.width, h.height] at htake
    rw [h.width, h.height]
    omega
  show (r.pixels ++ rest).take (r.width.toNat * r.height.toNat) = state.pixels
  rw [List.take_append_of_le_length hlength]
  exact h.pixels

/-- A visible record has sides that are accepted. -/
theorem Record.Kept.accepted {r : Record} (h : r.Kept) {now : Time} (hv : r.visible now = true) :
    accepted r.width r.height = true := by
  obtain ⟨state, hshows⟩ := h.shows
  have hwidth : r.width ≠ 0 := by
    intro hzero
    simp [Record.visible, hzero] at hv
  rw [hshows.width] at hwidth
  rw [hshows.width, hshows.height]
  rcases state.bounded with ⟨hzero, -⟩ | haccepted
  · exact absurd hzero hwidth
  · exact haccepted

/-! ## What a call does -/

/-- The targets that are overridden, with frames of their size. -/
structure Fits (t : Target) (frames : UInt32 → Bytes) : Prop where
  width : 0 < t.source.width.toNat
  height : 0 < t.source.height.toNat
  baseWidth : 0 < t.baseWidth.toNat
  baseHeight : 0 < t.baseHeight.toNat
  handled : bytesPerPixel t.source.frameFormat ≠ 0
  whole : ∀ frameId, (frames frameId).length =
    t.source.width.toNat * t.source.height.toNat * bytesPerPixel t.source.frameFormat

/-- A visible record is composited over a frame of the target. -/
theorem Fits.composable {t : Target} {frames : UInt32 → Bytes} (h : Fits t frames) {r : Record}
    (hr : r.Kept) {now : Time} (hv : r.visible now = true) (frameId : UInt32) :
    Composable t r (frames frameId) where
  width := h.width
  height := h.height
  baseWidth := h.baseWidth
  baseHeight := h.baseHeight
  handled := h.handled
  accepted := hr.accepted hv
  buffer := hr.length
  whole := h.whole frameId

namespace RenderEntry

/-- A frame that has the id already goes through and changes nothing. -/
theorem passThrough_same {e : RenderEntry} {frameId : UInt32} (hlast : e.lastComposited = false)
    (hid : frameId = e.srcFrameId) : e.passThrough frameId = e := by
  subst hid
  unfold passThrough
  rw [hlast, if_neg (by simp)]
  cases e
  subst hlast
  rfl

section Reads

variable (e : RenderEntry) (published : Record) (sequence : ℕ) (torn : Bool) (platform : Platform)

/-- What a call reads changes the record, the platform, and whether the last composite counts. -/
structure Rereads (read : RenderEntry) : Prop where
  live : read.live = e.live
  servedDark : read.servedDark = e.servedDark
  out : read.out = e.out
  dark : read.dark = e.dark
  next : read.next = e.next
  srcFrameId : read.srcFrameId = e.srcFrameId
  outFrameId : read.outFrameId = e.outFrameId
  platform : read.platform = some platform
  /-- The record is kept, or is the published one. -/
  record : read.record = e.record ∧ read.recordSequence = e.recordSequence ∧
        (sequence = e.recordSequence ∨ torn = true) ∨
      read.record =
          { published with
            pixels := published.pixels ++ e.record.pixels.drop published.pixels.length } ∧
        read.recordSequence = sequence
  /-- Nothing new was read, or the last composite does not count any more. -/
  same : read = e ∨ read.lastComposited = false

/-- A refreshed entry has read as `ReadIfChanged` reads.

**Proof sketch.** The record is read anew only with another sequence and a whole copy; the platform
is followed in either case. -/
theorem rereads :
    Rereads e published sequence torn platform (e.refreshed published sequence torn platform) := by
  unfold refreshed readIfChanged
  by_cases hold : sequence = e.recordSequence ∨ torn = true
  · rw [if_pos hold]
    unfold followPlatform
    by_cases hsame : e.platform = some platform
    · rw [if_pos hsame]
      exact ⟨rfl, rfl, rfl, rfl, rfl, rfl, rfl, hsame, .inl ⟨rfl, rfl, hold⟩, .inl rfl⟩
    · rw [if_neg hsame]
      exact ⟨rfl, rfl, rfl, rfl, rfl, rfl, rfl, rfl, .inl ⟨rfl, rfl, hold⟩, .inr rfl⟩
  · rw [if_neg hold]
    unfold followPlatform
    by_cases hsame : e.platform = some platform
    · rw [if_pos hsame]
      exact ⟨rfl, rfl, rfl, rfl, rfl, rfl, rfl, hsame, .inr ⟨rfl, rfl⟩, .inr rfl⟩
    · rw [if_neg hsame]
      exact ⟨rfl, rfl, rfl, rfl, rfl, rfl, rfl, rfl, .inr ⟨rfl, rfl⟩, .inr rfl⟩

variable {e published sequence torn platform}

/-- The entry's record stays one that is kept. -/
theorem Rereads.kept {s : Cache} {read : RenderEntry}
    (h : Rereads e s.published sequence torn platform read) (he : e.record.Kept)
    (hs : s.Published) : read.record.Kept := by
  rcases h.record with ⟨heq, -⟩ | ⟨heq, -⟩
  · rw [heq]
    exact he
  · rw [heq]
    obtain ⟨state, hshows⟩ := hs.shows
    refine ⟨⟨state, hshows.extend _⟩, ?_⟩
    show (s.published.pixels ++ e.record.pixels.drop s.published.pixels.length).length = maxPixels
    have hlength := hs.length
    rw [List.length_append, List.length_drop, he.length]
    omega

end Reads

/-- What a call does: the entry it leaves, and what it hands out. `read` is the entry when the
record and the platform have been read. -/
inductive Gives (t : Target) (tables : Platform → ShadeTable) (e : RenderEntry)
    (src : DisplayFrame) (platform : Platform) (now : Time) (read : RenderEntry) :
    RenderEntry → Handed → Prop
  /-- The override is dark, and its id goes up once. -/
  | darken (hlive : e.live = false) (hserved : e.servedDark = false) :
      Gives t tables e src platform now read
        { e with servedDark := true, outFrameId := e.outFrameId + 1 } ⟨e.outFrameId + 1, .dark⟩
  | dark (hlive : e.live = false) (hserved : e.servedDark = true) :
      Gives t tables e src platform now read e ⟨e.outFrameId, .dark⟩
  /-- The target has no frame. -/
  | blank (hlive : e.live = true) (hframe : src.frame = none) :
      Gives t tables e src platform now read e e.lit
  /-- The overlay is not visible, and the frame that goes through has the id already. -/
  | plain {frame : Bytes} (hlive : e.live = true) (hframe : src.frame = some frame)
      (hv : read.record.visible now = false) (hlast : read.lastComposited = false)
      (hid : src.frameId = read.srcFrameId) :
      Gives t tables e src platform now read read ⟨read.outFrameId, .target frame⟩
  /-- The overlay is not visible, and the frame that goes through gets an id. -/
  | pass {frame : Bytes} (hlive : e.live = true) (hframe : src.frame = some frame)
      (hv : read.record.visible now = false) :
      Gives t tables e src platform now read
        { read with
          outFrameId := read.outFrameId + 1, lastComposited := false, srcFrameId := src.frameId }
        ⟨read.outFrameId + 1, .target frame⟩
  /-- The overlay is visible, and is composited over this frame already. -/
  | again {frame : Bytes} (hlive : e.live = true) (hframe : src.frame = some frame)
      (hv : read.record.visible now = true) (hlast : read.lastComposited = true)
      (hid : src.frameId = read.srcFrameId) :
      Gives t tables e src platform now read read read.lit
  /-- The overlay is visible, and is composited over the frame. -/
  | light {frame out : Bytes} (hlive : e.live = true) (hframe : src.frame = some frame)
      (hv : read.record.visible now = true)
      (hout : composite t read.record (tables platform) frame.length frame = some out)
      (hlength : out.length = frame.length) :
      Gives t tables e src platform now read
        { read with
          out := Function.update read.out read.next out
          next := !read.next
          lastComposited := true
          srcFrameId := src.frameId
          outFrameId := read.outFrameId + 1 }
        ⟨read.outFrameId + 1, .out read.next⟩

section Calls

variable (t : Target) (tables : Platform → ShadeTable) (frames : UInt32 → Bytes)

/-- What holds of the entry of an override that is in use. -/
structure Sound (e : RenderEntry) : Prop where
  kept : e.record.Kept
  sizes : ∀ b, (e.out b).length =
    t.source.width.toNat * t.source.height.toNat * bytesPerPixel t.source.frameFormat
  served : e.servedDark = true → e.live = false
  /-- The buffer that was composited last is what its record, platform and frame give. -/
  lit : e.lastComposited = true → ∃ platform, e.platform = some platform ∧
    composite t e.record (tables platform) (frames e.srcFrameId).length (frames e.srcFrameId) =
      some (e.out (!e.next))

/-- The picture that the present id stands for. -/
def picture (e : RenderEntry) : Bytes :=
  if e.servedDark then e.dark
  else if e.lastComposited then e.out (!e.next)
  else frames e.srcFrameId

variable {t tables frames} {e e' read : RenderEntry} {handed : Handed} {src : DisplayFrame}
  {cache : Cache} {sequence : ℕ} {torn : Bool} {platform : Platform} {now : Time}

variable (sequence torn platform now) in
/-- **Every call does one of these**: it composites within its buffers.

**Proof sketch.** The branches of `GetRenderFrame` in the order of the source: not live and dark
served or not, no frame of the target, no record in force, the frame already composited, and
compositing, which stays in bounds since the record and the frame fit the entry's buffers. -/
theorem exists_gives (hfits : Fits t frames) (h : Sound t tables frames e)
    (hcache : cache.Published)
    (hsrc : ∀ frame, src.frame = some frame → frame = frames src.frameId) :
    ∃ e' handed,
      e.getRenderFrame t tables src cache.published sequence torn platform now =
          some (e', handed) ∧
        Gives t tables e src platform now
          (e.refreshed cache.published sequence torn platform) e' handed := by
  have hreads := rereads e cache.published sequence torn platform
  have hkept := hreads.kept h.kept hcache
  unfold getRenderFrame
  generalize e.refreshed cache.published sequence torn platform = read at hreads hkept
  rcases Bool.eq_false_or_eq_true e.live with hlive | hlive
  · rw [if_neg (by rw [hlive]; exact Bool.false_ne_true)]
    rcases hframe : src.frame with _ | frame
    · exact ⟨_, _, rfl, .blank hlive hframe⟩
    dsimp only
    rcases Bool.eq_false_or_eq_true (read.record.visible now) with hv | hv
    · rw [if_neg (by rw [hv]; exact Bool.false_ne_true)]
      unfold light
      by_cases hnew : (!read.lastComposited || src.frameId != read.srcFrameId) = true
      · rw [if_pos hnew]
        have hnamed := hsrc frame hframe
        have hcomposable : Composable t read.record frame := by
          rw [hnamed]
          exact hfits.composable hkept hv src.frameId
        obtain ⟨out, hout, hpainted⟩ := hcomposable.exists_painted (tables platform)
        have hsize : (read.out read.next).length = frame.length := by
          rw [hreads.out, h.sizes, hcomposable.whole]
        refine ⟨_, _, ?_, .light hlive hframe hv hout hpainted.length⟩
        rw [compositeInto, hsize, hout]
        show some (_, (⟨_, .out (!!read.next)⟩ : Handed)) = _
        rw [Bool.not_not]
      · rw [if_neg hnew]
        rw [Bool.not_eq_true, Bool.or_eq_false_iff] at hnew
        have hlast : read.lastComposited = true := by simpa using hnew.1
        have hid : src.frameId = read.srcFrameId := by simpa using hnew.2
        exact ⟨_, _, rfl, .again hlive hframe hv hlast hid⟩
    · rw [if_pos (by rw [hv]; rfl)]
      by_cases hnew : (read.lastComposited || src.frameId != read.srcFrameId) = true
      · refine ⟨_, _, rfl, ?_⟩
        unfold passThrough
        rw [if_pos hnew]
        exact .pass hlive hframe hv
      · rw [Bool.not_eq_true, Bool.or_eq_false_iff] at hnew
        have hid : src.frameId = read.srcFrameId := by simpa using hnew.2
        rw [passThrough_same hnew.1 hid]
        exact ⟨_, _, rfl, .plain hlive hframe hv hnew.1 hid⟩
  · rw [if_pos (by rw [hlive]; rfl)]
    rcases Bool.eq_false_or_eq_true e.servedDark with hserved | hserved
    · rw [if_pos hserved]
      exact ⟨_, _, rfl, .dark hlive hserved⟩
    · rw [if_neg (by rw [hserved]; exact Bool.false_ne_true)]
      exact ⟨_, _, rfl, .darken hlive hserved⟩

/-- A live override has not been served dark. -/
theorem Sound.not_served (h : Sound t tables frames e) (hlive : e.live = true) :
    e.servedDark = false := by
  refine Bool.eq_false_of_not_eq_true fun hserved => ?_
  rw [h.served hserved] at hlive
  cases hlive

namespace Gives

variable {published : Record}

/-- A frame that is given leaves the entry live. -/
theorem live (hreads : Rereads e published sequence torn platform read)
    (g : Gives t tables e src platform now read e' handed) : e'.live = e.live := by
  cases g with
  | darken | dark | blank => rfl
  | plain | pass | again | light => exact hreads.live

/-- The id that is handed out is the present one. -/
theorem frameId (g : Gives t tables e src platform now read e' handed) :
    handed.frameId = e'.outFrameId := by
  cases g <;> rfl

/-- The record is that which was read, when there is one to composite. -/
theorem record (g : Gives t tables e src platform now read e' handed) :
    e'.record = read.record ∧ e'.recordSequence = read.recordSequence ∨
      (e'.record = e.record ∧ e'.recordSequence = e.recordSequence) ∧
        (e.live = true → src.frame = none) := by
  cases g with
  | darken hlive | dark hlive =>
    exact .inr ⟨⟨rfl, rfl⟩, fun h => absurd (h.symm.trans hlive) Bool.true_eq_false.mp⟩
  | blank _ hframe => exact .inr ⟨⟨rfl, rfl⟩, fun _ => hframe⟩
  | plain | pass | again | light => exact .inl ⟨rfl, rfl⟩

/-- A call keeps what holds of the entry.

**Proof sketch.** By the branch. The buffers keep their sizes, the flag of a dark frame is only set
where the override is not live, and what was composited last is the frame and record that are
written down. -/
theorem sound (h : Sound t tables frames e)
    (hreads : Rereads e published sequence torn platform read) (hkept : read.record.Kept)
    (hsrc : ∀ frame, src.frame = some frame → frame = frames src.frameId) (hfits : Fits t frames)
    (g : Gives t tables e src platform now read e' handed) : Sound t tables frames e' := by
  have hsizes : ∀ b, (read.out b).length =
      t.source.width.toNat * t.source.height.toNat * bytesPerPixel t.source.frameFormat := by
    rw [hreads.out]
    exact h.sizes
  have hserved : read.servedDark = true → read.live = false := by
    rw [hreads.servedDark, hreads.live]
    exact h.served
  cases g with
  | darken hlive => exact ⟨h.kept, h.sizes, fun _ => hlive, h.lit⟩
  | dark | blank => exact h
  | plain _ _ _ hlast =>
    refine ⟨hkept, hsizes, hserved, fun hlit => ?_⟩
    rw [hlast] at hlit
    cases hlit
  | pass => exact ⟨hkept, hsizes, hserved, fun hlit => by cases hlit⟩
  | again _ _ _ hlast =>
    rcases hreads.same with hsame | hnot
    · rw [hsame]
      exact h
    · rw [hnot] at hlast
      cases hlast
  | @light frame out hlive hframe hv hout hlength =>
    have hnamed := hsrc frame hframe
    refine ⟨hkept, fun b => ?_, hserved, fun _ => ⟨platform, hreads.platform, ?_⟩⟩
    · show (Function.update read.out read.next out b).length = _
      by_cases hb : b = read.next
      · rw [hb, Function.update_self, hlength, hnamed, hfits.whole]
      · rw [Function.update_of_ne hb, hsizes]
    · show composite t read.record (tables platform) (frames src.frameId).length
        (frames src.frameId) = some (Function.update read.out read.next out (!!read.next))
      rw [Bool.not_not, Function.update_self, ← hnamed]
      exact hout

/-- The id goes up, or the picture stays, unless the overlay is taken off it.

**Proof sketch.** By the branch. Darkening, passing and lighting take the next id. The plain branch
keeps the id, and takes the overlay off where one was shown; the rest change nothing. -/
theorem turns (h : Sound t tables frames e)
    (hreads : Rereads e published sequence torn platform read)
    (g : Gives t tables e src platform now read e' handed) :
    e'.outFrameId = e.outFrameId + 1 ∨
      e'.outFrameId = e.outFrameId ∧
        (e'.picture frames = e.picture frames ∧ e'.lastComposited = e.lastComposited ∧
            e'.servedDark = e.servedDark ∨
          e.lastComposited = true ∧ e'.lastComposited = false ∧ e'.servedDark = false) := by
  cases g with
  | darken => exact .inl rfl
  | dark | blank => exact .inr ⟨rfl, .inl ⟨rfl, rfl, rfl⟩⟩
  | plain hlive _ _ hlast =>
    have hserved := h.not_served hlive
    refine .inr ⟨hreads.outFrameId, ?_⟩
    cases hlit : e.lastComposited with
    | true => exact .inr ⟨rfl, hlast, hreads.servedDark.trans hserved⟩
    | false =>
      refine .inl ⟨?_, hlast, hreads.servedDark⟩
      unfold picture
      rw [hreads.servedDark, hserved, hlast, hlit, hreads.srcFrameId]
      rfl
  | pass | light => exact .inl (congrArg (· + 1) hreads.outFrameId)
  | again _ _ _ hlast =>
    rcases hreads.same with hsame | hnot
    · rw [hsame]
      exact .inr ⟨rfl, .inl ⟨rfl, rfl, rfl⟩⟩
    · rw [hnot] at hlast
      cases hlast

/-- The frame that is handed out is the picture of its id, and is the one to be seen.

**Proof sketch.** By the branch. The frame handed out is the dark one, the target's, or the buffer
that the last composite wrote. For a frame composited before, the record and the target's frame have
the ids they had, so they are what they were (`Sound`). -/
theorem shows (h : Sound t tables frames e)
    (hreads : Rereads e published sequence torn platform read)
    (hsrc : ∀ frame, src.frame = some frame → frame = frames src.frameId)
    (g : Gives t tables e src platform now read e' handed)
    (hframe : e.live = true → src.frame ≠ none) :
    e'.read handed.pointer = e'.picture frames ∧
      e'.current t tables src platform now = some (e'.picture frames) := by
  cases g with
  | darken hlive => exact ⟨rfl, by unfold current; rw [if_pos (by rw [hlive]; rfl)]; rfl⟩
  | dark hlive hserved =>
    have hpicture : e.picture frames = e.dark := by
      unfold picture
      rw [if_pos hserved]
    rw [hpicture]
    refine ⟨rfl, ?_⟩
    unfold current
    rw [if_pos (by rw [hlive]; rfl)]
  | blank hlive hnone => exact absurd hnone (hframe hlive)
  | @plain frame hlive hsome hv hlast hid =>
    have hpicture : e'.picture frames = frame := by
      unfold picture
      rw [hreads.servedDark, h.not_served hlive, hlast, hsrc frame hsome, hid]
      rfl
    rw [hpicture]
    refine ⟨rfl, ?_⟩
    unfold current
    rw [hreads.live, hlive, hsome, Option.bind_some, hv]
    rfl
  | @pass frame hlive hsome hv =>
    have hserved : read.servedDark = false := hreads.servedDark.trans (h.not_served hlive)
    have hpicture : picture frames
        { read with
          outFrameId := read.outFrameId + 1, lastComposited := false
          srcFrameId := src.frameId } = frame := by
      unfold picture
      rw [if_neg (by rw [hserved]; exact Bool.false_ne_true), hsrc frame hsome]
      rfl
    rw [hpicture]
    refine ⟨rfl, ?_⟩
    unfold current
    rw [if_neg (by rw [hreads.live, hlive]; exact Bool.false_ne_true), hsome, Option.bind_some,
      if_neg (by rw [hv]; exact Bool.false_ne_true)]
  | @again frame hlive hsome hv hlast hid =>
    rcases hreads.same with rfl | hnot
    · have hpicture : e'.picture frames = e'.out (!e'.next) := by
        unfold picture
        rw [h.not_served hlive, hlast]
        rfl
      rw [hpicture]
      refine ⟨rfl, ?_⟩
      obtain ⟨platform', hplatform, hlit⟩ := h.lit hlast
      obtain rfl : platform' = platform :=
        Option.some.inj (hplatform.symm.trans hreads.platform)
      unfold current
      rw [hlive, hsome, Option.bind_some, hv, hsrc frame hsome, hid]
      exact hlit
    · rw [hnot] at hlast
      cases hlast
  | @light frame out hlive hsome hv hout =>
    have hserved : read.servedDark = false := hreads.servedDark.trans (h.not_served hlive)
    have hpicture : picture frames
        { read with
          out := Function.update read.out read.next out
          next := !read.next
          lastComposited := true
          srcFrameId := src.frameId
          outFrameId := read.outFrameId + 1 } = out := by
      unfold picture
      rw [if_neg (by rw [hserved]; exact Bool.false_ne_true), if_pos rfl]
      show Function.update read.out read.next out (!!read.next) = out
      rw [Bool.not_not, Function.update_self]
    rw [hpicture]
    refine ⟨Function.update_self .., ?_⟩
    unfold current
    rw [if_neg (by rw [hreads.live, hlive]; exact Bool.false_ne_true), hsome, Option.bind_some,
      if_pos hv]
    exact hout

/-- Where nothing is composited, and the override is live, the target's frame is to be seen.

**Proof sketch.** By the branch: only the plain branch leaves neither an overlay nor a dark frame,
and there no record is in force, so the target's frame is the one to be seen. -/
theorem bare (hreads : Rereads e published sequence torn platform read)
    (g : Gives t tables e src platform now read e' handed) (hlast : e'.lastComposited = false)
    (hserved : e'.servedDark = false) : e'.current t tables src platform now = src.frame := by
  have hthrough : ∀ e' : RenderEntry, e'.live = true → e'.record.visible now = false →
      e'.current t tables src platform now = src.frame := by
    intro e' hlive hv
    unfold current
    rw [hlive, hv]
    cases src.frame <;> rfl
  cases g with
  | darken => cases hserved
  | dark _ hdark =>
    rw [hserved] at hdark
    cases hdark
  | blank hlive hnone =>
    unfold current
    rw [hlive, hnone]
    rfl
  | plain hlive _ hv => exact hthrough _ (hreads.live.trans hlive) hv
  | pass hlive _ hv => exact hthrough _ (hreads.live.trans hlive) hv
  | again _ _ _ hlit =>
    rw [hlast] at hlit
    cases hlit
  | light => cases hlast

end Gives

end Calls

end RenderEntry

/-! ## What a consumer shows -/

/-- A consumer takes the frame, or keeps one of the same id. -/
theorem skipOrTake_eq_or (shown : Option Took) (took : Took) :
    skipOrTake shown took = took ∨
      shown = some (skipOrTake shown took) ∧ (skipOrTake shown took).frameId = took.frameId := by
  unfold skipOrTake
  cases shown with
  | none => exact .inl rfl
  | some old =>
    dsimp only
    by_cases hsame : old.frameId = took.frameId
    · rw [if_pos hsame]
      exact .inr ⟨rfl, hsame⟩
    · exact .inl (if_neg hsame)

/-- An id that went up is another. -/
theorem nextId_ne (i : UInt32) : i + 1 ≠ i := by
  intro h
  have hone : (1 : UInt32) = 0 := by
    have hsum : i + 1 = i + 0 := by rw [h, UInt32.add_zero]
    exact (UInt32.add_right_inj i).mp hsum
  exact absurd hone (by decide)

/-- A frame that a consumer has: if its id is the present one, it is the picture of that, unless it
was copied from a target without a frame or the overlay was taken off since. -/
structure Took.Good (pages : ℕ) (hidden : Bool) (picture : Bytes) (took : Took) : Prop where
  frameId : took.frameId = UInt32.ofNat took.page
  page : took.page ≤ pages
  bytes : took.page = pages → took.blank = true ∨ hidden = true ∨ took.bytes = picture

namespace Rendering

variable {ι : Type} (t : Target) (tables : Platform → ShadeTable) (frames : UInt32 → Bytes)

/-- What holds in every run. -/
structure Sound (s : Rendering ι) : Prop where
  cache : Cache.system.Reachable s.cache
  source : ∀ frame, s.source.frame = some frame → frame = frames s.source.frameId
  entry : s.entry.Sound t tables frames
  sequence : s.entry.recordSequence ≤ s.sequence
  record : s.entry.recordSequence = s.sequence →
    ∀ state, Shows s.cache.published state → Shows s.entry.record state
  frameId : s.entry.outFrameId = UInt32.ofNat s.pages
  hidden : s.hidden = true → s.entry.lastComposited = false ∧ s.entry.servedDark = false
  shown : ∀ c took, s.shown c = some took → took.Good s.pages s.hidden (s.entry.picture frames)

variable {t tables frames} {s s' : Rendering ι}

/-- A rendering that has not begun is sound. -/
theorem sound_start : (start t : Rendering ι).Sound t tables frames where
  cache := .init rfl
  source := fun _ h => by cases h
  entry :=
    { kept := Record.kept_empty
      sizes := fun _ => List.length_replicate
      served := fun h => by cases h
      lit := fun h => by cases h }
  sequence := Nat.zero_le _
  record := fun h => by cases h
  frameId := rfl
  hidden := fun h => by cases h
  shown := fun _ _ h => by cases h

/-- A step of the cache.

**Proof sketch.** What is published is as it was (`published_step`), or is written, and then its
sequence is beyond the entry's. -/
theorem Sound.cacheStep (h : s.Sound t tables frames) {a : Cache.Act} {cache : Cache}
    (hstep : s.cache.step a = some cache) :
    Sound t tables frames
      { s with
        cache := cache
        sequence := if s.cache.writes a then s.sequence + 2 else s.sequence } := by
  have hreach : Cache.system.Reachable cache := .step h.cache trivial hstep
  rcases Cache.published_step hstep with ⟨hsame, hquiet⟩ | ⟨-, hwrites, -⟩
  · rw [if_neg (by rw [hquiet]; exact Bool.false_ne_true)]
    refine ⟨hreach, h.source, h.entry, h.sequence, fun heq => ?_, h.frameId, h.hidden, h.shown⟩
    show ∀ state, Shows cache.published state → Shows s.entry.record state
    rw [hsame]
    exact h.record heq
  · rw [if_pos hwrites]
    have hbelow : s.entry.recordSequence < s.sequence + 2 := by
      have := h.sequence
      omega
    exact ⟨hreach, h.source, h.entry, hbelow.le, fun heq => absurd heq hbelow.ne, h.frameId,
      h.hidden, h.shown⟩

/-- The call of a consumer, with what it gives. -/
structure Calls (t : Target) (tables : Platform → ShadeTable) (s : Rendering ι) (torn : Bool)
    (read e' : RenderEntry) (handed : Handed) : Prop where
  returns : s.entry.getRenderFrame t tables s.source s.cache.published s.sequence torn s.platform
    s.cache.now = some (e', handed)
  rereads : s.entry.Rereads s.cache.published s.sequence torn s.platform read
  kept : read.record.Kept
  gives : RenderEntry.Gives t tables s.entry s.source s.platform s.cache.now read e' handed

/-- Every call returns. -/
theorem Sound.exists_calls (h : s.Sound t tables frames) (hfits : Fits t frames) (torn : Bool) :
    ∃ read e' handed, Calls t tables s torn read e' handed := by
  have hpublished := Cache.published_of_reachable h.cache
  obtain ⟨e', handed, hreturns, hgives⟩ :=
    RenderEntry.exists_gives s.sequence torn s.platform s.cache.now hfits h.entry hpublished
      h.source
  have hreads := RenderEntry.rereads s.entry s.cache.published s.sequence torn s.platform
  exact ⟨_, e', handed, hreturns, hreads, hreads.kept h.entry.kept hpublished, hgives⟩

/-- The record that was read.

**Proof sketch.** A record that was not read again is the one of that sequence, or the copy was
torn; one that was read is what is published. -/
theorem Calls.record {torn : Bool} {read e' : RenderEntry} {handed : Handed}
    (h : s.Sound t tables frames)
    (hcalls : Calls t tables s torn read e' handed) :
    read.recordSequence ≤ s.sequence ∧
      (read.recordSequence = s.sequence →
        ∀ state, Shows s.cache.published state → Shows read.record state) ∧
      (torn = false → read.recordSequence = s.sequence) := by
  rcases hcalls.rereads.record with ⟨hrecord, hsequence, hold⟩ | ⟨hrecord, hsequence⟩
  · rw [hrecord, hsequence]
    refine ⟨h.sequence, h.record, fun hwhole => ?_⟩
    rcases hold with heq | htorn
    · exact heq.symm
    · rw [hwhole] at htorn
      cases htorn
  · rw [hrecord, hsequence]
    exact ⟨le_rfl, fun _ state hshows => hshows.extend _, fun _ => rfl⟩

section Consumers

variable [DecidableEq ι] {torn : Bool} {read e' : RenderEntry} {handed : Handed} {c : ι}

/-- The ids and what the consumers have after a call.

**Proof sketch.** By `turns`. An id that goes up is a new page, and what a consumer has of older
pages stays true. One that stays keeps the page, and either the picture or the overlay that is taken
off, which the flag remembers. -/
theorem Calls.pages (h : s.Sound t tables frames) (hcalls : Calls t tables s torn read e' handed) :
    let s' := s.handOut c e' handed
    e'.outFrameId = UInt32.ofNat s'.pages ∧ s.pages ≤ s'.pages ∧ s'.pages ≤ s.pages + 1 ∧
      (s'.hidden = true → e'.lastComposited = false ∧ e'.servedDark = false) ∧
      ∀ took : Took, took.Good s.pages s.hidden (s.entry.picture frames) →
        took.Good s'.pages s'.hidden (e'.picture frames) := by
  rcases hcalls.gives.turns h.entry hcalls.rereads with hup | ⟨hsame, hkeeps⟩
  · have hother : e'.outFrameId ≠ s.entry.outFrameId := hup ▸ nextId_ne _
    have hpages : (s.handOut c e' handed).pages = s.pages + 1 := by simp [handOut, takes, hother]
    have hhidden : (s.handOut c e' handed).hidden = false := by simp [handOut, hother]
    dsimp only
    rw [hpages, hhidden]
    refine ⟨?_, Nat.le_succ _, le_rfl, fun hf => absurd hf Bool.false_ne_true,
      fun took htook => ?_⟩
    · rw [hup, h.frameId, UInt32.ofNat_add]
      rfl
    · refine ⟨htook.frameId, htook.page.trans (Nat.le_succ _), fun hpage => ?_⟩
      have := htook.page
      omega
  · have hpages : (s.handOut c e' handed).pages = s.pages := by simp [handOut, takes, hsame]
    have hhidden : (s.handOut c e' handed).hidden =
        (s.hidden || (s.entry.lastComposited && !e'.lastComposited)) := by simp [handOut, hsame]
    dsimp only
    rw [hpages, hhidden]
    refine ⟨hsame.trans h.frameId, le_rfl, Nat.le_succ _, ?_, fun took htook => ?_⟩
    · rcases hkeeps with ⟨-, hlast, hserved⟩ | ⟨-, hoff, hserved⟩
      · rw [hlast, hserved, Bool.and_not_self, Bool.or_false]
        exact h.hidden
      · exact fun _ => ⟨hoff, hserved⟩
    · refine ⟨htook.frameId, htook.page, fun hpage => ?_⟩
      rcases hkeeps with ⟨hpicture, hlast, -⟩ | ⟨hlit, hoff, -⟩
      · rw [hpicture, hlast, Bool.and_not_self, Bool.or_false]
        exact htook.bytes hpage
      · exact .inr (.inl (by simp [hlit, hoff]))

/-- What a call hands out is good.

**Proof sketch.** The page is the newest, and its picture is the frame handed out (`Gives.shows`),
unless there was no frame of the target to hand out. -/
theorem Calls.takes_good (h : s.Sound t tables frames)
    (hcalls : Calls t tables s torn read e' handed) :
    (s.takes e' handed).Good (s.handOut c e' handed).pages (s.handOut c e' handed).hidden
      (e'.picture frames) := by
  obtain ⟨hid, -⟩ := hcalls.pages (c := c) h
  refine ⟨hcalls.gives.frameId.trans hid, le_rfl, fun _ => ?_⟩
  by_cases hblank : (s.takes e' handed).blank = true
  · exact .inl hblank
  · refine .inr (.inr (hcalls.gives.shows h.entry hcalls.rereads h.source ?_).1)
    intro hlive hnone
    refine hblank ?_
    show (e'.live && s.source.frame.isNone) = true
    rw [hcalls.gives.live hcalls.rereads, hlive, hnone]
    rfl

/-- A call keeps what holds in every run.

**Proof sketch.** The entry keeps what holds of it (`Gives.sound`), and the pages what the consumers
have (`Calls.pages`). The record is the one it had, or what is published, with its number. -/
theorem Calls.sound (hfits : Fits t frames) (h : s.Sound t tables frames)
    (hcalls : Calls t tables s torn read e' handed) :
    (s.handOut c e' handed).Sound t tables frames := by
  obtain ⟨hid, -, -, hhidden, hkeeps⟩ := hcalls.pages (c := c) h
  obtain ⟨hsequence, hrecord, -⟩ := hcalls.record h
  refine ⟨h.cache, h.source,
    hcalls.gives.sound h.entry hcalls.rereads hcalls.kept h.source hfits, ?_, ?_, hid, hhidden, ?_⟩
  · show e'.recordSequence ≤ s.sequence
    rcases hcalls.gives.record with ⟨-, heq⟩ | ⟨⟨-, heq⟩, -⟩
    · exact heq.le.trans hsequence
    · exact heq.le.trans h.sequence
  · show e'.recordSequence = s.sequence →
      ∀ state, Shows s.cache.published state → Shows e'.record state
    rcases hcalls.gives.record with ⟨hsame, heq⟩ | ⟨⟨hsame, heq⟩, -⟩
    · rw [hsame, heq]
      exact hrecord
    · rw [hsame, heq]
      exact h.record
  · intro c' took htook
    have htook : Function.update s.shown c
        (some (skipOrTake (s.shown c) (s.takes e' handed))) c' = some took := htook
    by_cases hc : c' = c
    · rw [hc, Function.update_self] at htook
      cases htook
      rcases skipOrTake_eq_or (s.shown c) (s.takes e' handed) with hnew | ⟨hold, -⟩
      · rw [hnew]
        exact hcalls.takes_good h
      · exact hkeeps _ (h.shown c _ hold)
    · rw [Function.update_of_ne hc] at htook
      exact hkeeps took (h.shown c' took htook)

/-- What holds in every run does.

**Proof sketch.** The invariant of the runs: the two threads' steps keep the cache (`Published`),
the host's produce frames of their ids, and a render call is `Calls.sound`. -/
theorem sound_of_reachable (hfits : Fits t frames)
    (h : (rendering ι t tables frames).Reachable s) : s.Sound t tables frames := by
  refine Runs.System.Reaches.invariant ?_ ?_ h
  · rintro s rfl
    exact sound_start
  · intro s a s' hs _ hstep
    have hstep : s.step t tables frames a = some s' := hstep
    cases a with
    | cache a =>
      obtain ⟨cache, hcache, rfl⟩ := Option.map_eq_some_iff.mp hstep
      exact hs.cacheStep hcache
    | setController =>
      cases hstep
      exact ⟨hs.cache, hs.source, hs.entry, hs.sequence, hs.record, hs.frameId, hs.hidden,
        hs.shown⟩
    | queryPlatform hardwareGen =>
      cases hstep
      unfold queryPlatform
      split
      · exact hs
      · exact ⟨hs.cache, hs.source, hs.entry, hs.sequence, hs.record, hs.frameId, hs.hidden,
          hs.shown⟩
    | produce frameId =>
      cases hstep
      exact ⟨hs.cache, fun _ hframe => (Option.some.inj hframe).symm, hs.entry, hs.sequence,
        hs.record, hs.frameId, hs.hidden, hs.shown⟩
    | lose =>
      cases hstep
      exact ⟨hs.cache, fun _ hframe => (Option.some_ne_none _ hframe.symm).elim, hs.entry,
        hs.sequence, hs.record, hs.frameId, hs.hidden, hs.shown⟩
    | darken =>
      cases hstep
      exact ⟨hs.cache, hs.source, ⟨hs.entry.kept, hs.entry.sizes, fun _ => rfl, hs.entry.lit⟩,
        hs.sequence, hs.record, hs.frameId, hs.hidden, hs.shown⟩
    | call c torn =>
      obtain ⟨read, e', handed, hcalls⟩ := hs.exists_calls hfits torn
      have hcall : s.call t tables c torn = some s' := hstep
      rw [call, hcalls.returns] at hcall
      cases hcall
      exact hcalls.sound hfits hs

end Consumers

end Rendering

/-- **A consumer that skips repeated ids shows what is to be seen**: in every run of an override,
every call of a consumer returns, and the frame that the consumer then has is the picture to be
seen, by the record that is published, unless it was copied while the target had no frame. The
exception is an overlay that was taken off, by a new record or platform, while the target stayed at
a frame: its id stays, and the consumer may still show the overlay where the bare frame is to be
seen. The consumer is one that called within the last `2 ^ 32` ids.

**Proof sketch.** `Rendering.Sound`: a frame that a consumer has under the present id is the picture
of that id. A call keeps it (`RenderEntry.Gives.turns`): it counts the id up whenever it changes the
picture, but in the exception. What it hands out is that picture, and is the one to be seen
(`RenderEntry.Gives.shows`). -/
theorem shows_current {ι : Type} [DecidableEq ι] {t : Target} {tables : Platform → ShadeTable}
    {frames : UInt32 → Bytes} (hfits : Fits t frames) {s : Rendering ι}
    (h : (rendering ι t tables frames).Reachable s) (c : ι) (torn : Bool)
    (hfresh : ∀ took, s.shown c = some took → s.pages + 1 < took.page + 2 ^ 32) :
    ∃ s' took, s.step t tables frames (.call c torn) = some s' ∧ s'.shown c = some took ∧
      (torn = false → s.entry.live = true → s.source.frame ≠ none →
        ∀ state, Shows s.cache.published state → Shows s'.entry.record state) ∧
      ∀ picture, s'.entry.current t tables s'.source s'.platform s'.cache.now = some picture →
        took.bytes = picture ∨ took.blank = true ∨
          s'.hidden = true ∧ s'.source.frame = some picture := by
  have hsound := Rendering.sound_of_reachable hfits h
  obtain ⟨read, e', handed, hcalls⟩ := hsound.exists_calls hfits torn
  have hstep : s.step t tables frames (.call c torn) = some (s.handOut c e' handed) := by
    show s.call t tables c torn = _
    rw [Rendering.call, hcalls.returns]
    rfl
  have hshown : (s.handOut c e' handed).shown c =
      some (skipOrTake (s.shown c) (s.takes e' handed)) := Function.update_self ..
  refine ⟨_, _, hstep, hshown, fun hwhole hlive hframe => ?_, fun picture hpicture => ?_⟩
  · obtain ⟨-, hrecord, hnew⟩ := hcalls.record hsound
    rcases hcalls.gives.record with ⟨hsame, -⟩ | ⟨-, hnone⟩
    · show ∀ state, Shows s.cache.published state → Shows e'.record state
      rw [hsame]
      exact hrecord (hnew hwhole)
    · exact absurd (hnone hlive) hframe
  have hgood := (hcalls.sound (c := c) hfits hsound).shown c _ hshown
  have hpage : (skipOrTake (s.shown c) (s.takes e' handed)).page =
      (s.handOut c e' handed).pages := by
    rcases skipOrTake_eq_or (s.shown c) (s.takes e' handed) with hnew | ⟨hold, hid⟩
    · rw [hnew]
      rfl
    · -- the same id, less than a turn ago
      obtain ⟨-, -, hnext, -⟩ := hcalls.pages (c := c) hsound
      have hids := congrArg UInt32.toNat hgood.frameId
      rw [hid, (hcalls.takes_good (c := c) hsound).frameId] at hids
      have hids : (s.handOut c e' handed).pages % 2 ^ 32 =
        (skipOrTake (s.shown c) (s.takes e' handed)).page % 2 ^ 32 := hids
      have := hfresh _ hold
      have := hgood.page
      omega
  have hpicture : e'.current t tables s.source s.platform s.cache.now = some picture := hpicture
  rcases hgood.bytes hpage with hblank | hhidden | hbytes
  · exact .inr (.inl hblank)
  · obtain ⟨-, -, -, hbare, -⟩ := hcalls.pages (c := c) hsound
    obtain ⟨hlast, hserved⟩ := hbare hhidden
    refine .inr (.inr ⟨hhidden, ?_⟩)
    exact (hcalls.gives.bare hcalls.rereads hlast hserved).symm.trans hpicture
  · refine .inl (hbytes.trans ?_)
    have hframe : s.entry.live = true → s.source.frame ≠ none := by
      intro hlive hnone
      rw [RenderEntry.current, if_neg, hnone] at hpicture
      · cases hpicture
      · rw [hcalls.gives.live hcalls.rereads, hlive]
        exact Bool.false_ne_true
    have hcurrent := (hcalls.gives.shows hsound.entry hcalls.rereads hsound.source hframe).2
    exact Option.some.inj (hcurrent.symm.trans hpicture)

/-- The steps of an override of two dots, whose target has the same frame under every id. -/
def twoDotsStep : Rendering Unit → Rendering.Act Unit → Option (Rendering Unit) :=
  Rendering.step twoDots (fun _ => plainTable) fun _ => [1, 2, 3, 4, 5, 6]

/-- A frame is composited, and then the overlay is hidden while the target stays at the frame. -/
def hidingRun : List (Rendering.Act Unit) :=
  let applied : List (Rendering.Act Unit) := List.replicate 5 (.cache (.api true))
  .cache (.postUpload (some tenByTen)) :: applied ++
    .cache (.postControl true 0) :: applied ++ [.produce 1, .call () false] ++
    .cache (.postControl false 0) :: applied

/-- The consumer goes on showing the overlay. -/
theorem shows_current_hidingRun : ∃ s s' took,
    Runs.runOf twoDotsStep (.start twoDots) hidingRun = some s ∧
      twoDotsStep s (.call () false) = some s' ∧ s'.shown () = some took ∧
      took.bytes = List.replicate 6 255 ∧ s'.hidden = true ∧
      s'.source.frame = some [1, 2, 3, 4, 5, 6] := by
  have hrun : (Runs.runOf twoDotsStep (.start twoDots) hidingRun).any (fun s =>
      (s.shown ()).all (fun took => s.pages + 1 < took.page + 2 ^ 32) &&
      (twoDotsStep s (.call () false)).any fun s' => (s'.shown ()).any fun took =>
        took.bytes = List.replicate 6 255 && !took.blank &&
          s'.entry.current twoDots (fun _ => plainTable) s'.source s'.platform s'.cache.now =
            some [1, 2, 3, 4, 5, 6]) = true := by
    decide +kernel
  obtain ⟨s, hs, hfacts⟩ := (Option.any_eq_true _ _).mp hrun
  obtain ⟨hfresh, hcall⟩ := Bool.and_eq_true_iff.mp hfacts
  obtain ⟨s', hs', hcopied⟩ := (Option.any_eq_true _ _).mp hcall
  obtain ⟨took, htook, hseen⟩ := (Option.any_eq_true _ _).mp hcopied
  simp only [Bool.and_eq_true, decide_eq_true_eq, Bool.not_eq_true'] at hseen
  obtain ⟨⟨hbytes, hblank⟩, hcurrent⟩ := hseen
  have hfits : Fits twoDots fun _ => [1, 2, 3, 4, 5, 6] :=
    { width := by decide
      height := by decide
      baseWidth := by decide
      baseHeight := by decide
      handled := by decide
      whole := fun _ => by decide }
  have hreach : (rendering Unit twoDots (fun _ => plainTable)
      fun _ => [1, 2, 3, 4, 5, 6]).Reachable s := Runs.reachable_of_runOf rfl hs
  obtain ⟨s'', took', hstep, hshown, -, hshows⟩ :=
    shows_current hfits hreach () false fun took htook => by
      rw [htook, Option.all_some, decide_eq_true_eq] at hfresh
      exact hfresh
  obtain rfl : s' = s'' := Option.some.inj (hs'.symm.trans hstep)
  obtain rfl : took = took' := Option.some.inj (htook.symm.trans hshown)
  refine ⟨s, s', took, hs, hs', htook, hbytes, ?_⟩
  rcases hshows _ hcurrent with hsame | hblank' | hhidden
  · rw [hbytes] at hsame
    exact absurd hsame (by decide)
  · rw [hblank] at hblank'
    cases hblank'
  · exact hhidden

end Overlay
