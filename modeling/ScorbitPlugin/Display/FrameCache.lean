import ScorbitPlugin.Display.Tap

set_option relaxedAutoImplicit false
set_option autoImplicit false

/-!
# The daemon's frame cache

A daemon that asks for what changed since the frame it holds is answered with that frame's id and
generation alone when nothing did. It holds the frame the answer names all the same: a frame carries
the generation it was captured under, and a view is served only under the generation selected.

## Main definitions

* `Display.Fair` — what a source and the daemon are taken to do.
* `Display.Genuine` — a frame is what its generation's source produced under its id.
* `Display.UpToDate` — what is claimed of the daemon after every answer.

## Main results

* `Display.never_stale` — it holds in every run.
-/

namespace Display

open Codec

/-! ## What is claimed -/

/-- What the sources and the daemon do in a run: a frame whose id is the same before and after the
copy was copied whole, `content` being what a generation's source produces under an id; there are
fewer than `2 ^ 32` generations; and the daemon asks for any frame, or for what changed since the
last one it got. -/
structure Fair (content : ℕ → UInt32 → Bytes) (s : State) (a : Act) : Prop where
  whole : ∀ look, a = .capture (some look) → look.check = look.frameId →
    look.copied = content s.tap.sourceGeneration look.frameId
  bumps : a = .bump → s.tap.sourceGeneration + 1 < 2 ^ 32
  asks : ∀ req, a = .request req → req.sinceFrameId = Wire.sinceFrameNone ∨
    s.daemon.held = some (req.sinceFrameId, req.sinceGeneration)

/-- After an answer that has a geometry, the daemon holds the pixels of the frame the answer names:
those that the source of its generation produced under its id, and that were captured from that
source while it was selected under that generation; and the geometry is that source's. -/
def UpToDate (content : ℕ → UInt32 → Bytes) (s : State) : Prop :=
  ∀ reply, s.daemon.reply = some reply → reply.width ≠ 0 → reply.height ≠ 0 →
    ∃ src, s.history.sources reply.sourceGeneration.toNat = some src ∧
      reply.width.toNat = src.width.toNat ∧ reply.height.toNat = src.height.toNat ∧
      reply.shades.toNat = src.shades.toNat ∧
      s.daemon.pixels = content reply.sourceGeneration.toNat reply.frameId ∧
      s.daemon.pixels.length = reply.width.toNat * reply.height.toNat ∧
      ⟨src, reply.sourceGeneration.toNat, reply.frameId, s.daemon.pixels⟩ ∈ s.history.captures

/-! ## Genuine frames -/

/-- A frame is one that its generation's source produced under its id, captured while the source was
selected, and no larger than is published. -/
structure Genuine (content : ℕ → UInt32 → Bytes) (s : State) (f : Frame) (src : DisplaySrcId) :
    Prop where
  generation : f.generation ≤ s.tap.sourceGeneration
  source : s.history.sources f.generation = some src
  width : f.width = src.width
  height : f.height = src.height
  shades : f.shades = src.shades
  size : f.pixels.length = src.size
  pixels : f.pixels = content f.generation f.frameId
  captured : ⟨src, f.generation, f.frameId, f.pixels⟩ ∈ s.history.captures

/-- What was known of a state is known of the next: its generations, their sources and what was
captured. -/
structure Extends (s s' : State) : Prop where
  generation : s.tap.sourceGeneration ≤ s'.tap.sourceGeneration
  sources : ∀ g ≤ s.tap.sourceGeneration, s'.history.sources g = s.history.sources g
  captures : ∀ c ∈ s.history.captures, c ∈ s'.history.captures

variable {content : ℕ → UInt32 → Bytes} {s s' : State} {f : Frame} {src : DisplaySrcId}

/-- A genuine frame stays one. -/
theorem Genuine.mono (h : Genuine content s f src) (he : Extends s s') :
    Genuine content s' f src where
  generation := h.generation.trans he.generation
  source := (he.sources _ h.generation).trans h.source
  width := h.width
  height := h.height
  shades := h.shades
  size := h.size
  pixels := h.pixels
  captured := he.captures _ h.captured

/-- A step that leaves the generation and the record alone. -/
theorem Extends.of_eq (hgeneration : s'.tap.sourceGeneration = s.tap.sourceGeneration)
    (hhistory : s'.history = s.history) : Extends s s' where
  generation := hgeneration.ge
  sources _ _ := by rw [hhistory]
  captures _ hc := by rwa [hhistory]

/-- The request the worker is about to answer. -/
def Asker.request : Asker → Option Wire.FrameRequest
  | .idle => none
  | .hasSource req | .latest req _ | .generation req _ _ => some req

/-- A frame of the tap, or of the view, that may be served. -/
def Servable (content : ℕ → UInt32 → Bytes) (s : State) (f : Frame) : Prop :=
  (∃ src, Genuine content s f src) ∧ f.pixels.length ≤ maxPixels

/-- What may be served may be later. -/
theorem Servable.mono (h : Servable content s f) (he : Extends s s') : Servable content s' f := by
  obtain ⟨⟨src, hgenuine⟩, hsize⟩ := h
  exact ⟨⟨src, hgenuine.mono he⟩, hsize⟩

/-- A reply names a frame: it carries its id, and what the wire takes of the rest. -/
structure Names (reply : Wire.FrameReply) (f : Frame) : Prop where
  frameId : reply.frameId = f.frameId
  generation : reply.sourceGeneration = UInt32.ofNat f.generation
  width : reply.width = f.width.toUInt16
  height : reply.height = f.height.toUInt16
  shades : reply.shades = f.shades.toUInt8

/-- The frames on their way are genuine, and so is the one the daemon holds. -/
structure Good (content : ℕ → UInt32 → Bytes) (s : State) : Prop where
  bounded : s.tap.sourceGeneration < 2 ^ 32
  current : s.changing = false →
    s.history.sources s.tap.sourceGeneration = if s.tap.hasSource then some s.tap.source else none
  back : s.publishing = true → ∃ src, Genuine content s s.tap.back src
  published : ∀ f, s.tap.published = some f → Servable content s f
  view : s.view.latest.width ≠ 0 → Servable content s s.view.latest
  copied : ∀ req tapHasSource, s.asker = .generation req tapHasSource true →
    Servable content s s.view.latest
  held : ∀ id generation, s.daemon.held = some (id, generation) →
    ∃ f, Servable content s f ∧ f.frameId = id ∧ UInt32.ofNat f.generation = generation ∧
      s.daemon.pixels = f.pixels
  asks : ∀ req, s.asker.request = some req → req.sinceFrameId = Wire.sinceFrameNone ∨
    s.daemon.held = some (req.sinceFrameId, req.sinceGeneration)
  shown : ∀ reply, s.daemon.reply = some reply → reply.width ≠ 0 → reply.height ≠ 0 →
    ∃ f, Servable content s f ∧ Names reply f ∧ s.daemon.pixels = f.pixels

/-- Generations are told apart by what the wire carries of them. -/
theorem generation_inj {a b : ℕ} (ha : a < 2 ^ 32) (hb : b < 2 ^ 32)
    (h : UInt32.ofNat a = UInt32.ofNat b) : a = b := by
  have hnat : (UInt32.ofNat a).toNat = (UInt32.ofNat b).toNat := congrArg UInt32.toNat h
  rw [UInt32.toNat_ofNat', UInt32.toNat_ofNat'] at hnat
  omega

/-- A side of a frame with pixels that is served is carried whole. -/
theorem toNat_side {a b : UInt32} (h : a.toNat * b.toNat ≤ maxPixels)
    (hb : b.toUInt16 ≠ 0) : a.toUInt16.toNat = a.toNat := by
  have hpos : 0 < b.toNat := by
    refine Nat.pos_of_ne_zero fun hzero => hb ?_
    rw [UInt32.toNat_inj.mp (hzero.trans UInt32.toNat_zero.symm)]
    rfl
  have hle : a.toNat ≤ maxPixels := (Nat.le_mul_of_pos_right _ hpos).trans h
  rw [UInt32.toNat_toUInt16]
  refine Nat.mod_eq_of_lt ?_
  unfold maxPixels at hle
  omega

/-- **What the daemon holds is what is claimed**, when it is the pixels of a frame that may be
served and that the reply names. -/
theorem Good.upToDate (h : Good content s) : UpToDate content s := by
  intro reply hreply hwidth hheight
  obtain ⟨f, ⟨⟨src, hgenuine⟩, hsize⟩, hnames, hpixels⟩ := h.shown reply hreply hwidth hheight
  have hgeneration : reply.sourceGeneration.toNat = f.generation := by
    rw [hnames.generation, UInt32.toNat_ofNat']
    exact Nat.mod_eq_of_lt (hgenuine.generation.trans_lt h.bounded)
  have harea : src.width.toNat * src.height.toNat ≤ maxPixels := hgenuine.size.symm.le.trans hsize
  have hw : reply.width.toNat = src.width.toNat := by
    rw [hnames.width, hgenuine.width]
    refine toNat_side harea ?_
    rwa [← hgenuine.height, ← hnames.height]
  have hh : reply.height.toNat = src.height.toNat := by
    rw [hnames.height, hgenuine.height]
    refine toNat_side (by rwa [Nat.mul_comm]) ?_
    rwa [← hgenuine.width, ← hnames.width]
  have hshades : reply.shades.toNat = src.shades.toNat := by
    rw [hnames.shades, hgenuine.shades]
    unfold DisplaySrcId.shades
    split <;> rfl
  rw [hgeneration, hpixels, hnames.frameId]
  refine ⟨src, hgenuine.source, hw, hh, hshades, hgenuine.pixels, ?_, hgenuine.captured⟩
  rw [hw, hh]
  exact hgenuine.size

/-! ## What a step keeps -/

/-- A step of another thread: the worker and the daemon are left alone.

**Proof sketch.** The view, the asker and the daemon are as they were, and each frame they name is
genuine in a history that extends the one before. -/
theorem Good.of_frame (h : Good content s) (he : Extends s s')
    (hview : s'.view = s.view) (hasker : s'.asker = s.asker) (hdaemon : s'.daemon = s.daemon)
    (hbounded : s'.tap.sourceGeneration < 2 ^ 32)
    (hcurrent : s'.changing = false → s'.history.sources s'.tap.sourceGeneration =
      if s'.tap.hasSource then some s'.tap.source else none)
    (hback : s'.publishing = true → ∃ src, Genuine content s' s'.tap.back src)
    (hpublished : ∀ f, s'.tap.published = some f → Servable content s' f) : Good content s' where
  bounded := hbounded
  current := hcurrent
  back := hback
  published := hpublished
  view := by
    rw [hview]
    exact fun hwidth => (h.view hwidth).mono he
  copied := by
    rw [hview, hasker]
    exact fun req tapHasSource hreq => (h.copied req tapHasSource hreq).mono he
  held := by
    rw [hdaemon]
    intro id generation hheld
    obtain ⟨f, hf, hrest⟩ := h.held id generation hheld
    exact ⟨f, hf.mono he, hrest⟩
  asks := by
    rw [hasker, hdaemon]
    exact h.asks
  shown := by
    rw [hdaemon]
    intro reply hreply hwidth hheight
    obtain ⟨f, hf, hrest⟩ := h.shown reply hreply hwidth hheight
    exact ⟨f, hf.mono he, hrest⟩

/-- What the tap's thread does: it leaves what is published alone, and has a frame to publish only
when it found the id of the selected source's frame unchanged.

**Proof sketch.** By the branches of the capture: no source, no look, a frame captured before, an id
that changed while it was copied, and a frame to publish. -/
theorem Tap.capture_cases (t : Tap) (look : Option Look) :
    (t.capture look).1.source = t.source ∧ (t.capture look).1.hasSource = t.hasSource ∧
    (t.capture look).1.sourceGeneration = t.sourceGeneration ∧
    (t.capture look).1.published = t.published ∧
    ((t.capture look).2 = true → ∃ l, look = some l ∧ l.check = l.frameId ∧ t.hasSource = true ∧
      (t.capture look).1.back = ⟨l.frameId, t.source.width, t.source.height, t.source.shades,
        t.sourceGeneration, l.copied⟩) := by
  have hfollow : ∃ last have_, t.followGeneration =
      { t with lastGeneration := last, haveLast := have_ } := by
    unfold Tap.followGeneration
    split
    · exact ⟨_, _, rfl⟩
    · exact ⟨_, _, rfl⟩
  obtain ⟨last, have_, hfollow⟩ := hfollow
  unfold Tap.capture
  by_cases hsource : t.hasSource = true
  · rw [if_neg (by simp [hsource]), hfollow]
    cases look with
    | none => exact ⟨rfl, rfl, rfl, rfl, fun h => absurd h (by simp)⟩
    | some l =>
      dsimp only
      split
      · exact ⟨rfl, rfl, rfl, rfl, fun h => absurd h (by simp)⟩
      · split
        · exact ⟨rfl, rfl, rfl, rfl, fun h => absurd h (by simp)⟩
        · rename_i hcheck
          exact ⟨rfl, rfl, rfl, rfl, fun _ => ⟨l, rfl, not_not.mp hcheck, hsource, rfl⟩⟩
  · rw [if_pos (by simp [hsource])]
    exact ⟨rfl, rfl, rfl, rfl, fun h => absurd h (by simp)⟩

/-- The tap's thread captures what the source produced.

**Proof sketch.** The capture has a frame to publish only when its id was the same before and after,
and then it copied the content of that id. So the frame is genuine for the source that is selected.
-/
theorem Good.capture (h : Good content s) {look : Option Look} (hchanging : s.changing = false)
    (hcopies : s.copies look = true)
    (hwhole : ∀ l, look = some l → l.check = l.frameId →
      l.copied = content s.tap.sourceGeneration l.frameId) : Good content (s.capture look) := by
  obtain ⟨hsource, hhas, hgeneration, hpublished, hcaptured⟩ := s.tap.capture_cases look
  have hcaptures : ∀ c ∈ s.history.captures, c ∈ (s.capture look).history.captures := by
    intro c hc
    unfold State.capture
    dsimp only
    split
    · exact List.mem_cons_of_mem _ hc
    · exact hc
  have he : Extends s (s.capture look) := ⟨hgeneration.ge, fun _ _ => rfl, hcaptures⟩
  refine h.of_frame he rfl rfl rfl ?_ (fun _ => ?_) ?_ fun f hf => ?_
  · exact hgeneration.trans_lt h.bounded
  · show s.history.sources (s.tap.capture look).1.sourceGeneration =
      if (s.tap.capture look).1.hasSource then some (s.tap.capture look).1.source else none
    rw [hgeneration, hhas, hsource]
    exact h.current hchanging
  · intro hpublishing
    obtain ⟨l, rfl, hcheck, hselected, hback⟩ := hcaptured hpublishing
    have hcurrent := h.current hchanging
    rw [if_pos hselected] at hcurrent
    have hlength : l.copied.length = s.tap.source.size := by simpa [State.copies] using hcopies
    refine ⟨s.tap.source, ?_⟩
    rw [show (s.capture (some l)).tap.back = _ from hback]
    exact
      { generation := hgeneration.ge
        source := hcurrent
        width := rfl
        height := rfl
        shades := rfl
        size := hlength
        pixels := hwhole l rfl hcheck
        captured := by
          have hmem : (⟨s.tap.source, s.tap.sourceGeneration,
              (s.tap.capture (some l)).1.back.frameId, (s.tap.capture (some l)).1.back.pixels⟩ :
              Capture) ∈ (s.capture (some l)).history.captures := by
            unfold State.capture
            dsimp only
            rw [if_pos (show (s.tap.capture (some l)).2 = true from hpublishing)]
            exact List.mem_cons_self
          rwa [hback] at hmem }
  · refine (h.published f ?_).mono he
    rw [← hpublished]
    exact hf

/-- A new generation is that of the source selected. -/
theorem Good.bump (h : Good content s) (hnext : s.tap.sourceGeneration + 1 < 2 ^ 32) :
    Good content s.bump := by
  have he : Extends s s.bump :=
    { generation := Nat.le_succ _
      sources := fun g hg => if_neg (Nat.lt_succ_of_le hg).ne
      captures := fun _ hc => hc }
  refine h.of_frame he rfl rfl rfl hnext (fun _ => if_pos rfl) (fun hpublishing => ?_)
    fun f hf => ?_
  · obtain ⟨src, hsrc⟩ := h.back hpublishing
    exact ⟨src, hsrc.mono he⟩
  · exact (h.published f hf).mono he

/-- The worker reads the published frame, or keeps the one it has. -/
theorem Good.readLatest (h : Good content s) (torn : Bool) :
    ((s.view.readLatest s.tap.published torn).1.latest.width ≠ 0 →
      Servable content s (s.view.readLatest s.tap.published torn).1.latest) ∧
    ((s.view.readLatest s.tap.published torn).2 = true →
      Servable content s (s.view.readLatest s.tap.published torn).1.latest) := by
  unfold TapView.readLatest
  cases hpublished : s.tap.published with
  | none => exact ⟨h.view, fun hfalse => absurd hfalse (by simp)⟩
  | some frame =>
    dsimp only
    split
    · exact ⟨h.view, fun hwidth => h.view (bne_iff_ne.mp hwidth)⟩
    · exact ⟨fun _ => h.published frame hpublished, fun _ => h.published frame hpublished⟩

/-- The pixels of a frame that may be served are as many as its sides say on the wire. -/
theorem toNat_area {a b : UInt32} (h : a.toNat * b.toNat ≤ maxPixels) :
    a.toUInt16.toNat * b.toUInt16.toNat = a.toNat * b.toNat := by
  rw [UInt32.toNat_toUInt16, UInt32.toNat_toUInt16]
  unfold maxPixels at h
  rcases Nat.eq_zero_or_pos a.toNat with ha | ha
  · simp [ha]
  · rcases Nat.eq_zero_or_pos b.toNat with hb | hb
    · simp [hb]
    · have hale : a.toNat ≤ a.toNat * b.toNat := Nat.le_mul_of_pos_right _ hb
      have hble : b.toNat ≤ a.toNat * b.toNat := Nat.le_mul_of_pos_left _ ha
      rw [Nat.mod_eq_of_lt (by omega), Nat.mod_eq_of_lt (by omega)]

/-- The answer of a view without a source has no geometry. -/
theorem frameReply_of_noSource {req : Wire.FrameRequest} {view : TapView}
    (h : view.hasSource = false) :
    Worker.frameReply req view.frame = { sourceGeneration := UInt32.ofNat view.generation } := by
  unfold Worker.frameReply TapView.frame
  simp [h]

/-- The daemon's frame is the view's, by its id and generation. -/
def TapView.unchanged (view : TapView) (req : Wire.FrameRequest) : Bool :=
  req.sinceFrameId != Wire.sinceFrameNone && view.latest.frameId == req.sinceFrameId &&
    UInt32.ofNat view.generation == req.sinceGeneration

/-- The answer of a view with a source. -/
theorem frameReply_of_hasSource {req : Wire.FrameRequest} {view : TapView}
    (h : view.hasSource = true) :
    Worker.frameReply req view.frame =
      { frameId := view.latest.frameId
        sourceGeneration := UInt32.ofNat view.generation
        width := view.latest.width.toUInt16
        height := view.latest.height.toUInt16
        shades := view.latest.shades.toUInt8
        hasPixels := if view.unchanged req then 0 else 1
        pixels := if view.unchanged req then [] else view.latest.pixels } := by
  unfold Worker.frameReply TapView.frame TapView.unchanged
  simp [h, bne]

/-- **An answer is encoded and read back whole**, with its pixels or without.

**Proof sketch.** The answer's picture is of the size its header says, whether or not there is a
source, so `Encode` accepts it and `Decode` reads it back. -/
theorem decode_frameReply {req : Wire.FrameRequest} {view : TapView}
    (h : view.hasSource = true → Servable content s view.latest) :
    Wire.FrameReply.decode (Wire.FrameReply.encode (Worker.frameReply req view.frame)) =
      some (Worker.frameReply req view.frame) := by
  have hboth : (Worker.frameReply req view.frame).fits ∧
      (Worker.frameReply req view.frame).size ≤ Wire.maxPayloadBytes ∧
      (Worker.frameReply req view.frame).carried = Worker.frameReply req view.frame := by
    cases hsource : view.hasSource with
    | false =>
      rw [frameReply_of_noSource hsource]
      exact ⟨fun hpixels => absurd rfl hpixels, show 14 ≤ Wire.maxPayloadBytes by decide, rfl⟩
    | true =>
      obtain ⟨⟨src, hgenuine⟩, hsize⟩ := h hsource
      rw [frameReply_of_hasSource hsource]
      by_cases hunchanged : view.unchanged req = true
      · simp only [hunchanged, if_true]
        exact ⟨fun hpixels => absurd rfl hpixels, show 14 ≤ Wire.maxPayloadBytes by decide, rfl⟩
      · simp only [hunchanged, if_false, Bool.false_eq_true]
        have harea := hgenuine.size.symm.le.trans hsize
        have hmax : 14 + maxPixels ≤ Wire.maxPayloadBytes := by decide
        refine ⟨fun _ => ?_, ?_, rfl⟩
        · show view.latest.pixels.length = _
          rw [hgenuine.size, hgenuine.width, hgenuine.height]
          exact (toNat_area harea).symm
        · show 14 + view.latest.pixels.length ≤ _
          omega
  have hne : Wire.FrameReply.encode (Worker.frameReply req view.frame) ≠ [] := by
    rw [ne_eq, Wire.FrameReply.coding.encode_eq_nil_iff, not_not]
    exact ⟨hboth.1, hboth.2.1⟩
  rw [Wire.FrameReply.coding.decode_encode hne, hboth.2.2]

/-- A step of the worker before it answers.

**Proof sketch.** Nothing but the view and the asker changed, and those are given. -/
theorem Good.of_asker (h : Good content s) {view : TapView} {asker : Asker}
    (hview : view.latest.width ≠ 0 → Servable content s view.latest)
    (hcopied : ∀ req tapHasSource, asker = .generation req tapHasSource true →
      Servable content s view.latest)
    (hasks : ∀ req, asker.request = some req → req.sinceFrameId = Wire.sinceFrameNone ∨
      s.daemon.held = some (req.sinceFrameId, req.sinceGeneration)) :
    Good content { s with view := view, asker := asker } := by
  have he : Extends s { s with view := view, asker := asker } := .of_eq rfl rfl
  have hmono : ∀ f, Servable content s f →
      Servable content { s with view := view, asker := asker } f := fun f hf => hf.mono he
  exact
    { bounded := h.bounded
      current := h.current
      back := fun hpublishing =>
        let ⟨src, hsrc⟩ := h.back hpublishing
        ⟨src, hsrc.mono he⟩
      published := fun f hf => hmono f (h.published f hf)
      view := fun hwidth => hmono _ (hview hwidth)
      copied := fun req tapHasSource hreq => hmono _ (hcopied req tapHasSource hreq)
      held := fun id generation hheld =>
        let ⟨f, hf, hrest⟩ := h.held id generation hheld
        ⟨f, hmono f hf, hrest⟩
      asks := hasks
      shown := fun reply hreply hwidth hheight =>
        let ⟨f, hf, hrest⟩ := h.shown reply hreply hwidth hheight
        ⟨f, hmono f hf, hrest⟩ }

/-- A view that has a source holds a frame of the generation selected. -/
theorem refreshed_of_hasSource {view : TapView} {tapHasSource haveFrame : Bool} {generation : ℕ}
    (h : (view.refreshed tapHasSource haveFrame generation).hasSource = true) :
    haveFrame = true ∧ view.latest.generation = generation ∧
      (view.refreshed tapHasSource haveFrame generation).generation = view.latest.generation := by
  refine ⟨?_, ?_, if_pos h⟩
  · simp only [TapView.refreshed, Bool.and_eq_true] at h
    exact h.1.2
  · simp only [TapView.refreshed, Bool.and_eq_true, beq_iff_eq] at h
    exact h.2

/-- The daemon after an answer that is read back. -/
theorem Daemon.receive_of_decode {d : Daemon} {payload : Bytes} {reply : Wire.FrameReply}
    (h : Wire.FrameReply.decode payload = some reply) :
    d.receive payload = if reply.hasPixels = 0 then { d with reply := some reply } else
      { held := some (reply.frameId, reply.sourceGeneration), pixels := reply.pixels
        reply := some reply } := by
  unfold Daemon.receive
  rw [h]

/-- **An answer leaves the daemon with the frame it names.**

**Proof sketch.** The frame of the view is servable, so it is what the source showed under its id
and generation. With pixels, the daemon has that frame; without, its id and generation are the ones
the daemon holds, so it has that same frame already. -/
theorem Good.reply (h : Good content s) {req : Wire.FrameRequest} {tapHasSource haveFrame : Bool}
    (hasker : s.asker = .generation req tapHasSource haveFrame) :
    Good content (s.reply req tapHasSource haveFrame) := by
  have he : Extends s (s.reply req tapHasSource haveFrame) := .of_eq rfl rfl
  have hasks := h.asks req (by rw [hasker]; rfl)
  -- the daemon is looked at last: all else is as it was
  suffices hdaemon : ∀ view, view = s.view.refreshed tapHasSource haveFrame s.tap.sourceGeneration →
      ∀ d, d = s.daemon.receive (Wire.FrameReply.encode (Worker.frameReply req view.frame)) →
      (∀ id generation, d.held = some (id, generation) → ∃ f, Servable content s f ∧
        f.frameId = id ∧ UInt32.ofNat f.generation = generation ∧ d.pixels = f.pixels) ∧
      (∀ reply, d.reply = some reply → reply.width ≠ 0 → reply.height ≠ 0 →
        ∃ f, Servable content s f ∧ Names reply f ∧ d.pixels = f.pixels) by
    obtain ⟨hheld, hshown⟩ := hdaemon _ rfl _ rfl
    exact
      { bounded := h.bounded
        current := h.current
        back := fun hpublishing =>
          let ⟨src, hsrc⟩ := h.back hpublishing
          ⟨src, hsrc.mono he⟩
        published := fun f hf => (h.published f hf).mono he
        view := fun hwidth => (h.view hwidth).mono he
        copied := fun _ _ hreq => by cases hreq
        held := fun id generation hid =>
          let ⟨f, hf, hrest⟩ := hheld id generation hid
          ⟨f, hf.mono he, hrest⟩
        asks := fun _ hreq => by cases hreq
        shown := fun reply hreply hwidth hheight =>
          let ⟨f, hf, hrest⟩ := hshown reply hreply hwidth hheight
          ⟨f, hf.mono he, hrest⟩ }
  intro view hview d hd
  have hservable : view.hasSource = true → Servable content s view.latest ∧
      view.latest.generation = s.tap.sourceGeneration ∧
        view.generation = view.latest.generation := by
    intro hsource
    subst hview
    obtain ⟨rfl, hgeneration, hcarried⟩ := refreshed_of_hasSource hsource
    exact ⟨h.copied req tapHasSource hasker, hgeneration, hcarried⟩
  rw [Daemon.receive_of_decode (decode_frameReply fun hsource => (hservable hsource).1)] at hd
  cases hsource : view.hasSource with
  | false =>
    rw [frameReply_of_noSource hsource, if_pos rfl] at hd
    subst hd
    refine ⟨h.held, fun reply hreply hwidth => ?_⟩
    obtain rfl := Option.some.inj hreply
    exact absurd rfl hwidth
  | true =>
    obtain ⟨hlatest, hgeneration, hcarried⟩ := hservable hsource
    rw [frameReply_of_hasSource hsource] at hd
    by_cases hunchanged : view.unchanged req = true
    · -- the daemon holds a frame of this id and generation, which is this one
      simp only [hunchanged, if_true] at hd
      subst hd
      simp only [TapView.unchanged, Bool.and_eq_true, bne_iff_ne, beq_iff_eq] at hunchanged
      obtain ⟨⟨hasked, hid⟩, hsince⟩ := hunchanged
      obtain ⟨f, hf, hfid, hfgeneration, hpixels⟩ := h.held _ _ (hasks.resolve_left hasked)
      refine ⟨h.held, fun reply hreply _ _ => ⟨view.latest, hlatest, ?_, ?_⟩⟩
      · obtain rfl := Option.some.inj hreply
        exact ⟨rfl, congrArg UInt32.ofNat hcarried, rfl, rfl, rfl⟩
      · obtain ⟨⟨src, hgenuine⟩, -⟩ := hlatest
        obtain ⟨⟨src', hgenuine'⟩, -⟩ := hf
        have hsame : f.generation = view.latest.generation := by
          refine generation_inj (hgenuine'.generation.trans_lt h.bounded)
            (hgenuine.generation.trans_lt h.bounded) ?_
          rw [hfgeneration, ← hsince, hcarried]
        show s.daemon.pixels = view.latest.pixels
        rw [hpixels, hgenuine'.pixels, hgenuine.pixels, hsame, hfid, hid]
    · simp only [hunchanged, if_false, Bool.false_eq_true] at hd
      rw [if_neg (by decide)] at hd
      subst hd
      refine ⟨fun id generation hheld => ?_, fun reply hreply _ _ => ?_⟩
      · simp only [Option.some.injEq, Prod.mk.injEq] at hheld
        obtain ⟨rfl, rfl⟩ := hheld
        exact ⟨view.latest, hlatest, rfl, congrArg UInt32.ofNat hcarried.symm, rfl⟩
      · obtain rfl := Option.some.inj hreply
        exact ⟨view.latest, hlatest, ⟨rfl, congrArg UInt32.ofNat hcarried, rfl, rfl, rfl⟩, rfl⟩

/-- **A step keeps the frames genuine.**

**Proof sketch.** By the step: selecting and a generation's move keep the published frames of
earlier generations, capturing is `Good.capture`, and of the worker's steps only the answer reaches
the daemon (`Good.reply`). -/
theorem Good.step {a : Act} (h : Good content s) (hfair : Fair content s a)
    (hstep : step s a = some s') : Good content s' := by
  cases a with
  | select selected same =>
    simp only [Display.step] at hstep
    split at hstep
    · cases hstep
    · split at hstep
      · obtain rfl := Option.some.inj hstep
        exact h
      · rename_i tap hselect
        obtain rfl := Option.some.inj hstep
        have hkept : tap.sourceGeneration = s.tap.sourceGeneration ∧ tap.back = s.tap.back ∧
            tap.published = s.tap.published := by
          unfold Tap.select at hselect
          split at hselect
          · obtain rfl := Option.some.inj hselect
            exact ⟨rfl, rfl, rfl⟩
          · obtain ⟨-, hselect⟩ := Option.ite_none_left_eq_some.mp hselect
            obtain rfl := Option.some.inj hselect
            exact ⟨rfl, rfl, rfl⟩
        obtain ⟨hgeneration, hback, hpublished⟩ := hkept
        have he : Extends s { s with tap := tap, changing := true } := .of_eq hgeneration rfl
        refine h.of_frame he rfl rfl rfl (hgeneration.trans_lt h.bounded) nofun
          (fun hpublishing => ?_) fun f hf => ?_
        · obtain ⟨src, hsrc⟩ := h.back hpublishing
          exact ⟨src, hback.symm ▸ hsrc.mono he⟩
        · exact (h.published f (hpublished ▸ hf)).mono he
  | bump =>
    obtain ⟨-, hstep⟩ := Option.ite_none_right_eq_some.mp hstep
    obtain rfl := Option.some.inj hstep
    exact h.bump (hfair.bumps rfl)
  | capture look =>
    obtain ⟨hguard, hstep⟩ := Option.ite_none_right_eq_some.mp hstep
    obtain rfl := Option.some.inj hstep
    simp only [Bool.and_eq_true, Bool.not_eq_true'] at hguard
    refine h.capture hguard.1.1 hguard.2 ?_
    rintro l rfl hcheck
    exact hfair.whole l rfl hcheck
  | publish =>
    obtain ⟨hpublishing, hstep⟩ := Option.ite_none_right_eq_some.mp hstep
    obtain rfl := Option.some.inj hstep
    have hsame : (s.tap.publish).sourceGeneration = s.tap.sourceGeneration ∧
        s.tap.publish.hasSource = s.tap.hasSource ∧ s.tap.publish.source = s.tap.source := by
      unfold Tap.publish
      split
      · exact ⟨rfl, rfl, rfl⟩
      · exact ⟨rfl, rfl, rfl⟩
    obtain ⟨hgeneration, hhas, hsource⟩ := hsame
    have he : Extends s { s with tap := s.tap.publish, publishing := false } :=
      .of_eq hgeneration rfl
    refine h.of_frame he rfl rfl rfl (hgeneration.trans_lt h.bounded) (fun hchanging => ?_) nofun
      fun f hf => ?_
    · show s.history.sources s.tap.publish.sourceGeneration =
        if s.tap.publish.hasSource then some s.tap.publish.source else none
      rw [hgeneration, hhas, hsource]
      exact h.current hchanging
    · have hcases : s.tap.published = some f ∨
          (f = s.tap.back ∧ s.tap.back.pixels.length ≤ maxPixels) := by
        unfold Tap.publish at hf
        dsimp only at hf
        split at hf
        · exact .inl hf
        · rename_i hsize
          exact .inr ⟨(Option.some.inj hf).symm, Nat.le_of_not_lt hsize⟩
      rcases hcases with hold | ⟨rfl, hsize⟩
      · exact (h.published f hold).mono he
      · have hservable : Servable content s s.tap.back := ⟨h.back hpublishing, hsize⟩
        exact hservable.mono he
  | request req =>
    obtain ⟨-, hstep⟩ := Option.ite_none_right_eq_some.mp hstep
    obtain rfl := Option.some.inj hstep
    refine h.of_asker h.view (fun _ _ hreq => by cases hreq) fun req' hreq => ?_
    obtain rfl := Option.some.inj hreq
    exact hfair.asks req rfl
  | answer torn =>
    simp only [Display.step, State.answer] at hstep
    have hasks := h.asks
    split at hstep
    · cases hstep
    · rename_i req hasker
      obtain rfl := Option.some.inj hstep
      refine h.of_asker h.view (fun _ _ hreq => by cases hreq) fun req' hreq => ?_
      exact hasks req' (by rw [hasker]; exact hreq)
    · rename_i req tapHasSource hasker
      obtain rfl := Option.some.inj hstep
      obtain ⟨hview, hcopied⟩ := h.readLatest torn
      refine h.of_asker hview (fun req' tapHasSource' hreq => hcopied ?_) fun req' hreq => ?_
      · simp only [Asker.generation.injEq] at hreq
        exact hreq.2.2
      · exact hasks req' (by rw [hasker]; exact hreq)
    · rename_i req tapHasSource haveFrame hasker
      obtain rfl := Option.some.inj hstep
      exact h.reply hasker

/-- At the start nothing was captured, and the daemon holds nothing. -/
theorem Good.start : Good content {} where
  bounded := by decide
  current _ := rfl
  back := nofun
  published := nofun
  view hwidth := absurd rfl hwidth
  copied := nofun
  held := nofun
  asks := nofun
  shown := nofun

/-- **A daemon's frame cache never goes stale unnoticed**: in every run, after every answer that has
a geometry the pixels the daemon holds, those of the answer or those it had, are the pixels of the
frame that the answer's id and generation name, with the answer's geometry; and that frame was
captured from the source that was selected under this generation.

**Proof sketch.** A frame is stamped under the mutex that a source is selected under, so it carries
its own source's generation, wherever it is on its way; a view is answered from only while its frame
carries the generation that is read last. An answer without pixels has the id and the generation of
the frame the daemon holds, which is then the same frame, as fewer than `2 ^ 32` generations are
told apart on the wire. -/
theorem never_stale {s : State} (h : system.Reaches (Fair content) s) : UpToDate content s := by
  have hgood : Good content s := by
    refine h.invariant (I := Good content) ?_ fun s a s' hs hfair hstep => hs.step hfair hstep
    rintro s rfl
    exact .start
  exact hgood.upToDate

/-- A check of what the sources and the daemon do. -/
def fairly (content : ℕ → UInt32 → Bytes) (s : State) : Act → Bool
  | .capture (some look) =>
    look.check != look.frameId || look.copied == content s.tap.sourceGeneration look.frameId
  | .bump => s.tap.sourceGeneration + 1 < 2 ^ 32
  | .request req => req.sinceFrameId == Wire.sinceFrameNone ||
    s.daemon.held == some (req.sinceFrameId, req.sinceGeneration)
  | _ => true

/-- The check is sound. -/
theorem fair_of_fairly (s : State) (a : Act) (h : fairly content s a = true) :
    Fair content s a where
  whole := by
    rintro look rfl hcheck
    simpa [fairly, hcheck] using h
  bumps := by
    rintro rfl
    simpa [fairly] using h
  asks := by
    rintro req rfl
    simpa [fairly] using h

/-- A source of two pixels. -/
def twoPixels : DisplaySrcId := { width := 2, height := 1 }

/-- A frame of the source is captured and asked for; and asked for again while the copy tears. -/
def tornRun : List Act :=
  [.select (some twoPixels) false, .bump, .capture (some ⟨5, [1, 2], 5⟩), .publish,
    .request ⟨Wire.sinceFrameNone, 0⟩, .answer false, .answer false, .answer false,
    .request ⟨5, 1⟩, .answer false, .answer true, .answer false]

/-- The second answer carries no pixels, and the daemon holds those of the frame it names. -/
theorem never_stale_tornRun : ∃ s : State,
    s.daemon.reply = some
      { frameId := 5, sourceGeneration := 1, width := 2, height := 1, shades := 4 } ∧
    s.daemon.pixels = [1, 2] ∧ UpToDate (fun _ _ => [1, 2]) s := by
  have hrun : (Runs.runOf step {} tornRun).any (fun s => decide (s.daemon.reply = some
      { frameId := 5, sourceGeneration := 1, width := 2, height := 1, shades := 4 } ∧
      s.daemon.pixels = [1, 2])) = true := by decide +kernel
  have halong : Runs.holdsAlong step (fairly fun _ _ => [1, 2]) {} tornRun = true := by
    decide +kernel
  obtain ⟨s, hs, hfinal⟩ := (Option.any_eq_true _ _).mp hrun
  have hfinal := of_decide_eq_true hfinal
  refine ⟨s, hfinal.1, hfinal.2, never_stale ?_⟩
  exact Runs.System.Reaches.runOf fair_of_fairly tornRun (.init rfl) halong hs

end Display
