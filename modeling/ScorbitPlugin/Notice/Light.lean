import ScorbitPlugin.Notice.Notifier

set_option relaxedAutoImplicit false
set_option autoImplicit false

/-!
# The status light and its caption

`LightFor` and `CaptionFor` of `src/StatusLight.cpp`: two dots, a ring and a glyph for the current
record, and the words beside them. Each is computed from the record by itself.

## Main definitions

* `Notice.LightView`, `Notice.lightFor`, `Notice.captionFor`.
* `Notice.WordsMatch` — what is claimed of the two.
* `Notice.HidesUnknown` — the records where the glyph does not say that a value is unknown.

## Main results

* `Notice.words_match_iff` — the words match the light except for these.
* `Notice.not_words_match` — and there is one.
-/

namespace Notice

open Codec

/-! ## The light -/

/-- `LightRgb`. -/
structure LightRgb where
  r : UInt8 := 0
  g : UInt8 := 0
  b : UInt8 := 0
deriving DecidableEq, Repr

/-- `LightDot`. -/
structure LightDot where
  lit : Bool := false
  rgb : LightRgb := {}
  onMs : UInt16 := 0
  offMs : UInt16 := 0
deriving DecidableEq, Repr

/-- `LightRing`. -/
inductive LightRing
  | dark
  | rainbow
  | solid
deriving DecidableEq, Repr

/-- `LightGlyph`. -/
inductive LightGlyph
  | none
  | problem
  | unknown
deriving DecidableEq, Repr

/-- `LightView`. -/
structure LightView where
  visible : Bool := false
  system : LightDot := {}
  session : LightDot := {}
  ring : LightRing := .dark
  ringRgb : LightRgb := {}
  glyph : LightGlyph := .none
deriving DecidableEq, Repr

namespace Light

/-- `RED`. -/
def red : LightRgb := ⟨255, 0, 0⟩

/-- `GREEN`. -/
def green : LightRgb := ⟨0, 255, 0⟩

/-- `BLUE`. -/
def blue : LightRgb := ⟨0, 0, 255⟩

/-- `AMBER`. -/
def amber : LightRgb := ⟨255, 191, 0⟩

/-- `ORANGE`. -/
def orange : LightRgb := ⟨255, 165, 0⟩

/-- `PURPLE`. -/
def purple : LightRgb := ⟨255, 0, 255⟩

end Light

/-- `SystemDot`, `none` for a value this build does not know. -/
def systemDot (state : UInt8) : Option LightDot :=
  let blink (rgb : LightRgb) : LightDot := { lit := true, rgb, onMs := 1200, offMs := 100 }
  if state = systemOk then some (blink Light.green)
  else if state = systemUnpaired then some (blink Light.red)
  else if state = systemOffline then some (blink Light.orange)
  else if state = systemDegraded then some (blink Light.purple)
  else none

/-- `SessionDot`, `none` for a value this build does not know: no credentials first, then the game
state. -/
def sessionDot (state : UInt8) (unauthorized : Bool) : Option LightDot :=
  let blink (rgb : LightRgb) : LightDot :=
    { lit := true, rgb, onMs := 29 * 41, offMs := 3 * 41 }
  if unauthorized then some (blink Light.red)
  else if state = sessionNone then some (blink Light.blue)
  else if state = sessionTracking then some (blink Light.green)
  else if state = sessionNoData then some (blink Light.amber)
  else none

/-- The daemon has no credentials, or they were refused. -/
def unauthorized (s : Wire.Status) : Bool :=
  s.hasAuthStatus && (s.authStatus == authNotAuthenticated || s.authStatus == Wire.authFailed)

/-- The authentication state says unpaired. -/
def authSaysUnpaired (s : Wire.Status) : Bool := s.hasAuthStatus && s.authStatus == authUnpaired

/-- The system state the light shows: either one can say unpaired. -/
def shownSystem (s : Wire.Status) : UInt8 :=
  if authSaysUnpaired s && s.systemState == systemOk then systemUnpaired else s.systemState

/-- The glyph of a status. -/
def glyphFor (s : Wire.Status) : LightGlyph :=
  if (systemDot (shownSystem s)).isNone || (sessionDot s.sessionState (unauthorized s)).isNone then
    .unknown
  else if unauthorized s || authSaysUnpaired s || shownSystem s != systemOk
      || s.sessionState == sessionNoData then .problem
  else .none

/-- The ring of a status, with its colour. -/
def ringFor (s : Wire.Status) : LightRing × LightRgb :=
  if unauthorized s || authSaysUnpaired s || shownSystem s == systemUnpaired then
    (.solid, Light.red)
  else if glyphFor s = .none ∧ s.sessionState = sessionNone then (.rainbow, {})
  else (.dark, {})

/-- `LightFor`. -/
def lightFor (record : StatusRecord) (now : Time) (shown : LightView) : LightView :=
  if !record.inSession then
    if now - record.since < noSessionAfter then shown
    else { visible := true, ring := .solid, ringRgb := Light.blue, glyph := .problem }
  else if !record.haveStatus then shown
  else if record.status.sessionState = sessionHidden then {}
  else
    let s := record.status
    { visible := true
      system := (systemDot (shownSystem s)).getD {}
      session := (sessionDot s.sessionState (unauthorized s)).getD {}
      ring := (ringFor s).1
      ringRgb := (ringFor s).2
      glyph := glyphFor s }

/-- `CaptionFor`. -/
def captionFor (record : StatusRecord) (now : Time) : Bytes :=
  if !record.inSession then
    if now - record.since < noSessionAfter then [] else describeNoSession record.reason
  else if !record.haveStatus || record.status.sessionState == sessionHidden then []
  else describe record.status

/-! ## Words and colours -/

/-- The marker that goes with a glyph. -/
def LightGlyph.mark : LightGlyph → Bytes
  | .none => okMark
  | .problem => warningMark
  | .unknown => text "[?]"

/-- Words and light agree: beside a caption the light is visible, and its glyph is the one of the
caption's leading marker. -/
def WordsMatch (record : StatusRecord) (now : Time) (shown : LightView) : Prop :=
  captionFor record now ≠ [] →
    (lightFor record now shown).visible = true ∧
      ∀ glyph : LightGlyph, (lightFor record now shown).glyph = glyph ↔
        glyph.mark.isPrefixOf (captionFor record now) = true

/-- **The records that do not match**: a session state this build does not know, with a system
state it knows and no credentials, which come first in the session's dot. -/
def HidesUnknown (record : StatusRecord) : Bool :=
  record.inSession && record.haveStatus && unauthorized record.status
    && !knownSession record.status.sessionState && knownSystem record.status.systemState

/-! ## Markers -/

/-- The glyph that goes with the marker of a status. -/
def markedGlyph (s : Wire.Status) : LightGlyph :=
  if !knownSession s.sessionState || !knownSystem s.systemState then .unknown
  else if s.sessionState = sessionNoData ∨ s.systemState ≠ systemOk ∨ (authProblem s).isSome then
    .problem
  else .none

/-- The marker of a status is the mark of its glyph. -/
theorem marker_eq (s : Wire.Status) : marker s = (markedGlyph s).mark := by
  unfold marker markedGlyph
  split
  · rfl
  · split <;> rfl

/-- A marker is told from its second character. -/
theorem isPrefixOf_mark (glyph glyph' : LightGlyph) (rest : Bytes) :
    glyph.mark.isPrefixOf (glyph'.mark ++ rest) = true ↔ glyph' = glyph := by
  have hok : okMark = [91, 79, 75, 93] := by decide +kernel
  have hwarning : warningMark = [91, 33, 93] := by decide +kernel
  have hunknown : text "[?]" = [91, 63, 93] := by decide +kernel
  cases glyph <;> cases glyph' <;>
    simp [LightGlyph.mark, hok, hwarning, hunknown, List.isPrefixOf]

/-- A caption that begins with a glyph's marker matches exactly that glyph. -/
theorem match_iff {view : LightView} (glyph : LightGlyph) {caption rest : Bytes}
    (hvisible : view.visible = true) (hcaption : caption = glyph.mark ++ rest) :
    (view.visible = true ∧ ∀ glyph' : LightGlyph, view.glyph = glyph' ↔
      glyph'.mark.isPrefixOf caption = true) ↔ view.glyph = glyph := by
  subst hcaption
  constructor
  · rintro ⟨-, h⟩
    exact (h glyph).mpr ((isPrefixOf_mark glyph glyph rest).mpr rfl)
  · intro h
    refine ⟨hvisible, fun glyph' => ?_⟩
    rw [isPrefixOf_mark, h]

/-- A marker is no empty text. -/
theorem mark_append_ne_nil (glyph : LightGlyph) (rest : Bytes) : glyph.mark ++ rest ≠ [] := by
  have hmark : glyph.mark ≠ [] := by
    cases glyph <;> decide +kernel
  exact List.append_ne_nil_of_left_ne_nil hmark rest

/-- A caption of a status begins with its marker. -/
theorem describe_eq {s : Wire.Status} (hshown : s.sessionState ≠ sessionHidden) :
    ∃ rest, describe s = (markedGlyph s).mark ++ rest := by
  rw [describe, if_neg hshown, ← marker_eq, withSupport]
  simp only [List.append_assoc]
  exact ⟨_, rfl⟩

/-- The caption without a session is a warning. -/
theorem describeNoSession_eq (reason : Bytes) :
    ∃ rest, describeNoSession reason = LightGlyph.problem.mark ++ rest := by
  have hline : text "[!] Scorbit: no data, no connection to the Scorbit daemon" =
      LightGlyph.problem.mark ++
        text " Scorbit: no data, no connection to the Scorbit daemon" := by
    decide +kernel
  rw [describeNoSession, withSupport, hline, List.append_assoc]
  exact ⟨_, rfl⟩

/-! ## The two agree on what is known -/

/-- The light knows the system states that the words know. -/
theorem isNone_systemDot_iff (state : UInt8) :
    (systemDot state).isNone = true ↔ knownSystem state = false := by
  unfold systemDot knownSystem
  simp only [systemOk, systemUnpaired, systemOffline, systemDegraded, decide_eq_false_iff_not,
    UInt8.le_iff_toNat_le, ← UInt8.toNat_inj, UInt8.reduceToNat]
  split_ifs with hok hunpaired hoffline hdegraded
  · simp [hok]
  · simp [hunpaired]
  · simp [hoffline]
  · simp [hdegraded]
  · simp only [Option.isNone_none, true_iff]
    omega

/-- Saying unpaired leaves a known state known.

**Proof sketch.** Unpaired is only said for a state that is ok, and both are known; for every other
state the shown one is the state itself. -/
theorem isNone_systemDot (s : Wire.Status) :
    (systemDot (shownSystem s)).isNone = !knownSystem s.systemState := by
  have hknown : knownSystem (shownSystem s) = knownSystem s.systemState := by
    unfold shownSystem
    split
    · rename_i hunpaired
      obtain ⟨-, hok⟩ := Bool.and_eq_true_iff.mp hunpaired
      rw [beq_iff_eq.mp hok]
      decide
    · rfl
  have hdot := isNone_systemDot_iff (shownSystem s)
  rw [hknown] at hdot
  cases hs : knownSystem s.systemState <;> cases hd : (systemDot (shownSystem s)).isNone <;>
    simp [hs, hd] at hdot ⊢

/-- The light takes every session state for known where there are no credentials.

**Proof sketch.** Without credentials the light takes any state for a problem. With them the three
states it knows have a colour, and the hidden one is excluded. -/
theorem isNone_sessionDot {s : Wire.Status} (hshown : s.sessionState ≠ sessionHidden) :
    (sessionDot s.sessionState (unauthorized s)).isNone =
      (!unauthorized s && !knownSession s.sessionState) := by
  unfold sessionDot knownSession
  cases unauthorized s with
  | true => rfl
  | false =>
    have hhidden : (s.sessionState == sessionHidden) = false := beq_eq_false_iff_ne.mpr hshown
    rw [hhidden]
    by_cases hnone : s.sessionState = sessionNone
    · rw [hnone]
      decide
    · by_cases htracking : s.sessionState = sessionTracking
      · rw [htracking]
        decide
      · by_cases hdata : s.sessionState = sessionNoData
        · rw [hdata]
          decide
        · simp [hnone, htracking, hdata]

/-- The words have an authentication problem exactly if the light has one that the system state
does not tell already.

**Proof sketch.** By the auth status, in the order in which the words look at it: not authenticated,
failed, unpaired, any other. -/
theorem isSome_authProblem (s : Wire.Status) :
    (authProblem s).isSome =
      (unauthorized s || authSaysUnpaired s && s.systemState == systemOk) := by
  have hfailedNot : Wire.authFailed ≠ authNotAuthenticated := by decide
  have hunpairedNot : authUnpaired ≠ authNotAuthenticated := by decide
  have hunpairedFailed : authUnpaired ≠ Wire.authFailed := by decide
  unfold authProblem unauthorized authSaysUnpaired
  cases s.hasAuthStatus with
  | false => rfl
  | true =>
    by_cases hnot : s.authStatus = authNotAuthenticated
    · simp [hnot]
    · by_cases hfailed : s.authStatus = Wire.authFailed
      · simp [hfailed, hfailedNot]
      · by_cases hunpaired : s.authStatus = authUnpaired
        · by_cases hok : s.systemState = systemOk
          · simp [hunpaired, hok, hunpairedNot, hunpairedFailed]
          · simp [hunpaired, hok, hunpairedNot, hunpairedFailed]
        · simp [hnot, hfailed, hunpaired]

/-- The light and the words see the same problems. -/
theorem problem_iff (s : Wire.Status) :
    (unauthorized s || authSaysUnpaired s || shownSystem s != systemOk
        || s.sessionState == sessionNoData) = true ↔
      (s.sessionState = sessionNoData ∨ s.systemState ≠ systemOk ∨
        (authProblem s).isSome = true) := by
  rw [isSome_authProblem]
  unfold shownSystem
  by_cases hok : s.systemState = systemOk
  · cases authSaysUnpaired s <;> cases unauthorized s <;> simp [hok]
  · cases authSaysUnpaired s <;> cases unauthorized s <;> simp [hok]

/-- **The glyph is the marker's** except where an unknown session state has no credentials. -/
theorem glyphFor_eq_iff {s : Wire.Status} (hshown : s.sessionState ≠ sessionHidden) :
    glyphFor s = markedGlyph s ↔
      (unauthorized s && !knownSession s.sessionState && knownSystem s.systemState) = false := by
  have hproblem := problem_iff s
  have hauth := isSome_authProblem s
  unfold glyphFor markedGlyph
  rw [isNone_systemDot, isNone_sessionDot hshown]
  simp only [← hproblem]
  cases hu : unauthorized s with
  | false => cases knownSystem s.systemState <;> cases knownSession s.sessionState <;> simp
  | true => cases knownSystem s.systemState <;> cases knownSession s.sessionState <;> simp

/-- **The words match the light** for a record exactly if it does not hide an unknown session state
behind missing credentials: for every record, time and light shown before.

**Proof sketch.** A caption begins with the marker of `markedGlyph`, and a marker is told from its
second character, so words and light match exactly if the light's glyph is that one. Both know the
same system states and see the same problems; the light's session dot is red without credentials
before it looks at the session state (`glyphFor_eq_iff`). -/
theorem words_match_iff (record : StatusRecord) (now : Time) (shown : LightView) :
    WordsMatch record now shown ↔ HidesUnknown record = false := by
  unfold WordsMatch HidesUnknown
  cases hsession : record.inSession with
  | false =>
    by_cases hgrace : now - record.since < noSessionAfter
    · have hcaption : captionFor record now = [] := by simp [captionFor, hsession, hgrace]
      simp [hcaption]
    · have hcaption : captionFor record now = describeNoSession record.reason := by
        simp [captionFor, hsession, hgrace]
      have hlight : lightFor record now shown =
          { visible := true, ring := .solid, ringRgb := Light.blue, glyph := .problem } := by
        simp [lightFor, hsession, hgrace]
      obtain ⟨rest, hrest⟩ := describeNoSession_eq record.reason
      rw [hcaption, hlight, Bool.false_and, Bool.false_and, Bool.false_and, Bool.false_and]
      exact iff_of_true (fun _ => (match_iff .problem rfl hrest).mpr rfl) rfl
  | true =>
    cases hstatus : record.haveStatus with
    | false =>
      have hcaption : captionFor record now = [] := by simp [captionFor, hsession, hstatus]
      simp [hcaption]
    | true =>
      by_cases hhidden : record.status.sessionState = sessionHidden
      · have hcaption : captionFor record now = [] := by
          simp [captionFor, hsession, hstatus, hhidden]
        have hknown : knownSession sessionHidden = true := by decide
        simp [hcaption, hhidden, hknown]
      · have hcaption : captionFor record now = describe record.status := by
          simp [captionFor, hsession, hstatus, hhidden]
        have hvisible : (lightFor record now shown).visible = true := by
          simp [lightFor, hsession, hstatus, hhidden]
        have hglyph : (lightFor record now shown).glyph = glyphFor record.status := by
          simp [lightFor, hsession, hstatus, hhidden]
        obtain ⟨rest, hrest⟩ := describe_eq hhidden
        rw [hcaption, match_iff _ hvisible hrest, hglyph, glyphFor_eq_iff hhidden, Bool.true_and,
          Bool.true_and]
        refine ⟨fun h => h ?_, fun h _ => h⟩
        rw [hrest]
        exact mark_append_ne_nil _ rest

/-- A session state of a later version, from a daemon without credentials. -/
def unknownState : StatusRecord :=
  { inSession := true
    haveStatus := true
    status := { sessionState := 9, hasAuthStatus := true, authStatus := authNotAuthenticated } }

/-- Its caption begins with `[?]`, and the light shows a problem. -/
theorem not_words_match : ¬ ∀ (record : StatusRecord) (now : Time) (shown : LightView),
    WordsMatch record now shown := by
  intro h
  obtain ⟨-, hglyph⟩ := h unknownState 0 {} (by decide +kernel)
  have hunknown : (lightFor unknownState 0 {}).glyph = .unknown :=
    (hglyph .unknown).mpr (by decide +kernel)
  exact absurd hunknown (by decide +kernel)

end Notice
