import Mathlib.Algebra.Order.Ring.Int
import ScorbitPlugin.Runs.System
import ScorbitPlugin.Wire.Payloads

set_option relaxedAutoImplicit false
set_option autoImplicit false

/-!
# The status notifier

`StatusNotifier` of `src/StatusNotice.cpp`: from the record the worker last posted, it decides once
per rendered frame whether VPX's notification is posted or taken down. `Frame` is one function of
the source; here it is cut where it returns.

Texts are bytes, as everywhere on the wire. A `time_point` is its count of nanoseconds, and one that
is compared with `time_point { }` is an option.

## Main definitions

* `Notice.describe`, `Notice.describeNoSession`, `Notice.describeEarlier` — the texts.
* `Notice.StatusHistory`, `Notice.StatusRecord` — what the worker posts.
* `Notice.StatusNotifier` — the notifier, with `newTable`, `tableEnded`, `gameStarted`, `gameEnded`.
* `Notice.StatusNotifier.frame` — one frame.

## Main results

* `Notice.StatusNotifier.text_ne_summary` — what is reported of a game is never the text of a
  state.
-/

namespace Notice

open Codec

/-- A `time_point`, in nanoseconds. -/
abbrev Time := ℤ

/-- `std::chrono::seconds`. -/
def seconds (n : ℤ) : ℤ := n * 10 ^ 9

/-- `std::chrono::milliseconds`. -/
def milliseconds (n : ℤ) : ℤ := n * 10 ^ 6

/-- `NO_SESSION_AFTER`. -/
def noSessionAfter : ℤ := seconds 5

/-- `REFRESH_EVERY`. -/
def refreshEvery : ℤ := seconds 60

/-- `NOTICE_LIFETIME`. -/
def noticeLifetime : ℤ := seconds 5

/-- `ROM_GAME_LOST_AFTER`. -/
def romGameLostAfter : ℤ := seconds 120

/-- `NOTICES_NEVER`. -/
def noticesNever : ℤ := 0

/-- `NOTICES_OUTSIDE_GAME`. -/
def noticesOutsideGame : ℤ := 1

/-! ## Texts -/

/-- `SESSION_NONE`. -/
def sessionNone : UInt8 := 0

/-- `SESSION_TRACKING`. -/
def sessionTracking : UInt8 := 1

/-- `SESSION_NO_DATA`. -/
def sessionNoData : UInt8 := 2

/-- `SESSION_HIDDEN`. -/
def sessionHidden : UInt8 := 4

/-- `SYSTEM_OK`. -/
def systemOk : UInt8 := 0

/-- `SYSTEM_UNPAIRED`. -/
def systemUnpaired : UInt8 := 1

/-- `SYSTEM_OFFLINE`. -/
def systemOffline : UInt8 := 2

/-- `SYSTEM_DEGRADED`. -/
def systemDegraded : UInt8 := 3

/-- `AUTH_NOT_AUTHENTICATED`. -/
def authNotAuthenticated : UInt8 := 0

/-- `AUTH_UNPAIRED`. -/
def authUnpaired : UInt8 := 3

/-- The bytes of a literal. -/
def text (s : String) : Bytes := s.toUTF8.toList

/-- `Unknown`. -/
def unknown (value : UInt8) : Bytes := text ("unknown (" ++ toString value.toNat ++ ")")

/-- `SessionName`. -/
def sessionName (value : UInt8) : Bytes :=
  if value = sessionNone then text "no game"
  else if value = sessionTracking then text "tracking"
  else if value = sessionNoData then text "no data"
  else if value = sessionHidden then text "hidden"
  else unknown value

/-- `SystemName`. -/
def systemName (value : UInt8) : Bytes :=
  if value = systemOk then text "ok"
  else if value = systemUnpaired then text "not paired"
  else if value = systemOffline then text "offline"
  else if value = systemDegraded then text "degraded"
  else unknown value

/-- `KnownSession`. -/
def knownSession (value : UInt8) : Bool :=
  value == sessionNone || value == sessionTracking || value == sessionNoData
    || value == sessionHidden

/-- `KnownSystem`. -/
def knownSystem (value : UInt8) : Bool := value ≤ systemDegraded

/-- `AuthProblem`. -/
def authProblem (status : Wire.Status) : Option Bytes :=
  if !status.hasAuthStatus then none
  else if status.authStatus = authNotAuthenticated then some (text "not authenticated")
  else if status.authStatus = Wire.authFailed then some (text "authentication failed")
  else if status.authStatus = authUnpaired then
    if status.systemState = systemOk then some (text "not paired") else none
  else none

/-- `[!]`. -/
def warningMark : Bytes := text "[!]"

/-- `[OK]`. -/
def okMark : Bytes := text "[OK]"

/-- `Marker`. -/
def marker (status : Wire.Status) : Bytes :=
  if !knownSession status.sessionState || !knownSystem status.systemState then text "[?]"
  else if status.sessionState = sessionNoData ∨ status.systemState ≠ systemOk
      ∨ (authProblem status).isSome then warningMark
  else okMark

/-- A text followed by the support text, when there is one. -/
def withSupport (described support : Bytes) : Bytes :=
  described ++ if support = [] then [] else text " - " ++ support

/-- `Describe`. -/
def describe (status : Wire.Status) : Bytes :=
  if status.sessionState = sessionHidden then
    withSupport (text "Scorbit: hidden") status.supportText
  else
    withSupport (marker status ++ text " Scorbit: " ++ sessionName status.sessionState ++ text ", "
      ++ (authProblem status).getD (systemName status.systemState)) status.supportText

/-- `DescribeNoSession`. -/
def describeNoSession (reason : Bytes) : Bytes :=
  withSupport (text "[!] Scorbit: no data, no connection to the Scorbit daemon") reason

/-- `std::string::find`. -/
def find (head : Bytes) : Bytes → Option ℕ
  | [] => if head = [] then some 0 else none
  | b :: s => if head.isPrefixOf (b :: s) then some 0 else (find head s).map (· + 1)

/-- `DescribeEarlier`. -/
def describeEarlier (described : Bytes) : Bytes :=
  let head := text "] Scorbit: "
  match find head described with
  | none => text "During the game: " ++ described
  | some i =>
    described.take i ++ text "] Scorbit, during the game: " ++ described.drop (i + head.length)

/-- The text is a `[!]` one. -/
def warns (described : Bytes) : Bool := warningMark.isPrefixOf described

/-! ## Records -/

/-- `StatusHistory`. -/
structure StatusHistory where
  romGame : Bool := false
  romGames : UInt32 := 0
  romGameEndsAt : Option Time := none
  warnings : UInt32 := 0
  lastWarning : Bytes := []
  warningsAtGameStart : UInt32 := 0
deriving DecidableEq, Repr

/-- `StatusRecord`. -/
structure StatusRecord where
  inSession : Bool := false
  haveStatus : Bool := false
  status : Wire.Status := {}
  reason : Bytes := []
  since : Time := 0
  history : StatusHistory := {}
deriving DecidableEq, Repr

/-- `NoticeAction`. -/
inductive NoticeAction
  | none
  | post (text : Bytes)
  | expire (text : Bytes)
deriving DecidableEq, Repr

/-- The text of an action. -/
def NoticeAction.text : NoticeAction → Bytes
  | none => []
  | post text | expire text => text

/-- `StatusNotifier`. -/
structure StatusNotifier where
  current : StatusRecord := {}
  posted : Bytes := []
  postedAt : Time := 0
  inGame : Bool := false
  authoredGame : Bool := false
  authoredGames : UInt32 := 0
  authoredStartWarnings : UInt32 := 0
  authoredLast : Bool := false
  seenStarts : UInt32 := 0
  warningsAtStart : UInt32 := 0
  lostInGame : Bool := false
  lostText : Bytes := []
  afterGame : Bool := false
deriving DecidableEq, Repr

namespace StatusNotifier

variable (n : StatusNotifier)

/-- The constructor. -/
def create (start : Time) : StatusNotifier := { current := { since := start } }

/-- `TableEnded`. -/
def tableEnded : StatusNotifier :=
  { n with
    inGame := false
    authoredGame := false
    lostInGame := false
    afterGame := false
    current := { n.current with
      history := { n.current.history with romGame := false, romGameEndsAt := none } } }

/-- `NewTable`. -/
def newTable : StatusNotifier := { n with posted := [] }.tableEnded

/-- `GameStarted`. -/
def gameStarted (warningsNow : UInt32) : StatusNotifier :=
  { n with
    authoredGame := true
    authoredGames := n.authoredGames + 1
    authoredStartWarnings := warningsNow }

/-- `GameEnded`. -/
def gameEnded : StatusNotifier := { n with authoredGame := false }

/-- `Want`. -/
def want (now : Time) : Bytes :=
  if n.current.inSession then
    if n.current.haveStatus then describe n.current.status else []
  else if now - n.current.since ≥ noSessionAfter then describeNoSession n.current.reason
  else []

/-- `RomGameInProgress`. -/
def romGameInProgress (now : Time) : Bool :=
  let h := n.current.history
  if !h.romGame then false
  else if h.romGameEndsAt.any (· ≤ now) then false
  else if !n.current.inSession && now - n.current.since ≥ romGameLostAfter then false
  else true

/-! ## A frame -/

/-- The start of `Frame`: the record taken. -/
def take (taken : Option StatusRecord) : StatusNotifier :=
  match taken with
  | none => n
  | some record => { n with current := record }

/-- `starts`, for a table's kind. -/
def starts (authored : Bool) : UInt32 :=
  if authored then n.authoredGames else n.current.history.romGames

/-- `startedSince`: the start count moved since the last frame of the same kind. -/
def startedSince (notices : ℤ) (authored : Bool) : Bool :=
  notices == noticesOutsideGame && authored == n.authoredLast && n.starts authored != n.seenStarts

/-- `inGame`. -/
def gameNow (notices : ℤ) (authored : Bool) (now : Time) : Bool :=
  notices == noticesOutsideGame && if authored then n.authoredGame else n.romGameInProgress now

/-- `started`. -/
def started (notices : ℤ) (authored : Bool) (now : Time) : Bool :=
  !n.inGame && (n.gameNow notices authored now || n.startedSince notices authored)

/-- `ended`. -/
def ended (notices : ℤ) (authored : Bool) (now : Time) : Bool :=
  (n.inGame || n.startedSince notices authored) && !n.gameNow notices authored now

/-- `Frame` up to the warning baseline. -/
def follow (notices : ℤ) (authored : Bool) (now : Time) : StatusNotifier :=
  let started := n.started notices authored now
  { n with
    authoredLast := authored
    seenStarts := n.starts authored
    inGame := n.gameNow notices authored now
    warningsAtStart :=
      if started then
        if authored then n.authoredStartWarnings else n.current.history.warningsAtGameStart
      else n.warningsAtStart
    lostInGame := !started && n.lostInGame
    afterGame := !started && n.afterGame }

/-- Nothing may be shown. -/
def suppressed (showStatus : Bool) (notices : ℤ) : Bool :=
  !showStatus || notices == noticesNever
    || (n.current.inSession && n.current.haveStatus
      && n.current.status.sessionState == sessionHidden)

/-- The posted notice is still on screen. -/
def young (now : Time) : Bool := !n.posted.isEmpty && now - n.postedAt < noticeLifetime

/-- `Frame` in a game. -/
def inGameFrame (started : Bool) (now : Time) : NoticeAction × StatusNotifier :=
  let action := if started && n.young now then .expire n.posted else .none
  if !n.current.inSession && warns (n.want now) then
    (action, { n with lostInGame := true, lostText := n.want now })
  else (action, n)

/-- A warning of the daemon is what the end of a game reports. -/
def reportsWarning (now : Time) : Bool :=
  !warns (n.want now) && n.current.history.warnings != n.warningsAtStart
    && !n.current.history.lastWarning.isEmpty

/-- What the end of a game posts. -/
def endAction (now : Time) : NoticeAction :=
  if warns (n.want now) then .post (n.want now)
  else if n.reportsWarning now then .post (describeEarlier n.current.history.lastWarning)
  else if n.lostInGame then .post (describeEarlier n.lostText)
  else .none

/-- `Frame` at the end of a game. -/
def endFrame (authored : Bool) (now : Time) : NoticeAction × StatusNotifier :=
  let action := n.endAction now
  (action, { n with
    posted := if n.want now = [] then action.text else n.want now
    postedAt := if action = .none then n.postedAt else now
    lostInGame := false
    afterGame := authored })

/-- The daemon's own end of a script's game: not news. -/
def settles (now : Time) : Bool := n.afterGame && okMark.isPrefixOf (n.want now)

/-- `Frame` outside a game. -/
def outside (now : Time) : NoticeAction × StatusNotifier :=
  if n.want now = [] then (.none, n)
  else if n.settles now then
    (.none, if n.want now = n.posted then n
      else { n with posted := n.want now, afterGame := false })
  else if n.want now = n.posted ∧ !(warns (n.want now) && now - n.postedAt ≥ refreshEvery) then
    (.none, n)
  else (.post (n.want now), { n with posted := n.want now, postedAt := now, afterGame := false })

/-- `Frame`. -/
def frame (taken : Option StatusRecord) (showStatus : Bool) (notices : ℤ) (authored : Bool)
    (now : Time) : NoticeAction × StatusNotifier :=
  let n := n.take taken
  let started := n.started notices authored now
  let ended := n.ended notices authored now
  let n := n.follow notices authored now
  if n.suppressed showStatus notices then (.none, { n with posted := [] })
  else if n.inGame then n.inGameFrame started now
  else if ended then n.endFrame authored now
  else n.outside now

variable {n} {taken : Option StatusRecord} {showStatus authored : Bool} {notices : ℤ} {now : Time}

/-- A frame while nothing may be shown. -/
theorem frame_suppressed (h : (n.take taken).suppressed showStatus notices = true) :
    n.frame taken showStatus notices authored now =
      (.none, { (n.take taken).follow notices authored now with posted := [] }) :=
  if_pos h

/-- A frame in a game. -/
theorem frame_inGame (h : (n.take taken).suppressed showStatus notices = false)
    (hg : (n.take taken).gameNow notices authored now = true) :
    n.frame taken showStatus notices authored now =
      ((n.take taken).follow notices authored now).inGameFrame
        ((n.take taken).started notices authored now) now :=
  (if_neg (ne_true_of_eq_false h)).trans (if_pos hg)

/-- A frame at the end of a game. -/
theorem frame_ended (h : (n.take taken).suppressed showStatus notices = false)
    (hg : (n.take taken).gameNow notices authored now = false)
    (he : (n.take taken).ended notices authored now = true) :
    n.frame taken showStatus notices authored now =
      ((n.take taken).follow notices authored now).endFrame authored now :=
  (if_neg (ne_true_of_eq_false h)).trans ((if_neg (ne_true_of_eq_false hg)).trans (if_pos he))

/-- A frame outside a game. -/
theorem frame_outside (h : (n.take taken).suppressed showStatus notices = false)
    (hg : (n.take taken).gameNow notices authored now = false)
    (he : (n.take taken).ended notices authored now = false) :
    n.frame taken showStatus notices authored now =
      ((n.take taken).follow notices authored now).outside now :=
  (if_neg (ne_true_of_eq_false h)).trans
    ((if_neg (ne_true_of_eq_false hg)).trans (if_neg (ne_true_of_eq_false he)))

/-- Outside a game that did not just end, none started. -/
theorem started_of_not_ended (hg : n.gameNow notices authored now = false)
    (he : n.ended notices authored now = false) : n.started notices authored now = false := by
  unfold ended at he
  unfold started
  cases hs : n.startedSince notices authored
  · simp [hg]
  · simp [hg, hs] at he

end StatusNotifier

/-! ## A summary is not a state's text -/

/-- `]`. -/
def bracket : UInt8 := 93

/-- What stands behind the marker of a state's text. -/
def behindMarker : Bytes := text " Scorbit: "

/-- What `DescribeEarlier` writes in its place, with the bracket before it. -/
def duringGame : Bytes := text "] Scorbit, during the game: "

/-- The text behind its first bracket. -/
def afterBracket (s : Bytes) : Bytes := (s.dropWhile (· != bracket)).tail

/-- What stands behind the first bracket, byte by byte. -/
theorem afterBracket_cons (b : UInt8) (s : Bytes) :
    afterBracket (b :: s) = if b = bracket then s else afterBracket s := by
  unfold afterBracket
  by_cases h : b = bracket <;> simp [h]

/-- The text with its first marker's end replaced, when there is one. -/
def marked (described : Bytes) : Bytes :=
  match find (bracket :: behindMarker) described with
  | none => described
  | some i => described.take i ++ duringGame ++ described.drop (i + (behindMarker.length + 1))

/-- A summary has the brackets of a marked text.

**Proof sketch.** With the marker found, a summary is the marked text. Without it only words without
a bracket are put in front. -/
theorem afterBracket_describeEarlier (described : Bytes) :
    afterBracket (describeEarlier described) = afterBracket (marked described) := by
  have hhead : text "] Scorbit: " = bracket :: behindMarker := by decide +kernel
  unfold describeEarlier marked
  rw [hhead]
  dsimp only
  cases find (bracket :: behindMarker) described with
  | none =>
    have hskip : ∀ s : Bytes, afterBracket (text "During the game: " ++ s) = afterBracket s := by
      intro s
      have htext : text "During the game: " =
          [68, 117, 114, 105, 110, 103, 32, 116, 104, 101, 32, 103, 97, 109, 101, 58, 32] := by
        decide +kernel
      rw [htext]
      simp [afterBracket_cons, bracket]
    exact hskip described
  | some i => rfl

/-- A byte before the marker is kept.

**Proof sketch.** The marker is not at the byte, so it is looked for behind it and every place is
one further. -/
theorem marked_cons {b : UInt8} {s : Bytes} (h : ¬ bracket :: behindMarker <+: b :: s) :
    marked (b :: s) = b :: marked s := by
  have hnot : (bracket :: behindMarker).isPrefixOf (b :: s) = false := by
    rw [Bool.eq_false_iff]
    exact fun hprefix => h (List.isPrefixOf_iff_prefix.mp hprefix)
  unfold marked
  rw [find, hnot, if_neg Bool.false_ne_true]
  cases find (bracket :: behindMarker) s with
  | none => rfl
  | some i =>
    have hplace : i + 1 + (behindMarker.length + 1) = i + (behindMarker.length + 1) + 1 := by omega
    rw [Option.map_some]
    dsimp only
    rw [hplace, List.take_succ_cons, List.drop_succ_cons, List.cons_append, List.cons_append]

/-- What a marked text begins with, the text does: there is no bracket in it.

**Proof sketch.** The marker is put in front of the first bracket or not at all. What the text
begins with has no bracket, so it lies before the place where it is put. -/
theorem prefix_of_marked {s : Bytes} (h : behindMarker <+: marked s) : behindMarker <+: s := by
  unfold marked at h
  cases hfind : find (bracket :: behindMarker) s with
  | none => rwa [hfind] at h
  | some i =>
    rw [hfind] at h
    dsimp only at h
    rw [List.append_assoc] at h
    rcases Nat.le_total behindMarker.length (s.take i).length with hle | hge
    · exact (List.prefix_of_prefix_length_le h (List.prefix_append _ _) hle).trans
        (List.take_prefix i s)
    · rcases Nat.eq_or_lt_of_le hge with heq | hlt
      · exact (List.prefix_of_prefix_length_le h (List.prefix_append _ _) heq.ge).trans
          (List.take_prefix i s)
      · -- the bracket would stand in what is begun with
        have hduring : duringGame = bracket :: text " Scorbit, during the game: " := by
          decide +kernel
        have hbracket : s.take i ++ [bracket] <+:
            s.take i ++ (duringGame ++ s.drop (i + (behindMarker.length + 1))) := by
          rw [hduring]
          exact ⟨_, by rw [List.append_assoc]; rfl⟩
        have hlength : (s.take i ++ [bracket]).length ≤ behindMarker.length := by
          rw [List.length_append, List.length_singleton]
          exact hlt
        have hin : s.take i ++ [bracket] <+: behindMarker :=
          List.prefix_of_prefix_length_le hbracket h hlength
        have hmem : bracket ∈ behindMarker :=
          hin.subset (List.mem_append_right _ (List.mem_singleton_self _))
        exact absurd hmem (by decide +kernel)

/-- Behind the first bracket of a marked text stands something else. -/
theorem not_prefix_marked (s : Bytes) : ¬ behindMarker <+: afterBracket (marked s) := by
  induction s with
  | nil => decide +kernel
  | cons b s ih =>
    by_cases hhead : bracket :: behindMarker <+: b :: s
    · have hfind : find (bracket :: behindMarker) (b :: s) = some 0 := by
        rw [find, if_pos (List.isPrefixOf_iff_prefix.mpr hhead)]
      unfold marked
      rw [hfind]
      dsimp only
      intro hprefix
      have hduring : duringGame = bracket :: text " Scorbit, during the game: " := by decide +kernel
      rw [List.take_zero, List.nil_append, hduring, List.cons_append, afterBracket_cons,
        if_pos rfl] at hprefix
      have hshort := List.prefix_of_prefix_length_le hprefix (List.prefix_append _ _)
        (by decide +kernel)
      exact absurd hshort (by decide +kernel)
    · rw [marked_cons hhead, afterBracket_cons]
      by_cases hb : b = bracket
      · rw [if_pos hb]
        intro hprefix
        refine hhead ?_
        rw [hb]
        exact List.cons_prefix_cons.mpr ⟨rfl, prefix_of_marked hprefix⟩
      · rw [if_neg hb]
        exact ih

namespace StatusNotifier

variable {n : StatusNotifier} {taken : Option StatusRecord} {showStatus authored : Bool}
  {notices : ℤ} {now : Time}

/-- The text of a state has a marker, unless it is hidden.

**Proof sketch.** The wanted text is that of a lost session, of its state, or none. The first two
begin with a marker, and a hidden state is suppressed. -/
theorem prefix_want (hs : n.suppressed showStatus notices = false) (hne : n.want now ≠ []) :
    behindMarker <+: afterBracket (n.want now) := by
  unfold want at hne ⊢
  cases hin : n.current.inSession with
  | false =>
    rw [hin, if_neg Bool.false_ne_true] at hne
    rw [if_neg Bool.false_ne_true]
    split at hne
    · rename_i hlong
      rw [if_pos hlong]
      have htext : text "[!] Scorbit: no data, no connection to the Scorbit daemon" =
          [91, 33, bracket] ++ (behindMarker ++
            text "no data, no connection to the Scorbit daemon") := by decide +kernel
      unfold describeNoSession withSupport
      rw [htext]
      simp only [List.append_assoc, List.cons_append, afterBracket_cons]
      exact List.prefix_append _ _
    · exact absurd rfl hne
  | true =>
    rw [hin, if_pos rfl] at hne
    rw [if_pos rfl]
    cases hhave : n.current.haveStatus with
    | false =>
      rw [hhave] at hne
      exact absurd rfl hne
    | true =>
      rw [if_pos rfl]
      have hshown : n.current.status.sessionState ≠ sessionHidden := by
        rintro heq
        simp [suppressed, hin, hhave, heq] at hs
      have hmarker : ∀ s, afterBracket (marker n.current.status ++ s) = s := by
        intro s
        unfold marker
        split
        · rw [show text "[?]" = [91, 63, bracket] by decide +kernel]
          simp [afterBracket_cons, bracket]
        · split
          · rw [show warningMark = [91, 33, bracket] by decide +kernel]
            simp [afterBracket_cons, bracket]
          · rw [show okMark = [91, 79, 75, bracket] by decide +kernel]
            simp [afterBracket_cons, bracket]
      unfold describe withSupport
      rw [if_neg hshown]
      simp only [List.append_assoc]
      rw [hmarker]
      exact List.prefix_append _ _

/-- **What is reported of a game is never the text of a state.**

**Proof sketch.** Behind the first bracket a state's text goes on as behind every marker
(`prefix_want`), and a summary does not: `DescribeEarlier` replaces just that
(`not_prefix_marked`). -/
theorem text_ne_summary (hs : n.suppressed showStatus notices = false) (hne : n.want now ≠ [])
    (described : Bytes) : n.want now ≠ describeEarlier described := by
  intro heq
  have hwant := prefix_want hs hne
  rw [heq, afterBracket_describeEarlier] at hwant
  exact not_prefix_marked described hwant

end StatusNotifier

end Notice
