import ScorbitPlugin.Notice.Notifier

set_option relaxedAutoImplicit false
set_option autoImplicit false

/-!
# What the end of a game reports

The worker follows the ROM's game and counts the warnings in every Status, and hands the latest
record over; the script's game is followed by its commits; and the notifier compares the count at
the end of a game with the one at its start. It takes the count of a start only at a frame that was
not in a game: a start after another game, with no frame between, leaves it at the earlier start's.

## Main definitions

* `Notice.Follower` — the worker's side: `FollowGame`, `NoSession` and the session's start.
* `Notice.Table`, `Notice.table` — both sides, with the latch between, and the calls in any order.
* `Notice.Account` — history: the warnings received, and those received when each game started.
* `Notice.ReportsOwnGame` — what is claimed of a frame.

## Main results

* `Notice.StatusNotifier.posts_warning_iff` — a frame posts what is said of a warning just when it
  is at a game's end and reports the last one.
* `Notice.reports_own_game` — it holds of every frame of a run whose frames in a game see no other
  start.
* `Notice.not_reports_own_game` — and fails without the condition.
-/

namespace Notice

open Codec

/-! ## The worker -/

/-- The status fields of `SocketWorker`, and the latch it posts to. -/
structure Follower where
  history : StatusHistory := {}
  record : StatusRecord := {}
  sessionStart : Time := 0
  latch : Option StatusRecord := none
deriving DecidableEq, Repr

/-- The Status is a warning: hidden carries no indication. -/
def isWarning (status : Wire.Status) : Bool :=
  status.sessionState != sessionHidden && marker status == warningMark

/-- A warning counts, and its text is kept. -/
def StatusHistory.warn (h : StatusHistory) (status : Wire.Status) : StatusHistory :=
  if isWarning status then
    { h with warnings := h.warnings + 1, lastWarning := describe status }
  else h

/-- A deferred end whose time has come. -/
def StatusHistory.endDue (h : StatusHistory) (now : Time) : StatusHistory :=
  if h.romGameEndsAt.any (· ≤ now) then { h with romGame := false, romGameEndsAt := none } else h

/-- `FollowGame` up to the session state. -/
def StatusHistory.count (h : StatusHistory) (status : Wire.Status) (now : Time) : StatusHistory :=
  (h.warn status).endDue now

namespace Follower

variable (f : Follower) (noGameDeferMs romGameLostMs : ℤ)

/-- `PostStatus`. -/
def postStatus : Follower :=
  { f with
    record := { f.record with history := f.history }
    latch := some { f.record with history := f.history } }

/-- A `tracking` starts a game. -/
def startsGame (status : Wire.Status) (now : Time) : Bool :=
  status.sessionState == sessionTracking && !(f.history.count status now).romGame

/-- `FollowGame`. -/
def followGame (status : Wire.Status) (now : Time) : StatusHistory :=
  let h := f.history.count status now
  if status.sessionState = sessionTracking then
    if h.romGame then { h with romGameEndsAt := none }
    else { h with
      romGame := true, romGames := h.romGames + 1, warningsAtGameStart := f.history.warnings
      romGameEndsAt := none }
  else if status.sessionState = sessionNoData then { h with romGameEndsAt := none }
  else if status.sessionState = sessionNone ∧ h.romGame then
    let settled := f.sessionStart + milliseconds noGameDeferMs
    if now < settled then { h with romGameEndsAt := some (h.romGameEndsAt.getD settled) }
    else { h with romGame := false }
  else h

/-- `AnswerStatus`, for a Status that decodes. -/
def answerStatus (status : Wire.Status) (now : Time) : Follower :=
  { f with
    history := f.followGame noGameDeferMs status now
    record := { f.record with haveStatus := true, status := status } }.postStatus

/-- `Handshake`, from the session's start. -/
def handshake (now : Time) : Follower :=
  let h := f.history
  let lost := h.romGame && !f.record.inSession
    && now - f.record.since ≥ milliseconds romGameLostMs
  { f with
    sessionStart := now
    history := { h with
      romGame := h.romGame && !lost && !h.romGameEndsAt.any (· ≤ now)
      romGameEndsAt := none }
    record := { inSession := true } }.postStatus

/-- `NoSession`. -/
def noSession (reason : Bytes) (now : Time) : Follower :=
  if !f.record.inSession ∧ f.record.reason = reason then f
  else
    { f with record := { f.record with
        since := if f.record.inSession then now else f.record.since
        inSession := false, haveStatus := false, status := {}, reason := reason } }.postStatus

/-- `MaybeDeclare`, when another machine is declared. -/
def otherMachine : Follower :=
  if f.history.romGame then
    { f with history := { f.history with romGame := false, romGameEndsAt := none } }.postStatus
  else f

end Follower

/-! ## Both sides -/

/-- The warnings received so far, those received before the last start of a ROM's and of a script's
game, and whether one of each started since the last frame. -/
structure Account where
  received : ℕ := 0
  romStart : ℕ := 0
  scriptStart : ℕ := 0
  romMoved : Bool := false
  scriptMoved : Bool := false
deriving DecidableEq, Repr

/-- The warnings received before the last start of a game of a table's kind. -/
def Account.start (a : Account) (authored : Bool) : ℕ :=
  if authored then a.scriptStart else a.romStart

/-- A game of a table's kind started since the last frame. -/
def Account.moved (a : Account) (authored : Bool) : Bool :=
  if authored then a.scriptMoved else a.romMoved

/-- The worker, the notifier, and what the session source holds between them. -/
structure Table where
  follower : Follower := {}
  /-- `m_statusPending`. -/
  pending : Option StatusRecord := none
  /-- `m_scriptStatus`. -/
  scriptStatus : StatusRecord := {}
  notifier : StatusNotifier := {}
  account : Account := {}
deriving DecidableEq, Repr

/-- What happens to a table. -/
inductive Event
  /-- A Status arrives. -/
  | status (status : Wire.Status) (now : Time)
  /-- A HelloAck is accepted. -/
  | handshake (now : Time)
  | noSession (reason : Bytes) (now : Time)
  | otherMachine
  /-- The script reads the status. -/
  | readStatus
  /-- The script commits. -/
  | commit (ops : List Wire.GameOp)
  | newTable
  | tableEnded
  /-- A frame with `StatusNotices` 1. -/
  | frame (showStatus authored : Bool) (now : Time)
deriving DecidableEq, Repr

namespace Table

variable (noGameDeferMs romGameLostMs : ℤ) (t : Table)

/-- `TakeStatus`. -/
def takeStatus : Table :=
  match t.follower.latch with
  | none => t
  | some record =>
    { t with
      follower := { t.follower with latch := none }
      pending := some record
      scriptStatus := record }

/-- The loop of `ScriptCommit` over its ops, for the notifier. -/
def followOps (n : StatusNotifier) (warningsNow : UInt32) : List Wire.GameOp → StatusNotifier
  | [] => n
  | op :: ops =>
    followOps
      (if op.kind = Wire.gameStart then n.gameStarted warningsNow
        else if op.kind = Wire.gameEnd then n.gameEnded else n) warningsNow ops

/-- `AnswerStatus`. -/
def status (status : Wire.Status) (now : Time) : Table :=
  { t with
    follower := t.follower.answerStatus noGameDeferMs status now
    account := { t.account with
      received := t.account.received + if isWarning status then 1 else 0
      romStart := if t.follower.startsGame status now then t.account.received
        else t.account.romStart
      romMoved := t.account.romMoved || t.follower.startsGame status now } }

/-- `ScriptCommit`, for the notifier. -/
def commit (ops : List Wire.GameOp) : Table :=
  let starts := ops.any (·.kind == Wire.gameStart)
  let t := t.takeStatus
  { t with
    notifier := followOps t.notifier t.scriptStatus.history.warnings ops
    account := { t.account with
      scriptStart := if starts then t.account.received else t.account.scriptStart
      scriptMoved := t.account.scriptMoved || starts } }

/-- `PostStatusNotice`: the action and what is left. -/
def frame (showStatus authored : Bool) (now : Time) : NoticeAction × Table :=
  let t := t.takeStatus
  let result := t.notifier.frame t.pending showStatus noticesOutsideGame authored now
  (result.1, { t with
    pending := none
    notifier := result.2
    account := { t.account with romMoved := false, scriptMoved := false } })

/-- One event. -/
def step : Event → Option Table
  | .status status now => some (t.status noGameDeferMs status now)
  | .handshake now => some { t with follower := t.follower.handshake romGameLostMs now }
  | .noSession reason now => some { t with follower := t.follower.noSession reason now }
  | .otherMachine => some { t with follower := t.follower.otherMachine }
  | .readStatus => some t.takeStatus
  | .commit ops => some (t.commit ops)
  | .newTable => some { t with notifier := t.notifier.newTable }
  | .tableEnded => some { t with notifier := t.notifier.tableEnded }
  | .frame showStatus authored now => some (t.frame showStatus authored now).2

/-- The session source and the worker, made one after the other. -/
def init (made workerMade : Time) : Table where
  follower := { record := { since := workerMade } }
  scriptStatus := { since := made }
  notifier := .create made

end Table

/-- A table from the plugin's start. -/
def table (noGameDeferMs romGameLostMs : ℤ) : Runs.System Table Event :=
  .ofStep (fun t => ∃ made workerMade, t = .init made workerMade)
    (Table.step noGameDeferMs romGameLostMs)

/-! ## The texts of a warning -/

/-- Texts that begin differently are different. -/
theorem append_ne_append {a b : Bytes} (hab : ¬ a <+: b) (hba : ¬ b <+: a) (x y : Bytes) :
    a ++ x ≠ b ++ y := by
  intro heq
  have ha : a <+: b ++ y := ⟨x, heq⟩
  rcases List.prefix_or_prefix_of_prefix ha (List.prefix_append b y) with h | h
  · exact hab h
  · exact hba h

/-- What is said of a `[!]` text after the game.

**Proof sketch.** The marker is found at the bracket in front, as no earlier one is there, and the
words are put behind it. -/
theorem describeEarlier_warning (rest : Bytes) :
    describeEarlier (text "[!] Scorbit: " ++ rest) =
      text "[!] Scorbit, during the game: " ++ rest := by
  have hhead : text "] Scorbit: " = bracket :: behindMarker := by decide +kernel
  have htext : text "[!] Scorbit: " = 91 :: 33 :: bracket :: behindMarker := by decide +kernel
  have hlater : text "[!] Scorbit, during the game: " = 91 :: 33 :: duringGame := by decide +kernel
  have hfind : find (bracket :: behindMarker) (91 :: 33 :: bracket :: (behindMarker ++ rest)) =
      some 2 := by
    have hhere : (bracket :: behindMarker).isPrefixOf (bracket :: (behindMarker ++ rest)) = true :=
      List.isPrefixOf_iff_prefix.mpr (List.prefix_append (bracket :: behindMarker) rest)
    rw [find, if_neg (by simp [List.isPrefixOf, bracket]), find,
      if_neg (by simp [List.isPrefixOf, bracket]), find, if_pos hhere]
    rfl
  have hdrop : (91 :: 33 :: bracket :: (behindMarker ++ rest)).drop
      (2 + (bracket :: behindMarker).length) = rest := by
    rw [Nat.add_comm]
    exact List.drop_left
  unfold describeEarlier
  rw [hhead, htext, hlater]
  simp only [List.cons_append, hfind, hdrop]
  rfl

/-- The states a warning may tell of, and the names it has for them. -/
def warningNames : List Bytes :=
  [text "ok", text "not paired", text "offline", text "degraded", text "not authenticated",
    text "authentication failed"]

/-- A warning is of a state that is known.

**Proof sketch.** A warning has the mark `[!]`, so the session and system states are known, and both
names are among the few listed, which are evaluated. -/
theorem describe_warning {status : Wire.Status} (h : isWarning status = true) :
    ∃ session ∈ [text "no game", text "tracking", text "no data"], ∃ name ∈ warningNames, ∃ rest,
      describe status = text "[!] Scorbit: " ++ (session ++ text ", " ++ name ++ rest) := by
  obtain ⟨hshown, hmark⟩ := Bool.and_eq_true_iff.mp h
  have hshown : status.sessionState ≠ sessionHidden := by simpa using hshown
  have hmark : marker status = warningMark := by simpa using hmark
  have hknown : knownSession status.sessionState = true ∧
      knownSystem status.systemState = true := by
    by_contra hunknown
    have hquestion : marker status = text "[?]" := by
      unfold marker
      rw [if_pos]
      rw [Bool.or_eq_true, Bool.not_eq_true', Bool.not_eq_true']
      by_contra hboth
      rw [not_or, Bool.not_eq_false, Bool.not_eq_false] at hboth
      exact hunknown hboth
    rw [hquestion] at hmark
    exact absurd hmark (by decide +kernel)
  have hsession : sessionName status.sessionState ∈
      [text "no game", text "tracking", text "no data"] := by
    have hstates : status.sessionState = sessionNone ∨ status.sessionState = sessionTracking ∨
        status.sessionState = sessionNoData := by
      have hknown := hknown.1
      simp only [knownSession, Bool.or_eq_true, beq_iff_eq] at hknown
      rcases hknown with ((hnone | htracks) | hnoData) | hhidden
      · exact .inl hnone
      · exact .inr (.inl htracks)
      · exact .inr (.inr hnoData)
      · exact absurd hhidden hshown
    rcases hstates with heq | heq | heq <;> rw [heq] <;> decide +kernel
  have hsystem : systemName status.systemState ∈ warningNames := by
    have hall : ∀ n : Fin 4, systemName (UInt8.ofNat n.val) ∈ warningNames := by decide +kernel
    have hlt : status.systemState.toNat < 4 := by
      have hle := of_decide_eq_true hknown.2
      have := UInt8.le_iff_toNat_le.mp hle
      have hthree : systemDegraded.toNat = 3 := rfl
      omega
    have hname := hall ⟨status.systemState.toNat, hlt⟩
    rwa [UInt8.ofNat_toNat] at hname
  have hname : (authProblem status).getD (systemName status.systemState) ∈ warningNames := by
    unfold authProblem
    split
    · exact hsystem
    · split
      · simp [warningNames]
      · split
        · simp [warningNames]
        · split
          · split
            · simp [warningNames]
            · exact hsystem
          · exact hsystem
  refine ⟨_, hsession, _, hname, if status.supportText = [] then [] else
    text " - " ++ status.supportText, ?_⟩
  have hprefix : text "[!] Scorbit: " = warningMark ++ text " Scorbit: " := by decide +kernel
  unfold describe withSupport
  rw [if_neg hshown, hmark, hprefix]
  simp only [List.append_assoc]

/-- What is said of a lost connection after the game is not what is said of a warning.

**Proof sketch.** Both texts go on with a session name and a system name. No session name and system
name of a warning is a prefix of what is said of a lost connection, nor the other way, by evaluation
of the few there are. -/
theorem describeEarlier_ne_noSession {status : Wire.Status} (h : isWarning status = true)
    (reason : Bytes) :
    describeEarlier (describe status) ≠ describeEarlier (describeNoSession reason) := by
  obtain ⟨session, hsession, name, hname, rest, hdescribe⟩ := describe_warning h
  have hnoSession : describeNoSession reason = text "[!] Scorbit: " ++
      (text "no data, no connection to the Scorbit daemon" ++
        if reason = [] then [] else text " - " ++ reason) := by
    have htext : text "[!] Scorbit: no data, no connection to the Scorbit daemon" =
        text "[!] Scorbit: " ++ text "no data, no connection to the Scorbit daemon" := by
      decide +kernel
    unfold describeNoSession withSupport
    rw [htext, List.append_assoc]
  rw [hdescribe, hnoSession, describeEarlier_warning, describeEarlier_warning]
  intro heq
  have hrest := List.append_cancel_left heq
  have hall : ∀ session ∈ [text "no game", text "tracking", text "no data"],
      ∀ name ∈ warningNames,
        ¬ (session ++ text ", " ++ name) <+: text "no data, no connection to the Scorbit daemon" ∧
        ¬ text "no data, no connection to the Scorbit daemon" <+: session ++ text ", " ++ name := by
    decide +kernel
  obtain ⟨hab, hba⟩ := hall session hsession name hname
  exact append_ne_append hab hba rest _ hrest

/-! ## What a frame reports -/

namespace StatusNotifier

variable (n : StatusNotifier) (showStatus authored : Bool) (now : Time)

/-- `Frame` is at a game's end and posts a warning of the daemon as an earlier one. -/
def reportsEarlier : Bool :=
  !n.suppressed showStatus noticesOutsideGame && n.ended noticesOutsideGame authored now
    && (n.follow noticesOutsideGame authored now).reportsWarning now

/-- The kind of the game that ended: the one of the last frame when that was in a game, else the
one that came and went since. -/
def endedKind : Bool := if n.inGame then n.authoredLast else authored

end StatusNotifier

/-- The notifier of a frame, with the record it takes. -/
def Table.taken (t : Table) : StatusNotifier := t.takeStatus.notifier.take t.takeStatus.pending

/-- When a frame posts what was said of a warning of the daemon, in the form it has after a game, a
warning was received since the last start of the game that ended. -/
def ReportsOwnGame (t : Table) : Event → Prop
  | .frame showStatus authored now =>
    ∀ warning, isWarning warning = true →
      (t.frame showStatus authored now).1 = .post (describeEarlier (describe warning)) →
        t.account.start (t.taken.endedKind authored) < t.account.received
  | _ => True

/-- A frame that was in a game at the last one finds no other game of that kind started since, and
no game in progress of the other kind. -/
def StartsSeen (t : Table) : Event → Prop
  | .frame _ authored now =>
    t.notifier.inGame = true →
      t.account.moved t.notifier.authoredLast = false ∧
        (authored ≠ t.notifier.authoredLast →
          t.taken.gameNow noticesOutsideGame authored now = false)
  | _ => True

instance (t : Table) (e : Event) : Decidable (StartsSeen t e) := by
  cases e <;> unfold StartsSeen <;> infer_instance

namespace StatusNotifier

variable {n : StatusNotifier} {taken : Option StatusRecord} {showStatus authored : Bool}
  {notices : ℤ} {now : Time}

/-- Such a frame posts the last warning's text.

**Proof sketch.** Such a frame ends a game, so its action is that of the end; nothing of the current
state is to be posted, and the count has moved, so it is the earlier warning. -/
theorem frame_reportsEarlier
    (h : (n.take taken).reportsEarlier showStatus authored now = true) :
    (n.frame taken showStatus noticesOutsideGame authored now).1 =
      .post (describeEarlier (n.take taken).current.history.lastWarning) := by
  simp only [reportsEarlier, Bool.and_eq_true, Bool.not_eq_true'] at h
  obtain ⟨⟨hshown, hended⟩, hreports⟩ := h
  have hgame : (n.take taken).gameNow noticesOutsideGame authored now = false := by
    simpa using (Bool.and_eq_true_iff.mp hended).2
  have hquiet :
      warns (((n.take taken).follow noticesOutsideGame authored now).want now) = false := by
    simpa using (Bool.and_eq_true_iff.mp (Bool.and_eq_true_iff.mp hreports).1).1
  rw [frame_ended hshown hgame hended]
  simp only [endFrame, endAction, hquiet, hreports, if_true]
  rfl

/-- A frame leaves what it followed, apart from what it writes down for later frames.

**Proof sketch.** By the branches of a frame: suppressed, in a game, and outside one. Each returns
what it followed with other values of the five members at most. -/
theorem frame_follow (n : StatusNotifier) (taken : Option StatusRecord)
    (showStatus authored : Bool) (notices : ℤ) (now : Time) :
    ∃ posted postedAt lostInGame lostText afterGame,
      (n.frame taken showStatus notices authored now).2 =
        { (n.take taken).follow notices authored now with
          posted := posted, postedAt := postedAt, lostInGame := lostInGame, lostText := lostText
          afterGame := afterGame } := by
  cases hs : (n.take taken).suppressed showStatus notices with
  | true => exact ⟨_, _, _, _, _, congrArg Prod.snd (frame_suppressed hs)⟩
  | false =>
    cases hg : (n.take taken).gameNow notices authored now with
    | true =>
      rw [frame_inGame hs hg]
      by_cases hlost : (!((n.take taken).follow notices authored now).current.inSession &&
          warns (((n.take taken).follow notices authored now).want now)) = true
      · exact ⟨_, _, _, _, _, congrArg Prod.snd (if_pos hlost)⟩
      · exact ⟨_, _, _, _, _, congrArg Prod.snd (if_neg hlost)⟩
    | false =>
      cases he : (n.take taken).ended notices authored now with
      | true =>
        rw [frame_ended hs hg he]
        exact ⟨_, _, _, _, _, rfl⟩
      | false =>
        rw [frame_outside hs hg he]
        unfold outside
        split
        · exact ⟨_, _, _, _, _, rfl⟩
        · split
          · split <;> exact ⟨_, _, _, _, _, rfl⟩
          · split <;> exact ⟨_, _, _, _, _, rfl⟩

end StatusNotifier

/-! ## The counts agree -/

/-- What the session source would take next. -/
def Table.latest (t : Table) : StatusHistory :=
  (t.follower.latch.getD (t.pending.getD t.notifier.current)).history

/-- What the script would read next. -/
def Table.latestScript (t : Table) : StatusHistory :=
  (t.follower.latch.getD t.scriptStatus).history

/-- The counts of both sides are those of the warnings received. -/
structure Table.Counted (t : Table) : Prop where
  received : t.follower.history.warnings = .ofNat t.account.received
  romStart : t.follower.history.warningsAtGameStart = .ofNat t.account.romStart
  scriptStart : t.notifier.authoredStartWarnings = .ofNat t.account.scriptStart
  latest : t.latest.warnings = t.follower.history.warnings
  latestStart : t.latest.warningsAtGameStart = t.follower.history.warningsAtGameStart
  latestScript : t.latestScript.warnings = t.follower.history.warnings
  bounded : ∀ authored, t.account.start authored ≤ t.account.received
  /-- The count taken at a start is the last one's, until another game of its kind starts. -/
  baseline : t.notifier.inGame = true → t.account.moved t.notifier.authoredLast = false →
    t.notifier.warningsAtStart = .ofNat (t.account.start t.notifier.authoredLast)

namespace Table.Counted

variable {t : Table} {noGameDeferMs romGameLostMs : ℤ}

/-- From the start. -/
theorem init (made workerMade : Time) : (Table.init made workerMade).Counted where
  received := rfl
  romStart := rfl
  scriptStart := rfl
  latest := rfl
  latestStart := rfl
  latestScript := rfl
  bounded := by
    intro authored
    cases authored <;> exact le_refl 0
  baseline := by
    intro h
    cases h

/-- A record posted with the counts unchanged. -/
theorem post (h : t.Counted) {f : Follower}
    (hwarnings : f.history.warnings = t.follower.history.warnings)
    (hstart : f.history.warningsAtGameStart = t.follower.history.warningsAtGameStart) :
    Table.Counted { t with follower := f.postStatus } where
  received := hwarnings.trans h.received
  romStart := hstart.trans h.romStart
  scriptStart := h.scriptStart
  latest := rfl
  latestStart := rfl
  latestScript := rfl
  bounded := h.bounded
  baseline := h.baseline

/-- The record taken, for a frame or for the script. -/
theorem takeStatus (h : t.Counted) : t.takeStatus.Counted := by
  unfold Table.takeStatus
  split
  · exact h
  · rename_i record hlatch
    have hlatest : record.history = t.latest := by
      simp [Table.latest, hlatch]
    have hscript : record.history = t.latestScript := by
      simp [Table.latestScript, hlatch]
    exact { h with
      latest := (congrArg StatusHistory.warnings hlatest).trans h.latest
      latestStart := (congrArg StatusHistory.warningsAtGameStart hlatest).trans h.latestStart
      latestScript := (congrArg StatusHistory.warnings hscript).trans h.latestScript }

/-- After that nothing is left in the latch. -/
theorem latch_takeStatus (t : Table) : t.takeStatus.follower.latch = none := by
  unfold Table.takeStatus
  split
  · assumption
  · rfl

/-- It leaves the notifier and the account. -/
@[simp] theorem notifier_takeStatus (t : Table) : t.takeStatus.notifier = t.notifier := by
  unfold Table.takeStatus
  split <;> rfl

/-- It leaves the account. -/
@[simp] theorem account_takeStatus (t : Table) : t.takeStatus.account = t.account := by
  unfold Table.takeStatus
  split <;> rfl

/-- A Status counts itself when it is a warning. -/
theorem warnings_count (h : StatusHistory) (status : Wire.Status) (now : Time) :
    (h.count status now).warnings = h.warnings + if isWarning status then 1 else 0 := by
  have hdue : (h.count status now).warnings = (h.warn status).warnings := by
    unfold StatusHistory.count StatusHistory.endDue
    split <;> rfl
  rw [hdue]
  unfold StatusHistory.warn
  split <;> simp

/-- It leaves the count of the last start. -/
theorem warningsAtGameStart_count (h : StatusHistory) (status : Wire.Status) (now : Time) :
    (h.count status now).warningsAtGameStart = h.warningsAtGameStart := by
  have hdue : (h.count status now).warningsAtGameStart = (h.warn status).warningsAtGameStart := by
    unfold StatusHistory.count StatusHistory.endDue
    split <;> rfl
  rw [hdue]
  unfold StatusHistory.warn
  split <;> rfl

/-- `FollowGame` counts no more than the Status.

**Proof sketch.** Only the count itself counts; what `FollowGame` does to the game leaves the
number. -/
theorem warnings_followGame (f : Follower) (status : Wire.Status) (now : Time) :
    (f.followGame noGameDeferMs status now).warnings =
      f.history.warnings + if isWarning status then 1 else 0 := by
  have hcount := warnings_count f.history status now
  have hkept : (f.followGame noGameDeferMs status now).warnings =
      (f.history.count status now).warnings := by
    unfold Follower.followGame
    dsimp only
    split
    · split <;> rfl
    · split
      · rfl
      · split
        · split <;> rfl
        · rfl
  exact hkept.trans hcount

/-- The count of a start is the one before the Status that starts the game.

**Proof sketch.** A `tracking` without a game starts one and sets the baseline to the count before
it; all other branches leave the baseline. -/
theorem warningsAtGameStart_followGame (f : Follower) (status : Wire.Status) (now : Time) :
    (f.followGame noGameDeferMs status now).warningsAtGameStart =
      if f.startsGame status now then f.history.warnings else f.history.warningsAtGameStart := by
  have hcount := warningsAtGameStart_count f.history status now
  unfold Follower.followGame Follower.startsGame
  dsimp only
  by_cases htracking : status.sessionState = sessionTracking
  · cases hgame : (f.history.count status now).romGame <;> simp [htracking, hcount]
  · rw [if_neg htracking]
    have hstarts : (status.sessionState == sessionTracking) = false := by simpa using htracking
    simp only [hstarts, Bool.false_and, Bool.false_eq_true, if_false]
    rw [← hcount]
    split
    · rfl
    · split
      · split <;> rfl
      · rfl

/-- A Status arrives. -/
theorem status (h : t.Counted) (status : Wire.Status) (now : Time) :
    (t.status noGameDeferMs status now).Counted where
  received := by
    have hcount := @warnings_followGame noGameDeferMs t.follower status now
    simp only [Table.status]
    refine hcount.trans ?_
    rw [h.received]
    split <;> simp [UInt32.ofNat_add]
  romStart := by
    have hcount := @warningsAtGameStart_followGame noGameDeferMs t.follower status now
    simp only [Table.status]
    refine hcount.trans ?_
    split
    · exact h.received
    · exact h.romStart
  scriptStart := h.scriptStart
  latest := rfl
  latestStart := rfl
  latestScript := rfl
  bounded := by
    intro authored
    have hrom := h.bounded false
    have hscript := h.bounded true
    simp only [Account.start, Table.status] at hrom hscript ⊢
    cases authored
    · simp only [Bool.false_eq_true, if_false] at hrom ⊢
      split <;> omega
    · simp only [if_true] at hscript ⊢
      omega
  baseline := by
    intro hgame hmoved
    have hbefore := h.baseline hgame
    simp only [Account.start, Account.moved, Table.status] at hbefore hmoved ⊢
    by_cases hkind : t.notifier.authoredLast = true
    · simp only [hkind, if_true] at hbefore hmoved ⊢
      exact hbefore hmoved
    · simp only [hkind] at hbefore hmoved ⊢
      obtain ⟨hunmoved, hstarts⟩ := Bool.or_eq_false_iff.mp hmoved
      simpa [hstarts] using hbefore hunmoved

/-- The script's starts take the count the script would read.

**Proof sketch.** By induction on the ops: one that starts a game sets the count, to the same value
each time, and the others leave it. -/
theorem followOps_starts (n : StatusNotifier) (warningsNow : UInt32) (ops : List Wire.GameOp) :
    (followOps n warningsNow ops).authoredStartWarnings =
      if ops.any (·.kind == Wire.gameStart) then warningsNow else n.authoredStartWarnings := by
  induction ops generalizing n with
  | nil => rfl
  | cons op ops ih =>
    unfold followOps
    rw [ih]
    by_cases hstart : op.kind = Wire.gameStart
    · simp [hstart, StatusNotifier.gameStarted]
    · by_cases hend : op.kind = Wire.gameEnd
      · have hne : (Wire.gameEnd == Wire.gameStart) = false := rfl
        simp [hend, hne, StatusNotifier.gameEnded, show Wire.gameEnd ≠ Wire.gameStart by decide]
      · simp [hstart, hend]

/-- A commit leaves what the last frame followed.

**Proof sketch.** By induction on the ops: starts and ends write members of the script's game only.
-/
theorem followOps_same (n : StatusNotifier) (warningsNow : UInt32) (ops : List Wire.GameOp) :
    (followOps n warningsNow ops).current = n.current ∧
      (followOps n warningsNow ops).inGame = n.inGame ∧
      (followOps n warningsNow ops).authoredLast = n.authoredLast ∧
      (followOps n warningsNow ops).warningsAtStart = n.warningsAtStart := by
  induction ops generalizing n with
  | nil => exact ⟨rfl, rfl, rfl, rfl⟩
  | cons op ops ih =>
    unfold followOps
    split
    · exact ih (n.gameStarted warningsNow)
    · split
      · exact ih n.gameEnded
      · exact ih n

/-- A commit.

**Proof sketch.** The commit takes the waiting Status first, so the count it reads is the one
received. Each operation that starts a game sets its own start from it, and the others leave it. -/
theorem commit (h : t.Counted) (ops : List Wire.GameOp) : (t.commit ops).Counted := by
  have htaken := h.takeStatus
  have hread : t.takeStatus.scriptStatus.history.warnings = .ofNat t.account.received := by
    have := htaken.latestScript.trans htaken.received
    simpa [Table.latestScript, latch_takeStatus] using this
  obtain ⟨hcurrent, hgame, hkind, hcount⟩ :=
    followOps_same t.takeStatus.notifier t.takeStatus.scriptStatus.history.warnings ops
  exact
    { received := htaken.received
      romStart := htaken.romStart
      scriptStart := by
        have hstarts := followOps_starts t.takeStatus.notifier
          t.takeStatus.scriptStatus.history.warnings ops
        simp only [Table.commit]
        refine hstarts.trans ?_
        split
        · simpa using hread
        · exact htaken.scriptStart
      latest := by
        simp only [Table.latest, Table.commit, hcurrent]
        exact htaken.latest
      latestStart := by
        simp only [Table.latest, Table.commit, hcurrent]
        exact htaken.latestStart
      latestScript := htaken.latestScript
      bounded := by
        intro authored
        have hrom := htaken.bounded false
        have hscript := htaken.bounded true
        simp only [Account.start, Table.commit] at hrom hscript ⊢
        cases authored
        · simpa using hrom
        · simp only [if_true] at hscript ⊢
          split <;> omega
      baseline := by
        intro hin hmoved
        simp only [Table.commit, hgame, hkind, hcount] at hin hmoved ⊢
        have hbefore := htaken.baseline hin
        simp only [Account.start, Account.moved] at hbefore hmoved ⊢
        by_cases hauthored : t.takeStatus.notifier.authoredLast = true
        · simp only [hauthored, if_true] at hbefore hmoved ⊢
          obtain ⟨hunmoved, hstarts⟩ := Bool.or_eq_false_iff.mp hmoved
          simpa [hstarts] using hbefore hunmoved
        · simp only [hauthored] at hbefore hmoved ⊢
          exact hbefore hmoved }

/-- The end of a table ends the notifier's game, whatever was posted, and no count. -/
theorem tableEnded (h : t.Counted) (posted : Bytes) :
    Table.Counted { t with notifier := { t.notifier with posted := posted }.tableEnded } where
  received := h.received
  romStart := h.romStart
  scriptStart := h.scriptStart
  latest := by
    refine Eq.trans ?_ h.latest
    simp only [Table.latest]
    cases t.follower.latch <;> cases t.pending <;> rfl
  latestStart := by
    refine Eq.trans ?_ h.latestStart
    simp only [Table.latest]
    cases t.follower.latch <;> cases t.pending <;> rfl
  latestScript := h.latestScript
  bounded := h.bounded
  baseline := by
    intro hin
    cases hin

/-- The record a frame takes is the latest. -/
theorem taken_current (t : Table) : t.taken.current.history = t.takeStatus.latest := by
  simp only [Table.taken, Table.latest, latch_takeStatus, Option.getD_none]
  cases t.takeStatus.pending <;> rfl

/-- Beside it, a frame's notifier is the one before. -/
theorem taken_same (t : Table) :
    t.taken.inGame = t.notifier.inGame ∧ t.taken.authoredLast = t.notifier.authoredLast ∧
      t.taken.warningsAtStart = t.notifier.warningsAtStart ∧
      t.taken.authoredStartWarnings = t.notifier.authoredStartWarnings := by
  rw [← notifier_takeStatus t]
  unfold Table.taken
  cases t.takeStatus.pending <;> exact ⟨rfl, rfl, rfl, rfl⟩

/-- The count a frame takes at a start is the one of the last start of the table's kind. -/
theorem started_baseline (h : t.Counted) (authored : Bool) :
    (if authored then t.taken.authoredStartWarnings
      else t.taken.current.history.warningsAtGameStart) = .ofNat (t.account.start authored) := by
  have htaken := h.takeStatus
  cases authored
  · simp only [Bool.false_eq_true, if_false, Account.start, taken_current]
    refine htaken.latestStart.trans ?_
    simpa using htaken.romStart
  · simp only [if_true, Account.start]
    exact (taken_same t).2.2.2.trans h.scriptStart

/-- The count a frame ends with: the start's, when it was in a game and no other one started.

**Proof sketch.** A game that starts in the frame takes the count of its own start; one that goes on
keeps the count it has, which `Counted` says is its start's. -/
theorem follow_baseline (h : t.Counted) {showStatus authored : Bool} {now : Time}
    (hok : StartsSeen t (.frame showStatus authored now)) (kind : Bool)
    (hkind : t.taken.started noticesOutsideGame authored now = true → kind = authored)
    (hkept : t.taken.started noticesOutsideGame authored now = false →
      t.notifier.inGame = true ∧ kind = t.notifier.authoredLast) :
    (t.taken.follow noticesOutsideGame authored now).warningsAtStart =
      .ofNat (t.account.start kind) := by
  cases hstarted : t.taken.started noticesOutsideGame authored now with
  | true =>
    rw [hkind hstarted]
    simpa [StatusNotifier.follow, hstarted] using h.started_baseline authored
  | false =>
    obtain ⟨hin, hlast⟩ := hkept hstarted
    rw [hlast]
    simpa [StatusNotifier.follow, hstarted, (taken_same t).2.2.1] using h.baseline hin (hok hin).1

/-- A frame. -/
theorem frame (h : t.Counted) {showStatus authored : Bool} {now : Time}
    (hok : StartsSeen t (.frame showStatus authored now)) :
    (t.frame showStatus authored now).2.Counted := by
  have htaken := h.takeStatus
  obtain ⟨posted, postedAt, lostInGame, lostText, afterGame, hframe⟩ :=
    StatusNotifier.frame_follow t.takeStatus.notifier t.takeStatus.pending showStatus authored
      noticesOutsideGame now
  have hlatest : (t.frame showStatus authored now).2.latest = t.takeStatus.latest := by
    rw [← taken_current]
    simp only [Table.latest, Table.frame, latch_takeStatus, Option.getD_none, hframe]
    rfl
  exact
    { received := htaken.received
      romStart := htaken.romStart
      scriptStart := by
        simp only [Table.frame, hframe]
        exact (taken_same t).2.2.2.trans (by simpa using h.scriptStart)
      latest := by
        rw [hlatest]
        exact htaken.latest
      latestStart := by
        rw [hlatest]
        exact htaken.latestStart
      latestScript := htaken.latestScript
      bounded := htaken.bounded
      baseline := by
        simp only [Table.frame, hframe]
        intro hin _
        have hgame : t.taken.gameNow noticesOutsideGame authored now = true := hin
        -- a game that goes on is of the last frame's kind
        have hgoes := h.follow_baseline hok authored (fun _ => rfl) fun hstarted => by
          have hwas : t.notifier.inGame = true := by
            rw [← (taken_same t).1]
            simpa [StatusNotifier.started, hgame] using hstarted
          refine ⟨hwas, ?_⟩
          by_contra hne
          rw [(hok hwas).2 hne] at hgame
          cases hgame
        rw [account_takeStatus]
        exact hgoes }

/-- Every event keeps it. -/
theorem step (h : t.Counted) {e : Event} (hok : StartsSeen t e) {t' : Table}
    (hs : t.step noGameDeferMs romGameLostMs e = some t') : t'.Counted := by
  cases e with
  | status status now =>
    obtain rfl := Option.some.inj hs
    exact h.status status now
  | handshake now =>
    obtain rfl := Option.some.inj hs
    exact h.post rfl rfl
  | noSession reason now =>
    obtain rfl := Option.some.inj hs
    unfold Follower.noSession
    split
    · exact h
    · exact h.post rfl rfl
  | otherMachine =>
    obtain rfl := Option.some.inj hs
    unfold Follower.otherMachine
    split
    · exact h.post rfl rfl
    · exact h
  | readStatus =>
    obtain rfl := Option.some.inj hs
    exact h.takeStatus
  | commit ops =>
    obtain rfl := Option.some.inj hs
    exact h.commit ops
  | newTable =>
    obtain rfl := Option.some.inj hs
    exact h.tableEnded []
  | tableEnded =>
    obtain rfl := Option.some.inj hs
    exact h.tableEnded t.notifier.posted
  | frame showStatus authored now =>
    obtain rfl := Option.some.inj hs
    exact h.frame hok

end Table.Counted

/-! ## What is written down of a game -/

/-- What is kept of a warning is its text. -/
def StatusHistory.Told (h : StatusHistory) : Prop :=
  h.lastWarning ≠ [] → ∃ warning, isWarning warning = true ∧ h.lastWarning = describe warning

/-- A text that is kept and not changed. -/
theorem StatusHistory.Told.of_eq {h h' : StatusHistory} (ht : h.Told)
    (heq : h'.lastWarning = h.lastWarning) : h'.Told := by
  unfold Told
  rw [heq]
  exact ht

/-- `FollowGame` keeps the text of the Status itself or the one it had.

**Proof sketch.** Apart from the count the history is left, and the text is that of this Status
where it is a warning. -/
theorem StatusHistory.Told.followGame {f : Follower} (ht : f.history.Told) (noGameDeferMs : ℤ)
    (status : Wire.Status) (now : Time) : (f.followGame noGameDeferMs status now).Told := by
  have hkept : (f.followGame noGameDeferMs status now).lastWarning =
      (f.history.warn status).lastWarning := by
    have hdue : (f.history.count status now).lastWarning =
        (f.history.warn status).lastWarning := by
      unfold StatusHistory.count StatusHistory.endDue
      split <;> rfl
    rw [← hdue]
    unfold Follower.followGame
    dsimp only
    split
    · split <;> rfl
    · split
      · rfl
      · split
        · split <;> rfl
        · rfl
  refine StatusHistory.Told.of_eq ?_ hkept
  unfold warn
  split
  · rename_i hwarning
    exact fun _ => ⟨status, hwarning, rfl⟩
  · exact ht

namespace StatusNotifier

/-- What is kept of a lost connection is its text. -/
def LostTold (n : StatusNotifier) : Prop :=
  n.lostInGame = true → ∃ reason, n.lostText = describeNoSession reason

variable {n : StatusNotifier} {taken : Option StatusRecord} {showStatus authored : Bool}
  {notices : ℤ} {now : Time}

/-- A warning without a session is of the lost connection. -/
theorem want_of_lost (hout : n.current.inSession = false) (hwarns : warns (n.want now) = true) :
    ∃ reason, n.want now = describeNoSession reason := by
  unfold want at hwarns ⊢
  rw [hout, if_neg Bool.false_ne_true] at hwarns
  rw [hout, if_neg Bool.false_ne_true]
  split
  · exact ⟨_, rfl⟩
  · rename_i hshort
    rw [if_neg hshort] at hwarns
    exact absurd hwarns (by decide +kernel)

/-- The ops of a commit leave it. -/
theorem LostTold.followOps (h : n.LostTold) (warningsNow : UInt32) (ops : List Wire.GameOp) :
    (Table.followOps n warningsNow ops).LostTold := by
  induction ops generalizing n with
  | nil => exact h
  | cons op ops ih =>
    unfold Table.followOps
    split
    · exact ih (n := n.gameStarted warningsNow) h
    · split
      · exact ih (n := n.gameEnded) h
      · exact ih h

/-- A frame keeps it: what it writes down in a game is the text of the lost connection.

**Proof sketch.** A frame in a game writes the text of the lost connection where it notes one, and
keeps it where it does not. Taking and following keep it or forget that one was lost. -/
theorem LostTold.frame (h : n.LostTold) (taken : Option StatusRecord) (showStatus authored : Bool)
    (notices : ℤ) (now : Time) : (n.frame taken showStatus notices authored now).2.LostTold := by
  have htaken : (n.take taken).LostTold := by
    cases taken <;> exact h
  have hfollow : ((n.take taken).follow notices authored now).LostTold := fun hlost =>
    htaken (Bool.and_eq_true_iff.mp hlost).2
  cases hs : (n.take taken).suppressed showStatus notices with
  | true =>
    rw [frame_suppressed hs]
    exact hfollow
  | false =>
    cases hg : (n.take taken).gameNow notices authored now with
    | true =>
      rw [frame_inGame hs hg]
      unfold inGameFrame
      dsimp only
      split
      · rename_i hlost
        obtain ⟨hout, hwarns⟩ := Bool.and_eq_true_iff.mp hlost
        exact fun _ => want_of_lost (Bool.not_eq_true' _ ▸ hout) hwarns
      · exact hfollow
    | false =>
      cases he : (n.take taken).ended notices authored now with
      | true =>
        rw [frame_ended hs hg he]
        exact fun hlost => absurd hlost Bool.false_ne_true
      | false =>
        rw [frame_outside hs hg he]
        unfold outside
        split
        · exact hfollow
        · split
          · split <;> exact hfollow
          · split <;> exact hfollow

/-- **The action tells** whether a frame posts a warning of the daemon: it posts what is said of a
warning just when it is at a game's end and reports the last one.

**Proof sketch.** What else a frame could post is the text of a state, which no summary is
(`text_ne_summary`), or that of the lost connection, which names no state of the system
(`describeEarlier_ne_noSession`). -/
theorem posts_warning_iff (h : n.LostTold) (htold : (n.take taken).current.history.Told) :
    (∃ warning, isWarning warning = true ∧
      (n.frame taken showStatus noticesOutsideGame authored now).1 =
        .post (describeEarlier (describe warning))) ↔
      (n.take taken).reportsEarlier showStatus authored now = true := by
  constructor
  · rintro ⟨warning, hwarning, hpost⟩
    cases hs : (n.take taken).suppressed showStatus noticesOutsideGame with
    | true =>
      rw [frame_suppressed hs] at hpost
      cases hpost
    | false =>
      have hstate : ((n.take taken).follow noticesOutsideGame authored now).want now ≠ [] →
          ((n.take taken).follow noticesOutsideGame authored now).want now ≠
            describeEarlier (describe warning) := fun hne =>
        text_ne_summary (n := (n.take taken).follow noticesOutsideGame authored now) hs hne _
      cases hgame : (n.take taken).gameNow noticesOutsideGame authored now with
      | true =>
        rw [frame_inGame hs hgame] at hpost
        unfold inGameFrame at hpost
        dsimp only at hpost
        split at hpost <;> split at hpost <;> cases hpost
      | false =>
        cases hended : (n.take taken).ended noticesOutsideGame authored now with
        | false =>
          rw [frame_outside hs hgame hended] at hpost
          unfold outside at hpost
          split at hpost
          · cases hpost
          · rename_i hne
            split at hpost
            · cases hpost
            · split at hpost
              · cases hpost
              · exact absurd (NoticeAction.post.inj hpost) (hstate hne)
        | true =>
          rw [frame_ended hs hgame hended] at hpost
          simp only [endFrame, endAction] at hpost
          split at hpost
          · rename_i hwarns
            refine absurd (NoticeAction.post.inj hpost) (hstate ?_)
            intro hempty
            rw [hempty] at hwarns
            exact absurd hwarns (by decide +kernel)
          · split at hpost
            · rename_i hreports
              simp [reportsEarlier, hs, hended, hreports]
            · split at hpost
              · rename_i hlost
                have htaken : (n.take taken).LostTold := by
                  cases taken <;> exact h
                obtain ⟨reason, hreason⟩ := htaken (Bool.and_eq_true_iff.mp hlost).2
                have hlostText :
                    ((n.take taken).follow noticesOutsideGame authored now).lostText =
                      describeNoSession reason := hreason
                have heq := NoticeAction.post.inj hpost
                rw [hlostText] at heq
                exact absurd heq.symm (describeEarlier_ne_noSession hwarning reason)
              · cases hpost
  · intro hreports
    have hlast : (n.take taken).current.history.lastWarning ≠ [] := by
      have hall := (Bool.and_eq_true_iff.mp hreports).2
      simpa [reportsWarning, follow] using (Bool.and_eq_true_iff.mp hall).2
    obtain ⟨warning, hwarning, htext⟩ := htold hlast
    refine ⟨warning, hwarning, ?_⟩
    rw [← htext]
    exact frame_reportsEarlier hreports

end StatusNotifier

/-- What is written down of a game is the text of what happened in it, wherever a record is. -/
structure Table.Told (t : Table) : Prop where
  follower : t.follower.history.Told
  latch : ∀ record ∈ t.follower.latch, record.history.Told
  pending : ∀ record ∈ t.pending, record.history.Told
  current : t.notifier.current.history.Told
  lost : t.notifier.LostTold

namespace Table.Told

variable {t : Table} {noGameDeferMs romGameLostMs : ℤ}

/-- From the start. -/
theorem init (made workerMade : Time) : (Table.init made workerMade).Told where
  follower := fun h => absurd rfl h
  latch := fun _ h => nomatch h
  pending := fun _ h => nomatch h
  current := fun h => absurd rfl h
  lost := fun h => absurd h Bool.false_ne_true

/-- A record posted. -/
theorem post (h : t.Told) {f : Follower} (hf : f.history.Told) :
    Table.Told { t with follower := f.postStatus } where
  follower := hf
  latch := by
    rintro _ ⟨⟩
    exact hf
  pending := h.pending
  current := h.current
  lost := h.lost

/-- The record taken. -/
theorem takeStatus (h : t.Told) : t.takeStatus.Told := by
  unfold Table.takeStatus
  split
  · exact h
  · rename_i record hlatch
    have hrecord := h.latch record hlatch
    exact { h with
      latch := fun _ hnone => nomatch hnone
      pending := by
        rintro _ ⟨⟩
        exact hrecord }

/-- The record a frame works on. -/
theorem taken (h : t.Told) : t.taken.current.history.Told := by
  have htaken := h.takeStatus
  unfold Table.taken
  cases hpending : t.takeStatus.pending with
  | none => exact htaken.current
  | some record => exact htaken.pending record hpending

/-- Every event keeps it. -/
theorem step (h : t.Told) {e : Event} {t' : Table}
    (hs : t.step noGameDeferMs romGameLostMs e = some t') : t'.Told := by
  cases e with
  | status status now =>
    obtain rfl := Option.some.inj hs
    have hfollow := h.follower.followGame noGameDeferMs status now
    exact { h.post (f := { t.follower with
      history := t.follower.followGame noGameDeferMs status now }) hfollow with
      latch := by
        rintro _ ⟨⟩
        exact hfollow }
  | handshake now =>
    obtain rfl := Option.some.inj hs
    exact h.post (h.follower.of_eq rfl)
  | noSession reason now =>
    obtain rfl := Option.some.inj hs
    unfold Follower.noSession
    split
    · exact h
    · exact h.post h.follower
  | otherMachine =>
    obtain rfl := Option.some.inj hs
    unfold Follower.otherMachine
    split
    · exact h.post (h.follower.of_eq rfl)
    · exact h
  | readStatus =>
    obtain rfl := Option.some.inj hs
    exact h.takeStatus
  | commit ops =>
    obtain rfl := Option.some.inj hs
    have htaken := h.takeStatus
    exact { htaken with
      current := by
        have hsame := (Table.Counted.followOps_same t.takeStatus.notifier
          t.takeStatus.scriptStatus.history.warnings ops).1
        simp only [Table.commit, hsame]
        exact htaken.current
      lost := htaken.lost.followOps _ _ }
  | newTable =>
    obtain rfl := Option.some.inj hs
    exact { h with
      current := h.current.of_eq rfl
      lost := fun hlost => absurd hlost Bool.false_ne_true }
  | tableEnded =>
    obtain rfl := Option.some.inj hs
    exact { h with
      current := h.current.of_eq rfl
      lost := fun hlost => absurd hlost Bool.false_ne_true }
  | frame showStatus authored now =>
    obtain rfl := Option.some.inj hs
    have htaken := h.takeStatus
    obtain ⟨posted, postedAt, lostInGame, lostText, afterGame, hframe⟩ :=
      StatusNotifier.frame_follow t.takeStatus.notifier t.takeStatus.pending showStatus authored
        noticesOutsideGame now
    exact { htaken with
      pending := fun _ hnone => nomatch hnone
      current := by
        simp only [Table.frame, hframe]
        exact h.taken
      lost := htaken.lost.frame _ _ _ _ _ }

end Table.Told

/-- **In every run** what is written down of a game is the text of what happened in it. -/
theorem told {noGameDeferMs romGameLostMs : ℤ} {ok : Table → Event → Prop} {t : Table}
    (h : (table noGameDeferMs romGameLostMs).Reaches ok t) : t.Told := by
  refine h.invariant (I := Table.Told) ?_ fun _ _ _ hI _ hs => hI.step hs
  rintro _ ⟨made, workerMade, rfl⟩
  exact .init made workerMade

/-- **In every run** whose frames in a game see no other start, the counts agree. -/
theorem counted {noGameDeferMs romGameLostMs : ℤ} {t : Table}
    (h : (table noGameDeferMs romGameLostMs).Reaches StartsSeen t) : t.Counted := by
  refine h.invariant (I := Table.Counted) ?_ fun _ _ _ hI hok hs => hI.step hok hs
  rintro _ ⟨made, workerMade, rfl⟩
  exact .init made workerMade

/-- **The end of a game reports its own warnings** in every run whose frames in a game find no other
game of that kind started since the last frame.

**Proof sketch.** The action tells that the frame is at a game's end and reports the last warning
(`posts_warning_iff`). A game that just ended was in progress at the last frame, or came and went
since. In the second case the frame takes the count of its start. In the first the count was taken
at the frame that found the game, and by the invariant it is the start's, since none followed it.
The count of the warnings has moved from it, so one was received at the start or after. -/
theorem reports_own_game {noGameDeferMs romGameLostMs : ℤ} {t t' : Table} {e : Event}
    (h : (table noGameDeferMs romGameLostMs).Reaches StartsSeen t) (hok : StartsSeen t e)
    (hs : (table noGameDeferMs romGameLostMs).step t e t') : ReportsOwnGame t e := by
  cases e with
  | frame showStatus authored now =>
    intro warning hwarning hpost
    have hcounted := counted h
    have htold := told h
    have hreports : t.taken.reportsEarlier showStatus authored now = true :=
      (StatusNotifier.posts_warning_iff htold.takeStatus.lost htold.taken).mp
        ⟨warning, hwarning, hpost⟩
    simp only [StatusNotifier.reportsEarlier, Bool.and_eq_true, Bool.not_eq_true'] at hreports
    obtain ⟨⟨-, hended⟩, hreports⟩ := hreports
    have hbaseline := hcounted.follow_baseline hok (t.taken.endedKind authored)
      (fun hstarted => by
        have hwas : t.taken.inGame = false := by
          simpa using (Bool.and_eq_true_iff.mp hstarted).1
        simp [StatusNotifier.endedKind, hwas])
      (fun hstarted => by
        have hwas : t.taken.inGame = true := by
          cases hout : t.taken.inGame with
          | true => rfl
          | false =>
            have hsince := (Bool.and_eq_true_iff.mp hended).1
            simp only [hout, Bool.false_or] at hsince
            simp [StatusNotifier.started, hout, hsince] at hstarted
        refine ⟨(Table.Counted.taken_same t).1 ▸ hwas, ?_⟩
        simp [StatusNotifier.endedKind, hwas, (Table.Counted.taken_same t).2.1])
    have hmoved : t.taken.current.history.warnings ≠
        (t.taken.follow noticesOutsideGame authored now).warningsAtStart :=
      bne_iff_ne.mp (Bool.and_eq_true_iff.mp (Bool.and_eq_true_iff.mp hreports).1).2
    have hwarnings : t.taken.current.history.warnings = .ofNat t.account.received := by
      have htaken := hcounted.takeStatus
      rw [Table.Counted.taken_current]
      refine htaken.latest.trans (htaken.received.trans ?_)
      rw [Table.Counted.account_takeStatus]
    have hne : t.account.start (t.taken.endedKind authored) ≠ t.account.received := by
      intro heq
      rw [hwarnings, hbaseline, heq] at hmoved
      exact hmoved rfl
    have hle := hcounted.bounded (t.taken.endedKind authored)
    omega
  | status | handshake | noSession | otherMachine | readStatus | commit | newTable | tableEnded =>
    trivial

/-- A Status of a machine whose system is fine, in a session state. -/
def statusOf (sessionState : UInt8) : Wire.Status := { sessionState := sessionState }

/-- A game of the script starts, the daemon loses its data and finds it again, and the game ends. -/
def warnedGameRun : List Event :=
  [.handshake 0, .commit [{ kind := Wire.gameStart }], .frame true true 1,
    .status (statusOf sessionNoData) 2, .status (statusOf sessionTracking) 3,
    .commit [{ kind := Wire.gameEnd }]]

/-- The frame that finds it over. -/
def gameOverFrame : Event := .frame true true 4

/-- The frame posts the loss of the data, and the warning is the game's own. -/
theorem reports_own_game_warnedGameRun : ∃ t t',
    Runs.runOf (Table.step 10000 120000) (.init 0 0) warnedGameRun = some t ∧
    (table 10000 120000).step t gameOverFrame t' ∧
    (t.frame true true 4).1 = .post (text "[!] Scorbit, during the game: no data, ok") ∧
    t.account.start true < t.account.received ∧ ReportsOwnGame t gameOverFrame := by
  have hrun : (Runs.runOf (Table.step 10000 120000) (.init 0 0) warnedGameRun).any
      (fun t => decide (StartsSeen t gameOverFrame ∧ t.taken.endedKind true = true ∧
        (t.frame true true 4).1 =
          .post (describeEarlier (describe (statusOf sessionNoData))))) = true := by
    decide +kernel
  have htext : describeEarlier (describe (statusOf sessionNoData)) =
      text "[!] Scorbit, during the game: no data, ok" := by
    decide +kernel
  obtain ⟨t, ht, hlast⟩ := (Option.any_eq_true _ _).mp hrun
  obtain ⟨hok, hkind, hpost⟩ := of_decide_eq_true hlast
  have halong : Runs.holdsAlong (Table.step 10000 120000) (fun t e => decide (StartsSeen t e))
      (.init 0 0) warnedGameRun = true := by
    decide +kernel
  have hreach : (table 10000 120000).Reaches StartsSeen t :=
    Runs.System.Reaches.runOf (fun _ _ h => of_decide_eq_true h) warnedGameRun
      (.init ⟨0, 0, rfl⟩) halong ht
  have hown : ReportsOwnGame t gameOverFrame := reports_own_game hreach hok rfl
  have hlt := hown _ (by decide +kernel) hpost
  rw [hkind] at hlt
  exact ⟨t, _, ht, rfl, htext ▸ hpost, hlt, hown⟩

/-- The same game, and another one in the same commit as its end, over as soon. -/
def nextGameRun : List Event :=
  [.handshake 0, .commit [{ kind := Wire.gameStart }], .frame true true 1,
    .status (statusOf sessionNoData) 2, .status (statusOf sessionTracking) 3,
    .commit [{ kind := Wire.gameEnd }, { kind := Wire.gameStart }],
    .status (statusOf sessionTracking) 4, .commit [{ kind := Wire.gameEnd }]]

/-- The second game is said to have lost the data. -/
theorem not_reports_own_game : ∃ t, (table 10000 120000).Reachable t ∧
    (t.frame true true 5).1 = .post (text "[!] Scorbit, during the game: no data, ok") ∧
    ¬ ReportsOwnGame t (.frame true true 5) := by
  have hrun : (Runs.runOf (Table.step 10000 120000) (.init 0 0) nextGameRun).any
      (fun t => decide (
        (t.frame true true 5).1 =
          .post (describeEarlier (describe (statusOf sessionNoData))) ∧
        t.account.start (t.taken.endedKind true) = t.account.received)) = true := by
    decide +kernel
  have htext : describeEarlier (describe (statusOf sessionNoData)) =
      text "[!] Scorbit, during the game: no data, ok" := by
    decide +kernel
  obtain ⟨t, ht, hlast⟩ := (Option.any_eq_true _ _).mp hrun
  obtain ⟨hpost, hstart⟩ := of_decide_eq_true hlast
  refine ⟨t, Runs.reachable_of_runOf ⟨0, 0, rfl⟩ ht, htext ▸ hpost, ?_⟩
  intro hown
  have hlt := hown (statusOf sessionNoData) (by decide +kernel) hpost
  omega

end Notice
