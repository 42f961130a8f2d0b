import ScorbitPlugin.Notice.GameNotice
import ScorbitPlugin.Worker.Games

set_option relaxedAutoImplicit false
set_option autoImplicit false

/-!
# A ROM's game

The worker follows a ROM's game by the Statuses it receives: `FollowGame`, `NoSession`, the end of
`Handshake` and the table change in `MaybeDeclare`, which share four fields. What they come to is
a rule about what has been received so far, in `docs/status-notices.md`: which receipts begin a game
and which end it, now or later. Here the rule is stated over the receipts alone, and the history is
shown to follow it.

## Main definitions

* `Notice.Receipt`, `Notice.GameFollower` — what is received, and what the worker makes of it.
* `Notice.EndsBy`, `Notice.InProgress` — the rule.
* `Notice.BeginsAt`, `Notice.beginnings` — the games of a run.

## Main results

* `Notice.follows_rule` — the history of the worker after any run is what the rule gives.
-/

namespace Notice

open Codec

/-! ## The worker -/

/-- What reaches the worker, and when. -/
inductive Receipt
  /-- A Status that decodes. -/
  | status (status : Wire.Status)
  /-- A HelloAck is accepted. -/
  | handshake
  /-- The session ends, or another cannot be had. -/
  | noSession (reason : Bytes)
  /-- A Declare is acknowledged. -/
  | declare (now : Worker.DeclareSnapshot)
deriving DecidableEq, Repr

/-- The status fields of `SocketWorker`, with `m_historyTable`. -/
structure GameFollower extends Follower where
  historyTable : Option Worker.DeclareSnapshot := none
deriving DecidableEq, Repr

/-- The machine that is declared is another one. -/
def otherTable (was now : Worker.DeclareSnapshot) : Bool :=
  now.epoch != was.epoch || Wire.newIdentity was.declare now.declare

namespace GameFollower

variable (noGameDeferMs romGameLostMs : ℤ) (f : GameFollower)

/-- `MaybeDeclare`, for the history. -/
def declared (now : Worker.DeclareSnapshot) : GameFollower where
  toFollower := if f.historyTable.any (otherTable · now) then f.otherMachine else f.toFollower
  historyTable := some now

/-- One receipt. A Status and a Declare's answer arrive in a session. -/
def step (f : GameFollower) : Time × Receipt → Option GameFollower
  | (now, .status status) =>
    if f.record.inSession then
      some { f with toFollower := f.toFollower.answerStatus noGameDeferMs status now }
    else none
  | (now, .handshake) => some { f with toFollower := f.toFollower.handshake romGameLostMs now }
  | (now, .noSession reason) => some { f with toFollower := f.toFollower.noSession reason now }
  | (_, .declare now) => if f.record.inSession then some (f.declared now) else none

/-- The worker as it is made. -/
def create (made : Time) : GameFollower where
  toFollower := { record := { since := made } }

end GameFollower

/-- The history says that a game is in progress. -/
def StatusHistory.inProgress (h : StatusHistory) (time : Time) : Bool :=
  h.romGame && !h.romGameEndsAt.any (· ≤ time)

/-! ## The rule -/

/-- A Status that says `tracking`. -/
def Receipt.tracks : Receipt → Bool
  | .status s => s.sessionState == sessionTracking
  | _ => false

/-- What takes a deferred end back: a `tracking`, a `no data` or another session. -/
def Receipt.cancels : Receipt → Bool
  | .status s => s.sessionState == sessionTracking || s.sessionState == sessionNoData
  | .handshake => true
  | _ => false

/-- A Status that is a warning: one that is not hidden, and marked `[!]`. -/
def Receipt.isWarning : Receipt → Bool
  | .status s => s.sessionState != sessionHidden && marker s == text "[!]"
  | _ => false

/-- The last handshake. -/
def sessionAt (run : List (Time × Receipt)) : Option Time :=
  run.foldl (fun session r => if r.2 = .handshake then some r.1 else session) none

/-- How a receipt moves the loss of the session. -/
def lossAfter (loss : Option Time) : Time × Receipt → Option Time
  | (_, .handshake) => none
  | (t, .noSession _) => some (loss.getD t)
  | _ => loss

/-- The loss of the last session, when there is none now. -/
def lostAt (run : List (Time × Receipt)) : Option Time := run.foldl lossAfter none

/-- How a receipt moves the table. -/
def tableAfter (table : Option Worker.DeclareSnapshot) :
    Time × Receipt → Option Worker.DeclareSnapshot
  | (_, .declare now) => some now
  | _ => table

/-- The table declared last. -/
def tableOf (run : List (Time × Receipt)) : Option Worker.DeclareSnapshot :=
  run.foldl tableAfter none

variable (noGameDeferMs romGameLostMs : ℤ)

/-- A receipt ends the game by a time, given what came before it and after: a `no game` at once when
the session has settled, and else when it has, unless that is taken back before; a handshake long
after the loss; a table of another epoch or identity. -/
def EndsBy (past : List (Time × Receipt)) : Time × Receipt → List (Time × Receipt) → Time → Prop
  | (t, .status s), future, time => s.sessionState = sessionNone ∧
      ∃ session, sessionAt past = some session ∧
        (session + milliseconds noGameDeferMs ≤ t ∨
          session + milliseconds noGameDeferMs ≤ time ∧ ∀ later ∈ future,
            later.2.cancels = true → session + milliseconds noGameDeferMs ≤ later.1)
  | (t, .handshake), _, _ => ∃ lost, lostAt past = some lost ∧
      milliseconds romGameLostMs ≤ t - lost
  | (_, .noSession _), _, _ => False
  | (_, .declare now), _, _ => ∃ was, tableOf past = some was ∧
      (now.epoch ≠ was.epoch ∨ now.declare.romId ≠ was.declare.romId ∨
        now.declare.tableKind ≠ was.declare.tableKind ∨
        now.declare.machineUuid ≠ was.declare.machineUuid)

/-- A game is in progress: after some `tracking`, nothing has ended it. -/
def InProgress (run : List (Time × Receipt)) (time : Time) : Prop :=
  ∃ past start future, run = past ++ start :: future ∧ start.2.tracks = true ∧
    ∀ before r after, future = before ++ r :: after →
      ¬ EndsBy noGameDeferMs romGameLostMs (past ++ start :: before) r after time

/-- The receipt at a place begins a game: a `tracking` outside one. -/
def BeginsAt (run : List (Time × Receipt)) (i : ℕ) : Prop :=
  ∃ r, run[i]? = some r ∧ r.2.tracks = true ∧
    ¬ InProgress noGameDeferMs romGameLostMs (run.take i) r.1

open scoped Classical in
/-- The games begun. -/
noncomputable def beginnings (run : List (Time × Receipt)) : ℕ :=
  ((List.range run.length).filter fun i =>
    decide (BeginsAt noGameDeferMs romGameLostMs run i)).length

/-- The warnings received. -/
def warningsIn (run : List (Time × Receipt)) : ℕ := run.countP (·.2.isWarning)

/-- An early `no game` of this session that nothing has taken back ends the game at that time. -/
def DeferredTo (run : List (Time × Receipt)) (due : Time) : Prop :=
  ∃ past t s future session, run = past ++ (t, .status s) :: future ∧
    s.sessionState = sessionNone ∧ sessionAt past = some session ∧
    due = session + milliseconds noGameDeferMs ∧ t < due ∧
    ∀ later ∈ future, later.2.cancels = false

/-- The history is what the rule gives. -/
structure FollowsRule (run : List (Time × Receipt)) (h : StatusHistory) : Prop where
  inProgress : ∀ time, (∀ r ∈ run, r.1 ≤ time) →
    (h.inProgress time = true ↔ InProgress noGameDeferMs romGameLostMs run time)
  games : h.romGames = .ofNat (beginnings noGameDeferMs romGameLostMs run)
  warnings : h.warnings = .ofNat (warningsIn run)
  /-- At the beginning of the last game. -/
  atStart : ∀ i, BeginsAt noGameDeferMs romGameLostMs run i →
    (∀ j, BeginsAt noGameDeferMs romGameLostMs run j → j ≤ i) →
    h.warningsAtGameStart = .ofNat (warningsIn (run.take i))
  deferred : ∀ due, h.romGameEndsAt = some due →
    h.romGame = true ∧ DeferredTo noGameDeferMs run due

/-- The worker's comparison of two tables is the rule's. -/
theorem otherTable_iff {was now : Worker.DeclareSnapshot} :
    otherTable was now = true ↔
      now.epoch ≠ was.epoch ∨ now.declare.romId ≠ was.declare.romId ∨
        now.declare.tableKind ≠ was.declare.tableKind ∨
        now.declare.machineUuid ≠ was.declare.machineUuid := by
  unfold otherTable Wire.newIdentity
  simp only [Bool.or_eq_true, bne_iff_ne, or_assoc]
  exact or_congr_right (or_congr ne_comm (or_congr ne_comm ne_comm))

/-! ## The rule, one receipt after another -/

variable {noGameDeferMs romGameLostMs : ℤ} {run past after : List (Time × Receipt)}
  {r x : Time × Receipt} {time : Time}

/-- The session's start after one more receipt. -/
theorem sessionAt_concat (run : List (Time × Receipt)) (r : Time × Receipt) :
    sessionAt (run ++ [r]) = if r.2 = .handshake then some r.1 else sessionAt run := by
  unfold sessionAt
  rw [List.foldl_concat]

/-- The loss of the session after one more receipt. -/
theorem lostAt_concat (run : List (Time × Receipt)) (r : Time × Receipt) :
    lostAt (run ++ [r]) = lossAfter (lostAt run) r := by
  unfold lostAt
  rw [List.foldl_concat]

/-- The declared table after one more receipt. -/
theorem tableOf_concat (run : List (Time × Receipt)) (r : Time × Receipt) :
    tableOf (run ++ [r]) = tableAfter (tableOf run) r := by
  unfold tableOf
  rw [List.foldl_concat]

/-- The time up to which a game must have lasted for it to last beyond a receipt. -/
def settledBy (r : Time × Receipt) (time : Time) : Time := if r.2.cancels then r.1 else time

/-- What a receipt takes back has not ended the game.

**Proof sketch.** Only a `no game` looks at what came after it: a later receipt that cancels takes
it back unless its end was due by then, which is what the settled time says. -/
theorem endsBy_concat (hr : r.1 ≤ time) :
    EndsBy noGameDeferMs romGameLostMs past x (after ++ [r]) time ↔
      EndsBy noGameDeferMs romGameLostMs past x after (settledBy r time) := by
  obtain ⟨t, receipt⟩ := x
  cases receipt with
  | status s =>
    refine and_congr_right fun _ => exists_congr fun session => and_congr_right fun _ =>
      or_congr_right ?_
    simp only [List.forall_mem_append, List.forall_mem_singleton]
    unfold settledBy
    cases hcancels : r.2.cancels with
    | false => simp
    | true =>
      simp only [if_true, forall_const]
      constructor
      · rintro ⟨-, hafter, hbefore⟩
        exact ⟨hbefore, hafter⟩
      · rintro ⟨hbefore, hafter⟩
        exact ⟨hbefore.trans hr, hafter, hbefore⟩
  | handshake => exact Iff.rfl
  | noSession reason => exact Iff.rfl
  | declare now => exact Iff.rfl

/-- **What one receipt does to a game**: a `tracking` leaves one in progress; any other leaves one
that was in progress and that it does not end.

**Proof sketch.** The receipt is the last of what follows the game's beginning; it comes after every
other end, and takes the deferred ones back that were not due. -/
theorem inProgress_concat (hr : r.1 ≤ time) :
    InProgress noGameDeferMs romGameLostMs (run ++ [r]) time ↔
      r.2.tracks = true ∨ InProgress noGameDeferMs romGameLostMs run (settledBy r time) ∧
        ¬ EndsBy noGameDeferMs romGameLostMs run r [] time := by
  constructor
  · rintro ⟨past, start, future, hsplit, hstart, hlasts⟩
    rcases List.eq_nil_or_concat future with rfl | ⟨future, last, rfl⟩
    · obtain ⟨-, hsame⟩ := List.append_inj' hsplit rfl
      obtain rfl := List.singleton_inj.mp hsame
      exact .inl hstart
    · have hrun : run ++ [r] = (past ++ start :: future) ++ [last] := by
        rw [hsplit, List.append_assoc, List.cons_append, List.concat_eq_append]
      obtain ⟨hsame, hlast⟩ := List.append_inj' hrun rfl
      obtain rfl := List.singleton_inj.mp hlast
      refine .inr ⟨⟨past, start, future, hsame, hstart, fun before x after hfuture hends => ?_⟩, ?_⟩
      · refine hlasts before x (after ++ [r]) ?_ ((endsBy_concat hr).mpr hends)
        rw [hfuture, List.concat_eq_append, List.append_assoc, List.cons_append]
      · rw [hsame]
        exact hlasts future r [] (by rw [List.concat_eq_append])
  · rintro (htracks | ⟨⟨past, start, future, rfl, hstart, hlasts⟩, hnot⟩)
    · refine ⟨run, r, [], rfl, htracks, fun before x after hnil => ?_⟩
      exact absurd hnil (by simp)
    · refine ⟨past, start, future ++ [r], by simp, hstart, fun before x after hfuture hends => ?_⟩
      rcases List.eq_nil_or_concat after with rfl | ⟨after, last, rfl⟩
      · obtain ⟨rfl, hx⟩ := List.append_inj' hfuture rfl
        obtain rfl := List.singleton_inj.mp hx
        exact hnot hends
      · rw [List.concat_eq_append] at hfuture hends
        have hfuture : future ++ [r] = (before ++ x :: after) ++ [last] := by
          rw [hfuture, List.append_assoc, List.cons_append]
        obtain ⟨hsame, hlast⟩ := List.append_inj' hfuture rfl
        obtain rfl := List.singleton_inj.mp hlast
        exact hlasts before x after hsame ((endsBy_concat hr).mp hends)

/-- The last receipt ends the game by a time when it says `no game` and the session has settled by
then. -/
theorem endsBy_status {now session : Time} {s : Wire.Status} (hnow : now ≤ time)
    (hsession : sessionAt run = some session) :
    EndsBy noGameDeferMs romGameLostMs run (now, .status s) [] time ↔
      s.sessionState = sessionNone ∧ session + milliseconds noGameDeferMs ≤ time := by
  refine and_congr_right fun _ => ?_
  constructor
  · rintro ⟨session', hsession', hdue⟩
    obtain rfl := Option.some.inj (hsession.symm.trans hsession')
    rcases hdue with hsettled | ⟨hdue, -⟩
    · exact hsettled.trans hnow
    · exact hdue
  · intro hdue
    exact ⟨session, hsession, .inr ⟨hdue, fun later hlater => absurd hlater List.not_mem_nil⟩⟩

/-- The games of a longer run. -/
theorem beginsAt_concat (i : ℕ) :
    BeginsAt noGameDeferMs romGameLostMs (run ++ [r]) i ↔
      BeginsAt noGameDeferMs romGameLostMs run i ∨ i = run.length ∧ r.2.tracks = true ∧
        ¬ InProgress noGameDeferMs romGameLostMs run r.1 := by
  unfold BeginsAt
  rcases Nat.lt_trichotomy i run.length with hlt | rfl | hgt
  · rw [List.getElem?_append_left hlt, List.take_append_of_le_length hlt.le]
    simp [hlt.ne]
  · rw [List.getElem?_concat_length, List.take_left, List.getElem?_eq_none le_rfl]
    simp
  · have hnone : (run ++ [r])[i]? = none := List.getElem?_eq_none (by simp; omega)
    rw [hnone, List.getElem?_eq_none hgt.le]
    simp [hgt.ne']

/-- A game begins at a place of the run. -/
theorem BeginsAt.lt {i : ℕ} (h : BeginsAt noGameDeferMs romGameLostMs run i) : i < run.length := by
  obtain ⟨r, hr, -⟩ := h
  exact (List.getElem?_eq_some_iff.mp hr).1

open scoped Classical in
/-- The number of games of a longer run.

**Proof sketch.** The places before the last are counted as before (`beginsAt_concat`), and the last
one counts when its receipt tracks and no game was in progress. -/
theorem beginnings_concat : beginnings noGameDeferMs romGameLostMs (run ++ [r]) =
    beginnings noGameDeferMs romGameLostMs run +
      if r.2.tracks = true ∧ ¬ InProgress noGameDeferMs romGameLostMs run r.1 then 1 else 0 := by
  unfold beginnings
  rw [List.length_append, List.length_singleton, List.range_succ, List.filter_append,
    List.length_append]
  congr 1
  · congr 1
    refine List.filter_congr fun i hi => ?_
    have hlt := List.mem_range.mp hi
    rw [decide_eq_decide, beginsAt_concat]
    exact ⟨fun h => h.resolve_right fun hlast => absurd hlast.1 hlt.ne, .inl⟩
  · have hlast : BeginsAt noGameDeferMs romGameLostMs (run ++ [r]) run.length ↔
        r.2.tracks = true ∧ ¬ InProgress noGameDeferMs romGameLostMs run r.1 := by
      rw [beginsAt_concat]
      exact ⟨fun h => (h.resolve_left fun hold => absurd hold.lt (lt_irrefl _)).2,
        fun h => .inr ⟨rfl, h⟩⟩
    rw [List.filter_singleton]
    by_cases h : r.2.tracks = true ∧ ¬ InProgress noGameDeferMs romGameLostMs run r.1
    · rw [if_pos h, decide_eq_true (hlast.mpr h)]
      rfl
    · rw [if_neg h, decide_eq_false fun hbegins => h (hlast.mp hbegins)]
      rfl

/-! ## The worker, one receipt after another -/

section Worker

variable {h : StatusHistory} {f : Follower} {status : Wire.Status} {now : Time}

/-- Counting a warning moves no game. -/
theorem romGame_warn (h : StatusHistory) (status : Wire.Status) :
    (h.warn status).romGame = h.romGame ∧
    (h.warn status).romGameEndsAt = h.romGameEndsAt ∧ (h.warn status).romGames = h.romGames := by
  unfold StatusHistory.warn
  split <;> exact ⟨rfl, rfl, rfl⟩

/-- The game of a Status is the one in progress when it arrives. -/
theorem romGame_count (h : StatusHistory) (status : Wire.Status) (now : Time) :
    (h.count status now).romGame = h.inProgress now := by
  obtain ⟨hgame, hends, -⟩ := romGame_warn h status
  unfold StatusHistory.count StatusHistory.endDue StatusHistory.inProgress
  rw [hends]
  cases h.romGameEndsAt.any (· ≤ now)
  · rw [if_neg Bool.false_ne_true, hgame]
    simp
  · rw [if_pos rfl]
    simp

/-- A deferred end that is left is still to come. -/
theorem romGameEndsAt_count (h : StatusHistory) (status : Wire.Status) (now : Time) :
    (h.count status now).romGameEndsAt = h.romGameEndsAt.filter (now < ·) := by
  obtain ⟨-, hends, -⟩ := romGame_warn h status
  unfold StatusHistory.count StatusHistory.endDue
  rw [hends]
  cases hdue : h.romGameEndsAt with
  | none => simp [hends, hdue]
  | some due =>
    rw [Option.filter_some]
    by_cases hle : due ≤ now
    · simp [hle, hle.not_gt]
    · simp [hle, hends, hdue, lt_of_not_ge hle]

/-- Up to the session state, a Status changes no game from then on.

**Proof sketch.** Counting keeps the game and drops a deferred end that is due; a game whose end is
due by then is not in progress either way. -/
theorem inProgress_count (h : StatusHistory) (status : Wire.Status) {time : Time}
    (hnow : now ≤ time) :
    (h.count status now).inProgress time = h.inProgress time := by
  have hgame := romGame_count h status now
  have hends := romGameEndsAt_count h status now
  unfold StatusHistory.inProgress at hgame ⊢
  rw [hgame, hends]
  cases h.romGame with
  | false => rfl
  | true =>
    cases h.romGameEndsAt with
    | none => rfl
    | some due =>
      by_cases hle : due ≤ now
      · simp [hle, hle.trans hnow]
      · simp [hle, lt_of_not_ge hle, Option.filter_some]

/-- A game begins at a `tracking` outside one. -/
theorem startsGame_eq : f.startsGame status now =
    (status.sessionState == sessionTracking && !f.history.inProgress now) := by
  unfold Follower.startsGame
  rw [romGame_count]

/-- `FollowGame` counts the games.

**Proof sketch.** The count itself leaves the number, and of the branches only a `tracking` without
a game adds one. -/
theorem romGames_followGame (noGameDeferMs : ℤ) :
    (f.followGame noGameDeferMs status now).romGames =
      f.history.romGames + if f.startsGame status now then 1 else 0 := by
  have hcount : (f.history.count status now).romGames = f.history.romGames := by
    obtain ⟨-, -, hwarn⟩ := romGame_warn f.history status
    unfold StatusHistory.count StatusHistory.endDue
    split <;> exact hwarn
  unfold Follower.followGame Follower.startsGame
  dsimp only
  by_cases htracks : status.sessionState = sessionTracking
  · rw [if_pos htracks]
    cases (f.history.count status now).romGame <;> simp [htracks, hcount]
  · have hnot : (status.sessionState == sessionTracking) = false := beq_false_of_ne htracks
    rw [if_neg htracks, hnot, Bool.false_and, if_neg Bool.false_ne_true]
    split
    · simpa using hcount
    · split
      · split <;> simpa using hcount
      · simpa using hcount

/-- **What a Status does to the game**, when the deferred end is the session's: a `tracking` leaves
one in progress, a `no data` the one there is, and a `no game` ends it when the session has
settled.

**Proof sketch.** By the session state, in the order of the source. A `no game` ends at once a game
whose session has settled, and else defers the end to when it will have, unless one is deferred
already, which is to the same time. -/
theorem inProgress_followGame (status : Wire.Status) (noGameDeferMs : ℤ) {time : Time}
    (hnow : now ≤ time)
    (hends : ∀ due, f.history.romGameEndsAt = some due →
      due = f.sessionStart + milliseconds noGameDeferMs) :
    (f.followGame noGameDeferMs status now).inProgress time =
      if status.sessionState = sessionTracking then true
      else if status.sessionState = sessionNoData then f.history.inProgress now
      else if status.sessionState = sessionNone then f.history.inProgress time &&
        decide (time < f.sessionStart + milliseconds noGameDeferMs)
      else f.history.inProgress time := by
  have hgame := romGame_count f.history status now
  have hkept := inProgress_count f.history status hnow
  have hleft := romGameEndsAt_count f.history status now
  unfold Follower.followGame
  dsimp only
  split
  · split <;> simp_all [StatusHistory.inProgress]
  · split
    · rw [StatusHistory.inProgress, hgame]
      simp
    · -- the game the `no game` finds
      rw [← hkept]
      by_cases hnone : status.sessionState = sessionNone
      · rw [if_pos hnone]
        cases hfound : (f.history.count status now).romGame with
        | false => simp [hnone, hfound, StatusHistory.inProgress]
        | true =>
          have hdue : ∀ due, (f.history.count status now).romGameEndsAt = some due →
              due = f.sessionStart + milliseconds noGameDeferMs := by
            intro due hdue
            rw [hleft] at hdue
            exact hends due (Option.eq_some_of_filter_eq_some hdue)
          by_cases hearly : now < f.sessionStart + milliseconds noGameDeferMs
          · have hflip : decide (time < f.sessionStart + milliseconds noGameDeferMs) =
                !decide (f.sessionStart + milliseconds noGameDeferMs ≤ time) := by
              rw [← decide_not]
              exact decide_eq_decide.mpr not_le.symm
            simp only [hnone, true_and, if_true, hearly, StatusHistory.inProgress, hfound]
            rw [hflip]
            cases hends' : (f.history.count status now).romGameEndsAt with
            | none => simp
            | some due => simp [hdue due hends']
          · have hlate : ¬ time < f.sessionStart + milliseconds noGameDeferMs :=
              not_lt.mpr ((not_lt.mp hearly).trans hnow)
            simp [hnone, hearly, hlate, hfound, StatusHistory.inProgress]
      · rw [if_neg hnone, if_neg fun hboth => hnone hboth.1]

/-- A handshake keeps a game that is in progress, unless the loss was long ago. -/
theorem inProgress_handshake (romGameLostMs : ℤ) (time : Time) :
    (f.handshake romGameLostMs now).history.inProgress time =
      (f.history.inProgress now && !(!f.record.inSession &&
        decide (milliseconds romGameLostMs ≤ now - f.record.since))) := by
  show ((f.history.romGame && !(f.history.romGame && !f.record.inSession &&
    decide (now - f.record.since ≥ milliseconds romGameLostMs)) &&
      !f.history.romGameEndsAt.any (· ≤ now)) && !Option.any (· ≤ time) none) = _
  unfold StatusHistory.inProgress
  cases f.history.romGame <;> simp [Bool.and_comm]

/-- A loss changes no history. -/
theorem history_noSession (reason : Bytes) : (f.noSession reason now).history = f.history := by
  unfold Follower.noSession
  split <;> rfl

/-- Another table ends the game; the same one does not. -/
theorem inProgress_declared (f : GameFollower) (table : Worker.DeclareSnapshot) (time : Time) :
    (f.declared table).history.inProgress time =
      (f.history.inProgress time && !f.historyTable.any (otherTable · table)) := by
  unfold GameFollower.declared
  dsimp only
  cases f.historyTable.any (otherTable · table) with
  | false => simp
  | true =>
    rw [if_pos rfl]
    unfold Follower.otherMachine StatusHistory.inProgress
    cases hgame : f.history.romGame <;> simp [Follower.postStatus, hgame]

/-- A table leaves the history, or ends a game and no deferred end is left. -/
theorem history_declared (f : GameFollower) (table : Worker.DeclareSnapshot) :
    (f.declared table).history = f.history ∨
      (f.declared table).history.romGameEndsAt = none := by
  unfold GameFollower.declared Follower.otherMachine
  dsimp only
  split
  · split
    · exact .inr rfl
    · exact .inl rfl
  · exact .inl rfl

/-- No table moves a count. -/
theorem counts_declared (f : GameFollower) (table : Worker.DeclareSnapshot) :
    (f.declared table).history.romGames = f.history.romGames ∧
      (f.declared table).history.warnings = f.history.warnings ∧
      (f.declared table).history.warningsAtGameStart = f.history.warningsAtGameStart := by
  unfold GameFollower.declared Follower.otherMachine
  dsimp only
  split
  · split <;> exact ⟨rfl, rfl, rfl⟩
  · exact ⟨rfl, rfl, rfl⟩

end Worker

/-! ## The rule holds -/

/-- The worker after a run: the history is what the rule gives, and the other fields are those of
the last handshake, loss and Declare. -/
structure Follows (noGameDeferMs romGameLostMs : ℤ) (run : List (Time × Receipt))
    (f : GameFollower) : Prop where
  rule : FollowsRule noGameDeferMs romGameLostMs run f.history
  session : ∀ session, sessionAt run = some session → f.sessionStart = session
  begun : f.record.inSession = true ∨ f.history.romGame = true → (sessionAt run).isSome = true
  lost : (sessionAt run).isSome = true →
    lostAt run = if f.record.inSession then none else some f.record.since
  table : f.historyTable = tableOf run

/-- A deferred end is one of the last session.

**Proof sketch.** No receipt after the `no game` began a session, so the last session is the one
before it. -/
theorem DeferredTo.session {due : Time} (h : DeferredTo noGameDeferMs run due) :
    ∃ session, sessionAt run = some session ∧ due = session + milliseconds noGameDeferMs := by
  obtain ⟨past, t, s, future, session, rfl, -, hsession, hdue, -, hkept⟩ := h
  refine ⟨session, ?_, hdue⟩
  have hsame : ∀ (future past : List (Time × Receipt)),
      (∀ later ∈ future, later.2.cancels = false) →
        sessionAt (past ++ future) = sessionAt past := by
    intro future
    induction future with
    | nil =>
      intro past _
      rw [List.append_nil]
    | cons later future ih =>
      intro past hkept
      have hlater : later.2 ≠ .handshake := by
        intro heq
        have hnot := hkept later List.mem_cons_self
        rw [heq] at hnot
        cases hnot
      rw [List.append_cons, ih _ fun r hr => hkept r (List.mem_cons_of_mem _ hr),
        sessionAt_concat, if_neg hlater]
  rw [List.append_cons, hsame future _ hkept, sessionAt_concat, if_neg (by simp), hsession]

/-- A receipt that takes nothing back leaves a deferred end. -/
theorem DeferredTo.concat {due : Time} (h : DeferredTo noGameDeferMs run due)
    (hr : r.2.cancels = false) : DeferredTo noGameDeferMs (run ++ [r]) due := by
  obtain ⟨past, t, s, future, session, rfl, hnone, hsession, hdue, hearly, hkept⟩ := h
  refine ⟨past, t, s, future ++ [r], session, by simp, hnone, hsession, hdue, hearly, ?_⟩
  intro later hlater
  rcases List.mem_append.mp hlater with hold | hlast
  · exact hkept later hold
  · rw [List.mem_singleton.mp hlast]
    exact hr

namespace Follows

variable {f f' : GameFollower}

/-- A Status that is received is received in a session. -/
theorem session_of_status (h : Follows noGameDeferMs romGameLostMs run f)
    (hin : f.record.inSession = true) : sessionAt run = some f.sessionStart := by
  obtain ⟨session, hsession⟩ := Option.isSome_iff_exists.mp (h.begun (.inl hin))
  rw [h.session session hsession]
  exact hsession

/-- A deferred end is the session's. -/
theorem due_eq (h : Follows noGameDeferMs romGameLostMs run f) {due : Time}
    (hdue : f.history.romGameEndsAt = some due) :
    due = f.sessionStart + milliseconds noGameDeferMs := by
  obtain ⟨session, hsession, heq⟩ := (h.rule.deferred due hdue).2.session
  rw [heq, h.session session hsession]

/-- **What one receipt does to the game of the history**, as the rule says.

**Proof sketch.** By the receipt. A Status is `inProgress_followGame` beside what the rule says of
one (`endsBy_status`); a handshake ends a game whose session was lost too long ago; a lost
connection leaves it, and a Declare of another table ends it. -/
theorem inProgress_step (h : Follows noGameDeferMs romGameLostMs run f)
    (hstep : f.step noGameDeferMs romGameLostMs r = some f') (hr : r.1 ≤ time) :
    f'.history.inProgress time = true ↔ r.2.tracks = true ∨
      f.history.inProgress (settledBy r time) = true ∧
        ¬ EndsBy noGameDeferMs romGameLostMs run r [] time := by
  obtain ⟨now, receipt⟩ := r
  cases receipt with
  | status s =>
    obtain ⟨hin, rfl⟩ : f.record.inSession = true ∧ _ = f' := by
      simpa [GameFollower.step] using hstep
    have hsession := h.session_of_status hin
    have hgame := inProgress_followGame s noGameDeferMs hr fun due => h.due_eq
    show (f.followGame noGameDeferMs s now).inProgress time = true ↔ _
    rw [hgame, endsBy_status hr hsession]
    by_cases htracks : s.sessionState = sessionTracking
    · rw [if_pos htracks]
      exact iff_of_true rfl (.inl (beq_iff_eq.mpr htracks))
    · have hnot : (Receipt.status s).tracks = false := beq_false_of_ne htracks
      rw [if_neg htracks, hnot]
      by_cases hnoData : s.sessionState = sessionNoData
      · have hby : settledBy (now, .status s) time = now :=
          if_pos (by simp [Receipt.cancels, hnoData])
        have hnone : ¬ s.sessionState = sessionNone := by
          rw [hnoData]
          decide
        rw [if_pos hnoData, hby]
        simp [hnone]
      · have hby : settledBy (now, .status s) time = time :=
          if_neg (by simp [Receipt.cancels, htracks, hnoData])
        rw [if_neg hnoData, hby]
        by_cases hnone : s.sessionState = sessionNone
        · simp [hnone]
        · simp [hnone]
  | handshake =>
    obtain rfl : _ = f' := Option.some.inj hstep
    show ((f.toFollower).handshake romGameLostMs now).history.inProgress time = true ↔ _
    rw [inProgress_handshake]
    simp only [Receipt.tracks, settledBy, Receipt.cancels, Bool.false_eq_true, false_or, if_true,
      Bool.and_eq_true, Bool.not_eq_true']
    refine and_congr_right fun hgame => ?_
    have hromGame : f.history.romGame = true := (Bool.and_eq_true_iff.mp hgame).1
    have hlost := h.lost (h.begun (.inr hromGame))
    unfold EndsBy
    rw [hlost]
    cases f.record.inSession <;> simp
  | noSession reason =>
    obtain rfl : _ = f' := Option.some.inj hstep
    show ((f.toFollower).noSession reason now).history.inProgress time = true ↔ _
    rw [history_noSession]
    simp [Receipt.tracks, settledBy, Receipt.cancels, EndsBy]
  | declare table =>
    obtain ⟨hin, rfl⟩ : f.record.inSession = true ∧ _ = f' := by
      simpa [GameFollower.step] using hstep
    rw [inProgress_declared, h.table]
    simp only [Receipt.tracks, settledBy, Receipt.cancels, EndsBy, ← otherTable_iff,
      Bool.false_eq_true, if_false, false_or, Bool.and_eq_true, Bool.not_eq_true']
    cases tableOf run <;> simp

/-- What one receipt does to the counts.

**Proof sketch.** Only a Status counts: a game where one starts, and a warning where it is one. The
start's count is set before the Status itself is counted. -/
theorem counts_step (hstep : f.step noGameDeferMs romGameLostMs r = some f') :
    f'.history.romGames = f.history.romGames +
        (if r.2.tracks = true ∧ f.history.inProgress r.1 = false then 1 else 0) ∧
      f'.history.warnings = f.history.warnings + (if r.2.isWarning = true then 1 else 0) ∧
      f'.history.warningsAtGameStart =
        if r.2.tracks = true ∧ f.history.inProgress r.1 = false then f.history.warnings
        else f.history.warningsAtGameStart := by
  obtain ⟨now, receipt⟩ := r
  cases receipt with
  | status s =>
    obtain ⟨-, rfl⟩ : f.record.inSession = true ∧ _ = f' := by
      simpa [GameFollower.step] using hstep
    have hstarts : (f.startsGame s now = true) ↔
        (Receipt.status s).tracks = true ∧ f.history.inProgress now = false := by
      rw [startsGame_eq, Bool.and_eq_true, Bool.not_eq_true']
      rfl
    refine ⟨?_, ?_, ?_⟩
    · rw [← if_congr hstarts rfl rfl]
      exact romGames_followGame noGameDeferMs
    · exact Table.Counted.warnings_followGame f.toFollower s now
    · rw [← if_congr hstarts rfl rfl]
      exact Table.Counted.warningsAtGameStart_followGame f.toFollower s now
  | handshake =>
    obtain rfl : _ = f' := Option.some.inj hstep
    simp [Receipt.tracks, Receipt.isWarning, Follower.handshake, Follower.postStatus]
  | noSession reason =>
    obtain rfl : _ = f' := Option.some.inj hstep
    simp [Receipt.tracks, Receipt.isWarning, history_noSession]
  | declare table =>
    obtain ⟨-, rfl⟩ : f.record.inSession = true ∧ _ = f' := by
      simpa [GameFollower.step] using hstep
    obtain ⟨hgames, hwarnings, hstart⟩ := counts_declared f table
    simp [Receipt.tracks, Receipt.isWarning, hgames, hwarnings, hstart]

/-- After a Status, a deferred end is one that the Status deferred, or one it left.

**Proof sketch.** A `tracking` clears a deferred end. A `no data` leaves what was left, and a `no
game` defers one to the settling of its session; either was deferred in a session that still lasts.
-/
theorem deferred_followGame (h : Follows noGameDeferMs romGameLostMs run f)
    (hin : f.record.inSession = true) {s : Wire.Status} {now due : Time}
    (hdue : (f.followGame noGameDeferMs s now).romGameEndsAt = some due) :
    (f.followGame noGameDeferMs s now).romGame = true ∧
      DeferredTo noGameDeferMs (run ++ [(now, .status s)]) due := by
  have hsession := h.session_of_status hin
  have hgame := romGame_count f.history s now
  have hleft : ∀ due, (f.history.count s now).romGameEndsAt = some due →
      f.history.romGameEndsAt = some due ∧ now < due := by
    intro due hdue
    rw [romGameEndsAt_count, Option.filter_eq_some_iff] at hdue
    exact ⟨hdue.1, of_decide_eq_true hdue.2⟩
  unfold Follower.followGame at hdue ⊢
  dsimp only at hdue ⊢
  by_cases htracks : s.sessionState = sessionTracking
  · rw [if_pos htracks] at hdue
    split at hdue <;> cases hdue
  · rw [if_neg htracks] at hdue ⊢
    by_cases hnoData : s.sessionState = sessionNoData
    · rw [if_pos hnoData] at hdue
      cases hdue
    · rw [if_neg hnoData] at hdue ⊢
      by_cases hends : s.sessionState = sessionNone ∧ (f.history.count s now).romGame = true
      · rw [if_pos hends] at hdue ⊢
        by_cases hearly : now < f.sessionStart + milliseconds noGameDeferMs
        · -- deferred by this Status, to where an earlier one had deferred it
          rw [if_pos hearly] at hdue ⊢
          refine ⟨hends.2, run, now, s, [], f.sessionStart, rfl, hends.1, hsession, ?_⟩
          have hsame : due = f.sessionStart + milliseconds noGameDeferMs := by
            rw [← Option.some.inj hdue]
            cases hold : (f.history.count s now).romGameEndsAt with
            | none => rfl
            | some old => exact h.due_eq (hleft old hold).1
          rw [hsame]
          exact ⟨rfl, hearly, fun later hlater => absurd hlater List.not_mem_nil⟩
        · rw [if_neg hearly] at hdue
          obtain ⟨hold, hlater⟩ := hleft due hdue
          rw [h.due_eq hold] at hlater
          exact absurd hlater hearly
      · rw [if_neg hends] at hdue ⊢
        obtain ⟨hold, hlater⟩ := hleft due hdue
        obtain ⟨hromGame, hdeferred⟩ := h.rule.deferred due hold
        refine ⟨?_, hdeferred.concat (by simp [Receipt.cancels, htracks, hnoData])⟩
        rw [hgame, StatusHistory.inProgress, hromGame, hold]
        simpa using hlater

/-- What one receipt does to a deferred end.

**Proof sketch.** A Status is `deferred_followGame`, and a handshake clears it. A lost connection
leaves the history as it was, and a Declare leaves it or begins it anew. -/
theorem deferred_step (h : Follows noGameDeferMs romGameLostMs run f)
    (hstep : f.step noGameDeferMs romGameLostMs r = some f') {due : Time}
    (hdue : f'.history.romGameEndsAt = some due) :
    f'.history.romGame = true ∧ DeferredTo noGameDeferMs (run ++ [r]) due := by
  obtain ⟨now, receipt⟩ := r
  cases receipt with
  | status s =>
    obtain ⟨hin, rfl⟩ : f.record.inSession = true ∧ _ = f' := by
      simpa [GameFollower.step] using hstep
    exact h.deferred_followGame hin hdue
  | handshake =>
    obtain rfl : _ = f' := Option.some.inj hstep
    cases hdue
  | noSession reason =>
    obtain rfl : _ = f' := Option.some.inj hstep
    have hsame : (f.toFollower.noSession reason now).history = f.history := history_noSession reason
    dsimp only at hdue ⊢
    rw [hsame] at hdue ⊢
    obtain ⟨hromGame, hdeferred⟩ := h.rule.deferred due hdue
    exact ⟨hromGame, hdeferred.concat rfl⟩
  | declare table =>
    obtain ⟨-, rfl⟩ : f.record.inSession = true ∧ _ = f' := by
      simpa [GameFollower.step] using hstep
    rcases history_declared f table with hsame | hnone
    · rw [hsame] at hdue ⊢
      obtain ⟨hromGame, hdeferred⟩ := h.rule.deferred due hdue
      exact ⟨hromGame, hdeferred.concat rfl⟩
    · rw [hnone] at hdue
      cases hdue

/-- **One receipt**: the history stays what the rule gives.

**Proof sketch.** The game of the history moves as the rule's does (`inProgress_step`,
`inProgress_concat`), so it begins where the rule says, and the counts move with it
(`counts_step`). -/
theorem rule_step (h : Follows noGameDeferMs romGameLostMs run f)
    (hlast : ∀ earlier ∈ run, earlier.1 ≤ r.1)
    (hstep : f.step noGameDeferMs romGameLostMs r = some f') :
    FollowsRule noGameDeferMs romGameLostMs (run ++ [r]) f'.history := by
  obtain ⟨hgames, hwarnings, hstart⟩ := counts_step hstep
  have hbegins : r.2.tracks = true ∧ f.history.inProgress r.1 = false ↔
      r.2.tracks = true ∧ ¬ InProgress noGameDeferMs romGameLostMs run r.1 := by
    rw [← h.rule.inProgress r.1 hlast, Bool.not_eq_true]
  constructor
  · intro time htime
    have hr : r.1 ≤ time := htime r (List.mem_append_right _ (List.mem_singleton_self r))
    have hsettled : r.1 ≤ settledBy r time := by
      unfold settledBy
      split
      · exact le_rfl
      · exact hr
    rw [h.inProgress_step hstep hr, inProgress_concat hr,
      h.rule.inProgress _ fun earlier hearlier => (hlast earlier hearlier).trans hsettled]
  · rw [hgames, beginnings_concat, h.rule.games]
    by_cases hnew : r.2.tracks = true ∧ ¬ InProgress noGameDeferMs romGameLostMs run r.1
    · rw [if_pos (hbegins.mpr hnew), if_pos hnew]
      exact (UInt32.ofNat_add _ _).symm
    · rw [if_neg fun h => hnew (hbegins.mp h), if_neg hnew]
      simp
  · rw [hwarnings, h.rule.warnings, warningsIn, warningsIn, List.countP_append]
    cases hwarning : r.2.isWarning <;> simp [hwarning]
  · intro i hi hall
    rw [hstart]
    by_cases hnew : r.2.tracks = true ∧ ¬ InProgress noGameDeferMs romGameLostMs run r.1
    · have heq : i = run.length := by
        refine Nat.le_antisymm ?_ (hall _ ((beginsAt_concat _).mpr (.inr ⟨rfl, hnew⟩)))
        have hlt := hi.lt
        rw [List.length_append, List.length_singleton] at hlt
        omega
      rw [if_pos (hbegins.mpr hnew), heq, List.take_left, h.rule.warnings]
    · have hold : BeginsAt noGameDeferMs romGameLostMs run i :=
        ((beginsAt_concat i).mp hi).resolve_right fun hlast => hnew hlast.2
      rw [if_neg fun h => hnew (hbegins.mp h), List.take_append_of_le_length hold.lt.le]
      exact h.rule.atStart i hold fun j hj => hall j ((beginsAt_concat j).mpr (.inl hj))
  · intro due hdue
    exact h.deferred_step hstep hdue

/-- What a loss leaves of the record. -/
theorem record_noSession (f : Follower) (reason : Bytes) (now : Time) :
    (f.noSession reason now).record.inSession = false ∧
      (f.noSession reason now).sessionStart = f.sessionStart ∧
      (f.noSession reason now).record.since =
        if f.record.inSession then now else f.record.since := by
  unfold Follower.noSession
  split
  · rename_i hout
    have hin : f.record.inSession = false := by simpa using hout.1
    exact ⟨hin, rfl, by rw [hin, if_neg Bool.false_ne_true]⟩
  · exact ⟨rfl, rfl, rfl⟩

/-- What a Declare leaves of the other fields. -/
theorem record_declared (f : GameFollower) (table : Worker.DeclareSnapshot) :
    (f.declared table).record.inSession = f.record.inSession ∧
      (f.declared table).record.since = f.record.since ∧
      (f.declared table).sessionStart = f.sessionStart := by
  unfold GameFollower.declared Follower.otherMachine
  dsimp only
  split
  · split <;> exact ⟨rfl, rfl, rfl⟩
  · exact ⟨rfl, rfl, rfl⟩

/-- **One receipt**: everything stays as the rule has it.

**Proof sketch.** The rule holds by `rule_step`. What else is kept is read off by the receipt: when
the session began, when it was lost, and the table it is of. -/
theorem step (h : Follows noGameDeferMs romGameLostMs run f)
    (hlast : ∀ earlier ∈ run, earlier.1 ≤ r.1)
    (hstep : f.step noGameDeferMs romGameLostMs r = some f') :
    Follows noGameDeferMs romGameLostMs (run ++ [r]) f' := by
  have hrule := h.rule_step hlast hstep
  obtain ⟨now, receipt⟩ := r
  cases receipt with
  | status s =>
    obtain ⟨hin, rfl⟩ : f.record.inSession = true ∧ _ = f' := by
      simpa [GameFollower.step] using hstep
    have hsession : sessionAt (run ++ [(now, .status s)]) = sessionAt run := by
      rw [sessionAt_concat, if_neg (by simp)]
    refine ⟨hrule, ?_, fun _ => ?_, fun hsome => ?_, ?_⟩
    · rw [hsession]
      exact h.session
    · rw [hsession]
      exact h.begun (.inl hin)
    · rw [lostAt_concat]
      rw [hsession] at hsome
      exact h.lost hsome
    · rw [tableOf_concat]
      exact h.table
  | handshake =>
    obtain rfl : _ = f' := Option.some.inj hstep
    have hsession : sessionAt (run ++ [(now, .handshake)]) = some now := by
      rw [sessionAt_concat, if_pos rfl]
    refine ⟨hrule, ?_, fun _ => ?_, fun _ => ?_, ?_⟩
    · rw [hsession]
      exact fun session hnow => Option.some.inj hnow
    · rw [hsession]
      rfl
    · rw [lostAt_concat]
      rfl
    · rw [tableOf_concat]
      exact h.table
  | noSession reason =>
    obtain rfl : _ = f' := Option.some.inj hstep
    obtain ⟨hout, hstart, hsince⟩ := record_noSession f.toFollower reason now
    have hsession : sessionAt (run ++ [(now, .noSession reason)]) = sessionAt run := by
      rw [sessionAt_concat, if_neg (by simp)]
    refine ⟨hrule, ?_, fun hbegun => ?_, fun hsome => ?_, ?_⟩
    · rw [hsession]
      exact fun session hat => hstart.trans (h.session session hat)
    · rw [hsession]
      rcases hbegun with hin | hgame
      · exact absurd (hout.symm.trans hin) Bool.false_ne_true
      · refine h.begun (.inr ?_)
        rwa [show (f.toFollower.noSession reason now).history = f.history from
          history_noSession reason] at hgame
    · rw [lostAt_concat]
      rw [hsession] at hsome
      dsimp only
      rw [hout, hsince, h.lost hsome]
      cases f.record.inSession <;> rfl
    · rw [tableOf_concat]
      exact h.table
  | declare table =>
    obtain ⟨hin, rfl⟩ : f.record.inSession = true ∧ _ = f' := by
      simpa [GameFollower.step] using hstep
    obtain ⟨hinSession, hsince, hstart⟩ := record_declared f table
    have hsession : sessionAt (run ++ [(now, .declare table)]) = sessionAt run := by
      rw [sessionAt_concat, if_neg (by simp)]
    refine ⟨hrule, ?_, fun _ => ?_, fun hsome => ?_, ?_⟩
    · rw [hsession]
      exact fun session hat => hstart.trans (h.session session hat)
    · rw [hsession]
      exact h.begun (.inl hin)
    · rw [lostAt_concat, hinSession, hsince]
      rw [hsession] at hsome
      exact h.lost hsome
    · rw [tableOf_concat]
      rfl

/-- Before anything is received. -/
theorem create (noGameDeferMs romGameLostMs : ℤ) (made : Time) :
    Follows noGameDeferMs romGameLostMs [] (.create made) where
  rule :=
    { inProgress := by
        intro time _
        refine iff_of_false Bool.false_ne_true ?_
        rintro ⟨past, start, future, hnil, -⟩
        exact absurd hnil (by simp)
      games := rfl
      warnings := rfl
      atStart := by
        intro i hbegins
        exact absurd hbegins.lt (Nat.not_lt_zero i)
      deferred := by
        intro due hdue
        cases hdue }
  session := by
    intro session hsession
    cases hsession
  begun := by
    intro hbegun
    rcases hbegun with hin | hgame
    · cases hin
    · cases hgame
  lost := by
    intro hsome
    cases hsome
  table := rfl

/-- **Any number of receipts**, from a worker that follows the rule.

**Proof sketch.** By induction on the receipts, with `step` for the first; the times go up, so each
is no earlier than all before it. -/
theorem runOf {later : List (Time × Receipt)} (h : Follows noGameDeferMs romGameLostMs run f)
    (htimes : (run ++ later).Pairwise fun a b => a.1 ≤ b.1)
    (hrun : Runs.runOf (GameFollower.step noGameDeferMs romGameLostMs) f later = some f') :
    Follows noGameDeferMs romGameLostMs (run ++ later) f' := by
  induction later generalizing run f with
  | nil =>
    obtain rfl := Option.some.inj hrun
    rwa [List.append_nil]
  | cons r later ih =>
    obtain ⟨f₁, hfirst, hrest⟩ := Option.bind_eq_some_iff.mp hrun
    have hlast : ∀ earlier ∈ run, earlier.1 ≤ r.1 := fun earlier hearlier =>
      (List.pairwise_append.mp htimes).2.2 earlier hearlier r List.mem_cons_self
    rw [List.append_cons] at htimes ⊢
    exact ih (h.step hlast hfirst) htimes hrest

end Follows

/-- **The ROM's game follows the rule**: for any receipts, at times that never decrease, from the
worker's making on, the history says at any time from then on that a game is in progress exactly
when the rule does; it counts the games begun and the warnings; it keeps the warnings that came
before the Status that began the last game; and its deferred end is one that an early `no game` of
the session put off and nothing has taken back.

**Proof sketch.** By induction over the receipts (`Follows.runOf`): the rule for one more receipt
(`inProgress_concat`) is what the worker does with it (`Follows.step`). -/
theorem follows_rule {noGameDeferMs romGameLostMs : ℤ} {made : Time}
    {run : List (Time × Receipt)} {f : GameFollower}
    (htimes : run.Pairwise fun a b => a.1 ≤ b.1)
    (hrun : Runs.runOf (GameFollower.step noGameDeferMs romGameLostMs) (.create made) run =
      some f) : FollowsRule noGameDeferMs romGameLostMs run f.history :=
  ((Follows.create noGameDeferMs romGameLostMs made).runOf htimes hrun).rule

/-- A game is begun, the session is lost and had again, and a `no game` comes early in it. -/
def deferredRun : List (Time × Receipt) :=
  [(seconds 1, .handshake), (seconds 2, .declare {}),
   (seconds 3, .status { sessionState := sessionTracking }),
   (seconds 40, .noSession []), (seconds 50, .handshake), (seconds 51, .declare {}),
   (seconds 52, .status { sessionState := sessionNone })]

/-- The game goes on for ten seconds after the handshake. -/
theorem follows_rule_deferredRun : ∃ f,
    Runs.runOf (GameFollower.step 10000 120000) (.create 0) deferredRun = some f ∧
      f.history.inProgress (seconds 59) = true ∧ f.history.inProgress (seconds 60) = false ∧
      FollowsRule 10000 120000 deferredRun f.history := by
  obtain ⟨f, hrun, hgame⟩ := (Option.any_eq_true _ _).mp
    (show (Runs.runOf (GameFollower.step 10000 120000) (.create 0) deferredRun).any
      (fun f => f.history.inProgress (seconds 59) && !f.history.inProgress (seconds 60)) = true by
        decide +kernel)
  obtain ⟨hon, hover⟩ := Bool.and_eq_true_iff.mp hgame
  refine ⟨f, hrun, hon, (Bool.not_eq_true' _).mp hover, follows_rule ?_ hrun⟩
  decide +kernel

end Notice
