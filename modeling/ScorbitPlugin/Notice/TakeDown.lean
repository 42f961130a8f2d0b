import ScorbitPlugin.Notice.Notifier

set_option relaxedAutoImplicit false
set_option autoImplicit false

/-!
# What a take-down names

A game that starts takes down the notice on screen, by the text and the time the notifier last
wrote down. It also writes the text down without a post: at the end of a game that posts nothing or
a summary, and when the daemon settles after a script's game; and a take-down leaves it as it is.
After that, until the next post, the text written down need not be the one on screen.

## Main definitions

* `Notice.Screen` — the notifier with the last action of its frames.
* `Notice.screen` — its calls, in any order.
* `Notice.NamesShown` — what is claimed of a frame.

## Main results

* `Notice.names_shown` — it holds of every frame of a run that takes nothing down between such a
  write and the next post.
* `Notice.not_names_shown` — and fails without the condition.
-/

namespace Notice

open Codec

namespace StatusNotifier

variable (n : StatusNotifier)

/-- A frame with these arguments takes the written-down notice down. -/
def takesDown (showStatus : Bool) (notices : ℤ) (authored : Bool) (now : Time) : Bool :=
  !n.suppressed showStatus notices && n.gameNow notices authored now
    && n.started notices authored now && n.young now

/-- A frame with these arguments ends a game with nothing or a summary to post, and writes another
text down. -/
def endsQuietly (showStatus : Bool) (notices : ℤ) (authored : Bool) (now : Time) : Bool :=
  !n.suppressed showStatus notices && n.ended notices authored now && n.want now != []
    && !warns (n.want now) && ((n.follow notices authored now).endAction now != .none
      || n.want now != n.posted)

/-- A frame with these arguments outside a game finds the daemon settling, and writes another text
down. -/
def settlesAnew (showStatus : Bool) (notices : ℤ) (authored : Bool) (now : Time) : Bool :=
  !n.suppressed showStatus notices && !n.gameNow notices authored now
    && !n.ended notices authored now && n.afterGame && okMark.isPrefixOf (n.want now)
    && n.want now != n.posted

variable {n} {now : Time}

/-- The end of a game takes nothing down. -/
theorem endAction_ne_expire (shown : Bytes) : n.endAction now ≠ .expire shown := by
  unfold endAction
  split
  · exact nofun
  · split
    · exact nofun
    · split <;> exact nofun

/-- Outside a game nothing is taken down. -/
theorem outside_ne_expire (shown : Bytes) : (n.outside now).1 ≠ .expire shown := by
  unfold outside
  split
  · exact nofun
  · split
    · exact nofun
    · split <;> exact nofun

end StatusNotifier

/-- A call of the notifier. -/
inductive Call
  | frame (taken : Option StatusRecord) (showStatus : Bool) (notices : ℤ) (authored : Bool)
      (now : Time)
  | newTable
  | tableEnded
  | gameStarted (warningsNow : UInt32)
  | gameEnded
deriving DecidableEq, Repr

/-- The notifier, with what its frames returned. -/
structure Screen where
  notifier : StatusNotifier
  clock : Time
  /-- The last action that was not `none`, with its frame's time. -/
  last : Option (NoticeAction × Time) := none
  /-- Since the last post a text was written down without one, or a notice was taken down. -/
  overwritten : Bool := false
deriving DecidableEq, Repr

namespace Screen

variable (s : Screen)

/-- A frame, on what was returned before. -/
def frame (taken : Option StatusRecord) (showStatus : Bool) (notices : ℤ) (authored : Bool)
    (now : Time) : Screen :=
  let n := s.notifier.take taken
  let result := s.notifier.frame taken showStatus notices authored now
  { notifier := result.2
    clock := now
    last := if result.1 = .none then s.last else some (result.1, now)
    overwritten :=
      n.takesDown showStatus notices authored now || n.endsQuietly showStatus notices authored now
        || n.settlesAnew showStatus notices authored now
        || (s.overwritten && result.1 = .none) }

/-- One call; frame times never decrease. -/
def step : Call → Option Screen
  | .frame taken showStatus notices authored now =>
    if s.clock ≤ now then some (s.frame taken showStatus notices authored now) else none
  | .newTable => some { s with notifier := s.notifier.newTable }
  | .tableEnded => some { s with notifier := s.notifier.tableEnded }
  | .gameStarted warningsNow => some { s with notifier := s.notifier.gameStarted warningsNow }
  | .gameEnded => some { s with notifier := s.notifier.gameEnded }

end Screen

/-- The notifier from its construction. -/
def screen : Runs.System Screen Call :=
  .ofStep (fun s => ∃ start, s = { notifier := .create start, clock := start }) Screen.step

/-- A take-down names the notice on screen: the last action was a post of its text, in a frame less
than `NOTICE_LIFETIME` before. -/
def NamesShown (s : Screen) : Call → Prop
  | .frame taken showStatus notices authored now =>
    ∀ shown, (s.notifier.frame taken showStatus notices authored now).1 = .expire shown →
      ∃ t, s.last = some (.post shown, t) ∧ now - t < noticeLifetime
  | _ => True

/-- **The condition**: no frame takes a notice down after a text was written down without a post,
or after another take-down, since the last post. -/
def FreshTakeDown (s : Screen) : Call → Prop
  | .frame taken showStatus notices authored now =>
    (s.notifier.take taken).takesDown showStatus notices authored now = true →
      s.overwritten = false
  | _ => True

instance (s : Screen) : (c : Call) → Decidable (FreshTakeDown s c)
  | .frame .. => inferInstanceAs (Decidable (_ → _))
  | .newTable | .tableEnded | .gameStarted _ | .gameEnded => .isTrue trivial

/-- The text written down is the one of the last action, a post, unless it was written down
without one. -/
def Screen.Fresh (s : Screen) : Prop :=
  s.overwritten = false → s.notifier.posted ≠ [] →
    s.last = some (.post s.notifier.posted, s.notifier.postedAt)

section Frame

variable {s : Screen} {taken : Option StatusRecord} {showStatus authored : Bool} {notices : ℤ}
  {now : Time}

/-- The record taken leaves what was written down. -/
@[simp] theorem posted_take (n : StatusNotifier) (taken : Option StatusRecord) :
    (n.take taken).posted = n.posted := by
  cases taken <;> rfl

/-- The record a frame takes leaves the time of the last post. -/
@[simp] theorem postedAt_take (n : StatusNotifier) (taken : Option StatusRecord) :
    (n.take taken).postedAt = n.postedAt := by
  cases taken <;> rfl

/-- A frame that returns nothing and leaves what was written down. -/
theorem Screen.Fresh.same (h : s.Fresh)
    (hnone : (s.notifier.frame taken showStatus notices authored now).1 = .none)
    (hposted : (s.notifier.frame taken showStatus notices authored now).2.posted =
      s.notifier.posted)
    (hat : (s.notifier.frame taken showStatus notices authored now).2.postedAt =
      s.notifier.postedAt) : (s.frame taken showStatus notices authored now).Fresh := by
  intro hover hne
  have hold : s.overwritten = false := by
    simp only [Screen.frame, hnone, decide_true, Bool.and_true, Bool.or_eq_false_iff] at hover
    exact hover.2
  simp only [Screen.frame, hnone, if_true, hposted, hat] at hne ⊢
  exact h hold hne

/-- A frame that posts what it writes down. -/
theorem Screen.Fresh.posted (shown : Bytes)
    (hpost : (s.notifier.frame taken showStatus notices authored now).1 = .post shown)
    (hposted : (s.notifier.frame taken showStatus notices authored now).2.posted = shown)
    (hat : (s.notifier.frame taken showStatus notices authored now).2.postedAt = now) :
    (s.frame taken showStatus notices authored now).Fresh := by
  intro _ _
  simp [Screen.frame, hpost, hposted, hat]

/-- A frame in a game.

**Proof sketch.** A frame that takes a notice down clears the flag. Any other leaves what is posted
and its time. -/
theorem Screen.Fresh.inGame (h : s.Fresh)
    (hs : (s.notifier.take taken).suppressed showStatus notices = false)
    (hg : (s.notifier.take taken).gameNow notices authored now = true) :
    (s.frame taken showStatus notices authored now).Fresh := by
  cases hd : (s.notifier.take taken).takesDown showStatus notices authored now with
  | true =>
    intro hover
    simp [Screen.frame, hd] at hover
  | false =>
    have hyoung : ((s.notifier.take taken).follow notices authored now).young now =
        (s.notifier.take taken).young now := rfl
    have haction : ((s.notifier.take taken).started notices authored now &&
        ((s.notifier.take taken).follow notices authored now).young now) = false := by
      simpa [StatusNotifier.takesDown, hs, hg, hyoung] using hd
    have hframe := StatusNotifier.frame_inGame hs hg
    refine h.same ?_ ?_ ?_ <;> rw [hframe] <;> simp only [StatusNotifier.inGameFrame, haction]
    · split <;> rfl
    · split <;> exact posted_take _ _
    · split <;> exact postedAt_take _ _

/-- A frame at the end of a game.

**Proof sketch.** By the action at the end. A post of what is wanted, or with nothing wanted, is
what is on screen. A summary over a wanted state, and a quiet end in another state than the one
posted, write down what is not on screen, which the flag notes. No notice is taken down. -/
theorem Screen.Fresh.ended (h : s.Fresh)
    (hs : (s.notifier.take taken).suppressed showStatus notices = false)
    (hg : (s.notifier.take taken).gameNow notices authored now = false)
    (he : (s.notifier.take taken).ended notices authored now = true) :
    (s.frame taken showStatus notices authored now).Fresh := by
  have hframe := StatusNotifier.frame_ended hs hg he
  set m := (s.notifier.take taken).follow notices authored now with hm
  have hwant : m.want now = (s.notifier.take taken).want now := rfl
  cases haction : m.endAction now with
  | expire shown => exact absurd haction (StatusNotifier.endAction_ne_expire _)
  | post shown =>
    by_cases hempty : m.want now = []
    · refine Screen.Fresh.posted shown ?_ ?_ ?_ <;> rw [hframe] <;>
        simp [StatusNotifier.endFrame, haction, hempty, NoticeAction.text]
    · cases hw : warns (m.want now) with
      | true =>
        have hshown : m.want now = shown := by
          rw [StatusNotifier.endAction, if_pos hw] at haction
          exact NoticeAction.post.inj haction
        refine Screen.Fresh.posted shown ?_ ?_ ?_ <;> rw [hframe] <;>
          simp [StatusNotifier.endFrame, haction, hshown]
        exact fun hnil => absurd (hshown.trans hnil) hempty
      | false =>
        -- a summary is posted, and the current state written down
        intro hover
        have hquiet :
            (s.notifier.take taken).endsQuietly showStatus notices authored now = true := by
          rw [hwant] at hempty hw
          simp [StatusNotifier.endsQuietly, hs, he, hempty, hw, ← hm, haction]
        simp [Screen.frame, hquiet] at hover
  | none =>
    have hw : warns (m.want now) = false := by
      by_contra hc
      rw [StatusNotifier.endAction, if_pos (by simpa using hc)] at haction
      cases haction
    by_cases hempty : m.want now = []
    · intro _ hne
      simp [Screen.frame, hframe, StatusNotifier.endFrame, haction, hempty,
        NoticeAction.text] at hne
    · by_cases hsame : m.want now = s.notifier.posted
      · refine h.same ?_ ?_ ?_ <;> rw [hframe] <;>
          simp only [StatusNotifier.endFrame, haction, if_true, if_neg hempty]
        · exact hsame
        · exact postedAt_take _ _
      · intro hover
        have hquiet :
            (s.notifier.take taken).endsQuietly showStatus notices authored now = true := by
          rw [hwant] at hempty hw hsame
          simp [StatusNotifier.endsQuietly, hs, he, hempty, hw, hsame]
        simp [Screen.frame, hquiet] at hover

/-- A frame outside a game.

**Proof sketch.** By the branches of a frame outside a game. Where nothing is due the notice stays;
a state that settles anew is written down without a post, which the flag notes; a post is what is on
screen. -/
theorem Screen.Fresh.outside (h : s.Fresh)
    (hs : (s.notifier.take taken).suppressed showStatus notices = false)
    (hg : (s.notifier.take taken).gameNow notices authored now = false)
    (he : (s.notifier.take taken).ended notices authored now = false) :
    (s.frame taken showStatus notices authored now).Fresh := by
  have hframe := StatusNotifier.frame_outside hs hg he
  have hstarted := StatusNotifier.started_of_not_ended hg he
  set m := (s.notifier.take taken).follow notices authored now with hm
  have hposted : m.posted = s.notifier.posted := posted_take _ _
  have hat : m.postedAt = s.notifier.postedAt := postedAt_take _ _
  have hafter : m.afterGame = (s.notifier.take taken).afterGame := by
    simp [hm, StatusNotifier.follow, hstarted]
  unfold StatusNotifier.outside at hframe
  split at hframe
  · refine h.same ?_ ?_ ?_ <;> rw [hframe]
    · exact hposted
    · exact hat
  · split at hframe
    · rename_i hsettles
      by_cases hsame : m.want now = m.posted
      · rw [if_pos hsame] at hframe
        refine h.same ?_ ?_ ?_ <;> rw [hframe]
        · exact hposted
        · exact hat
      · intro hover
        have hanew :
            (s.notifier.take taken).settlesAnew showStatus notices authored now = true := by
          simp only [StatusNotifier.settles, Bool.and_eq_true, hafter] at hsettles
          rw [hposted] at hsame
          have hw : (s.notifier.take taken).want now ≠ s.notifier.posted := hsame
          have hok : okMark.isPrefixOf ((s.notifier.take taken).want now) = true := hsettles.2
          simp [StatusNotifier.settlesAnew, hs, hg, he, hsettles.1, hok, hw]
        simp [Screen.frame, hanew] at hover
    · split at hframe
      · refine h.same ?_ ?_ ?_ <;> rw [hframe]
        · exact hposted
        · exact hat
      · refine Screen.Fresh.posted (m.want now) ?_ ?_ ?_ <;> rw [hframe]

/-- Every frame keeps it. -/
theorem Screen.Fresh.frame (h : s.Fresh) :
    (s.frame taken showStatus notices authored now).Fresh := by
  cases hs : (s.notifier.take taken).suppressed showStatus notices with
  | true =>
    intro _ hne
    simp [Screen.frame, StatusNotifier.frame_suppressed hs] at hne
  | false =>
    cases hg : (s.notifier.take taken).gameNow notices authored now with
    | true => exact h.inGame hs hg
    | false =>
      cases he : (s.notifier.take taken).ended notices authored now with
      | true => exact h.ended hs hg he
      | false => exact h.outside hs hg he

end Frame

/-- Every call keeps it. -/
theorem Screen.Fresh.step {s s' : Screen} (h : s.Fresh) {c : Call} (hs : s.step c = some s') :
    s'.Fresh := by
  cases c with
  | frame taken showStatus notices authored now =>
    obtain ⟨-, hs⟩ := Option.ite_none_right_eq_some.mp hs
    obtain rfl := Option.some.inj hs
    exact h.frame
  | newTable =>
    obtain rfl := Option.some.inj hs
    exact fun _ hne => absurd rfl hne
  | tableEnded | gameStarted | gameEnded =>
    obtain rfl := Option.some.inj hs
    exact h

/-- **In every run** the text written down is the one of the last post, unless it was written down
without one. -/
theorem fresh {ok : Screen → Call → Prop} {s : Screen} (h : screen.Reaches ok s) : s.Fresh := by
  refine h.invariant (I := Screen.Fresh) ?_ fun _ _ _ hI _ hs => hI.step hs
  rintro s ⟨start, rfl⟩
  exact fun _ hne => absurd rfl hne

/-- **A take-down names the notice on screen** in every run in which no frame takes a notice down
between a text written down without a post, or another take-down, and the next post.

**Proof sketch.** Only a frame that finds a game started takes a notice down, and it names the text
written down. By the invariant that text is the last action's, which was a post at the time written
down with it, unless the frame is one the condition excludes. -/
theorem names_shown {s s' : Screen} {c : Call} (h : screen.Reaches FreshTakeDown s)
    (hok : FreshTakeDown s c) (hs : screen.step s c s') : NamesShown s c := by
  cases c with
  | frame taken showStatus notices authored now =>
    intro shown hshown
    cases hs : (s.notifier.take taken).suppressed showStatus notices with
    | true =>
      rw [StatusNotifier.frame_suppressed hs] at hshown
      cases hshown
    | false =>
      cases hg : (s.notifier.take taken).gameNow notices authored now with
      | true =>
        rw [StatusNotifier.frame_inGame hs hg] at hshown
        set m := (s.notifier.take taken).follow notices authored now with hm
        cases haction : (s.notifier.take taken).started notices authored now && m.young now with
        | false =>
          simp only [StatusNotifier.inGameFrame, haction] at hshown
          split at hshown <;> cases hshown
        | true =>
          have hposted : m.posted = s.notifier.posted := posted_take _ _
          have hat : m.postedAt = s.notifier.postedAt := postedAt_take _ _
          have heq : shown = s.notifier.posted := by
            simp only [StatusNotifier.inGameFrame, haction] at hshown
            split at hshown <;> exact (NoticeAction.expire.inj hshown).symm.trans hposted
          obtain ⟨hstarted, hyoung⟩ := Bool.and_eq_true_iff.mp haction
          have hdown :
              (s.notifier.take taken).takesDown showStatus notices authored now = true := by
            have : (s.notifier.take taken).young now = true := hyoung
            simp [StatusNotifier.takesDown, hs, hg, hstarted, this]
          obtain ⟨hne, hlt⟩ := Bool.and_eq_true_iff.mp hyoung
          have hne : s.notifier.posted ≠ [] := by simpa [hposted] using hne
          refine ⟨s.notifier.postedAt, ?_, ?_⟩
          · rw [heq]
            exact fresh h (hok hdown) hne
          · simpa [hat] using hlt
      | false =>
        cases he : (s.notifier.take taken).ended notices authored now with
        | true =>
          rw [StatusNotifier.frame_ended hs hg he] at hshown
          exact absurd hshown (StatusNotifier.endAction_ne_expire _)
        | false =>
          rw [StatusNotifier.frame_outside hs hg he] at hshown
          exact absurd hshown (StatusNotifier.outside_ne_expire _)
  | newTable | tableEnded | gameStarted | gameEnded => trivial

/-- A Status in a session, as the worker posts it with a game of a ROM, a script's, or none. -/
def recordOf (sessionState : UInt8) (history : StatusHistory) : StatusRecord where
  inSession := true
  haveStatus := true
  status := { sessionState := sessionState }
  history := history

/-- A notice is posted. -/
def takeDownRun : List Call :=
  [.frame (some (recordOf sessionNone {})) true noticesOutsideGame false 0]

/-- A second later a game of the ROM starts. -/
def takeDownFrame : Call :=
  .frame (some (recordOf sessionTracking { romGame := true, romGames := 1 })) true
    noticesOutsideGame false (seconds 1)

/-- The take-down names the notice. -/
theorem names_shown_takeDownRun : ∃ s s',
    Runs.runOf Screen.step { notifier := .create 0, clock := 0 } takeDownRun = some s ∧
    screen.step s takeDownFrame s' ∧
    s'.last = some (.expire (text "[OK] Scorbit: no game, ok"), seconds 1) ∧
    NamesShown s takeDownFrame := by
  have hrun : (Runs.runOf Screen.step { notifier := .create 0, clock := 0 } takeDownRun).any
      (fun s => (s.step takeDownFrame).any fun s' => decide (FreshTakeDown s takeDownFrame ∧
        s'.last = some (.expire (text "[OK] Scorbit: no game, ok"), seconds 1))) = true := by
    decide +kernel
  obtain ⟨s, hs, hstep⟩ := (Option.any_eq_true _ _).mp hrun
  obtain ⟨s', hs', hlast⟩ := (Option.any_eq_true _ _).mp hstep
  obtain ⟨hok, hlast⟩ := of_decide_eq_true hlast
  have halong : Runs.holdsAlong Screen.step (fun s c => decide (FreshTakeDown s c))
      { notifier := .create 0, clock := 0 } takeDownRun = true := by
    decide +kernel
  have hreach : screen.Reaches FreshTakeDown s :=
    Runs.System.Reaches.runOf (fun _ _ h => of_decide_eq_true h) takeDownRun (.init ⟨0, rfl⟩)
      halong hs
  exact ⟨s, s', hs, hs', hlast, names_shown hreach hok hs'⟩

/-- A notice is posted and a second later taken down, for a game of the script. The game ends with
nothing to report, and another one starts. -/
def shortGamesRun : List Call :=
  [.frame (some (recordOf sessionNone {})) true noticesOutsideGame true 0,
    .gameStarted 0, .frame none true noticesOutsideGame true (seconds 1),
    .gameEnded, .frame none true noticesOutsideGame true (seconds 2), .gameStarted 0]

/-- The frame that finds the second game started. -/
def secondGameFrame : Call := .frame none true noticesOutsideGame true (seconds 3)

/-- The notice is taken down a second time. -/
theorem not_names_shown : ∃ s s', screen.Reachable s ∧ screen.step s secondGameFrame s' ∧
    ¬ NamesShown s secondGameFrame := by
  have hrun : (Runs.runOf Screen.step { notifier := .create 0, clock := 0 } shortGamesRun).any
      (fun s => (s.step secondGameFrame).any fun _ => decide
        ((s.notifier.frame none true noticesOutsideGame true (seconds 3)).1 =
            .expire (text "[OK] Scorbit: no game, ok") ∧
          s.last = some (.expire (text "[OK] Scorbit: no game, ok"), seconds 1))) = true := by
    decide +kernel
  obtain ⟨s, hs, hstep⟩ := (Option.any_eq_true _ _).mp hrun
  obtain ⟨s', hs', hlast⟩ := (Option.any_eq_true _ _).mp hstep
  obtain ⟨hexpire, hlast⟩ := of_decide_eq_true hlast
  refine ⟨s, s', Runs.reachable_of_runOf ⟨0, rfl⟩ hs, hs', fun h => ?_⟩
  obtain ⟨t, hpost, -⟩ := h _ hexpire
  rw [hlast] at hpost
  cases hpost

end Notice
