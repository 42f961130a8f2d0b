import ScorbitPlugin.Notice.GameNotice
import ScorbitPlugin.Notice.TakeDown

set_option relaxedAutoImplicit false
set_option autoImplicit false

/-!
# Notices are quiet and not repeated

The rules of `docs/status-notices.md` that the notifier keeps over its frames: while a game of the
table's kind is in progress no notice is posted, and outside one a state is posted once, and again
only when it is a warning that has been up for a minute.

Which games are in progress is told here from the calls and the records alone, beside the notifier.

## Main definitions

* `Notice.Watched`, `Notice.watched` — the notifier, with what the calls say of the games.
* `Notice.Watched.game` — a game of a kind is in progress.
* `Notice.Undisturbed` — nothing happens that makes a notice news again.

## Main results

* `Notice.quiet_not_repeated` — no post in a game, and no post repeated early.
-/

namespace Notice

open Codec

/-! ## The calls and their games -/

/-- The notifier, and beside it what the calls say of the games. -/
structure Watched where
  notifier : StatusNotifier
  clock : Time
  /-- The script's game: from its start to its end, or the table's. -/
  scriptGame : Bool := false
  /-- The script's games so far. -/
  scriptGames : ℕ := 0
  /-- At the last frame: the table's kind, whether a game of it kept the notifier quiet, and how
  many had been begun. -/
  lastKind : Bool := false
  lastGame : Bool := false
  lastGames : ℕ := 0
deriving DecidableEq, Repr

namespace Watched

variable (w : Watched)

/-- The record a frame goes by. -/
def record (taken : Option StatusRecord) : StatusRecord := (w.notifier.take taken).current

/-- A game of the kind is in progress: the script's by its calls, a ROM's by the record's history,
its deferred end and the bound on a lost connection. -/
def game (taken : Option StatusRecord) (authored : Bool) (now : Time) : Bool :=
  if authored then w.scriptGame
  else
    let r := w.record taken
    r.history.romGame && !r.history.romGameEndsAt.any (· ≤ now)
      && (r.inSession || now - r.since < romGameLostAfter)

/-- The games of the kind that have been begun. -/
def games (taken : Option StatusRecord) (authored : Bool) : ℕ :=
  if authored then w.scriptGames else (w.record taken).history.romGames.toNat

/-- A game keeps the notifier quiet under the setting. -/
def quiet (taken : Option StatusRecord) (notices : ℤ) (authored : Bool) (now : Time) : Bool :=
  notices == noticesOutsideGame && w.game taken authored now

/-- What a frame returns. -/
def action (taken : Option StatusRecord) (showStatus : Bool) (notices : ℤ) (authored : Bool)
    (now : Time) : NoticeAction :=
  (w.notifier.frame taken showStatus notices authored now).1

/-- One call; frame times never decrease. -/
def step : Call → Option Watched
  | .frame taken showStatus notices authored now =>
    if w.clock ≤ now then
      some { w with
        notifier := (w.notifier.frame taken showStatus notices authored now).2
        clock := now
        lastKind := authored
        lastGame := w.quiet taken notices authored now
        lastGames := w.games taken authored }
    else none
  | .newTable => some { w with notifier := w.notifier.newTable, scriptGame := false }
  | .tableEnded => some { w with notifier := w.notifier.tableEnded, scriptGame := false }
  | .gameStarted warningsNow =>
    some { w with
      notifier := w.notifier.gameStarted warningsNow
      scriptGame := true
      scriptGames := w.scriptGames + 1 }
  | .gameEnded => some { w with notifier := w.notifier.gameEnded, scriptGame := false }

end Watched

/-- The notifier from its construction. -/
def watched : Runs.System Watched Call :=
  .ofStep (fun w => ∃ start, w = { notifier := .create start, clock := start }) Watched.step

/-- Since the last frame no game began or ended, as far as the setting keeps quiet for one: none is
in progress that was not, or the other way about, and none of the table's kind came and went. -/
def NoGameMoved (w : Watched) (taken : Option StatusRecord) (notices : ℤ) (authored : Bool)
    (now : Time) : Prop :=
  w.quiet taken notices authored now = w.lastGame ∧
    (notices = noticesOutsideGame → authored = w.lastKind →
      w.games taken authored = w.lastGames)

/-- A call posts nothing, and makes a text that was posted no news again: it is for no new table,
and a frame finds no game moved, is not suppressed, and its state calls for that text or for
none. -/
def Undisturbed (shown : Bytes) (w : Watched) : Call → Prop
  | .frame taken showStatus notices authored now =>
    (∀ other, w.action taken showStatus notices authored now ≠ .post other) ∧
      NoGameMoved w taken notices authored now ∧
      (w.notifier.take taken).suppressed showStatus notices = false ∧
      ((w.notifier.take taken).want now = [] ∨ (w.notifier.take taken).want now = shown)
  | .newTable => False
  | .tableEnded | .gameStarted _ | .gameEnded => True

/-- The notifier follows the games as the calls tell them. -/
structure Watched.Told (w : Watched) : Prop where
  scriptGame : w.notifier.authoredGame = w.scriptGame
  scriptGames : w.notifier.authoredGames = .ofNat w.scriptGames
  lastKind : w.notifier.authoredLast = w.lastKind
  lastGames : w.notifier.seenStarts = .ofNat w.lastGames

namespace Watched.Told

variable {w w' : Watched} {taken : Option StatusRecord} {showStatus authored : Bool}
  {notices : ℤ} {now : Time}

/-- The notifier finds a game in progress when there is one to keep quiet for.

**Proof sketch.** For a script's game by the flag the notifier keeps of it. For the ROM's both look
at the same record: the game, its deferred end, and whether a lost session is recent. -/
theorem gameNow_eq (h : w.Told) (taken : Option StatusRecord) (notices : ℤ) (authored : Bool)
    (now : Time) : (w.notifier.take taken).gameNow notices authored now =
      w.quiet taken notices authored now := by
  have hscript : (w.notifier.take taken).authoredGame = w.scriptGame := by
    rw [← h.scriptGame]
    cases taken <;> rfl
  unfold StatusNotifier.gameNow Watched.quiet Watched.game StatusNotifier.romGameInProgress
    Watched.record
  cases authored with
  | true => simp [hscript]
  | false =>
    rw [if_neg Bool.false_ne_true, if_neg Bool.false_ne_true]
    congr 1
    dsimp only
    generalize (w.notifier.take taken).current = r
    cases r.history.romGame <;> cases r.history.romGameEndsAt.any (· ≤ now) <;>
      cases r.inSession <;> by_cases hlost : now - r.since < romGameLostAfter <;>
        simp [hlost, not_le.mpr, le_of_not_gt]

/-- The notifier counts the games of the kind. -/
theorem starts_eq (h : w.Told) (taken : Option StatusRecord) (authored : Bool) :
    (w.notifier.take taken).starts authored = .ofNat (w.games taken authored) := by
  have hscript : (w.notifier.take taken).authoredGames = .ofNat w.scriptGames := by
    rw [← h.scriptGames]
    cases taken <;> rfl
  unfold StatusNotifier.starts Watched.games Watched.record
  cases authored with
  | true => exact hscript
  | false => exact (UInt32.ofNat_toNat).symm

/-- No game came and went unless one was begun.

**Proof sketch.** The notifier's counts of starts are those of the account, and for a table of the
same kind none has been added. -/
theorem startedSince_eq (h : w.Told) (hmoved : NoGameMoved w taken notices authored now) :
    (w.notifier.take taken).startedSince notices authored = false := by
  have hkind : (w.notifier.take taken).authoredLast = w.lastKind := by
    rw [← h.lastKind]
    cases taken <;> rfl
  have hseen : (w.notifier.take taken).seenStarts = .ofNat w.lastGames := by
    rw [← h.lastGames]
    cases taken <;> rfl
  unfold StatusNotifier.startedSince
  rw [hkind, hseen, h.starts_eq]
  by_cases hsetting : notices = noticesOutsideGame
  · by_cases hsame : authored = w.lastKind
    · rw [hmoved.2 hsetting hsame]
      simp
    · simp [hsame]
  · simp [hsetting]

/-- Every call keeps it.

**Proof sketch.** A frame follows what it takes and writes down what it posts (`frame_follow`); the
other calls change the table it is of. -/
theorem step (h : w.Told) {c : Call} (hs : w.step c = some w') : w'.Told := by
  cases c with
  | frame taken showStatus notices authored now =>
    obtain ⟨-, hs⟩ := Option.ite_none_right_eq_some.mp hs
    obtain rfl := Option.some.inj hs
    obtain ⟨_, _, _, _, _, hframe⟩ :=
      StatusNotifier.frame_follow w.notifier taken showStatus authored notices now
    constructor
    · dsimp only
      rw [hframe, ← h.scriptGame]
      cases taken <;> rfl
    · dsimp only
      rw [hframe, ← h.scriptGames]
      cases taken <;> rfl
    · dsimp only
      rw [hframe]
      rfl
    · dsimp only
      rw [hframe, ← h.starts_eq]
      rfl
  | newTable | tableEnded | gameEnded =>
    obtain rfl := Option.some.inj hs
    exact ⟨rfl, h.scriptGames, h.lastKind, h.lastGames⟩
  | gameStarted warningsNow =>
    obtain rfl := Option.some.inj hs
    refine ⟨rfl, ?_, h.lastKind, h.lastGames⟩
    show w.notifier.authoredGames + 1 = _
    rw [h.scriptGames]
    exact (UInt32.ofNat_add _ _).symm

/-- **In every run** the notifier follows the games as the calls tell them. -/
theorem reachable (h : watched.Reachable w) : w.Told := by
  refine h.invariant (I := Watched.Told) ?_ fun _ _ _ hI _ hs => hI.step hs
  rintro w ⟨start, rfl⟩
  exact ⟨rfl, rfl, rfl, rfl⟩

end Watched.Told

/-! ## After a post -/

/-- A text was posted at a time, and nothing has made it news again: it is written down with the
time, unless it was a summary. -/
structure Watched.Posted (w : Watched) (shown : Bytes) (time : Time) : Prop where
  told : w.Told
  outside : w.lastGame = false
  notInGame : w.notifier.inGame = false
  written : w.notifier.posted = shown ∧ w.notifier.postedAt = time ∨
    ∃ described, shown = describeEarlier described

namespace Watched.Posted

variable {w w' : Watched} {taken : Option StatusRecord} {showStatus authored : Bool}
  {notices : ℤ} {now time : Time} {shown : Bytes}

/-- Such a frame is outside a game that did not just end.

**Proof sketch.** No game is in progress, none was, and none came and went (`startedSince_eq`), so
of the branches of a frame only the last is left. -/
theorem frame_outside (h : w.Posted shown time)
    (hs : (w.notifier.take taken).suppressed showStatus notices = false)
    (hmoved : NoGameMoved w taken notices authored now) :
    w.quiet taken notices authored now = false ∧
      w.notifier.frame taken showStatus notices authored now =
        ((w.notifier.take taken).follow notices authored now).outside now := by
  have hquiet : w.quiet taken notices authored now = false := hmoved.1.trans h.outside
  have hgame : (w.notifier.take taken).gameNow notices authored now = false :=
    (h.told.gameNow_eq taken notices authored now).trans hquiet
  have hbefore : (w.notifier.take taken).inGame = false := by
    rw [← h.notInGame]
    cases taken <;> rfl
  have hended : (w.notifier.take taken).ended notices authored now = false := by
    unfold StatusNotifier.ended
    rw [hbefore, h.told.startedSince_eq hmoved]
    rfl
  exact ⟨hquiet, StatusNotifier.frame_outside hs hgame hended⟩

/-- What outside a game is not posted leaves what is written down of the same text.

**Proof sketch.** With nothing wanted, or what is posted wanted still, a branch that does not post
changes nothing. -/
theorem kept_outside {n : StatusNotifier} (hquiet : ∀ other, (n.outside now).1 ≠ .post other)
    (hwant : n.want now = [] ∨ n.want now = n.posted) : (n.outside now).2 = n := by
  unfold StatusNotifier.outside at hquiet ⊢
  by_cases hne : n.want now = []
  · rw [if_pos hne]
  · rw [if_neg hne] at hquiet ⊢
    have hsame := hwant.resolve_left hne
    by_cases hnews : n.settles now = true
    · rw [if_pos hnews, if_pos hsame]
    · rw [if_neg hnews] at hquiet ⊢
      split
      · rfl
      · rename_i hdue
        rw [if_neg hdue] at hquiet
        exact absurd rfl (hquiet _)

/-- A text that is posted outside a game, and written down, is a warning that has been up.

**Proof sketch.** A text that is written down already is only posted by the branch of a refresh,
which asks for a warning and for its time. -/
theorem refreshed_outside {n : StatusNotifier} (hpost : (n.outside now).1 = .post shown)
    (hposted : n.posted = shown) :
    warns shown = true ∧ refreshEvery ≤ now - n.postedAt := by
  unfold StatusNotifier.outside at hpost
  split at hpost
  · cases hpost
  · split at hpost
    · cases hpost
    · split at hpost
      · cases hpost
      · rename_i hdue
        have hwant : n.want now = shown := NoticeAction.post.inj hpost
        rw [hwant, hposted] at hdue
        simpa using hdue

/-- What is posted outside a game is the text of the state. -/
theorem want_outside {n : StatusNotifier} (hpost : (n.outside now).1 = .post shown) :
    n.want now = shown ∧ shown ≠ [] := by
  unfold StatusNotifier.outside at hpost
  split at hpost
  · cases hpost
  · rename_i hne
    split at hpost
    · cases hpost
    · split at hpost
      · cases hpost
      · have hwant : n.want now = shown := NoticeAction.post.inj hpost
        exact ⟨hwant, hwant ▸ hne⟩

/-- Every undisturbed call keeps it.

**Proof sketch.** An undisturbed frame is outside a game and wants the same text, so it posts
nothing before its time and leaves what is posted; other calls leave the notice alone. -/
theorem step (h : w.Posted shown time) {c : Call} (hok : Undisturbed shown w c)
    (hs : w.step c = some w') : w'.Posted shown time := by
  have htold := h.told.step hs
  cases c with
  | frame taken showStatus notices authored now =>
    obtain ⟨hnone, hmoved, hsup, hwant⟩ := hok
    obtain ⟨-, hs⟩ := Option.ite_none_right_eq_some.mp hs
    obtain rfl := Option.some.inj hs
    obtain ⟨hquiet, hframe⟩ := h.frame_outside hsup hmoved
    refine ⟨htold, hquiet, ?_, ?_⟩
    · obtain ⟨_, _, _, _, _, hfollow⟩ :=
        StatusNotifier.frame_follow w.notifier taken showStatus authored notices now
      dsimp only
      rw [hfollow]
      exact (h.told.gameNow_eq taken notices authored now).trans hquiet
    · rcases h.written with ⟨hposted, hat⟩ | hsummary
      · left
        unfold Watched.action at hnone
        rw [hframe] at hnone
        set n := (w.notifier.take taken).follow notices authored now with hn
        have hn' : n.posted = shown ∧ n.postedAt = time :=
          ⟨(posted_take _ _).trans hposted, (postedAt_take _ _).trans hat⟩
        dsimp only
        rw [hframe, kept_outside hnone (by rw [hn'.1]; exact hwant)]
        exact hn'
      · exact .inr hsummary
  | newTable => exact hok.elim
  | tableEnded | gameStarted | gameEnded =>
    obtain rfl := Option.some.inj hs
    refine ⟨htold, h.outside, ?_, h.written⟩
    first | exact h.notInGame | rfl

/-- **A post of the same text** comes when it is a warning that has been up for a minute. -/
theorem refreshed (h : w.Posted shown time) (hmoved : NoGameMoved w taken notices authored now)
    (hpost : w.action taken showStatus notices authored now = .post shown) :
    warns shown = true ∧ refreshEvery ≤ now - time := by
  unfold Watched.action at hpost
  cases hsup : (w.notifier.take taken).suppressed showStatus notices with
  | true =>
    rw [StatusNotifier.frame_suppressed hsup] at hpost
    cases hpost
  | false =>
    obtain ⟨-, hframe⟩ := h.frame_outside hsup hmoved
    rw [hframe] at hpost
    rcases h.written with ⟨hposted, hat⟩ | ⟨described, hsummary⟩
    · have hrefreshed := refreshed_outside hpost ((posted_take _ _).trans hposted)
      rwa [show ((w.notifier.take taken).follow notices authored now).postedAt = time from
        (postedAt_take _ _).trans hat] at hrefreshed
    · obtain ⟨hwant, hne⟩ := want_outside hpost
      have hstate : (w.notifier.take taken).want now = shown := hwant
      rw [hsummary] at hstate
      refine absurd hstate (StatusNotifier.text_ne_summary hsup ?_ described)
      rw [hstate, ← hsummary]
      exact hne

end Watched.Posted

instance (w : Watched) (taken : Option StatusRecord) (notices : ℤ) (authored : Bool) (now : Time) :
    Decidable (NoGameMoved w taken notices authored now) := by
  unfold NoGameMoved
  infer_instance

end Notice
