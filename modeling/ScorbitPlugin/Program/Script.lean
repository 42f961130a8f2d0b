import ScorbitPlugin.Source.Session
import ScorbitPlugin.Worker.ScriptScores

set_option relaxedAutoImplicit false
set_option autoImplicit false

/-!
# What a table's script calls

The game calls of `ScorbitTable` in `src/ScriptBinding.cpp`. Numbers arrive as doubles, so a call
checks that each is a whole number its field can hold; a call whose arguments do not fit is ignored,
with a line in the log.

A double is a whole number, or anything else: no call tells fractions, infinities and no numbers
apart.

## Main definitions

* `Program.ScriptCall` — the game calls, with `op`, what they buffer or why they are ignored.
* `Program.ScriptCall.Says` — an op carries a call's arguments as they are.
* `Program.SaidBy` — ops are what some of the calls say, in order.

## Main results

* `Program.ScriptCall.says_iff` — the op of a call is the one that says it.
* `Program.ScriptCall.scripted` — every op is one the commit and the encoder take.
-/

namespace Program

open Codec Source

/-- `MAX_EXACT_SCORE`: past `2^53` a double no longer holds every integer. -/
def maxExactScore : ℤ := 9007199254740992

/-- A game call of a script, with its arguments; a string may be null. -/
inductive ScriptCall
  | setGameStarted (origin : Worker.ScriptNumber)
  | setGameFinished
  | setCurrentBall (ball : Worker.ScriptNumber)
  | setActivePlayer (player : Worker.ScriptNumber)
  /-- `feature` is `0` where the script leaves it out. -/
  | setScore (player score feature : Worker.ScriptNumber)
  | addMode (mode : Option Bytes)
  | addModeExpiring (seconds : Worker.ScriptNumber) (mode : Option Bytes)
  | setModeCompleted (mode : Option Bytes)
  | removeMode (mode : Option Bytes)
  | clearModes
  | commit
deriving DecidableEq, Repr

/-- `InRange`: the whole number, or the line that is logged. -/
def inRange (verb : String) (v : Worker.ScriptNumber) (lo hi : ℤ) : Except String ℤ :=
  match v with
  | .whole n =>
    if lo ≤ n ∧ n ≤ hi then .ok n
    else .error ("Scorbit." ++ verb ++ " ignored, an argument is not a whole number from "
      ++ toString lo ++ " to " ++ toString hi)
  | .other => .error ("Scorbit." ++ verb ++ " ignored, an argument is not a whole number from "
      ++ toString lo ++ " to " ++ toString hi)

/-- `SmallValue`. -/
def smallValue (verb : String) (v : Worker.ScriptNumber) : Except String UInt8 :=
  (inRange verb v 0 255).map fun n => UInt8.ofNat n.toNat

/-- `Small`. -/
def small (verb : String) (kind : UInt8) (v : Worker.ScriptNumber) : Except String Wire.GameOp :=
  (smallValue verb v).map fun value => { kind, value }

/-- `Mode`. -/
def modeOp (verb : String) (kind : UInt8) (mode : Option Bytes) (seconds : UInt32) :
    Except String Wire.GameOp :=
  if (mode.getD []).length > Worker.maxModeBytes then
    .error ("Scorbit." ++ verb ++ " ignored, the mode is over " ++ toString Worker.maxModeBytes
      ++ " bytes")
  else .ok { kind, seconds, mode := mode.getD [] }

/-- `SetScore`. -/
def setScore (player score feature : Worker.ScriptNumber) : Except String Wire.GameOp :=
  match score with
  | .whole s =>
    if s.natAbs > maxExactScore then
      .error "Scorbit.SetScore ignored, the score is not an integer within 2^53"
    else
      (smallValue "SetScore" player).bind fun value =>
        (inRange "SetScore" feature (-2147483648) 2147483647).map fun f =>
          { kind := Wire.gameScore, value, score := Int64.ofInt s, feature := Int32.ofInt f }
  | .other => .error "Scorbit.SetScore ignored, the score is not an integer within 2^53"

/-- `AddModeExpiring`. -/
def addModeExpiring (seconds : Worker.ScriptNumber) (mode : Option Bytes) :
    Except String Wire.GameOp :=
  (inRange "AddModeExpiring" seconds 0 4294967295).bind fun n =>
    modeOp "AddModeExpiring" Wire.gameAddModeExpiring mode (UInt32.ofNat n.toNat)

namespace ScriptCall

/-- The op a call hands to `ScriptGameOp`, or why it is ignored; `Commit` has none. -/
def op : ScriptCall → Option (Except String Wire.GameOp)
  | setGameStarted origin => some (small "SetGameStarted" Wire.gameStart origin)
  | setGameFinished => some (.ok { kind := Wire.gameEnd })
  | setCurrentBall ball => some (small "SetCurrentBall" Wire.gameBall ball)
  | setActivePlayer player => some (small "SetActivePlayer" Wire.gameActivePlayer player)
  | setScore player score feature => some (Program.setScore player score feature)
  | addMode mode => some (modeOp "AddMode" Wire.gameAddMode mode 0)
  | addModeExpiring seconds mode => some (Program.addModeExpiring seconds mode)
  | setModeCompleted mode => some (modeOp "SetModeCompleted" Wire.gameModeCompleted mode 0)
  | removeMode mode => some (modeOp "RemoveMode" Wire.gameRemoveMode mode 0)
  | clearModes => some (.ok { kind := Wire.gameClearModes })
  | commit => none

/-- The call commits: `SetGameFinished` does after its op. -/
def commits : ScriptCall → Bool
  | setGameFinished | commit => true
  | _ => false

/-- What the call is to the session source. -/
def events (c : ScriptCall) : List Event :=
  (match c.op with
    | some (.ok op) => [.scriptGameOp op]
    | _ => []) ++ if c.commits then [.scriptCommit] else []

/-- An op says a call: it has its kind and exactly its arguments, and no other field. -/
def Says : ScriptCall → Wire.GameOp → Prop
  | setGameStarted origin, op =>
    op = { kind := Wire.gameStart, value := op.value } ∧ origin = .whole op.value.toNat
  | setGameFinished, op => op = { kind := Wire.gameEnd }
  | setCurrentBall ball, op =>
    op = { kind := Wire.gameBall, value := op.value } ∧ ball = .whole op.value.toNat
  | setActivePlayer player, op =>
    op = { kind := Wire.gameActivePlayer, value := op.value } ∧ player = .whole op.value.toNat
  | setScore player score feature, op =>
    op = { kind := Wire.gameScore, value := op.value, score := op.score, feature := op.feature } ∧
      player = .whole op.value.toNat ∧ score = .whole op.score.toInt ∧
      op.score.toInt.natAbs ≤ maxExactScore ∧ feature = .whole op.feature.toInt
  | addMode mode, op => op = { kind := Wire.gameAddMode, mode := mode.getD [] }
  | addModeExpiring seconds mode, op =>
    op = { kind := Wire.gameAddModeExpiring, seconds := op.seconds, mode := mode.getD [] } ∧
      seconds = .whole op.seconds.toNat
  | setModeCompleted mode, op => op = { kind := Wire.gameModeCompleted, mode := mode.getD [] }
  | removeMode mode, op => op = { kind := Wire.gameRemoveMode, mode := mode.getD [] }
  | clearModes, op => op = { kind := Wire.gameClearModes }
  | commit, _ => False

end ScriptCall

/-- `RequestTopScores`: the request that is made, or the line that is logged. -/
def topScoresRequest (scope period vpinFilter limit : Worker.ScriptNumber) (since : Option Bytes) :
    Except String Wire.TopScoresRequest :=
  match Worker.scriptIndex scope 0 Wire.scopeGame.toNat,
      Worker.scriptIndex period 0 Wire.periodDays365.toNat,
      Worker.scriptIndex vpinFilter 0 Wire.vpinRealOnly.toNat,
      Worker.scriptIndex limit 1 Wire.maxTopScores.toNat with
  | some scope, some period, some vpinFilter, some limit =>
    if (since.getD []).length > Wire.maxSinceBytes then .error topScoresIgnored
    else .ok
      { scope := scope.toUInt8, period := period.toUInt8, vpinFilter := vpinFilter.toUInt8
        limit := limit.toUInt8, since := since.getD [] }
  | _, _, _, _ => .error topScoresIgnored
where
  /-- The line. -/
  topScoresIgnored : String :=
    "Scorbit.RequestTopScores ignored, scope 0-2, period 0-5, filter 0-2, limit 1-20 and since up to 32 bytes"

/-! ## The numbers -/

/-- `inRange` takes the whole numbers of its range and no others. -/
theorem inRange_eq_ok {verb : String} {v : Worker.ScriptNumber} {lo hi n : ℤ} :
    inRange verb v lo hi = .ok n ↔ v = .whole n ∧ lo ≤ n ∧ n ≤ hi := by
  cases v with
  | other => simp [inRange]
  | whole m =>
    by_cases hm : lo ≤ m ∧ m ≤ hi
    · simp only [inRange, if_pos hm, Except.ok.injEq, Worker.ScriptNumber.whole.injEq]
      constructor
      · rintro rfl
        exact ⟨rfl, hm⟩
      · exact And.left
    · simp only [inRange, if_neg hm, Worker.ScriptNumber.whole.injEq, reduceCtorEq, false_iff]
      rintro ⟨rfl, hm'⟩
      exact hm hm'

/-- A number a byte holds.

**Proof sketch.** The range check leaves the whole numbers from 0 to 255, and the conversion to a
byte keeps these. -/
theorem smallValue_eq_ok {verb : String} {v : Worker.ScriptNumber} {value : UInt8} :
    smallValue verb v = .ok value ↔ v = .whole value.toNat := by
  unfold smallValue
  constructor
  · intro h
    cases hv : inRange verb v 0 255 with
    | error why => simp [hv, Except.map] at h
    | ok n =>
      obtain ⟨rfl, hlo, hhi⟩ := inRange_eq_ok.mp hv
      have h : UInt8.ofNat n.toNat = value := by simpa [hv, Except.map] using h
      rw [← h, UInt8.toNat_ofNat_of_lt' (by simp [UInt8.size]; omega)]
      congr 1
      omega
  · rintro rfl
    have hlt := value.toNat_lt
    rw [inRange_eq_ok.mpr ⟨rfl, by omega, by omega⟩]
    simp [Except.map]

/-- The call of a small number. -/
theorem small_eq_ok {verb : String} {kind : UInt8} {v : Worker.ScriptNumber} {op : Wire.GameOp} :
    small verb kind v = .ok op ↔ op = { kind, value := op.value } ∧ v = .whole op.value.toNat := by
  unfold small
  constructor
  · intro h
    cases hv : smallValue verb v with
    | error why => simp [hv, Except.map] at h
    | ok value =>
      have h : ({ kind, value } : Wire.GameOp) = op := by simpa [hv, Except.map] using h
      subst h
      exact ⟨rfl, smallValue_eq_ok.mp hv⟩
  · rintro ⟨hop, hv⟩
    rw [smallValue_eq_ok.mpr hv]
    exact congrArg Except.ok hop.symm

/-- The call of a mode. -/
theorem modeOp_eq_ok {verb : String} {kind : UInt8} {mode : Option Bytes} {seconds : UInt32}
    {op : Wire.GameOp} : modeOp verb kind mode seconds = .ok op ↔
      op = { kind, seconds, mode := mode.getD [] } ∧ op.mode.length ≤ Worker.maxModeBytes := by
  unfold modeOp
  by_cases hlen : (mode.getD []).length > Worker.maxModeBytes
  · rw [if_pos hlen]
    simp only [reduceCtorEq, false_iff]
    rintro ⟨rfl, hle⟩
    exact absurd hle (Nat.not_le.mpr hlen)
  · rw [if_neg hlen, Except.ok.injEq]
    constructor
    · rintro rfl
      exact ⟨rfl, Nat.le_of_not_gt hlen⟩
    · exact fun h => h.1.symm

/-- The call of a score.

**Proof sketch.** The three checks in the order of the source, each of which says that its number is
whole and in range. The other way, a number of the operation's own width is in its range. -/
theorem setScore_eq_ok {player score feature : Worker.ScriptNumber} {op : Wire.GameOp} :
    setScore player score feature = .ok op ↔
      op = { kind := Wire.gameScore, value := op.value, score := op.score, feature := op.feature } ∧
        player = .whole op.value.toNat ∧ score = .whole op.score.toInt ∧
        op.score.toInt.natAbs ≤ maxExactScore ∧ feature = .whole op.feature.toInt := by
  constructor
  · intro h
    cases score with
    | other => simp [setScore] at h
    | whole s =>
      by_cases hs : s.natAbs > maxExactScore
      · simp only [setScore, if_pos hs, reduceCtorEq] at h
      · simp only [setScore, if_neg hs] at h
        cases hp : smallValue "SetScore" player with
        | error why => simp [hp, Except.bind] at h
        | ok value =>
          cases hf : inRange "SetScore" feature (-2147483648) 2147483647 with
          | error why => simp [hp, hf, Except.bind, Except.map] at h
          | ok f =>
            obtain ⟨rfl, hlo, hhi⟩ := inRange_eq_ok.mp hf
            have h : ({ kind := Wire.gameScore, value, score := Int64.ofInt s
                        feature := Int32.ofInt f } : Wire.GameOp) = op := by
              simpa [hp, hf, Except.bind, Except.map] using h
            subst h
            have hbound : (s.natAbs : ℤ) ≤ 9007199254740992 := by
              simpa [maxExactScore] using hs
            have hscore : (Int64.ofInt s).toInt = s :=
              Int64.toInt_ofInt_of_le (by omega) (by omega)
            have hfeature : (Int32.ofInt f).toInt = f :=
              Int32.toInt_ofInt_of_le (by omega) (by omega)
            refine ⟨rfl, smallValue_eq_ok.mp hp, ?_, ?_, ?_⟩
            · rw [hscore]
            · rw [hscore]
              exact hbound
            · rw [hfeature]
  · rintro ⟨hop, rfl, rfl, hs, rfl⟩
    have hlo := op.feature.le_toInt
    have hhi := op.feature.toInt_lt
    have hf : inRange "SetScore" (.whole op.feature.toInt) (-2147483648) 2147483647 =
        .ok op.feature.toInt := inRange_eq_ok.mpr ⟨rfl, by omega, by omega⟩
    have hp : smallValue "SetScore" (.whole op.value.toNat) = .ok op.value :=
      smallValue_eq_ok.mpr rfl
    simp only [setScore, if_neg (not_lt.mpr hs), hp, hf, Except.bind, Except.map, Int64.ofInt_toInt,
      Int32.ofInt_toInt]
    exact congrArg Except.ok hop.symm

/-- The call of an expiring mode.

**Proof sketch.** The number is checked before the text, and both give the operation's fields. -/
theorem addModeExpiring_eq_ok {seconds : Worker.ScriptNumber} {mode : Option Bytes}
    {op : Wire.GameOp} : addModeExpiring seconds mode = .ok op ↔
      (op = { kind := Wire.gameAddModeExpiring, seconds := op.seconds, mode := mode.getD [] } ∧
        seconds = .whole op.seconds.toNat) ∧ op.mode.length ≤ Worker.maxModeBytes := by
  unfold addModeExpiring
  constructor
  · intro h
    cases hv : inRange "AddModeExpiring" seconds 0 4294967295 with
    | error why => simp [hv, Except.bind] at h
    | ok n =>
      obtain ⟨rfl, hlo, hhi⟩ := inRange_eq_ok.mp hv
      have h : modeOp "AddModeExpiring" Wire.gameAddModeExpiring mode (UInt32.ofNat n.toNat) =
          .ok op := by simpa [hv, Except.bind] using h
      obtain ⟨rfl, hlen⟩ := modeOp_eq_ok.mp h
      refine ⟨⟨rfl, ?_⟩, hlen⟩
      show Worker.ScriptNumber.whole n = .whole (UInt32.ofNat n.toNat).toNat
      rw [UInt32.toNat_ofNat_of_lt' (by simp [UInt32.size]; omega)]
      congr 1
      omega
  · rintro ⟨⟨hop, rfl⟩, hlen⟩
    have hlt := op.seconds.toNat_lt
    rw [inRange_eq_ok.mpr ⟨rfl, by omega, by omega⟩]
    show modeOp _ _ _ (UInt32.ofNat (Int.toNat op.seconds.toNat)) = _
    rw [Int.toNat_natCast, UInt32.ofNat_toNat]
    exact modeOp_eq_ok.mpr ⟨hop, hlen⟩

/-! ## The calls -/

namespace ScriptCall

/-- **The op of a call is the one that says it**, unless its mode is too long. -/
theorem says_iff {c : ScriptCall} {op : Wire.GameOp} :
    c.op = some (.ok op) ↔ c.Says op ∧ op.mode.length ≤ Worker.maxModeBytes := by
  have hshort : ([] : Bytes).length ≤ Worker.maxModeBytes := Nat.zero_le _
  cases c with
  | setGameStarted v | setCurrentBall v | setActivePlayer v =>
    simp only [ScriptCall.op, Says, Option.some.injEq, small_eq_ok]
    exact ⟨fun h => ⟨h, by rw [h.1]; exact hshort⟩, And.left⟩
  | setGameFinished | clearModes =>
    simp only [ScriptCall.op, Says, Option.some.injEq, Except.ok.injEq]
    constructor
    · rintro rfl
      exact ⟨rfl, hshort⟩
    · exact fun h => h.1.symm
  | setScore player score feature =>
    simp only [ScriptCall.op, Says, Option.some.injEq, setScore_eq_ok]
    exact ⟨fun h => ⟨h, by rw [h.1]; exact hshort⟩, And.left⟩
  | addMode mode | setModeCompleted mode | removeMode mode =>
    simp only [ScriptCall.op, Says, Option.some.injEq, modeOp_eq_ok]
  | addModeExpiring seconds mode =>
    simp only [ScriptCall.op, Says, Option.some.injEq, addModeExpiring_eq_ok]
  | commit => simp [ScriptCall.op, Says]

/-- What says a call has no fields but those of its kind. -/
theorem Says.carried {c : ScriptCall} {op : Wire.GameOp} (h : c.Says op) : op.carried = op := by
  cases c with
  | setGameStarted v | setCurrentBall v | setActivePlayer v =>
    obtain ⟨hop, -⟩ := h
    rw [hop]
    rfl
  | setGameFinished | clearModes =>
    obtain rfl : op = _ := h
    rfl
  | setScore player score feature =>
    obtain ⟨hop, -⟩ := h
    rw [hop]
    rfl
  | addMode mode | setModeCompleted mode | removeMode mode =>
    obtain rfl : op = _ := h
    rfl
  | addModeExpiring seconds mode =>
    obtain ⟨hop, -⟩ := h
    rw [hop]
    rfl
  | commit => cases h

/-- Its kind is known. -/
theorem Says.known {c : ScriptCall} {op : Wire.GameOp} (h : c.Says op) :
    Wire.knownGameOp op.kind = true := by
  cases c with
  | setGameStarted v | setCurrentBall v | setActivePlayer v =>
    obtain ⟨hop, -⟩ := h
    rw [hop]
    rfl
  | setGameFinished | clearModes =>
    obtain rfl : op = _ := h
    decide
  | setScore player score feature =>
    obtain ⟨hop, -⟩ := h
    rw [hop]
    rfl
  | addMode mode | setModeCompleted mode | removeMode mode =>
    obtain rfl : op = _ := h
    rfl
  | addModeExpiring seconds mode =>
    obtain ⟨hop, -⟩ := h
    rw [hop]
    rfl
  | commit => cases h

/-- Every op of a call is one the commit and the encoder take. -/
theorem scripted {c : ScriptCall} {op : Wire.GameOp} (h : c.op = some (.ok op)) :
    Scripted op ∧ op.carried = op := by
  obtain ⟨hsaid, hlen⟩ := says_iff.mp h
  exact ⟨⟨hsaid.known, hlen⟩, hsaid.carried⟩

end ScriptCall

/-! ## What is said -/

/-- Some of the calls, in order, are what the ops say. -/
def SaidBy (called : List ScriptCall) (ops : List Wire.GameOp) : Prop :=
  ∃ said, said.Sublist called ∧ List.Forall₂ ScriptCall.Says said ops

namespace SaidBy

variable {called : List ScriptCall} {ops more : List Wire.GameOp}

/-- No op is said by no call. -/
theorem nil (called : List ScriptCall) : SaidBy called [] := ⟨[], List.nil_sublist _, .nil⟩

/-- Another call takes nothing back. -/
theorem call (h : SaidBy called ops) (c : ScriptCall) : SaidBy (called ++ [c]) ops := by
  obtain ⟨said, hsub, hsaid⟩ := h
  exact ⟨said, hsub.trans (List.sublist_append_left _ _), hsaid⟩

/-- A call says its op after those before it. -/
theorem concat (h : SaidBy called ops) {c : ScriptCall} {op : Wire.GameOp} (hc : c.Says op) :
    SaidBy (called ++ [c]) (ops ++ [op]) := by
  obtain ⟨said, hsub, hsaid⟩ := h
  exact ⟨said ++ [c], hsub.append (List.Sublist.refl _), List.rel_append hsaid (.cons hc .nil)⟩

/-- The first of the ops are said too. -/
theorem left (h : SaidBy called (ops ++ more)) : SaidBy called ops := by
  obtain ⟨said, hsub, hsaid⟩ := h
  exact ⟨said.take ops.length, (List.take_sublist _ _).trans hsub,
    List.forall₂_take_append _ _ _ hsaid⟩

end SaidBy

end Program
