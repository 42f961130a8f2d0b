import Mathlib.Data.List.TakeWhile
import Mathlib.Data.UInt
import Mathlib.Tactic.Common
import Mathlib.Tactic.IntervalCases
import ScorbitPlugin.Codec.Layout

set_option relaxedAutoImplicit false
set_option autoImplicit false

/-!
# Formatted input

The unsigned conversions of `sscanf` and the literals between them, in the C locale. A conversion
skips white space, takes a sign, in base 16 also a `0x`, and then as many digits as its width
leaves; what it takes is converted as by `strtoul`.

## Main definitions

* `Codec.scanUnsigned` — `%lu`, `%llu`, `%u` and, in base 16, `%llx`.
* `Codec.scanLiteral` — what a format has between its conversions.

## Main results

* `Codec.scanUnsigned_digits` — a conversion reads digits up to what is none.
-/

namespace Codec

/-! ## Numbers -/

/-- `isspace`. -/
def isSpace (c : UInt8) : Bool := c == 32 || (9 ≤ c && c ≤ 13)

/-- The value of a digit, and 16 for what is none. -/
def digitValue (c : UInt8) : ℕ :=
  if 48 ≤ c ∧ c ≤ 57 then c.toNat - 48
  else if 97 ≤ c ∧ c ≤ 102 then c.toNat - 87
  else if 65 ≤ c ∧ c ≤ 70 then c.toNat - 55
  else 16

/-- A digit of the base. -/
def isDigitOf (base : ℕ) (c : UInt8) : Bool := digitValue c < base

/-- The number that digits say. -/
def ofDigits (base : ℕ) (digits : Bytes) : ℕ :=
  digits.foldl (fun value c => base * value + digitValue c) 0

/-- `strtoul`: a value too large is the largest, and a sign negates. -/
def convert (negative : Bool) (value : ℕ) : UInt64 :=
  if 2 ^ 64 ≤ value then UInt64.ofNat (2 ^ 64 - 1)
  else if negative = true then 0 - UInt64.ofNat value
  else UInt64.ofNat value

/-- How many bytes the sign takes. -/
def signSize (s : Bytes) : ℕ := if s.head? = some 45 ∨ s.head? = some 43 then 1 else 0

/-- How many bytes a `0x` takes. -/
def markSize (base width : ℕ) (s : Bytes) : ℕ :=
  if base = 16 ∧ 2 ≤ width ∧ (s.take 2 = [48, 120] ∨ s.take 2 = [48, 88]) then 2 else 0

/-- An unsigned conversion: what it reads, and what is left. -/
def scanUnsigned (base width : ℕ) (s : Bytes) : Option (UInt64 × Bytes) :=
  let s := s.dropWhile isSpace
  let negative := s.head? == some 45
  let sign := signSize s
  let mark := markSize base (width - sign) (s.drop sign)
  let s := s.drop (sign + mark)
  let digits := (s.take (width - sign - mark)).takeWhile (isDigitOf base)
  if digits.isEmpty then none
  else some (convert negative (ofDigits base digits), s.drop digits.length)

/-- A literal: what is left behind it. -/
def scanLiteral (literal s : Bytes) : Option Bytes :=
  if literal.isPrefixOf s then some (s.drop literal.length) else none

/-! ## What they read -/

/-- A literal is read off what it begins. -/
@[simp] theorem scanLiteral_append (literal rest : Bytes) :
    scanLiteral literal (literal ++ rest) = some rest := by
  simp [scanLiteral]

/-- A digit is no space, no sign and no `x`.

**Proof sketch.** A space comes before all digits, and the other four are no digits below 16, by
evaluation. -/
theorem isDigitOf_plain {base : ℕ} (hbase : base ≤ 16) {c : UInt8} (h : isDigitOf base c = true) :
    isSpace c = false ∧ c ≠ 45 ∧ c ≠ 43 ∧ c ≠ 120 ∧ c ≠ 88 := by
  have hvalue : digitValue c < 16 := lt_of_lt_of_le (of_decide_eq_true h) hbase
  refine ⟨?_, ?_, ?_, ?_, ?_⟩
  · -- a space comes before all digits
    by_contra hspace
    rw [Bool.not_eq_false] at hspace
    simp only [isSpace, Bool.or_eq_true, beq_iff_eq, Bool.and_eq_true, decide_eq_true_eq,
      UInt8.le_iff_toNat_le, ← UInt8.toNat_inj] at hspace
    simp only [digitValue, UInt8.le_iff_toNat_le] at hvalue
    simp at hspace hvalue
    split_ifs at hvalue <;> omega
  all_goals
    rintro rfl
    exact absurd hvalue (by decide)

/-- A digit of base 10 has its value. -/
theorem digitValue_ofNat {d : ℕ} (h : d < 10) : digitValue (UInt8.ofNat (48 + d)) = d := by
  interval_cases d <;> rfl

/-- **A conversion reads digits up to what is none.**

**Proof sketch.** There is no space, sign or base mark in front of the digits, and the conversion
takes all of them, for they fit its width and end before what is no digit. -/
theorem scanUnsigned_digits {base width : ℕ} (hbase : base ≤ 16) {digits rest : Bytes} {c : UInt8}
    (hdigits : ∀ d ∈ digits, isDigitOf base d = true) (hne : digits ≠ [])
    (hwidth : digits.length ≤ width) (hc : isDigitOf base c = false) (hx : c ≠ 120) (hX : c ≠ 88) :
    scanUnsigned base width (digits ++ c :: rest) =
      some (convert false (ofDigits base digits), c :: rest) := by
  obtain ⟨d, ds, rfl⟩ := List.exists_cons_of_ne_nil hne
  obtain ⟨hspace, hminus, hplus, -, -⟩ :=
    isDigitOf_plain hbase (hdigits d (List.mem_cons_self ..))
  have hskip : (d :: ds ++ c :: rest).dropWhile isSpace = d :: ds ++ c :: rest := by
    rw [List.cons_append, List.dropWhile_cons_of_neg (by simp [hspace])]
  have hsign : signSize (d :: ds ++ c :: rest) = 0 := by
    simp [signSize, hminus, hplus]
  have hmark : markSize base (width - 0) (d :: ds ++ c :: rest) = 0 := by
    -- what follows the first digit is a digit, or what ends the number
    refine if_neg fun ⟨_, _, htwo⟩ => ?_
    cases ds with
    | nil => simp [hx, hX] at htwo
    | cons e ds =>
      obtain ⟨-, -, -, hex, hEX⟩ := isDigitOf_plain hbase (hdigits e (by simp))
      simp [hex, hEX] at htwo
  have htake : ((d :: ds ++ c :: rest).take (width - 0 - 0)).takeWhile (isDigitOf base) =
      d :: ds := by
    rw [Nat.sub_zero, Nat.sub_zero, List.take_append, List.take_of_length_le hwidth,
      List.takeWhile_append_of_pos hdigits]
    cases width - (d :: ds).length with
    | zero => simp
    | succ k => simp [hc]
  have hminus : ((d :: ds ++ c :: rest).head? == some 45) = false := by
    simp [hminus]
  unfold scanUnsigned
  dsimp only
  rw [hskip, hsign, List.drop_zero, hmark, List.drop_zero, htake, hminus, List.drop_left]
  rfl

end Codec
