import Mathlib.Tactic.Common
import ScorbitPlugin.Codec.Scan
import ScorbitPlugin.Worker.Pictures

set_option relaxedAutoImplicit false
set_option autoImplicit false

/-!
# The names of the picture copies

`ParseCopyName` of `src/ReadBack.cpp`, which tells from the name of a file which process made it,
against the `snprintf` of `PlayerTable::Apply` that makes the names.

## Main definitions

* `Worker.parseCopyName` — the process that a name says.
* `Worker.Naming.heads` — the paths whose names begin with a process and its tag.
* `Worker.Naming.mine` — those of them that are copies' names.

## Main results

* `Worker.parseCopyName_name` — the name of a copy says the process that made it.
* `Worker.parseCopyName_of_heads` — and no name that begins as one says another.
* `Worker.Naming.eq_of_heads` — two loads that name one path are the same.
-/

namespace Worker

open Codec

/-- `ParseCopyName`: `"%lu-%16llx-%u-%llu.jpg%n"`, with nothing behind it. -/
def parseCopyName (name : Bytes) : Option UInt64 := do
  let (pid, s) ← scanUnsigned 10 name.length name
  let s ← scanLiteral [45] s
  let (_, s) ← scanUnsigned 16 16 s
  let s ← scanLiteral [45] s
  let (_, s) ← scanUnsigned 10 s.length s
  let s ← scanLiteral [45] s
  let (_, s) ← scanUnsigned 10 s.length s
  let s ← scanLiteral [46, 106, 112, 103] s
  if s.isEmpty then some pid else none

/-! ## What is printed -/

/-- A digit of base 10 is printed as one. -/
theorem isDigitOf_of_isDigit {c : Char} (h : c.isDigit = true) :
    isDigitOf 10 (UInt8.ofNat c.toNat) = true ∧
      digitValue (UInt8.ofNat c.toNat) = c.toNat - 48 := by
  have hrange : 48 ≤ c.toNat ∧ c.toNat ≤ 57 := by
    simpa [Char.isDigit, UInt32.le_iff_toNat_le] using h
  obtain ⟨d, hd⟩ := Nat.exists_eq_add_of_le hrange.1
  have hten : d < 10 := by omega
  rw [isDigitOf, hd, digitValue_ofNat hten]
  exact ⟨decide_eq_true hten, by omega⟩

/-- A number is written in digits. -/
theorem isDigitOf_decimal {n : ℕ} : ∀ c ∈ decimal n, isDigitOf 10 c = true := by
  intro c hc
  obtain ⟨d, hd, rfl⟩ := List.mem_map.mp hc
  exact (isDigitOf_of_isDigit (Nat.isDigit_of_mem_toDigits (by decide) (by decide) hd)).1

/-- At least one of them. -/
theorem decimal_ne_nil (n : ℕ) : decimal n ≠ [] := by
  simp [decimal, Nat.toDigits_ne_nil]

/-- **What `%lu` prints is the number.** -/
theorem ofDigits_decimal (n : ℕ) : ofDigits 10 (decimal n) = n := by
  have hdigits : ∀ (cs : List Char) (value : ℕ), (∀ c ∈ cs, c.isDigit = true) →
      (cs.map fun c => UInt8.ofNat c.toNat).foldl (fun value c => 10 * value + digitValue c) value =
        Nat.ofDigitChars 10 cs value := by
    intro cs
    induction cs with
    | nil => simp
    | cons c cs ih =>
      intro value hall
      have hc := (isDigitOf_of_isDigit (hall c (List.mem_cons_self ..))).2
      rw [List.map_cons, List.foldl_cons, Nat.ofDigitChars_cons, hc]
      exact ih _ fun c hc => hall c (List.mem_cons_of_mem _ hc)
  rw [ofDigits, decimal,
    hdigits _ _ fun c hc => Nat.isDigit_of_mem_toDigits (by decide) (by decide) hc]
  exact Nat.ofDigitChars_ten_toDigits

/-- What `%016llx` prints are digits of base 16, and 16 of them.

**Proof sketch.** The digits of a number are digits by induction on its base, those in front are
zeros, and they fill up to 16, which 64 bits do not exceed. -/
theorem isDigitOf_hex16 (n : UInt64) :
    (∀ c ∈ hex16 n, isDigitOf 16 c = true) ∧ (hex16 n).length = 16 := by
  have hdigits : ∀ m : ℕ, ∀ c ∈ Nat.toDigits 16 m, isDigitOf 16 (UInt8.ofNat c.toNat) = true := by
    have hone : ∀ d < 16, isDigitOf 16 (UInt8.ofNat d.digitChar.toNat) = true := by decide
    intro m
    induction m using Nat.base_induction 16 (by decide) with
    | single m hm =>
      intro c hc
      rw [Nat.toDigits_of_lt_base hm, List.mem_singleton] at hc
      exact hc ▸ hone m hm
    | digit m k hk hm ih =>
      intro c hc
      rw [← Nat.toDigits_append_toDigits (by decide) hm hk, List.mem_append] at hc
      rcases hc with hc | hc
      · exact ih c hc
      · rw [Nat.toDigits_of_lt_base hk, List.mem_singleton] at hc
        exact hc ▸ hone k hk
  constructor
  · intro c hc
    rcases List.mem_append.mp hc with hc | hc
    · rw [List.eq_of_mem_replicate hc]
      decide
    · obtain ⟨d, hd, rfl⟩ := List.mem_map.mp hc
      exact hdigits _ d hd
  · have hlength : (Nat.toDigits 16 n.toNat).length ≤ 16 := by
      rw [Nat.length_toDigits_le_iff (by decide) (by decide)]
      exact n.toNat_lt
    simp only [hex16, List.length_append, List.length_replicate, List.length_map]
    omega

/-- What `%016llx` prints is the number.

**Proof sketch.** The zeros in front add nothing, and the digits of a number are read as that number
by induction on its base. -/
theorem ofDigits_hex16 (n : UInt64) : ofDigits 16 (hex16 n) = n.toNat := by
  have hone : ∀ d < 16, digitValue (UInt8.ofNat d.digitChar.toNat) = d := by decide
  have hdigits : ∀ m : ℕ,
      ofDigits 16 ((Nat.toDigits 16 m).map fun c => UInt8.ofNat c.toNat) = m := by
    intro m
    induction m using Nat.base_induction 16 (by decide) with
    | single m hm =>
      rw [Nat.toDigits_of_lt_base hm]
      simp [ofDigits, hone m hm]
    | digit m k hk hm ih =>
      rw [← Nat.toDigits_append_toDigits (by decide) hm hk, Nat.toDigits_of_lt_base hk]
      unfold ofDigits at ih ⊢
      rw [List.map_append, List.foldl_append, ih]
      simp [hone k hk]
  have hzeros : ∀ k : ℕ,
      (List.replicate k (48 : UInt8)).foldl (fun value c => 16 * value + digitValue c) 0 = 0 := by
    intro k
    induction k with
    | zero => rfl
    | succ k ih => exact ih
  have hnumber := hdigits n.toNat
  unfold ofDigits at hnumber ⊢
  rw [hex16, List.foldl_append, hzeros, hnumber]

/-- Different tags are printed differently. -/
theorem hex16_inj {a b : UInt64} (h : hex16 a = hex16 b) : a = b := by
  rw [← UInt64.toNat_inj, ← ofDigits_hex16 a, ← ofDigits_hex16 b, h]

/-! ## What is read back -/

/-- A number is read back up to a hyphen or a dot. -/
theorem scan_decimal {n : ℕ} (hn : n < 2 ^ 64) {c : UInt8} (hc : c = 45 ∨ c = 46) (rest : Bytes) :
    scanUnsigned 10 (decimal n ++ c :: rest).length (decimal n ++ c :: rest) =
      some (UInt64.ofNat n, c :: rest) := by
  have hend : isDigitOf 10 c = false ∧ c ≠ 120 ∧ c ≠ 88 := by
    rcases hc with rfl | rfl <;> decide
  rw [scanUnsigned_digits (by decide) isDigitOf_decimal (decimal_ne_nil n) (by simp) hend.1 hend.2.1
    hend.2.2, ofDigits_decimal, convert, if_neg (by omega)]
  rfl

/-- A tag is read back up to a hyphen. -/
theorem scan_hex16 (n : UInt64) (rest : Bytes) :
    ∃ value, scanUnsigned 16 16 (hex16 n ++ 45 :: rest) = some (value, 45 :: rest) := by
  obtain ⟨hdigits, hlength⟩ := isDigitOf_hex16 n
  have hne : hex16 n ≠ [] := by
    intro hnil
    rw [hnil] at hlength
    cases hlength
  exact ⟨_, scanUnsigned_digits le_rfl hdigits hne hlength.le (by decide) (by decide) (by decide)⟩

namespace Naming

/-- `filename()` of a path in the directory. -/
def nameOf (n : Naming) (path : Bytes) : Bytes := path.drop n.dir.length

/-- A path whose name begins with the process and the tag. -/
def heads (n : Naming) (path : Bytes) : Bool := (n.dir ++ n.head).isPrefixOf path

/-- A path whose name says the process, and begins with it and the tag. -/
def mine (n : Naming) (path : Bytes) : Bool :=
  n.heads path && parseCopyName (n.nameOf path) == some n.process

/-- What a path that begins so is. -/
theorem nameOf_of_heads {n : Naming} {path : Bytes} (h : n.heads path = true) :
    ∃ rest, n.nameOf path = decimal n.process.toNat ++ 45 :: (hex16 n.tag ++ 45 :: rest) := by
  obtain ⟨rest, rfl⟩ := List.isPrefixOf_iff_prefix.mp h
  refine ⟨rest, ?_⟩
  rw [nameOf, List.append_assoc, List.drop_left]
  simp [head]

/-- The paths of the copies begin so. -/
theorem heads_path (n : Naming) (player : ℕ) (copies : UInt64) :
    n.heads (n.path player copies) = true := by
  apply List.isPrefixOf_iff_prefix.mpr
  apply (List.prefix_append_right_inj _).mpr
  have hhead := n.length_head_le
  rw [name, List.append_assoc, List.append_assoc, List.append_assoc, List.take_append,
    List.take_of_length_le (by omega)]
  exact List.prefix_append _ _

end Naming

/-- **A name that begins with a process and a hyphen says no other process.** -/
theorem parseCopyName_of_heads {n : Naming} {path : Bytes} (h : n.heads path = true) {pid : UInt64}
    (hparse : parseCopyName (n.nameOf path) = some pid) : pid = n.process := by
  obtain ⟨rest, hname⟩ := n.nameOf_of_heads h
  rw [hname, parseCopyName, scan_decimal n.process.toNat_lt (.inl rfl)] at hparse
  simp only [Option.bind_eq_bind, Option.bind_some, Option.bind_eq_some_iff] at hparse
  obtain ⟨_, -, _, -, _, -, _, -, _, -, _, -, _, -, hpid⟩ := hparse
  obtain ⟨-, hpid⟩ := Option.ite_none_right_eq_some.mp hpid
  rw [← Option.some.inj hpid, UInt64.ofNat_toNat]

/-- **Two loads that name one path are of one process and have one tag.** -/
theorem Naming.eq_of_heads (n n' : Naming) (hdir : n.dir = n'.dir) {path : Bytes}
    (h : n.heads path = true) (h' : n'.heads path = true) : n = n' := by
  obtain ⟨rest, hname⟩ := n.nameOf_of_heads h
  obtain ⟨rest', hname'⟩ := n'.nameOf_of_heads h'
  have heq : decimal n.process.toNat ++ 45 :: (hex16 n.tag ++ 45 :: rest) =
      decimal n'.process.toNat ++ 45 :: (hex16 n'.tag ++ 45 :: rest') := by
    rw [← hname, ← hname', Naming.nameOf, Naming.nameOf, hdir]
  have hscan := scan_decimal n.process.toNat_lt (.inl rfl) (hex16 n.tag ++ 45 :: rest)
  rw [heq, scan_decimal n'.process.toNat_lt (.inl rfl), Option.some.injEq, Prod.mk.injEq,
    UInt64.ofNat_toNat, UInt64.ofNat_toNat] at hscan
  have hlength : (hex16 n.tag).length = (hex16 n'.tag).length :=
    (isDigitOf_hex16 n.tag).2.trans (isDigitOf_hex16 n'.tag).2.symm
  have htag : hex16 n'.tag = hex16 n.tag :=
    (List.append_inj (List.cons.inj hscan.2).2 hlength.symm).1
  obtain ⟨process, tag, dir⟩ := n
  obtain ⟨process', tag', dir'⟩ := n'
  simp only at hscan htag hdir
  obtain rfl := hscan.1
  obtain rfl := hex16_inj htag
  rw [hdir]

/-- **The name of a copy says the process that made it**, a process id having 31 bits.

**Proof sketch.** The name fits its buffer, so it is whole. Each conversion reads the digits up to
the next mark (`scanUnsigned_digits`), and the process's number is below 2^31, so it is read as it
is. -/
theorem parseCopyName_name {n : Naming} (hpid : n.process.toNat < 2 ^ 31) (i : Fin 9)
    (copies : UInt64) : parseCopyName (n.name (i.val + 1) copies) = some n.process := by
  have hwhole : n.name (i.val + 1) copies =
      decimal n.process.toNat ++ 45 :: (hex16 n.tag ++ 45 :: (decimal (i.val + 1) ++
        45 :: (decimal copies.toNat ++ 46 :: [106, 112, 103]))) := by
    -- it fits the buffer
    have hprocess : (decimal n.process.toNat).length ≤ 10 := by
      rw [decimal, List.length_map, Nat.length_toDigits_le_iff (by decide) (by decide)]
      omega
    have hcopies : (decimal copies.toNat).length ≤ 20 := by
      rw [decimal, List.length_map, Nat.length_toDigits_le_iff (by decide) (by decide)]
      have hlt := copies.toNat_lt
      omega
    have hplayer : (decimal (i.val + 1)).length = 1 := by
      rw [decimal_player]
      rfl
    have htag := (isDigitOf_hex16 n.tag).2
    rw [Naming.name, List.take_of_length_le]
    · simp [Naming.head]
    · simp only [Naming.head, List.length_append, List.length_cons, List.length_nil]
      omega
  obtain ⟨tag, htag⟩ := scan_hex16 n.tag (decimal (i.val + 1) ++
    45 :: (decimal copies.toNat ++ 46 :: [106, 112, 103]))
  have hminus : ∀ rest, scanLiteral [45] (45 :: rest) = some rest := scanLiteral_append [45]
  have hend : scanLiteral [46, 106, 112, 103] [46, 106, 112, 103] = some [] := rfl
  rw [hwhole, parseCopyName]
  simp only [Option.bind_eq_bind, Option.bind_some, hminus, htag, hend,
    scan_decimal n.process.toNat_lt (.inl rfl), scan_decimal copies.toNat_lt (.inr rfl),
    scan_decimal (n := i.val + 1) (by omega) (.inl rfl), UInt64.ofNat_toNat]
  rfl

/-- A copy is mine. -/
theorem Naming.mine_path {n : Naming} (hpid : n.process.toNat < 2 ^ 31) (i : Fin 9)
    (copies : UInt64) : n.mine (n.path (i.val + 1) copies) = true := by
  have hname : n.nameOf (n.path (i.val + 1) copies) = n.name (i.val + 1) copies := by
    rw [nameOf, path, List.drop_left]
  rw [mine, n.heads_path, hname, parseCopyName_name hpid]
  simp

end Worker
