import Mathlib.Data.UInt
import Mathlib.Logic.Function.Basic
import Mathlib.Tactic.Common
import ScorbitPlugin.Codec.Layout
import ScorbitPlugin.Runs.System

set_option relaxedAutoImplicit false
set_option autoImplicit false

/-!
# The seqlock

`SeqLock` of `src/SeqLock.h`: one writer publishes values of at most `CAPACITY` bytes and any number
of readers copy them. Each load and each store of an atomic is a step, in the order of the program,
and the steps of the writer and of the readers interleave in any way.

## Main definitions

* `Handoff.Shared` — the counter, the size and the words.
* `Handoff.Writer`, `Handoff.Reader` — where a `Write` and a `Read` stand.
* `Handoff.step`, `Handoff.system` — the steps of all of them.
* `Handoff.Delivers` — what a `Read` that returned true delivers.

## Main results

* `Handoff.never_mixed` — a `Read` delivers one published value, unless `2 ^ 63` were published
  while it copied; too large a `Write` changes nothing; and every `Read` ends.
* `Handoff.not_never_mixed` — that many bring the counter back, and a `Read` mixes two values.

## Design

A word is its eight bytes in the order of memory, which is the order that both `memcpy` calls
follow. The values published, how many there were when a `Read` loaded and checked the counter, and
how many steps it took are recorded beside the state; no step reads them.
-/

namespace Handoff

open Codec

/-! ## The words of a value -/

/-- The words that `size` bytes take. -/
def wordCount (size : ℕ) : ℕ := (size + 7) / 8

/-- How many bytes of a value of `size` bytes are in word `i`. -/
def wordSize (size i : ℕ) : ℕ := min 8 (size - i * 8)

/-- Word `i` of a value: zero, with the bytes of the value copied over it. -/
def wordAt (data : Bytes) (i : ℕ) : Bytes :=
  (data.drop (i * 8)).take (wordSize data.length i) ++
    List.replicate (8 - wordSize data.length i) 0

/-- The bytes of a value that are in its word.

**Proof sketch.** Both are fronts of the same rest of the value, as long as the word's part of it.
-/
theorem take_wordAt (data : Bytes) (i : ℕ) :
    (wordAt data i).take (wordSize data.length i) = (data.drop (i * 8)).take 8 := by
  have hlength : ((data.drop (i * 8)).take (wordSize data.length i)).length =
      wordSize data.length i := by
    simp only [List.length_take, List.length_drop, wordSize]
    omega
  have htake : (wordAt data i).take (wordSize data.length i) =
      (data.drop (i * 8)).take (wordSize data.length i) := by
    unfold wordAt
    rw [List.take_append_of_le_length (by omega), List.take_of_length_le (by omega)]
  rw [htake]
  apply List.take_eq_take_iff.mpr
  simp only [List.length_drop, wordSize]
  omega

/-- One more word is copied. -/
theorem take_append_wordAt (data : Bytes) (i : ℕ) :
    data.take (i * 8) ++ (wordAt data i).take (wordSize data.length i) =
      data.take ((i + 1) * 8) := by
  rw [take_wordAt, ← List.take_add]
  congr 1
  omega

/-- All the words are the whole value. -/
theorem take_wordCount (data : Bytes) : data.take (wordCount data.length * 8) = data := by
  apply List.take_of_length_le
  unfold wordCount
  omega

/-! ## The counter -/

/-- `MAX_RETRIES`. -/
def maxRetries : ℕ := 3

/-- `MAX_YIELDS`. -/
def maxYields : ℕ := 1000

/-- A write is in progress. -/
def odd (seq : UInt64) : Bool := seq &&& 1 != 0

/-- A number is odd as a word just when it is odd. -/
theorem odd_ofNat (n : ℕ) : odd (UInt64.ofNat n) = decide (n % 2 = 1) := by
  have hand : ((UInt64.ofNat n &&& 1 : UInt64)).toNat = n % 2 := by
    rw [UInt64.toNat_and, UInt64.toNat_ofNat', UInt64.toNat_one, Nat.and_one_is_mod]
    omega
  have hzero : (UInt64.ofNat n &&& 1 = 0) ↔ n % 2 = 0 := by
    rw [← hand, ← UInt64.toNat_inj]
    rfl
  unfold odd
  rw [Bool.eq_iff_iff, bne_iff_ne, Ne, hzero, decide_eq_true_iff]
  omega

/-- The counter after as many values. -/
def sequenceOf (published : ℕ) : UInt64 := UInt64.ofNat (2 * published)

/-- The sequence after a number of whole writes is even. -/
theorem odd_sequenceOf (n : ℕ) : odd (sequenceOf n) = false := by
  rw [sequenceOf, odd_ofNat]
  simp

/-- While the next one is under way it is odd. -/
theorem odd_sequenceOf_add_one (n : ℕ) : odd (sequenceOf n + 1) = true := by
  have hadd : sequenceOf n + 1 = UInt64.ofNat (2 * n + 1) := by
    rw [UInt64.ofNat_add]
    rfl
  rw [hadd, odd_ofNat]
  simp [Nat.add_mod]

/-- A write moves the sequence on by two. -/
theorem sequenceOf_add_two (n : ℕ) : sequenceOf n + 2 = sequenceOf (n + 1) := by
  rw [sequenceOf, sequenceOf, Nat.mul_add, UInt64.ofNat_add]
  rfl

/-- The counter tells apart what is less than `2 ^ 63` values apart. -/
theorem sequenceOf_inj {m n : ℕ} (hle : m ≤ n) (hlt : n < m + 2 ^ 63)
    (h : sequenceOf n = sequenceOf m) : n = m := by
  have hmod := congrArg UInt64.toNat h
  rw [sequenceOf, sequenceOf, UInt64.toNat_ofNat', UInt64.toNat_ofNat'] at hmod
  omega

/-! ## The two functions, step by step -/

/-- `m_seq`, `m_size` and `m_words`. -/
structure Shared where
  seq : UInt64 := 0
  size : ℕ := 0
  words : ℕ → Bytes := fun _ => List.replicate 8 0

/-- Where `Write` stands. -/
inductive Writer
  | idle
  /-- Before it loads the counter. -/
  | load (data : Bytes)
  /-- Before it stores `seq + 1`. -/
  | begin (data : Bytes) (seq : UInt64)
  | size (data : Bytes) (seq : UInt64)
  | word (data : Bytes) (seq : UInt64) (i : ℕ)
  /-- Before it stores `seq + 2`. -/
  | publish (data : Bytes) (seq : UInt64)
deriving DecidableEq, Repr

/-- The loop of `Write` from word `i` on. -/
def Writer.storing (data : Bytes) (seq : UInt64) (i : ℕ) : Writer :=
  if i < wordCount data.length then .word data seq i else .publish data seq

/-- `attempt` and `yields`. -/
structure Attempt where
  number : ℕ := 0
  yields : ℕ := 0
deriving DecidableEq, Repr

/-- What an attempt has copied: `before`, `n` and the bytes from `dst` on. -/
structure Copy where
  before : UInt64
  size : ℕ
  copied : Bytes := []
deriving DecidableEq, Repr

/-- What a `Read` that returns true hands out. -/
structure Value where
  size : ℕ
  bytes : Bytes
  sequence : UInt64
deriving DecidableEq, Repr

/-- Where `Read` stands. -/
inductive Reader
  | idle
  | load (a : Attempt)
  | size (a : Attempt) (before : UInt64)
  | word (a : Attempt) (k : Copy) (i : ℕ)
  | check (a : Attempt) (k : Copy)
  | returned (value : Option Value)
deriving DecidableEq, Repr

/-- A `Read` is under way. -/
def Reader.underWay : Reader → Bool
  | .idle | .returned _ => false
  | _ => true

/-- `continue`, and the end of the loop of attempts. -/
def Reader.retry (a : Attempt) : Reader :=
  if a.number + 1 ≤ maxRetries then .load { a with number := a.number + 1 } else .returned none

/-- The loop of `Read` from word `i` on. -/
def Reader.copying (a : Attempt) (k : Copy) (i : ℕ) : Reader :=
  if i < wordCount k.size then .word a k i else .check a k

/-- After a load of the counter: the loop that waits for a write, and what follows it. -/
def Reader.loaded (a : Attempt) (before : UInt64) : Reader :=
  if odd before = true ∧ a.yields < maxYields then .load { a with yields := a.yields + 1 }
  else if before = 0 then .returned none
  else if odd before = true then .retry { a with yields := a.yields + 1 }
  else .size a before

/-- A step of `Read`. -/
def Reader.next (capacity : ℕ) (shared : Shared) : Reader → Option Reader
  | .idle | .returned _ => none
  | .load a => some (.loaded a shared.seq)
  | .size a before =>
    some (if shared.size > capacity then .retry a else .copying a ⟨before, shared.size, []⟩ 0)
  | .word a k i =>
    let copied := k.copied ++ (shared.words i).take (wordSize k.size i)
    some (.copying a { k with copied := copied } (i + 1))
  | .check a k =>
    some (if shared.seq = k.before then .returned (some ⟨k.size, k.copied, k.before⟩)
      else .retry a)

/-- A value that was published, and the counter that published it. -/
structure Published where
  sequence : UInt64
  bytes : Bytes
deriving DecidableEq, Repr

/-- The seqlock, its writer and its readers. -/
structure State where
  shared : Shared := {}
  writer : Writer := .idle
  readers : ℕ → Reader := fun _ => .idle
  /-- The values published, the oldest first. -/
  published : List Published := []
  /-- How many were, when a `Read` last loaded the counter to copy. -/
  loaded : ℕ → ℕ := fun _ => 0
  /-- How many were, when it last checked the counter. -/
  checked : ℕ → ℕ := fun _ => 0
  /-- The steps of a `Read` since it began. -/
  steps : ℕ → ℕ := fun _ => 0

/-- What may happen next. -/
inductive Act
  | write (data : Bytes)
  | writer
  | read (r : ℕ)
  | reader (r : ℕ)
deriving DecidableEq, Repr

/-- A step of `Write`. -/
def State.writerStep (s : State) : Option State :=
  match s.writer with
  | .idle => none
  | .load data => some { s with writer := .begin data s.shared.seq }
  | .begin data seq =>
    some { s with shared := { s.shared with seq := seq + 1 }, writer := .size data seq }
  | .size data seq =>
    some { s with
      shared := { s.shared with size := data.length }
      writer := .storing data seq 0 }
  | .word data seq i =>
    some { s with
      shared := { s.shared with words := Function.update s.shared.words i (wordAt data i) }
      writer := .storing data seq (i + 1) }
  | .publish data seq =>
    some { s with
      shared := { s.shared with seq := seq + 2 }
      writer := .idle
      published := s.published ++ [⟨seq + 2, data⟩] }

/-- A `Read` goes on to a place; what is recorded of the step it took. -/
def State.goes (s : State) (r : ℕ) (place : Reader) : State :=
  { s with
    readers := Function.update s.readers r place
    loaded := match s.readers r with
      | .load _ => Function.update s.loaded r s.published.length
      | _ => s.loaded
    checked := match s.readers r with
      | .check _ _ => Function.update s.checked r s.published.length
      | _ => s.checked
    steps := Function.update s.steps r (s.steps r + 1) }

/-- A reader that goes to a place is there. -/
@[simp] theorem State.readers_goes_self (s : State) (r : ℕ) (place : Reader) :
    (s.goes r place).readers r = place :=
  Function.update_self _ _ _

/-- It has taken one step more. -/
@[simp] theorem State.steps_goes_self (s : State) (r : ℕ) (place : Reader) :
    (s.goes r place).steps r = s.steps r + 1 :=
  Function.update_self _ _ _

/-- The other readers stay where they are. -/
theorem State.readers_goes_of_ne (s : State) {r r' : ℕ} (place : Reader) (hne : r' ≠ r) :
    (s.goes r place).readers r' = s.readers r' :=
  Function.update_of_ne hne _ _

/-- The steps of the other readers stay. -/
theorem State.steps_goes_of_ne (s : State) {r r' : ℕ} (place : Reader) (hne : r' ≠ r) :
    (s.goes r place).steps r' = s.steps r' :=
  Function.update_of_ne hne _ _

/-- The step function. A call begins when its thread is at none, and the writers are serialised. -/
def step (capacity : ℕ) (s : State) : Act → Option State
  | .write data =>
    if s.writer = .idle then
      some (if data.length > capacity then s else { s with writer := .load data })
    else none
  | .writer => s.writerStep
  | .read r =>
    if (s.readers r).underWay = true then none
    else some { s with
      readers := Function.update s.readers r (.load {})
      steps := Function.update s.steps r 0 }
  | .reader r => ((s.readers r).next capacity s.shared).map (s.goes r)

/-- One writer and the readers of a seqlock of some capacity. -/
def system (capacity : ℕ) : Runs.System State Act := .ofStep (· = {}) (step capacity)

/-! ## A read ends -/

/-- The most steps that a `Read` takes. -/
def readBound (capacity : ℕ) : ℕ := maxYields + (maxRetries + 1) * (wordCount capacity + 3)

/-- How many steps are left at most, of a `Read` of at most `words` words. -/
def Reader.remaining (words : ℕ) : Reader → ℕ
  | .idle | .returned _ => 0
  | .load a => maxYields - a.yields + (maxRetries + 1 - a.number) * (words + 3)
  | .size a _ => maxYields - a.yields + (maxRetries - a.number) * (words + 3) + (words + 2)
  | .word a k i =>
    maxYields - a.yields + (maxRetries - a.number) * (words + 3) + (wordCount k.size - i) + 1
  | .check a _ => maxYields - a.yields + (maxRetries - a.number) * (words + 3) + 1

/-- The attempt is one of those allowed, and what it copies has room. -/
def Reader.Bounded (capacity : ℕ) : Reader → Prop
  | .idle | .returned _ => True
  | .load a | .size a _ => a.number ≤ maxRetries
  | .word a k i => a.number ≤ maxRetries ∧ k.size ≤ capacity ∧ i < wordCount k.size
  | .check a k => a.number ≤ maxRetries ∧ k.size ≤ capacity

/-- More bytes take at least as many words. -/
theorem wordCount_le {m n : ℕ} (h : m ≤ n) : wordCount m ≤ wordCount n := by
  unfold wordCount
  omega

/-- The attempts left after one are fewer. -/
theorem Reader.remaining_retry (capacity words : ℕ) (a : Attempt) :
    (Reader.retry a).Bounded capacity ∧ (Reader.retry a).remaining words ≤
      maxYields - a.yields + (maxRetries - a.number) * (words + 3) := by
  unfold Reader.retry
  split
  · rename_i hnext
    refine ⟨hnext, ?_⟩
    have hsub : maxRetries + 1 - (a.number + 1) = maxRetries - a.number := by omega
    simp only [Reader.remaining, hsub]
    exact le_rfl
  · exact ⟨trivial, Nat.zero_le _⟩

/-- The loop of words from `i` on. -/
theorem Reader.remaining_copying {capacity : ℕ} (words i : ℕ) {a : Attempt} {k : Copy}
    (ha : a.number ≤ maxRetries) (hk : k.size ≤ capacity) :
    (Reader.copying a k i).Bounded capacity ∧ (Reader.copying a k i).remaining words ≤
      maxYields - a.yields + (maxRetries - a.number) * (words + 3) + (wordCount k.size - i) +
        1 := by
  unfold Reader.copying
  split
  · rename_i hi
    exact ⟨⟨ha, hk, hi⟩, le_rfl⟩
  · refine ⟨⟨ha, hk⟩, ?_⟩
    simp only [Reader.remaining]
    omega

/-- Every step of a `Read` leaves it fewer.

**Proof sketch.** By the place. Waiting for an even counter takes a yield, and within a copy the
words left go down. At its end the read returns or tries again, and a try left weighs as much as a
whole copy. -/
theorem Reader.remaining_next {capacity : ℕ} {shared : Shared} {place next : Reader}
    (hb : place.Bounded capacity) (h : place.next capacity shared = some next) :
    next.Bounded capacity ∧
      next.remaining (wordCount capacity) < place.remaining (wordCount capacity) := by
  cases place with
  | idle | returned => cases h
  | load a =>
    obtain rfl := Option.some.inj h
    have hsub : maxRetries + 1 - a.number = maxRetries - a.number + 1 :=
      Nat.succ_sub hb
    unfold Reader.loaded
    split
    · rename_i hwait
      refine ⟨hb, ?_⟩
      simp only [Reader.remaining]
      omega
    · split
      · refine ⟨trivial, ?_⟩
        simp only [Reader.remaining, hsub, Nat.succ_mul]
        omega
      · split
        · obtain ⟨hbounded, hle⟩ := Reader.remaining_retry capacity (wordCount capacity)
            { a with yields := a.yields + 1 }
          refine ⟨hbounded, lt_of_le_of_lt hle ?_⟩
          simp only [Reader.remaining, hsub, Nat.succ_mul]
          omega
        · refine ⟨hb, ?_⟩
          simp only [Reader.remaining, hsub, Nat.succ_mul]
          omega
  | size a before =>
    obtain rfl := Option.some.inj h
    split
    · obtain ⟨hbounded, hle⟩ := Reader.remaining_retry capacity (wordCount capacity) a
      refine ⟨hbounded, lt_of_le_of_lt hle ?_⟩
      simp only [Reader.remaining]
      omega
    · rename_i hsize
      have hfits : shared.size ≤ capacity := by omega
      obtain ⟨hbounded, hle⟩ := Reader.remaining_copying (wordCount capacity) 0
        (k := ⟨before, shared.size, []⟩) hb hfits
      refine ⟨hbounded, lt_of_le_of_lt hle ?_⟩
      have hcount := wordCount_le hfits
      simp only [Reader.remaining]
      omega
  | word a k i =>
    obtain rfl := Option.some.inj h
    obtain ⟨ha, hk, hi⟩ := hb
    obtain ⟨hbounded, hle⟩ := Reader.remaining_copying (wordCount capacity) (i + 1)
      (k := { k with copied := k.copied ++ (shared.words i).take (wordSize k.size i) }) ha hk
    refine ⟨hbounded, lt_of_le_of_lt hle ?_⟩
    simp only [Reader.remaining]
    omega
  | check a k =>
    obtain rfl := Option.some.inj h
    split
    · refine ⟨trivial, ?_⟩
      simp only [Reader.remaining]
      omega
    · obtain ⟨hbounded, hle⟩ := Reader.remaining_retry capacity (wordCount capacity) a
      refine ⟨hbounded, lt_of_le_of_lt hle ?_⟩
      simp only [Reader.remaining]
      omega

/-- What is under way can take a step, and has one left.

**Proof sketch.** Every place under way has its step, and counts at least the step itself. -/
theorem Reader.isSome_next {capacity : ℕ} (shared : Shared) {place : Reader}
    (hb : place.Bounded capacity) (h : place.underWay = true) :
    (place.next capacity shared).isSome ∧ 0 < place.remaining (wordCount capacity) := by
  cases place with
  | idle | returned => cases h
  | load a =>
    refine ⟨rfl, ?_⟩
    have hsub : maxRetries + 1 - a.number = maxRetries - a.number + 1 := Nat.succ_sub hb
    simp only [Reader.remaining, hsub, Nat.succ_mul]
    omega
  | size | word | check =>
    refine ⟨rfl, ?_⟩
    simp only [Reader.remaining]
    omega

/-! ## The invariant -/

/-- The writer is not between its two stores of the counter. -/
def Writer.quiet : Writer → Bool
  | .idle | .load _ | .begin _ _ => true
  | _ => false

/-- The first words of a value are stored. -/
structure Shared.Holds (shared : Shared) (data : Bytes) (i : ℕ) : Prop where
  size : shared.size = data.length
  words : ∀ j < i, shared.words j = wordAt data j

/-- The counter and the memory where the writer stands, after some values. -/
def WriterAt (capacity n : ℕ) (shared : Shared) : Writer → Prop
  | .idle => shared.seq = sequenceOf n
  | .load data => data.length ≤ capacity ∧ shared.seq = sequenceOf n
  | .begin data seq => data.length ≤ capacity ∧ shared.seq = sequenceOf n ∧ seq = sequenceOf n
  | .size data seq => data.length ≤ capacity ∧ shared.seq = sequenceOf n + 1 ∧ seq = sequenceOf n
  | .word data seq i =>
    data.length ≤ capacity ∧ shared.seq = sequenceOf n + 1 ∧ seq = sequenceOf n ∧
      i < wordCount data.length ∧ shared.Holds data i
  | .publish data seq =>
    data.length ≤ capacity ∧ shared.seq = sequenceOf n + 1 ∧ seq = sequenceOf n ∧
      shared.Holds data (wordCount data.length)

/-- The writer and what was published. -/
structure Stored (capacity : ℕ) (s : State) : Prop where
  writer : WriterAt capacity s.published.length s.shared s.writer
  /-- The newest value is in memory unless the writer stores another. -/
  holds : s.writer.quiet = true → ∀ p, s.published.getLast? = some p →
    s.shared.Holds p.bytes (wordCount p.bytes.length)
  /-- The values published have room, and are numbered. -/
  published : ∀ i p, s.published[i]? = some p →
    p.sequence = sequenceOf (i + 1) ∧ p.bytes.length ≤ capacity

/-- Nothing was stored since a `Read` loaded the counter after `n` values. -/
def State.Still (s : State) (n : ℕ) : Prop := n = s.published.length ∧ s.writer.quiet = true

/-- A `Read` loaded an even counter that is not zero. -/
structure Began (s : State) (r : ℕ) (before : UInt64) : Prop where
  seq : before = sequenceOf (s.loaded r)
  le : s.loaded r ≤ s.published.length
  nonzero : before ≠ 0

/-- And it copied the first words of the value published then, unless another was stored. -/
structure Copied (s : State) (r : ℕ) (k : Copy) (i : ℕ) : Prop extends Began s r k.before where
  whole : s.Still (s.loaded r) → ∃ p, s.published[s.loaded r - 1]? = some p ∧
    k.size = p.bytes.length ∧ k.copied = p.bytes.take (i * 8)

/-- **What a `Read` that returned true delivers**: the size, the bytes and the sequence number of
one `Write`, the newest when its attempt loaded the counter. -/
structure Delivers (capacity : ℕ) (s : State) (r : ℕ) (v : Value) : Prop where
  size : v.bytes.length = v.size
  room : v.size ≤ capacity
  published : ⟨v.sequence, v.bytes⟩ ∈ s.published
  newest : s.published[s.loaded r - 1]? = some ⟨v.sequence, v.bytes⟩

/-- Fewer than `2 ^ 63` values were published while a `Read` copied. -/
def State.Unwrapped (s : State) (r : ℕ) : Prop := s.checked r < s.loaded r + 2 ^ 63

/-- What a `Read` knows where it stands. -/
def ReaderAt (capacity : ℕ) (s : State) (r : ℕ) : Reader → Prop
  | .idle | .load _ | .returned none => True
  | .size _ before => Began s r before
  | .word _ k i => Copied s r k i
  | .check _ k => Copied s r k (wordCount k.size)
  | .returned (some v) => s.Unwrapped r → Delivers capacity s r v

/-- What holds in every state of every run. -/
structure Sound (capacity : ℕ) (s : State) : Prop where
  stored : Stored capacity s
  readers : ∀ r, ReaderAt capacity s r (s.readers r)
  bounded : ∀ r, (s.readers r).Bounded capacity
  steps : ∀ r, s.steps r + (s.readers r).remaining (wordCount capacity) ≤ readBound capacity

/-! ## The writer -/

/-- The counter is even when the writer is quiet, and counts the values. -/
theorem Stored.seq_of_even {capacity : ℕ} {s : State} (h : Stored capacity s)
    (heven : odd s.shared.seq = false) :
    s.writer.quiet = true ∧ s.shared.seq = sequenceOf s.published.length := by
  have hat := h.writer
  have hnot : s.shared.seq ≠ sequenceOf s.published.length + 1 := by
    intro hseq
    rw [hseq, odd_sequenceOf_add_one] at heven
    cases heven
  cases hplace : s.writer <;> rw [hplace] at hat
  case idle => exact ⟨rfl, hat⟩
  case load => exact ⟨rfl, hat.2⟩
  case begin => exact ⟨rfl, hat.2.1⟩
  case size | word | publish => exact absurd hat.2.1 hnot

/-- What others do is later than where a `Read` stands: what was published stays, and what was
stored over stays so. -/
structure Later (s s' : State) (r : ℕ) : Prop where
  published : s.published <+: s'.published
  loaded : s'.loaded r = s.loaded r
  checked : s'.checked r = s.checked r
  still : ∀ n ≤ s.published.length, s'.Still n → s.Still n

/-- Nothing is stored and nothing is published. -/
theorem Later.of_eq {s s' : State} {r : ℕ} (hp : s'.published = s.published)
    (hq : s'.writer.quiet = true → s.writer.quiet = true) (hl : s'.loaded r = s.loaded r)
    (hc : s'.checked r = s.checked r) : Later s s' r := by
  refine ⟨hp ▸ List.prefix_refl _, hl, hc, ?_⟩
  rintro n - ⟨hn, hquiet⟩
  exact ⟨hp ▸ hn, hq hquiet⟩

/-- What is at an index stays there. -/
theorem Later.getElem? {s s' : State} {r i : ℕ} {p : Published} (h : Later s s' r)
    (hp : s.published[i]? = some p) : s'.published[i]? = some p := by
  obtain ⟨rest, hrest⟩ := h.published
  obtain ⟨hi, -⟩ := List.getElem?_eq_some_iff.mp hp
  rw [← hrest, List.getElem?_append_left hi, hp]

/-- What a read began with still holds later. -/
theorem Began.later {s s' : State} {r : ℕ} {before : UInt64} (h : Began s r before)
    (hl : Later s s' r) : Began s' r before := by
  refine ⟨?_, ?_, h.nonzero⟩
  · rw [hl.loaded]
    exact h.seq
  · rw [hl.loaded]
    exact h.le.trans hl.published.length_le

/-- What a read has copied was copied later too. -/
theorem Copied.later {s s' : State} {r i : ℕ} {k : Copy} (h : Copied s r k i)
    (hl : Later s s' r) : Copied s' r k i := by
  refine ⟨h.toBegan.later hl, fun hstill => ?_⟩
  rw [hl.loaded] at hstill ⊢
  obtain ⟨p, hp, hsize, hcopied⟩ := h.whole (hl.still _ h.le hstill)
  exact ⟨p, hl.getElem? hp, hsize, hcopied⟩

/-- What a `Read` knows it goes on to know.

**Proof sketch.** By the place: a copy that began stays one, and what a returned `Read` delivered
was published, which stays (`Later`). -/
theorem ReaderAt.later {capacity : ℕ} {s s' : State} {r : ℕ} {place : Reader}
    (h : ReaderAt capacity s r place) (hl : Later s s' r) : ReaderAt capacity s' r place := by
  cases place with
  | idle | load => trivial
  | size a before => exact Began.later h hl
  | word a k i => exact Copied.later h hl
  | check a k => exact Copied.later h hl
  | returned value =>
    cases value with
    | none => trivial
    | some v =>
      intro hnear
      have hdelivers := h (by
        rw [State.Unwrapped, hl.loaded, hl.checked] at hnear
        exact hnear)
      refine ⟨hdelivers.size, hdelivers.room, hl.published.subset hdelivers.published, ?_⟩
      rw [hl.loaded]
      exact hl.getElem? hdelivers.newest

/-- The loop of `Write` goes on or ends. -/
theorem writerAt_storing {capacity n i : ℕ} {shared : Shared} {data : Bytes} {seq : UInt64}
    (hroom : data.length ≤ capacity) (hodd : shared.seq = sequenceOf n + 1)
    (hseq : seq = sequenceOf n) (hi : i ≤ wordCount data.length) (hholds : shared.Holds data i) :
    WriterAt capacity n shared (.storing data seq i) ∧
      (Writer.storing data seq i).quiet = false := by
  unfold Writer.storing
  split
  · rename_i hlt
    exact ⟨⟨hroom, hodd, hseq, hlt, hholds⟩, rfl⟩
  · rename_i hnot
    obtain rfl : i = wordCount data.length := by omega
    exact ⟨⟨hroom, hodd, hseq, hholds⟩, rfl⟩

/-- One more word is stored. -/
theorem Shared.Holds.store {shared : Shared} {data : Bytes} {i : ℕ} (h : shared.Holds data i) :
    Shared.Holds { shared with words := Function.update shared.words i (wordAt data i) } data
      (i + 1) := by
  refine ⟨h.size, fun j hj => ?_⟩
  by_cases hne : j = i
  · subst hne
    exact Function.update_self _ _ _
  · exact (Function.update_of_ne hne _ _).trans (h.words j (by omega))

/-- A step of the writer that publishes nothing. -/
theorem Stored.of_place {capacity : ℕ} {s : State} (h : Stored capacity s) {shared : Shared}
    {place : Writer} (hat : WriterAt capacity s.published.length shared place)
    (hquiet : place.quiet = true → s.writer.quiet = true ∧ shared = s.shared) :
    Stored capacity { s with shared := shared, writer := place } := by
  refine ⟨hat, fun hq p hp => ?_, h.published⟩
  obtain ⟨hwas, hsame⟩ := hquiet hq
  show shared.Holds _ _
  rw [hsame]
  exact h.holds hwas p hp

/-- **A step of the writer** keeps what is stored, and is later.

**Proof sketch.** By the place of the writer. It makes the counter odd, stores the size and the
words one by one, and makes the counter even, where the record is published. Nothing that was
published is taken back, and what was stored over stays so. -/
theorem Stored.writerStep {capacity : ℕ} {s s' : State} (h : Stored capacity s)
    (hs : s.writerStep = some s') :
    Stored capacity s' ∧ s'.readers = s.readers ∧ s'.steps = s.steps ∧ ∀ r, Later s s' r := by
  have hat := h.writer
  unfold State.writerStep at hs
  cases hplace : s.writer with
  | idle =>
    rw [hplace] at hs
    cases hs
  | load data =>
    rw [hplace] at hs hat
    obtain rfl := Option.some.inj hs
    have hquiet : s.writer.quiet = true := by
      rw [hplace]
      rfl
    exact ⟨h.of_place ⟨hat.1, hat.2, hat.2⟩ fun _ => ⟨hquiet, rfl⟩, rfl, rfl,
      fun r => .of_eq rfl (fun _ => hquiet) rfl rfl⟩
  | begin data seq =>
    rw [hplace] at hs hat
    obtain rfl := Option.some.inj hs
    obtain ⟨hroom, -, hseq⟩ := hat
    refine ⟨h.of_place ⟨hroom, ?_, hseq⟩ (by simp [Writer.quiet]), rfl, rfl,
      fun r => .of_eq rfl (by simp [Writer.quiet]) rfl rfl⟩
    rw [hseq]
  | size data seq =>
    rw [hplace] at hs hat
    obtain rfl := Option.some.inj hs
    obtain ⟨hroom, hodd, hseq⟩ := hat
    have hholds : Shared.Holds { s.shared with size := data.length } data 0 :=
      ⟨rfl, fun j hj => by cases hj⟩
    obtain ⟨hstoring, hquiet⟩ : WriterAt capacity s.published.length
        { s.shared with size := data.length } (.storing data seq 0) ∧
          (Writer.storing data seq 0).quiet = false :=
      writerAt_storing hroom hodd hseq (Nat.zero_le _) hholds
    exact ⟨h.of_place hstoring (by simp [hquiet]), rfl, rfl,
      fun r => .of_eq rfl (by simp [hquiet]) rfl rfl⟩
  | word data seq i =>
    rw [hplace] at hs hat
    obtain rfl := Option.some.inj hs
    obtain ⟨hroom, hodd, hseq, hi, hholds⟩ := hat
    obtain ⟨hstoring, hquiet⟩ : WriterAt capacity s.published.length
        { s.shared with words := Function.update s.shared.words i (wordAt data i) }
        (.storing data seq (i + 1)) ∧ (Writer.storing data seq (i + 1)).quiet = false :=
      writerAt_storing hroom hodd hseq hi hholds.store
    exact ⟨h.of_place hstoring (by simp [hquiet]), rfl, rfl,
      fun r => .of_eq rfl (by simp [hquiet]) rfl rfl⟩
  | publish data seq =>
    rw [hplace] at hs hat
    obtain rfl := Option.some.inj hs
    obtain ⟨hroom, -, hseq, hholds⟩ := hat
    have hnext : seq + 2 = sequenceOf (s.published.length + 1) := by
      rw [hseq, sequenceOf_add_two]
    refine ⟨⟨?_, fun _ p hp => ?_, fun i p hp => ?_⟩, rfl, rfl, fun r => ?_⟩
    · show seq + 2 = sequenceOf (s.published ++ [_]).length
      rw [List.length_append]
      exact hnext
    · obtain rfl : (⟨seq + 2, data⟩ : Published) = p := by simpa using hp
      exact ⟨hholds.size, hholds.words⟩
    · rcases lt_or_ge i s.published.length with hlt | hge
      · rw [List.getElem?_append_left hlt] at hp
        exact h.published i p hp
      · rw [List.getElem?_append_right hge] at hp
        obtain ⟨hi, rfl⟩ := List.getElem?_eq_some_iff.mp hp
        have hzero : i = s.published.length := by
          simp only [List.length_singleton] at hi
          omega
        subst hzero
        simpa using ⟨hnext, hroom⟩
    · refine ⟨List.prefix_append _ _, rfl, rfl, ?_⟩
      rintro n hn ⟨hlen, -⟩
      simp only [List.length_append, List.length_singleton] at hlen
      omega

/-! ## The readers -/

/-- The counter that a copy began with is that of some value. -/
theorem Began.pos {s : State} {r : ℕ} {before : UInt64} (h : Began s r before) :
    0 < s.loaded r := by
  refine Nat.pos_of_ne_zero fun hzero => h.nonzero ?_
  rw [h.seq, hzero]
  rfl

/-- The value published when a copy began is in memory, while nothing is stored. -/
theorem Began.held {capacity : ℕ} {s : State} {r : ℕ} {before : UInt64} (h : Began s r before)
    (hs : Stored capacity s) (hstill : s.Still (s.loaded r)) :
    ∃ p, s.published[s.loaded r - 1]? = some p ∧
      s.shared.Holds p.bytes (wordCount p.bytes.length) := by
  obtain ⟨hn, hquiet⟩ := hstill
  have hpos := h.pos
  have hlt : s.loaded r - 1 < s.published.length := by omega
  refine ⟨_, List.getElem?_eq_getElem hlt, hs.holds hquiet _ ?_⟩
  rw [List.getLast?_eq_getElem?, ← hn]
  exact List.getElem?_eq_getElem hlt

/-- The loop of `Read` goes on or ends. -/
theorem readerAt_copying {capacity : ℕ} {s : State} {r i : ℕ} {k : Copy} (a : Attempt)
    (h : Copied s r k i) (hi : i ≤ wordCount k.size) :
    ReaderAt capacity s r (.copying a k i) := by
  unfold Reader.copying
  split
  · exact h
  · rename_i hnot
    obtain rfl : i = wordCount k.size := by omega
    exact h

/-- A retry knows nothing. -/
theorem readerAt_retry (capacity : ℕ) (s : State) (r : ℕ) (a : Attempt) :
    ReaderAt capacity s r (.retry a) := by
  unfold Reader.retry
  split <;> trivial

/-- After the counter is loaded.

**Proof sketch.** An even counter that is not zero begins a copy of the record published last; the
other counters begin nothing. -/
theorem readerAt_loaded {capacity : ℕ} {s : State} {r : ℕ} (hs : Stored capacity s)
    (hloaded : s.loaded r = s.published.length) (a : Attempt) :
    ReaderAt capacity s r (.loaded a s.shared.seq) := by
  unfold Reader.loaded
  split
  · trivial
  · split
    · trivial
    · rename_i hzero
      split
      · exact readerAt_retry _ _ _ _
      · rename_i hodd
        obtain ⟨-, hseq⟩ := hs.seq_of_even (Bool.eq_false_of_not_eq_true hodd)
        refine ⟨?_, hloaded.le, hzero⟩
        rw [hloaded]
        exact hseq

/-- After the size is loaded. -/
theorem Began.sized {capacity : ℕ} {s : State} {r : ℕ} {before : UInt64} (h : Began s r before)
    (hs : Stored capacity s) : Copied s r ⟨before, s.shared.size, []⟩ 0 := by
  refine ⟨h, fun hstill => ?_⟩
  obtain ⟨p, hp, hholds⟩ := h.held hs hstill
  exact ⟨p, hp, hholds.size, by simp⟩

/-- After a word is loaded. -/
theorem Copied.word {capacity : ℕ} {s : State} {r i : ℕ} {k : Copy} (h : Copied s r k i)
    (hs : Stored capacity s) (hi : i < wordCount k.size) :
    Copied s r { k with copied := k.copied ++ (s.shared.words i).take (wordSize k.size i) }
      (i + 1) := by
  refine ⟨h.toBegan, fun hstill => ?_⟩
  obtain ⟨p, hp, hsize, hcopied⟩ := h.whole hstill
  obtain ⟨p', hp', hholds⟩ := h.toBegan.held hs hstill
  obtain rfl : p = p' := Option.some.inj (hp.symm.trans hp')
  refine ⟨p, hp, hsize, ?_⟩
  show k.copied ++ (s.shared.words i).take (wordSize k.size i) = _
  rw [hcopied, hholds.words i (hsize ▸ hi), hsize]
  exact take_append_wordAt p.bytes i

/-- When the counter is as it was, nothing was stored.

**Proof sketch.** The counter is even and the same, so the number of published records is the same
modulo 2^63, and it cannot have come round. Nothing was stored then since the read loaded the
counter, so the words copied are of the record published last. -/
theorem Copied.delivers {capacity : ℕ} {s : State} {r : ℕ} {k : Copy}
    (h : Copied s r k (wordCount k.size)) (hs : Stored capacity s)
    (hseq : s.shared.seq = k.before) (hnear : s.published.length < s.loaded r + 2 ^ 63) :
    Delivers capacity s r ⟨k.size, k.copied, k.before⟩ := by
  have heven : odd s.shared.seq = false := by
    rw [hseq, h.seq]
    exact odd_sequenceOf _
  obtain ⟨hquiet, hcount⟩ := hs.seq_of_even heven
  have hsame : s.published.length = s.loaded r := by
    apply sequenceOf_inj h.le hnear
    rw [← hcount, hseq, h.seq]
  obtain ⟨p, hp, hsize, hcopied⟩ := h.whole ⟨hsame.symm, hquiet⟩
  obtain ⟨hsequence, hroom⟩ := hs.published _ _ hp
  have hbytes : k.copied = p.bytes := by
    rw [hcopied, hsize]
    exact take_wordCount p.bytes
  have hvalue : p = ⟨k.before, k.copied⟩ := by
    have hpos := h.toBegan.pos
    have hindex : s.loaded r - 1 + 1 = s.loaded r := by omega
    rw [hindex, ← h.seq] at hsequence
    rw [← hsequence, hbytes]
  rw [hvalue] at hp
  refine ⟨?_, hsize ▸ hroom, List.mem_of_getElem? hp, hp⟩
  show k.copied.length = k.size
  rw [hbytes, hsize]

/-- **A step of a `Read`** keeps what it knows.

**Proof sketch.** By the place: a load of an even counter starts a copy of nothing, each word copied
extends it, and a copy that ends with the counter as it was delivers (`Copied.delivers`). -/
theorem ReaderAt.next {capacity : ℕ} {s : State} {r : ℕ} {place : Reader}
    (h : ReaderAt capacity s r (s.readers r)) (hb : (s.readers r).Bounded capacity)
    (hs : Stored capacity s) (hn : (s.readers r).next capacity s.shared = some place) :
    ReaderAt capacity (s.goes r place) r place := by
  have hs' : Stored capacity (s.goes r place) := ⟨hs.writer, hs.holds, hs.published⟩
  cases hplace : s.readers r with
  | idle | returned =>
    rw [hplace] at hn
    cases hn
  | load a =>
    rw [hplace] at hn
    obtain rfl := Option.some.inj hn
    refine readerAt_loaded hs' ?_ a
    simp [State.goes, hplace]
  | size a before =>
    have hlater : Later s (s.goes r place) r :=
      .of_eq rfl (fun h => h) (by simp [State.goes, hplace]) (by simp [State.goes, hplace])
    rw [hplace] at hn h
    obtain rfl := Option.some.inj hn
    by_cases hsize : s.shared.size > capacity
    · rw [if_pos hsize]
      exact readerAt_retry _ _ _ _
    · simp only [if_neg hsize] at hlater ⊢
      exact readerAt_copying a ((h.sized hs).later hlater) (Nat.zero_le _)
  | word a k i =>
    have hlater : Later s (s.goes r place) r :=
      .of_eq rfl (fun h => h) (by simp [State.goes, hplace]) (by simp [State.goes, hplace])
    rw [hplace] at hn h hb
    obtain rfl := Option.some.inj hn
    have hi : i < wordCount k.size := hb.2.2
    exact readerAt_copying a ((Copied.word h hs hi).later hlater) hi
  | check a k =>
    have hcopied : Copied s r k (wordCount k.size) := by
      rw [hplace] at h
      exact h
    rw [hplace] at hn
    obtain rfl := Option.some.inj hn
    by_cases hseq : s.shared.seq = k.before
    · rw [if_pos hseq]
      intro hnear
      have hloaded : (s.goes r (.returned (some ⟨k.size, k.copied, k.before⟩))).loaded r =
          s.loaded r := by
        simp [State.goes, hplace]
      have hchecked : (s.goes r (.returned (some ⟨k.size, k.copied, k.before⟩))).checked r =
          s.published.length := by
        simp [State.goes, hplace]
      rw [State.Unwrapped, hloaded, hchecked] at hnear
      obtain ⟨hsize, hroom, hmem, hnewest⟩ := hcopied.delivers hs hseq hnear
      exact ⟨hsize, hroom, hmem, hloaded.symm ▸ hnewest⟩
    · rw [if_neg hseq]
      exact readerAt_retry _ _ _ _

/-- What a `Read` does is later than where another stands. -/
theorem later_goes {s : State} {r r' : ℕ} (place : Reader) (hne : r' ≠ r) :
    Later s (s.goes r place) r' := by
  refine .of_eq rfl (fun h => h) ?_ ?_ <;>
    · cases hplace : s.readers r <;> simp [State.goes, hplace, hne]

/-! ## The runs -/

namespace Sound

variable {capacity : ℕ} {s s' : State}

/-- The readers of a state that is later than one that is sound. -/
theorem of_later (h : Sound capacity s) (hs : Stored capacity s')
    (hreaders : s'.readers = s.readers) (hsteps : s'.steps = s.steps)
    (hl : ∀ r, Later s s' r) : Sound capacity s' := by
  refine ⟨hs, fun r => ?_, fun r => ?_, fun r => ?_⟩
  · rw [hreaders]
    exact (h.readers r).later (hl r)
  · rw [hreaders]
    exact h.bounded r
  · rw [hreaders, hsteps]
    exact h.steps r

/-- A `Write` begins, or has no room.

**Proof sketch.** A `Write` without room changes nothing. One with room is under way, with nothing
stored yet, which is later for every read. -/
theorem write (h : Sound capacity s) {data : Bytes}
    (hs : step capacity s (.write data) = some s') : Sound capacity s' := by
  simp only [step] at hs
  split at hs
  · rename_i hidle
    obtain rfl := Option.some.inj hs
    split
    · exact h
    · rename_i hroom
      have hquiet : s.writer.quiet = true := by
        rw [hidle]
        rfl
      have hat := h.stored.writer
      rw [hidle] at hat
      refine h.of_later (h.stored.of_place ⟨by omega, hat⟩ fun _ => ⟨hquiet, rfl⟩) rfl rfl ?_
      exact fun r => .of_eq rfl (fun _ => hquiet) rfl rfl
  · cases hs

/-- A `Read` begins.

**Proof sketch.** The read begins, so it knows of nothing and has all its tries; the writer and the
other reads are as they were. -/
theorem read (h : Sound capacity s) {r : ℕ} (hs : step capacity s (.read r) = some s') :
    Sound capacity s' := by
  simp only [step] at hs
  split at hs
  · cases hs
  · obtain rfl := Option.some.inj hs
    refine ⟨⟨h.stored.writer, h.stored.holds, h.stored.published⟩, fun r' => ?_, fun r' => ?_,
      fun r' => ?_⟩
    · by_cases hne : r' = r
      · subst hne
        simp only [Function.update_self]
        trivial
      · simp only [Function.update_of_ne hne]
        exact (h.readers r').later (.of_eq rfl (fun h => h) rfl rfl)
    · by_cases hne : r' = r
      · subst hne
        simp only [Function.update_self]
        exact Nat.zero_le _
      · simp only [Function.update_of_ne hne]
        exact h.bounded r'
    · by_cases hne : r' = r
      · subst hne
        simp only [Function.update_self, Reader.remaining, readBound, Nat.sub_zero]
        omega
      · simp only [Function.update_of_ne hne]
        exact h.steps r'

/-- A `Read` takes a step.

**Proof sketch.** The read's own step is `ReaderAt.next` and leaves it fewer steps
(`Reader.remaining_next`); the writer and the other reads are as they were. -/
theorem reader (h : Sound capacity s) {r : ℕ} (hs : step capacity s (.reader r) = some s') :
    Sound capacity s' := by
  obtain ⟨place, hn, rfl⟩ := Option.map_eq_some_iff.mp hs
  obtain ⟨hbounded, hfewer⟩ := Reader.remaining_next (h.bounded r) hn
  refine ⟨⟨h.stored.writer, h.stored.holds, h.stored.published⟩, fun r' => ?_, fun r' => ?_,
    fun r' => ?_⟩
  · by_cases hne : r' = r
    · subst hne
      rw [s.readers_goes_self]
      exact (h.readers r').next (h.bounded r') h.stored hn
    · rw [s.readers_goes_of_ne place hne]
      exact (h.readers r').later (later_goes place hne)
  · by_cases hne : r' = r
    · subst hne
      rw [s.readers_goes_self]
      exact hbounded
    · rw [s.readers_goes_of_ne place hne]
      exact h.bounded r'
  · by_cases hne : r' = r
    · subst hne
      have hsteps := h.steps r'
      rw [s.readers_goes_self, s.steps_goes_self]
      omega
    · rw [s.readers_goes_of_ne place hne, s.steps_goes_of_ne place hne]
      exact h.steps r'

/-- **Every step keeps it.** -/
theorem step (h : Sound capacity s) {a : Act} (hs : Handoff.step capacity s a = some s') :
    Sound capacity s' := by
  cases a with
  | write data => exact h.write hs
  | writer =>
    obtain ⟨hstored, hreaders, hsteps, hl⟩ := h.stored.writerStep hs
    exact h.of_later hstored hreaders hsteps hl
  | read r => exact h.read hs
  | reader r => exact h.reader hs

/-- Nothing is published and nothing is read at the start. -/
theorem start (capacity : ℕ) : Sound capacity {} := by
  refine ⟨⟨rfl, ?_, ?_⟩, fun r => trivial, fun r => trivial, fun r => Nat.zero_le _⟩
  · intro _ p hp
    cases hp
  · intro i p hp
    cases hp

end Sound

/-- Every state of every run is sound. -/
theorem sound_of_reachable {capacity : ℕ} {s : State} (h : (system capacity).Reachable s) :
    Sound capacity s := by
  refine h.invariant (I := Sound capacity) ?_ ?_
  · rintro s rfl
    exact Sound.start capacity
  · intro s a s' hs _ hstep
    exact hs.step hstep

/-- **A `Read` never gets a mixed value**: in every run of the writer and of the readers, a `Read`
that returns true delivers what one `Write` published, when fewer than `2 ^ 63` values were
published between its load of the counter and its check; a `Write` beyond the capacity changes
nothing; and a `Read` takes a bounded number of steps, of which it can always take the next.

**Proof sketch.** While nothing is stored after its load of the counter, a `Read` copies the words
of the newest value (`Copied.word`). What the writer stores cannot be undone (`Stored.writerStep`,
`Later`): the counter is odd until another value counts. So a check that finds the counter as it
was finds it even, and as far on as it was, since it takes `2 ^ 63` values to come round
(`sequenceOf_inj`). Every step of a `Read` leaves it fewer (`Reader.remaining_next`). -/
theorem never_mixed (capacity : ℕ) {s : State} (h : (system capacity).Reachable s) :
    (∀ r v, s.readers r = .returned (some v) → s.Unwrapped r → Delivers capacity s r v) ∧
      (∀ data, capacity < data.length → s.writer = .idle →
        step capacity s (.write data) = some s) ∧
      ∀ r, s.steps r ≤ readBound capacity ∧
        ((s.readers r).underWay = true →
          s.steps r < readBound capacity ∧ (step capacity s (.reader r)).isSome) := by
  have hs := sound_of_reachable h
  refine ⟨fun r v hplace hnear => ?_, fun data hdata hidle => ?_, fun r => ⟨?_, fun hway => ?_⟩⟩
  · have hat := hs.readers r
    rw [hplace] at hat
    exact hat hnear
  · simp only [step]
    rw [if_pos hidle, if_pos hdata]
  · have hsteps := hs.steps r
    omega
  · obtain ⟨hsome, hleft⟩ := Reader.isSome_next s.shared (hs.bounded r) hway
    have hsteps := hs.steps r
    refine ⟨by omega, ?_⟩
    simp only [step, Option.isSome_map]
    exact hsome

/-! ## Runs -/

/-- Eleven bytes, of which three are in the second word. -/
def eleven : Bytes := [1, 2, 3, 4, 5, 6, 7, 8, 9, 10, 11]

/-- A `Read` begins while they are written, waits, and copies them. -/
def readingRun : List Act :=
  [.write eleven, .writer, .writer, .read 0, .reader 0, .writer, .writer, .writer, .writer] ++
    List.replicate 5 (.reader 0)

/-- It delivers the eleven bytes; too many bytes change nothing; and it took six steps. -/
theorem never_mixed_readingRun : ∃ s, Runs.runOf (step 16) {} readingRun = some s ∧
    Delivers 16 s 0 ⟨11, eleven, 2⟩ ∧
    step 16 s (.write (List.replicate 17 0)) = some s ∧ s.steps 0 ≤ readBound 16 := by
  have hrun : (Runs.runOf (step 16) {} readingRun).any (fun s =>
      decide (s.readers 0 = .returned (some ⟨11, eleven, 2⟩) ∧ s.writer = .idle ∧
        s.checked 0 < s.loaded 0 + 2 ^ 63)) = true := by
    decide +kernel
  obtain ⟨s, hs, hfacts⟩ := (Option.any_eq_true _ _).mp hrun
  obtain ⟨hplace, hidle, hnear⟩ := of_decide_eq_true hfacts
  have hreach : (system 16).Reachable s := Runs.reachable_of_runOf rfl hs
  obtain ⟨hdelivers, hlarge, hends⟩ := never_mixed 16 hreach
  exact ⟨s, hs, hdelivers 0 _ hplace hnear, hlarge _ (by decide) hidle, (hends 0).1⟩

/-- Two words of one byte. -/
def filled (b : UInt8) : Bytes := List.replicate 16 b

/-- They are written. -/
def writeRun (b : UInt8) : List Act := .write (filled b) :: List.replicate 6 .writer

/-- The state after that. -/
def written (s : State) (b : UInt8) : State :=
  { s with
    shared := {
      seq := s.shared.seq + 2
      size := 16
      words := Function.update (Function.update s.shared.words 0 (wordAt (filled b) 0)) 1
        (wordAt (filled b) 1) }
    published := s.published ++ [⟨s.shared.seq + 2, filled b⟩] }

/-- An idle writer can write, and what it leaves is `written`. -/
theorem runOf_writeRun {s : State} (h : s.writer = .idle) (b : UInt8) :
    Runs.runOf (step 16) s (writeRun b) = some (written s b) := by
  have hlength : (filled b).length = 16 := rfl
  have hcount : wordCount 16 = 2 := rfl
  obtain ⟨shared, writer, readers, published, loaded, checked, steps⟩ := s
  obtain rfl : writer = .idle := h
  simp [writeRun, written, Runs.runOf, step, State.writerStep, Writer.storing, hlength, hcount,
    List.replicate_succ]

/-- A value is written over and over, while no `Read` takes a step. -/
theorem reachable_rewritten {s : State} (h : (system 16).Reachable s) (hidle : s.writer = .idle)
    (b : UInt8) (k : ℕ) : ∃ s', (system 16).Reachable s' ∧ s'.writer = .idle ∧
      s'.readers = s.readers ∧ s'.shared.seq = s.shared.seq + sequenceOf (k + 1) ∧
      s'.shared.words 1 = wordAt (filled b) 1 ∧
      ∀ p ∈ s'.published, p ∈ s.published ∨ p.bytes = filled b := by
  induction k with
  | zero =>
    refine ⟨written s b, h.runOf (runOf_writeRun hidle b), hidle, rfl, rfl, by simp [written],
      fun p hp => ?_⟩
    rcases List.mem_append.mp hp with hold | hnew
    · exact .inl hold
    · obtain rfl := List.mem_singleton.mp hnew
      exact .inr rfl
  | succ k ih =>
    obtain ⟨t, ht, hquiet, hreaders, hseq, -, hall⟩ := ih
    refine ⟨written t b, ht.runOf (runOf_writeRun hquiet b), hquiet, hreaders, ?_,
      by simp [written], fun p hp => ?_⟩
    · show t.shared.seq + 2 = _
      rw [hseq, UInt64.add_assoc, sequenceOf_add_two]
    · rcases List.mem_append.mp hp with hold | hnew
      · exact hall p hold
      · obtain rfl := List.mem_singleton.mp hnew
        exact .inr rfl

/-- A value is written, and a `Read` copies its first word. -/
def halfRun : List Act := writeRun 1 ++ [.read 0, .reader 0, .reader 0, .reader 0]

/-- **A `Read` may get a mixed value**: between its two words `2 ^ 63` values are written. -/
theorem not_never_mixed : ∃ s, (system 16).Reachable s ∧ ∃ v,
    s.readers 0 = .returned (some v) ∧ ∀ p ∈ s.published, p.bytes ≠ v.bytes := by
  have hrun : (Runs.runOf (step 16) {} halfRun).any (fun s =>
      decide (s.readers 0 = .word {} ⟨2, 16, List.replicate 8 1⟩ 1 ∧ s.writer = .idle ∧
        s.shared.seq = 2 ∧ s.published = [⟨2, filled 1⟩])) = true := by
    decide +kernel
  obtain ⟨s, hs, hfacts⟩ := (Option.any_eq_true _ _).mp hrun
  obtain ⟨hplace, hidle, hseq, hpublished⟩ := of_decide_eq_true hfacts
  obtain ⟨t, ht, -, hreaders, hcount, hword, hall⟩ :=
    reachable_rewritten (Runs.reachable_of_runOf rfl hs) hidle 2 (2 ^ 63 - 1)
  -- the counter came round
  have hround : t.shared.seq = 2 := by
    rw [hcount, hseq]
    rfl
  have hplace' : t.readers 0 = .word {} ⟨2, 16, List.replicate 8 1⟩ 1 := by
    rw [hreaders, hplace]
  let mixed : Bytes := List.replicate 8 1 ++ List.replicate 8 2
  let t₁ := t.goes 0 (.check {} ⟨2, 16, mixed⟩)
  have hcheck : step 16 t (.reader 0) = some t₁ := by
    simp only [step, hplace', Reader.next, hword]
    rfl
  have hplace₁ : t₁.readers 0 = .check {} ⟨2, 16, mixed⟩ := t.readers_goes_self 0 _
  let t₂ := t₁.goes 0 (.returned (some ⟨16, mixed, 2⟩))
  have hreturn : step 16 t₁ (.reader 0) = some t₂ := by
    have hsame : t₁.shared.seq = 2 := hround
    simp only [step, hplace₁, Reader.next, hsame]
    rfl
  refine ⟨t₂, .step (.step ht trivial hcheck) trivial hreturn, _, t₁.readers_goes_self 0 _, ?_⟩
  intro p hp
  rcases hall p hp with hold | hnew
  · rw [hpublished] at hold
    obtain rfl := List.mem_singleton.mp hold
    decide
  · rw [hnew]
    decide

end Handoff
