import Mathlib.Data.List.Basic

set_option relaxedAutoImplicit false
set_option autoImplicit false

/-!
# Reading from a stream that arrives in chunks

A stream is the list of the chunks it arrives in. A receive gives at most what it asks for and
never more than one chunk; an empty receive is the end, whether nothing more comes or an empty
chunk says so. A reader that needs a number of values accumulates receives.

## Main definitions

* `Codec.Stream.recv` — one receive.
* `Codec.Stream.readExact` — receives until there are `size` values or the stream ends.

## Main results

* `Codec.Stream.of_readExact` — what a completed read took, and what it left.
* `Codec.Stream.complete_readExact` — a stream without empty chunks completes every read it is
  long enough for, however it is cut.
-/

namespace Codec.Stream

variable {α : Type*}

/-- A receive of at most `size` values: what it gives, and what is left. -/
def recv (size : ℕ) : List (List α) → List α × List (List α)
  | [] => ([], [])
  | chunk :: rest =>
    if size < chunk.length then (chunk.take size, chunk.drop size :: rest) else (chunk, rest)

/-- What a read comes to: whether it was completed, the values it got, and what is left. -/
structure Received (α : Type*) where
  complete : Bool
  got : List α
  left : List (List α)

/-- A receive takes what it gives off the front. -/
theorem flatten_recv (size : ℕ) (chunks : List (List α)) :
    chunks.flatten = (recv size chunks).1 ++ (recv size chunks).2.flatten := by
  unfold recv
  split
  · rfl
  · rename_i chunk rest
    split
    · rw [List.flatten_cons, List.flatten_cons, ← List.append_assoc, List.take_append_drop]
    · rw [List.flatten_cons]

/-- A receive gives at most what it asks for. -/
theorem length_recv_le (size : ℕ) (chunks : List (List α)) :
    (recv size chunks).1.length ≤ size := by
  unfold recv
  split
  · exact Nat.zero_le _
  · split
    · exact List.length_take_le _ _
    · rename_i hle
      exact Nat.le_of_not_lt hle

/-- Receives, from the values got so far, until there are `size` of them or a receive is empty. -/
def readExact (size : ℕ) (got : List α) (chunks : List (List α)) : Received α :=
  if got.length < size then
    if (recv (size - got.length) chunks).1.length = 0 then
      ⟨false, got, (recv (size - got.length) chunks).2⟩
    else
      readExact size (got ++ (recv (size - got.length) chunks).1)
        (recv (size - got.length) chunks).2
  else ⟨true, got, chunks⟩
termination_by size - got.length
decreasing_by
  rw [List.length_append]
  omega

/-- A completed read took exactly the values it needed off the front.

**Proof sketch.** By the recursion of the read: each round takes from the front what it adds to the
buffer, and the last takes nothing. -/
theorem of_readExact {size : ℕ} {got : List α} {chunks : List (List α)}
    (hgot : got.length ≤ size) (h : (readExact size got chunks).complete = true) :
    ∃ more, more.length = size - got.length ∧ (readExact size got chunks).got = got ++ more ∧
      chunks.flatten = more ++ (readExact size got chunks).left.flatten := by
  fun_induction readExact size got chunks with
  | case1 got chunks hlt hempty => cases h
  | case2 got chunks hlt hsome ih =>
    have hle := length_recv_le (size - got.length) chunks
    obtain ⟨more, hlen, heq, hflat⟩ :=
      ih (by rw [List.length_append]; omega) h
    refine ⟨(recv (size - got.length) chunks).1 ++ more, ?_, ?_, ?_⟩
    · rw [List.length_append] at hlen ⊢
      omega
    · rw [heq, List.append_assoc]
    · rw [List.append_assoc, ← hflat, ← flatten_recv]
  | case3 got chunks hlt => exact ⟨[], by simp; omega, by simp, rfl⟩

/-- A receive leaves no empty chunk where there was none. -/
theorem recv_ne_nil {size : ℕ} {chunks : List (List α)} (h : ∀ chunk ∈ chunks, chunk ≠ []) :
    ∀ chunk ∈ (recv size chunks).2, chunk ≠ [] := by
  unfold recv
  split
  · simp
  · rename_i first rest
    split
    · rename_i hlt
      intro chunk hchunk
      rcases List.mem_cons.mp hchunk with rfl | hchunk
      · exact List.ne_nil_of_length_pos (by rw [List.length_drop]; omega)
      · exact h chunk (List.mem_cons_of_mem _ hchunk)
    · exact fun chunk hchunk => h chunk (List.mem_cons_of_mem _ hchunk)

/-- Without empty chunks an empty receive is the end of the stream. -/
theorem flatten_eq_nil_of_recv {size : ℕ} {chunks : List (List α)} (hsize : 0 < size)
    (h : ∀ chunk ∈ chunks, chunk ≠ []) (hempty : (recv size chunks).1.length = 0) :
    chunks.flatten = [] ∧ (recv size chunks).2 = [] := by
  cases chunks with
  | nil => exact ⟨rfl, rfl⟩
  | cons chunk rest =>
    exfalso
    have hpos := List.length_pos_iff.mpr (h chunk List.mem_cons_self)
    rw [recv] at hempty
    split at hempty
    · rw [List.length_take] at hempty
      omega
    · exact Nat.ne_of_gt hpos hempty

/-- **A read completes however the stream is cut**, exactly if the stream is long enough; it
leaves no empty chunk, and nothing of a stream that is too short.

**Proof sketch.** By the recursion of the read. A round that gets nothing has an empty stream before
it, since no chunk is empty; one that gets something leaves as much less to be read as the stream is
shorter. -/
theorem complete_readExact {size : ℕ} {got : List α} {chunks : List (List α)}
    (hgot : got.length ≤ size) (h : ∀ chunk ∈ chunks, chunk ≠ []) :
    ((readExact size got chunks).complete = true ↔
        size ≤ got.length + chunks.flatten.length) ∧
      (∀ chunk ∈ (readExact size got chunks).left, chunk ≠ []) ∧
      ((readExact size got chunks).complete = false →
        (readExact size got chunks).left = []) := by
  fun_induction readExact size got chunks with
  | case1 got chunks hlt hempty =>
    obtain ⟨hflat, hleft⟩ := flatten_eq_nil_of_recv (by omega) h hempty
    refine ⟨⟨by simp, fun hle => ?_⟩, by simp [hleft], fun _ => hleft⟩
    rw [hflat, List.length_nil] at hle
    omega
  | case2 got chunks hlt hsome ih =>
    have hle := length_recv_le (size - got.length) chunks
    obtain ⟨hiff, hrest⟩ := ih (by rw [List.length_append]; omega) (recv_ne_nil h)
    refine ⟨hiff.trans ?_, hrest⟩
    rw [flatten_recv (size - got.length) chunks, List.length_append, List.length_append]
    omega
  | case3 got chunks hlt => exact ⟨by simp; omega, h, by simp⟩

end Codec.Stream
