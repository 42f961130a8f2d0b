import ScorbitPlugin.Memory.Step
import ScorbitPlugin.Wire.Layouts

set_option relaxedAutoImplicit false
set_option autoImplicit false

/-!
# What a direct read reports

`Answer` of a ReadDirect in `src/MemoryBridge.cpp`: each chunk of 256 bytes is read twice, and the
reply holds the first reads up to the first chunk that was cut short. The read function may answer
anything at every call; which calls are made is seen by running the same loop over a function that
records them.

## Main definitions

* `Memory.Chunked` — a direct read by its chunks: what is asked for and what the two reads give.
* `Memory.readsOf` — the reads the loop makes, over a read function that records them.
* `Memory.Chunked.Reports` — what is claimed of an answer.

## Main results

* `Memory.reports_answer` — it holds of every answer to an admitted request.
-/

namespace Memory

open Codec

/-! ## The chunks -/

/-- A direct read: the read function, the calls made of it before, and the range. -/
structure Chunked where
  read : ReadFn
  calls : ℕ
  address : UInt32
  length : UInt32

namespace Chunked

variable (d : Chunked)

/-- The number of chunks. -/
def chunks : ℕ := (d.length.toNat + Wire.readChunkBytes - 1) / Wire.readChunkBytes

/-- What a chunk asks for. -/
def want (k : ℕ) : ℕ := min Wire.readChunkBytes (d.length.toNat - k * Wire.readChunkBytes)

/-- Where a chunk lies. -/
def at_ (k : ℕ) : UInt32 := d.address + UInt32.ofNat (k * Wire.readChunkBytes)

/-- The first read of a chunk. -/
def first (k : ℕ) : UInt32 × Bytes :=
  d.read.read (d.calls + 2 * k) (d.at_ k) (UInt32.ofNat (d.want k))

/-- The second read of a chunk. -/
def again (k : ℕ) : UInt32 × Bytes :=
  d.read.read (d.calls + 2 * k + 1) (d.at_ k) (UInt32.ofNat (d.want k))

/-- One of the two reads came back short. -/
def short (k : ℕ) : Bool :=
  decide ((d.first k).1.toNat < d.want k ∨ (d.again k).1.toNat < d.want k)

/-- What both reads got of a chunk. -/
def got (k : ℕ) : ℕ := min (min (d.first k).1.toNat (d.again k).1.toNat) (d.want k)

/-- The two reads differ, in length or in what is returned. -/
def differs (k : ℕ) : Prop :=
  (d.again k).1 ≠ (d.first k).1 ∨ (d.first k).2.take (d.got k) ≠ (d.again k).2.take (d.got k)

instance (k : ℕ) : Decidable (d.differs k) := inferInstanceAs (Decidable (_ ∨ _))

/-- The chunks that are read: up to the first that is cut short, and that one. -/
def reached : List ℕ :=
  (List.range d.chunks).take (((List.range d.chunks).takeWhile (!d.short ·)).length + 1)

end Chunked

/-! ## The reads -/

/-- A read function that records where it reads, and how much. -/
def recorded (read : ReadFn) (calls : ℕ) (address size : UInt32) :
    StateM (List (UInt32 × UInt32)) (UInt32 × Bytes) :=
  fun log => (read.read (calls + log.length) address size, log ++ [(address, size)])

/-- The reads `Answer` makes of a direct read. -/
def readsOf (d : Chunked) : List (UInt32 × UInt32) :=
  ((Request.readChunksM (recorded d.read d.calls) d.address d.length
    ((List.range d.chunks).map (· * Wire.readChunkBytes)) [] []).run []).2

/-- The recorded loop is the loop, and records a read where a chunk lies.

**Proof sketch.** By induction on the offsets. Each chunk is read twice at one place, which the log
has and the loop over the host's function counts; then both return, or both go on. -/
theorem run_readChunksM (read : ReadFn) (calls : ℕ) (address length : UInt32) (offsets : List ℕ)
    (log : List (UInt32 × UInt32)) (unstable : List UInt32) (bytes : Bytes) :
    ∃ unstable' bytes' log',
      (Request.readChunksM (recorded read calls) address length offsets unstable bytes).run log =
        ((unstable', bytes'), log') ∧
      Request.readChunks read address length offsets (calls + log.length) unstable bytes =
        (unstable', bytes', calls + log'.length) ∧
      ∀ q ∈ log', q ∈ log ∨ ∃ offset ∈ offsets, q =
        (address + UInt32.ofNat offset,
          UInt32.ofNat (min Wire.readChunkBytes (length.toNat - offset))) := by
  induction offsets generalizing log unstable bytes with
  | nil => exact ⟨unstable, bytes, log, rfl, rfl, fun q hq => .inl hq⟩
  | cons offset offsets ih =>
    let q : UInt32 × UInt32 := (address + UInt32.ofNat offset,
      UInt32.ofNat (min Wire.readChunkBytes (length.toNat - offset)))
    have hnew : ∀ q' ∈ log ++ [q] ++ [q], q' ∈ log ∨ ∃ offset' ∈ offset :: offsets, q' =
        (address + UInt32.ofNat offset',
          UInt32.ofNat (min Wire.readChunkBytes (length.toNat - offset'))) := by
      intro q' hq'
      simp only [List.append_assoc, List.mem_append, List.mem_singleton, or_self] at hq'
      rcases hq' with hq' | rfl
      · exact .inl hq'
      · exact .inr ⟨offset, List.mem_cons_self, rfl⟩
    have hlength : calls + (log ++ [q] ++ [q]).length = calls + log.length + 2 := by
      simp only [List.length_append, List.length_singleton]
      omega
    have hagain : calls + (log ++ [q]).length = calls + log.length + 1 := by
      simp only [List.length_append, List.length_singleton]
      omega
    simp only [Request.readChunksM, recorded, StateT.run, bind, StateT.bind, pure,
      Request.readChunks_cons]
    rw [hagain]
    generalize read.read (calls + log.length) (address + UInt32.ofNat offset)
      (UInt32.ofNat (min Wire.readChunkBytes (length.toNat - offset))) = first
    generalize read.read (calls + log.length + 1) (address + UInt32.ofNat offset)
      (UInt32.ofNat (min Wire.readChunkBytes (length.toNat - offset))) = again
    split
    · exact ⟨_, _, _, rfl, by rw [hlength], hnew⟩
    · split
      · exact ⟨_, _, _, rfl, by rw [hlength], hnew⟩
      · obtain ⟨unstable', bytes', log', hrun, hloop, hlog⟩ := ih (log ++ [q] ++ [q]) _ _
        rw [hlength] at hloop
        refine ⟨unstable', bytes', log', hrun, hloop, fun q' hq' => ?_⟩
        rcases hlog q' hq' with hold | ⟨offset', hoffset', heq⟩
        · exact hnew q' hold
        · exact .inr ⟨offset', List.mem_cons_of_mem _ hoffset', heq⟩

/-! ## The reply -/

namespace Chunked

variable (d : Chunked)

/-- The bytes returned of a chunk. -/
def bytesOf (k : ℕ) : Bytes := (d.first k).2.take (d.got k)

/-- The offset of a chunk. -/
def offsetOf (k : ℕ) : UInt32 := UInt32.ofNat (k * Wire.readChunkBytes)

/-- The chunk is returned, if only in part, and its two reads differ. -/
def unstable (k : ℕ) : Prop := d.got k ≠ 0 ∧ d.differs k

instance (k : ℕ) : Decidable (d.unstable k) := inferInstanceAs (Decidable (_ ∧ _))

variable {d}

/-- A chunk is short when not all of it was got. -/
theorem short_iff (k : ℕ) : d.short k = true ↔ d.got k < d.want k := by
  unfold short got
  rw [decide_eq_true_iff]
  omega

/-- A chunk of the range asks for something. -/
theorem want_pos {k : ℕ} (hk : k < d.chunks) : 0 < d.want k := by
  unfold chunks at hk
  unfold want
  simp only [Wire.readChunkBytes] at hk ⊢
  omega

/-- The loop reaches the chunks up to the first that is cut short.

**Proof sketch.** By induction on the number of chunks left. A chunk that is cut short is the last
one reached; one in full adds its bytes, and its offset where its reads differ, and the loop goes on
with the next. -/
theorem readChunks_reached (j n : ℕ) (hn : j + n = d.chunks) (unstable : List UInt32)
    (bytes : Bytes) :
    let reached := (List.range' j n).take
      (((List.range' j n).takeWhile (!d.short ·)).length + 1)
    let out := Request.readChunks d.read d.address d.length
      ((List.range' j n).map (· * Wire.readChunkBytes)) (d.calls + 2 * j) unstable bytes
    out.1 = unstable ++ (reached.filter fun k => d.unstable k).map offsetOf ∧
      out.2.1 = bytes ++ reached.flatMap d.bytesOf := by
  induction n generalizing j unstable bytes with
  | zero => simp [Request.readChunks_nil]
  | succ n ih =>
    have hpos : 0 < d.want j := want_pos (by omega)
    have hstep : Request.readChunks d.read d.address d.length
        ((List.range' j (n + 1)).map (· * Wire.readChunkBytes)) (d.calls + 2 * j) unstable bytes =
        if d.got j = 0 then (unstable, bytes, d.calls + 2 * j + 2)
        else
          let unstable' := if d.differs j then unstable ++ [offsetOf j] else unstable
          if d.got j < d.want j then (unstable', bytes ++ d.bytesOf j, d.calls + 2 * j + 2)
          else Request.readChunks d.read d.address d.length
            ((List.range' (j + 1) n).map (· * Wire.readChunkBytes)) (d.calls + 2 * (j + 1))
            unstable' (bytes ++ d.bytesOf j) :=
      Request.readChunks_cons _ _ _ _ _ _ _ _
    rw [hstep, List.range'_succ]
    by_cases hshort : d.got j < d.want j
    · -- this chunk is the last one reached
      have hreached : (j :: List.range' (j + 1) n).take
          (((j :: List.range' (j + 1) n).takeWhile (!d.short ·)).length + 1) = [j] := by
        rw [List.takeWhile_cons_of_neg (by simp [(short_iff j).mpr hshort])]
        rfl
      rw [hreached]
      by_cases hgot : d.got j = 0
      · have hnone : ¬ d.unstable j := fun h => h.1 hgot
        simp [hgot, hnone, bytesOf]
      · rw [if_neg hgot]
        dsimp only
        rw [if_pos hshort]
        by_cases hdiffers : d.differs j
        · have hunstable : d.unstable j := ⟨hgot, hdiffers⟩
          simp [hdiffers, hunstable]
        · have hunstable : ¬ d.unstable j := fun h => hdiffers h.2
          simp [hdiffers, hunstable]
    · have hgot : d.got j ≠ 0 := by
        have hle : d.got j ≤ d.want j := Nat.min_le_right _ _
        omega
      have hreached : (j :: List.range' (j + 1) n).take
          (((j :: List.range' (j + 1) n).takeWhile (!d.short ·)).length + 1) =
          j :: (List.range' (j + 1) n).take
            (((List.range' (j + 1) n).takeWhile (!d.short ·)).length + 1) := by
        have hnot : (!d.short j) = true := by
          simpa using mt (short_iff j).mp hshort
        rw [List.takeWhile_cons_of_pos (p := (!d.short ·)) hnot]
        rfl
      rw [hreached, if_neg hgot]
      dsimp only
      rw [if_neg hshort]
      obtain ⟨hunstable, hbytes⟩ := ih (j + 1) (by omega)
        (if d.differs j then unstable ++ [offsetOf j] else unstable) (bytes ++ d.bytesOf j)
      rw [hunstable, hbytes]
      refine ⟨?_, by simp⟩
      by_cases hdiffers : d.differs j
      · have hj : d.unstable j := ⟨hgot, hdiffers⟩
        simp [hdiffers, hj]
      · have hj : ¬ d.unstable j := fun h => hdiffers h.2
        simp [hdiffers, hj]

/-- What both reads got is no more than was asked for. -/
theorem got_le (k : ℕ) : d.got k ≤ d.want k := Nat.min_le_right _ _

/-- The first read of a chunk fills what was asked for. -/
theorem length_first (k : ℕ) : (d.first k).2.length = d.want k := by
  have hle : d.want k ≤ Wire.readChunkBytes := Nat.min_le_left _ _
  have hwant : (UInt32.ofNat (d.want k)).toNat = d.want k := by
    refine UInt32.toNat_ofNat_of_lt ?_
    simp only [Wire.readChunkBytes] at hle
    show d.want k < 2 ^ 32
    omega
  exact (d.read.fits _ _ _).trans hwant

/-- As much is returned of a chunk as both reads got. -/
theorem length_bytesOf (k : ℕ) : (d.bytesOf k).length = d.got k := by
  unfold bytesOf
  rw [List.length_take, length_first]
  exact Nat.min_eq_left (got_le k)

/-- A chunk that is not short was got as it was asked for. -/
theorem got_of_whole {k : ℕ} (h : d.short k = false) : d.got k = d.want k := by
  have hnot : ¬ d.got k < d.want k := by
    rw [← short_iff, h]
    exact Bool.false_ne_true
  have := d.got_le k
  omega

/-- It is returned as its first read. -/
theorem bytesOf_of_whole {k : ℕ} (h : d.short k = false) : d.bytesOf k = (d.first k).2 := by
  unfold bytesOf
  rw [got_of_whole h, ← length_first, List.take_length]

/-- The chunks before the first that is cut short. -/
def whole (d : Chunked) : ℕ := ((List.range d.chunks).takeWhile (!d.short ·)).length

/-- The chunks reached are the first ones. -/
theorem reached_eq : d.reached = List.range (min (d.whole + 1) d.chunks) := by
  unfold reached
  rw [List.take_range]
  rfl

/-- No chunk before the first that is cut short is short. -/
theorem short_of_lt {k : ℕ} (h : k < d.whole) : d.short k = false := by
  have hprefix := List.takeWhile_prefix (l := List.range d.chunks) (!d.short ·)
  have hmem : k ∈ (List.range d.chunks).takeWhile (!d.short ·) := by
    rw [List.prefix_iff_eq_take.mp hprefix, List.take_range, List.mem_range]
    have hle := hprefix.length_le
    rw [List.length_range] at hle
    unfold whole at h
    omega
  have hnot := List.all_eq_true.mp List.all_takeWhile k hmem
  simpa using hnot

/-- Whole chunks before the last are full. -/
theorem length_flatMap_bytesOf {k : ℕ} (hk : k < d.chunks) (hw : k ≤ d.whole) :
    ((List.range k).flatMap d.bytesOf).length = k * Wire.readChunkBytes := by
  induction k with
  | zero => simp
  | succ k ih =>
    have hfull : d.want k = Wire.readChunkBytes := by
      unfold chunks at hk
      unfold want
      simp only [Wire.readChunkBytes] at hk ⊢
      omega
    rw [List.range_succ, List.flatMap_append, List.length_append, ih (by omega) (by omega)]
    simp only [List.flatMap_cons, List.flatMap_nil, List.append_nil]
    rw [length_bytesOf, got_of_whole (short_of_lt (by omega)), hfull]
    ring

/-- The bytes of a chunk that is reached lie in the reply where the chunk lies in the range. -/
theorem le_length_of_reached {k : ℕ} (hk : k ∈ d.reached) :
    k * Wire.readChunkBytes + d.got k ≤ (d.reached.flatMap d.bytesOf).length := by
  rw [reached_eq] at hk ⊢
  have hlt := List.mem_range.mp hk
  obtain ⟨m, hm⟩ := Nat.exists_eq_add_of_le (show k + 1 ≤ min (d.whole + 1) d.chunks from hlt)
  have hbefore := length_flatMap_bytesOf (d := d) (k := k) (by omega) (by omega)
  rw [hm, List.range_add, List.range_succ, List.flatMap_append, List.flatMap_append]
  simp only [List.length_append, List.flatMap_cons, List.flatMap_nil, List.append_nil]
  rw [hbefore, length_bytesOf]
  omega

/-- No more is returned of the first chunks than they hold of the range. -/
theorem length_flatMap_le {k : ℕ} (hk : k ≤ d.chunks) :
    ((List.range k).flatMap d.bytesOf).length ≤ min (k * Wire.readChunkBytes) d.length.toNat := by
  induction k with
  | zero => simp
  | succ k ih =>
    have ih := ih (by omega)
    have hgot := d.got_le k
    rw [List.range_succ, List.flatMap_append, List.length_append]
    simp only [List.flatMap_cons, List.flatMap_nil, List.append_nil, length_bytesOf]
    unfold want chunks at *
    simp only [Wire.readChunkBytes] at *
    omega

/-- No more is returned than was asked for. -/
theorem length_reached : (d.reached.flatMap d.bytesOf).length ≤ d.length.toNat := by
  rw [reached_eq]
  exact (length_flatMap_le (Nat.min_le_right _ _)).trans (Nat.min_le_right _ _)

/-- A chunk that is reached begins in the range. -/
theorem offset_lt {k : ℕ} (hk : k < d.chunks) : k * Wire.readChunkBytes < d.length.toNat := by
  unfold chunks at hk
  simp only [Wire.readChunkBytes] at hk ⊢
  omega

/-- The chunks reached are chunks of the range. -/
theorem lt_of_reached {k : ℕ} (hk : k ∈ d.reached) : k < d.chunks := by
  rw [reached_eq] at hk
  exact lt_of_lt_of_le (List.mem_range.mp hk) (Nat.min_le_right _ _)

/-- The offset of a chunk fits 32 bits. -/
theorem toNat_offsetOf {k : ℕ} (hk : k < d.chunks) :
    (offsetOf k).toNat = k * Wire.readChunkBytes :=
  UInt32.toNat_ofNat_of_lt ((offset_lt hk).trans d.length.toNat_lt)

/-! ## Main result -/

/-- What is claimed of the answer to a direct read while a game runs. -/
structure Reports (d : Chunked) (a : Answered) : Prop where
  /-- Every read lies in the range. -/
  within : ∀ q ∈ readsOf d,
    d.address ≤ q.1 ∧ q.1.toNat + q.2.toNat ≤ d.address.toNat + d.length.toNat
  counted : a.calls = d.calls + (readsOf d).length
  /-- The bytes are those of the chunks up to the first that is cut short, and there as many as the
  shorter read got; of the others, the first read. -/
  bytes : a.request.reply.bytes = d.reached.flatMap d.bytesOf
  whole : ∀ k ∈ d.reached, d.short k = false → d.bytesOf k = (d.first k).2
  /-- The unstable offsets are those of the returned chunks whose reads differ. -/
  unstable : a.request.reply.unstableOffsets =
    (d.reached.filter fun k => d.unstable k).map offsetOf
  ascending : a.request.reply.unstableOffsets.Pairwise (· < ·)
  offsets : ∀ o ∈ a.request.reply.unstableOffsets,
    o.toNat % Wire.readChunkBytes = 0 ∧ o.toNat < a.request.reply.bytes.length
  result : a.request.result = if d.got 0 = 0 then .outOfRange else .ok
  encodes : a.request.reply.encode ≠ []

/-- The reads lie in a range that does not wrap.

**Proof sketch.** Each read is where a chunk lies, so from an offset below the length and no further
than it; the address does not wrap, so the sum of both is that of the numbers. -/
theorem within_readsOf (hwraps : wraps d.address d.length = false) : ∀ q ∈ readsOf d,
    d.address ≤ q.1 ∧ q.1.toNat + q.2.toNat ≤ d.address.toNat + d.length.toNat := by
  intro q hq
  obtain ⟨_, _, log, hrun, -, hlog⟩ := run_readChunksM d.read d.calls d.address d.length
    ((List.range d.chunks).map (· * Wire.readChunkBytes)) [] [] []
  unfold readsOf at hq
  rw [hrun] at hq
  rcases hlog q hq with hnone | ⟨offset, hoffset, rfl⟩
  · cases hnone
  · obtain ⟨k, hk, rfl⟩ := List.mem_map.mp hoffset
    have hlt := offset_lt (List.mem_range.mp hk)
    have hfits : d.address.toNat + d.length.toNat ≤ 2 ^ 32 := by
      simpa [wraps] using hwraps
    have hoffset : (UInt32.ofNat (k * Wire.readChunkBytes)).toNat = k * Wire.readChunkBytes :=
      toNat_offsetOf (List.mem_range.mp hk)
    have hat : (d.address + UInt32.ofNat (k * Wire.readChunkBytes)).toNat =
        d.address.toNat + k * Wire.readChunkBytes := by
      rw [UInt32.toNat_add, hoffset]
      exact Nat.mod_eq_of_lt (by omega)
    have hsize : (UInt32.ofNat (min Wire.readChunkBytes
        (d.length.toNat - k * Wire.readChunkBytes))).toNat =
        min Wire.readChunkBytes (d.length.toNat - k * Wire.readChunkBytes) := by
      have := d.length.toNat_lt
      exact UInt32.toNat_ofNat_of_lt (show _ < 2 ^ 32 by omega)
    refine ⟨UInt32.le_iff_toNat_le.mpr ?_, ?_⟩
    · rw [hat]
      omega
    · rw [hat, hsize]
      omega

/-- The loop of `Answer`, and the reads it makes. -/
theorem readChunks_eq (d : Chunked) :
    Request.readChunks d.read d.address d.length
      ((List.range d.chunks).map (· * Wire.readChunkBytes)) d.calls [] [] =
    ((d.reached.filter fun k => d.unstable k).map offsetOf, d.reached.flatMap d.bytesOf,
      d.calls + (readsOf d).length) := by
  have hreached := readChunks_reached (d := d) 0 d.chunks (Nat.zero_add _) [] []
  obtain ⟨unstable, bytes, log, hrun, hloop, -⟩ := run_readChunksM d.read d.calls d.address d.length
    ((List.range d.chunks).map (· * Wire.readChunkBytes)) [] [] []
  rw [← List.range_eq_range'] at hreached
  have hlog : log = readsOf d := by
    unfold readsOf
    rw [hrun]
  subst hlog
  have hloop : Request.readChunks d.read d.address d.length
      ((List.range d.chunks).map (· * Wire.readChunkBytes)) d.calls [] [] =
      (unstable, bytes, d.calls + (readsOf d).length) := hloop
  obtain ⟨hunstable, hbytes⟩ := hreached
  rw [show d.calls + 2 * 0 = d.calls from rfl, hloop] at hunstable hbytes
  rw [hloop]
  exact Prod.ext (hunstable.trans (List.nil_append _))
    (Prod.ext (hbytes.trans (List.nil_append _)) rfl)

/-- Nothing is returned exactly when the first chunk gave nothing.

**Proof sketch.** The first chunk is reached. If it gave nothing it is cut short, and the last one;
if it gave something, that is part of what is returned. -/
theorem bytes_eq_nil_iff (hlength : d.length ≠ 0) :
    d.reached.flatMap d.bytesOf = [] ↔ d.got 0 = 0 := by
  have hpos : 0 < d.length.toNat := by
    refine Nat.pos_of_ne_zero fun hzero => hlength ?_
    exact UInt32.toNat_inj.mp hzero
  have hchunks : 0 < d.chunks := by
    unfold chunks
    simp only [Wire.readChunkBytes]
    omega
  have hreached : 0 ∈ d.reached := by
    rw [reached_eq, List.mem_range]
    omega
  constructor
  · intro hnil
    have hle := le_length_of_reached hreached
    rw [hnil] at hle
    simpa using hle
  · intro hgot
    have hwhole : d.whole = 0 := by
      by_contra hne
      have := got_of_whole (short_of_lt (Nat.pos_of_ne_zero hne))
      have := want_pos hchunks
      omega
    have hone : min (d.whole + 1) d.chunks = 1 := by omega
    rw [reached_eq, hone]
    refine List.eq_nil_of_length_eq_zero ?_
    simp [List.range_one, length_bytesOf, hgot]

/-- The offsets of the chunks reached ascend. -/
theorem ascending_offsets :
    ((d.reached.filter fun k => d.unstable k).map offsetOf).Pairwise (· < ·) := by
  have hascending : (d.reached.filter fun k => d.unstable k).Pairwise (· < ·) := by
    rw [reached_eq]
    exact List.pairwise_lt_range.filter _
  refine List.pairwise_map.mpr (hascending.imp_of_mem fun {k k'} hk hk' hlt => ?_)
  have hk := lt_of_reached (List.mem_of_mem_filter hk)
  have hk' := lt_of_reached (List.mem_of_mem_filter hk')
  rw [UInt32.lt_iff_toNat_lt, toNat_offsetOf hk, toNat_offsetOf hk']
  exact Nat.mul_lt_mul_of_pos_right hlt (by decide)

/-- Each is one of a chunk whose bytes are in the reply. -/
theorem offset_lt_length : ∀ o ∈ (d.reached.filter fun k => d.unstable k).map offsetOf,
    o.toNat % Wire.readChunkBytes = 0 ∧ o.toNat < (d.reached.flatMap d.bytesOf).length := by
  intro o ho
  obtain ⟨k, hk, rfl⟩ := List.mem_map.mp ho
  obtain ⟨hreached, hunstable⟩ := List.mem_filter.mp hk
  have hgot : d.got k ≠ 0 := (of_decide_eq_true hunstable).1
  have hle := le_length_of_reached hreached
  rw [toNat_offsetOf (lt_of_reached hreached)]
  exact ⟨Nat.mul_mod_left _ _, by omega⟩

/-- A direct read's reply is encoded. -/
theorem encode_reply (hlength : d.length.toNat ≤ Wire.maxReadDirectBytes) (frame : UInt64) :
    (Wire.ReadDirectReply.encode ⟨frame, d.address,
      (d.reached.filter fun k => d.unstable k).map offsetOf,
      d.reached.flatMap d.bytesOf⟩) ≠ [] := by
  have hchunks : d.chunks ≤ 256 := by
    unfold chunks
    simp only [Wire.readChunkBytes, Wire.maxReadDirectBytes] at hlength ⊢
    omega
  have hunstable : ((d.reached.filter fun k => d.unstable k).map offsetOf).length ≤ 256 := by
    rw [List.length_map]
    refine (List.length_filter_le _ _).trans ?_
    rw [reached_eq, List.length_range]
    omega
  have hbytes := d.length_reached
  have hmax : 18 + 4 * 256 + Wire.maxReadDirectBytes ≤ Wire.maxPayloadBytes := by decide
  rw [ne_eq, Wire.ReadDirectReply.coding.encode_eq_nil_iff, not_not]
  refine ⟨?_, ?_⟩
  · unfold Wire.ReadDirectReply.fits
    dsimp only
    omega
  · unfold Wire.ReadDirectReply.size
    dsimp only
    omega

end Chunked

/-- The direct read of a request. -/
def Request.chunked (r : Request) (s : Service) (calls : ℕ) : Chunked :=
  ⟨s.read, calls, r.address, r.length⟩

/-- **A direct read reports exactly what it could read**: without a game nothing, and otherwise the
first reads of the consecutive chunks up to the first that was cut short, with the offsets of those
whose two reads differ.

**Proof sketch.** The loop goes through the chunks up to the first that is short, by induction on
what is left of them; all before it are full, so a chunk's bytes lie in the reply where the chunk
lies in the range. The same loop over a recording function shows where it reads. -/
theorem reports_answer {r : Request} (hkind : r.kind = .readDirect)
    (hadmitted : checkReadDirect r.address r.length = none) (s : Service) (space calls : ℕ) :
    (s.gameRunning = false → (r.answer s space calls).request.result = .noGame ∧
      (r.answer s space calls).calls = calls) ∧
    (s.gameRunning = true → (r.chunked s calls).Reports (r.answer s space calls)) := by
  have hanswer : r.answer s space calls = r.answerReadDirect s calls := by
    unfold Request.answer
    rw [hkind]
  rw [hanswer]
  constructor
  · intro hidle
    simp [Request.answerReadDirect, hidle]
  · intro hrunning
    unfold checkReadDirect at hadmitted
    split at hadmitted
    · cases hadmitted
    · rename_i hlarge
      split at hadmitted
      · cases hadmitted
      · rename_i hrange
        have hlength : r.length.toNat ≤ Wire.maxReadDirectBytes := by omega
        have hzero : r.length ≠ 0 := fun h => hrange (.inl h)
        have hwraps : wraps r.address r.length = false :=
          Bool.eq_false_iff.mpr fun h => hrange (.inr h)
        have hloop : Request.readChunks s.read r.address r.length
            ((List.range ((r.length.toNat + Wire.readChunkBytes - 1) / Wire.readChunkBytes)).map
              (· * Wire.readChunkBytes)) calls [] [] = _ := (r.chunked s calls).readChunks_eq
        have hbytes := (r.chunked s calls).bytes_eq_nil_iff hzero
        unfold Request.answerReadDirect
        simp only [hrunning, Bool.not_true, Bool.false_eq_true, if_false]
        rw [hloop]
        exact
          { within := (r.chunked s calls).within_readsOf hwraps
            counted := rfl
            bytes := rfl
            whole := fun _ _ h => Chunked.bytesOf_of_whole h
            unstable := rfl
            ascending := Chunked.ascending_offsets
            offsets := Chunked.offset_lt_length
            result := if_congr hbytes rfl rfl
            encodes := (r.chunked s calls).encode_reply hlength s.frame }

/-- A host whose memory changes at every call, and beyond address 0 is read in tens. -/
def changingRead : ReadFn :=
  .filled (fun _ address size => if address = 0 then size else 10) fun calls => UInt8.ofNat calls

/-- Of 300 bytes the first chunk and ten more are returned, both unstable. -/
theorem reports_answer_changingRead :
    let r : Request := { kind := .readDirect, length := 300 }
    let s : Service := { read := changingRead, gameRunning := true }
    (r.answer s 0 0).request.reply.unstableOffsets = [0, 256] ∧
      (r.answer s 0 0).request.reply.bytes.length = 266 ∧
      (r.chunked s 0).Reports (r.answer s 0 0) :=
  ⟨by decide +kernel, by decide +kernel,
    (reports_answer rfl (by decide) { read := changingRead, gameRunning := true } 0 0).2 rfl⟩

end Memory
