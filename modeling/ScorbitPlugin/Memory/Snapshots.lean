import ScorbitPlugin.Memory.Requests

set_option relaxedAutoImplicit false
set_option autoImplicit false

/-!
# Snapshots are read back

What `TakeSnapshot` reads in full is what the host's function returned for each range in order,
and `Poll` takes exactly that out of the buffer `PublishSnapshot` filled.

## Main definitions

* `Memory.ReadInFull` — blocks that are the full reads of ranges.

## Main results

* `Memory.readInFull_takeSnapshot` — what a complete snapshot holds.
* `Memory.poll_publishSnapshot` — and what a `Poll` finds in it.
-/

namespace Memory

open Codec

/-- The blocks are what the read function returned for the ranges in order, the first read being
its call number `calls`, each in full. -/
def ReadInFull (read : ReadFn) : ℕ → List Wire.MemoryRange → List Wire.MemoryBlock → Prop
  | _, [], [] => True
  | calls, range :: ranges, block :: blocks =>
    read.read calls range.address range.length = (range.length, block.bytes) ∧
      block.address = range.address ∧ ReadInFull read (calls + 1) ranges blocks
  | _, _, _ => False

/-- The blocks of full reads have the ranges' addresses and lengths, in order.

**Proof sketch.** By induction on the ranges: a full read has as many bytes as were asked for. -/
theorem ReadInFull.map_eq {read : ReadFn} {calls : ℕ} {ranges : List Wire.MemoryRange}
    {blocks : List Wire.MemoryBlock} (h : ReadInFull read calls ranges blocks) :
    blocks.map (fun block => (block.address, block.bytes.length)) =
      ranges.map (fun range => (range.address, range.length.toNat)) := by
  induction ranges generalizing calls blocks with
  | nil =>
    cases blocks with
    | nil => rfl
    | cons => exact h.elim
  | cons range ranges ih =>
    cases blocks with
    | nil => exact h.elim
    | cons block blocks =>
      obtain ⟨hread, haddr, hrest⟩ := h
      have hlen := read.fits calls range.address range.length
      rw [hread] at hlen
      rw [List.map_cons, List.map_cons, ih hrest, haddr, hlen]

/-- Resizing gives the count asked for. -/
theorem length_resized (blocks : List Wire.MemoryBlock) (count : ℕ) :
    (resized blocks count).length = count := by
  simp only [resized, List.length_append, List.length_take, List.length_replicate]
  omega

/-- Blocks filled to the end are full reads.

**Proof sketch.** By induction on the ranges: the loop goes on only behind a full read. -/
theorem readInFull_fillBlocks (read : ReadFn) (ranges : List Wire.MemoryRange) (calls : ℕ)
    (blocks : List Wire.MemoryBlock) (hlen : blocks.length = ranges.length)
    (h : (fillBlocks read calls ranges blocks).2 = true) :
    ReadInFull read calls ranges (fillBlocks read calls ranges blocks).1 := by
  induction ranges generalizing calls blocks with
  | nil =>
    obtain rfl := List.length_eq_zero_iff.mp hlen
    trivial
  | cons range ranges ih =>
    cases blocks with
    | nil => simp at hlen
    | cons block blocks =>
      have hlen : blocks.length = ranges.length := by simpa using hlen
      simp only [fillBlocks] at h ⊢
      split at h
      · cases h
      · rename_i hread
        rw [if_neg hread]
        exact ⟨Prod.ext (not_not.mp hread) rfl, rfl, ih (calls + 1) blocks hlen h⟩

/-- **A complete snapshot is a full read of every range**, while a game ran. -/
theorem readInFull_takeSnapshot {next : Wire.PollReply} {s : Service}
    {ranges : List Wire.MemoryRange} {calls : ℕ} (h : (takeSnapshot next s ranges calls).2 = true) :
    s.gameRunning = true ∧
      ReadInFull s.read calls ranges (takeSnapshot next s ranges calls).1.blocks := by
  unfold takeSnapshot at h ⊢
  dsimp only at h ⊢
  split at h
  · cases h
  · rename_i hc
    rw [if_neg hc]
    refine ⟨by cases hg : s.gameRunning <;> simp [hg] at hc ⊢, ?_⟩
    exact readInFull_fillBlocks s.read ranges calls _ (length_resized _ _) h

/-- The bytes of the blocks are taken apart by their lengths. -/
theorem takeBlocks_headOf (blocks : List Wire.MemoryBlock)
    (h : ∀ block ∈ blocks, block.bytes.length < 2 ^ 32) :
    takeBlocks (blocks.map headOf) (blocks.flatMap Wire.MemoryBlock.bytes) = some blocks := by
  induction blocks with
  | nil => rfl
  | cons block blocks ih =>
    have hlen : (headOf block).2.toNat = block.bytes.length :=
      UInt32.toNat_ofNat_of_lt (h block List.mem_cons_self)
    have ih := ih fun b hb => h b (List.mem_cons_of_mem _ hb)
    rw [List.map_cons, takeBlocks, hlen, List.flatMap_cons, if_neg (by simp), List.drop_left, ih,
      List.take_left]
    rfl

/-- Any head can be published. -/
theorem valid_blockHead (head : UInt32 × UInt32) : blockHead.valid head :=
  ⟨⟨head.1.toNat_lt, UInt32.ofNat_toNat⟩, ⟨head.2.toNat_lt, UInt32.ofNat_toNat⟩⟩

/-- A head takes eight bytes. -/
theorem length_put_blockHead (head : UInt32 × UInt32) : (blockHead.put head).length = 8 := rfl

/-- A `Poll` takes a buffer that fits apart into the blocks it was filled with. -/
theorem Snapshot.poll_eq {snapshot : Snapshot} (blocks : List Wire.MemoryBlock)
    (hcount : snapshot.header.blocks = UInt32.ofNat blocks.length)
    (hbody : snapshot.body = blocks.flatMap (fun block => blockHead.put (headOf block))
      ++ blocks.flatMap Wire.MemoryBlock.bytes)
    (hfits : snapshotHeaderBytes + snapshot.body.length ≤ snapshotBytes) (id : ℕ) :
    snapshot.poll id =
      if !snapshot.header.complete || snapshot.header.rangesId != id then none
      else some
        { frame := snapshot.header.frame, playerRunning := snapshot.header.playerRunning
          blocks := blocks } := by
  have hheads : (blocks.flatMap fun block => blockHead.put (headOf block)).length
      = blocks.length * 8 := by
    simp [List.length_flatMap, length_put_blockHead]
  rw [hbody] at hfits
  simp only [List.length_append, snapshotBytes, snapshotHeaderBytes, Wire.maxSubscribeRanges,
    Wire.maxSubscribeBytes, hheads] at hfits
  have hbytes : ∀ block ∈ blocks, block.bytes.length < 2 ^ 32 := fun block hb => by
    have hle : block.bytes.length ≤ (blocks.flatMap Wire.MemoryBlock.bytes).length := by
      rw [List.flatMap_def]
      exact (List.sublist_flatten_of_mem (List.mem_map_of_mem hb)).length_le
    omega
  have hnat : (UInt32.ofNat blocks.length).toNat = (blocks.map headOf).length := by
    rw [List.length_map]
    refine UInt32.toNat_ofNat_of_lt ?_
    show blocks.length < 2 ^ 32
    omega
  have hget : (Layout.vec blockHead snapshot.header.blocks.toNat).get snapshot.body
      = some (blocks.map headOf, blocks.flatMap Wire.MemoryBlock.bytes) := by
    rw [hcount, hnat, hbody, ← List.flatMap_map]
    exact Layout.getVec_put blockHead _ _ fun head _ => valid_blockHead head
  unfold Snapshot.poll
  rw [hget, Option.bind_some, takeBlocks_headOf blocks hbytes, Option.map_some]

/-- **A `Poll` finds the blocks that were published.**

**Proof sketch.** A record that does not fit changes nothing. One that fits is laid out so that
`Poll` reads its blocks again (`Snapshot.poll_eq`). -/
theorem poll_publishSnapshot {next : Wire.PollReply} {rangesId : ℕ} {complete : Bool}
    {published : Option Snapshot} {snapshot : Snapshot}
    (h : publishSnapshot next rangesId complete published = some snapshot) :
    published = some snapshot ∨
      (snapshot.header.complete = complete ∧ snapshot.header.rangesId = rangesId ∧
        ∀ id reply, snapshot.poll id = some reply → reply.blocks = next.blocks) := by
  unfold publishSnapshot at h
  dsimp only at h
  split at h
  · exact .inl h
  · rename_i hfits
    refine .inr ?_
    obtain rfl := Option.some.inj h
    refine ⟨rfl, rfl, fun id reply hpoll => ?_⟩
    rw [Snapshot.poll_eq next.blocks rfl rfl (Nat.le_of_not_lt hfits)] at hpoll
    split at hpoll
    · cases hpoll
    · obtain rfl := Option.some.inj hpoll
      rfl

/-- A `Poll` takes nothing but a complete snapshot of its own subscription. -/
theorem Snapshot.of_poll {snapshot : Snapshot} {id : ℕ} {reply : Wire.PollReply}
    (h : snapshot.poll id = some reply) :
    snapshot.header.complete = true ∧ snapshot.header.rangesId = id := by
  unfold Snapshot.poll at h
  split at h
  · cases h
  · rename_i hc
    simpa using hc

end Memory
