import ScorbitPlugin.Memory.Limits

set_option relaxedAutoImplicit false
set_option autoImplicit false

/-!
# The records that are published

The record `PublishSnapshot` builds holds every block of the next snapshot, and the blocks are
reused: a pass that a range cuts short leaves those behind it with the lengths of an earlier
snapshot. A record beyond the buffer's capacity is not published, and the old one stays.

The order of the host's calls is kept beside the state: how many `Service` calls were begun, and
how often the host's functions were called in the latest of them.

## Main definitions

* `Memory.record`, `Memory.Snapshot.size` — the record and its size.
* `Memory.firstShort`, `Memory.FitsShort` — where a pass is cut short, and when its record fits.
* `Memory.Logged`, `Memory.logged` — a run with the records it built and the writes it applied.
* `Memory.roomFor` — the condition on a step.

## Main results

* `Memory.size_record_le_iff` — when the record of a pass fits.
* `Memory.fits_published` — every record is published in the runs that meet the condition.
* `Memory.not_fits_published` — and not in all.
-/

namespace Memory

open Relation

/-! ## The size of a record -/

/-- The record `PublishSnapshot` builds. -/
def record (next : Wire.PollReply) (rangesId : ℕ) (complete : Bool) : Snapshot where
  header :=
    { frame := next.frame, rangesId := rangesId, blocks := UInt32.ofNat next.blocks.length
      playerRunning := next.playerRunning, complete := complete }
  body := next.blocks.flatMap (fun block => blockHead.put (headOf block))
    ++ next.blocks.flatMap Wire.MemoryBlock.bytes

/-- The bytes of a record. -/
def Snapshot.size (snapshot : Snapshot) : ℕ := snapshotHeaderBytes + snapshot.body.length

/-- The bytes of blocks. -/
def totalBytes (blocks : List Wire.MemoryBlock) : ℕ := (blocks.map (·.bytes.length)).sum

/-- A record has a header, a head for each block and the blocks. -/
theorem size_record (next : Wire.PollReply) (rangesId : ℕ) (complete : Bool) :
    (record next rangesId complete).size =
      snapshotHeaderBytes + (next.blocks.length * 8 + totalBytes next.blocks) := by
  unfold Snapshot.size record totalBytes
  simp [List.length_flatMap, length_put_blockHead]

/-- The first of the ranges that does not read in full. -/
def firstShort (read : ReadFn) : ℕ → List Wire.MemoryRange → Option ℕ
  | _, [] => none
  | calls, range :: ranges =>
    if (read.read calls range.address range.length).1 ≠ range.length then some 0
    else (firstShort read (calls + 1) ranges).map (· + 1)

/-- The record of a pass that is cut short fits: the ranges up to the short one, and the blocks
left behind it by earlier snapshots. -/
def FitsShort (blocks : List Wire.MemoryBlock) (read : ReadFn) (calls : ℕ)
    (ranges : List Wire.MemoryRange) : Prop :=
  ∀ i, firstShort read calls ranges = some i →
    ranges.length * 8 + totalLength (ranges.take (i + 1)) +
      totalBytes ((blocks.take ranges.length).drop (i + 1)) ≤
    Wire.maxSubscribeRanges * 8 + Wire.maxSubscribeBytes

instance (blocks : List Wire.MemoryBlock) (read : ReadFn) (calls : ℕ)
    (ranges : List Wire.MemoryRange) : Decidable (FitsShort blocks read calls ranges) :=
  inferInstanceAs (Decidable (∀ i ∈ firstShort read calls ranges, _))

/-- A pass reads the ranges up to the first short one, and leaves the blocks behind it.

**Proof sketch.** By induction on the ranges. One that reads in full has its length; the first that
does not keeps its block at the range's length and leaves the rest of the blocks. -/
theorem lengths_fillBlocks (read : ReadFn) (ranges : List Wire.MemoryRange) (calls : ℕ)
    (blocks : List Wire.MemoryBlock) (hlen : blocks.length = ranges.length) :
    (fillBlocks read calls ranges blocks).1.length = ranges.length ∧
    match firstShort read calls ranges with
    | none => (fillBlocks read calls ranges blocks).2 = true ∧
        totalBytes (fillBlocks read calls ranges blocks).1 = totalLength ranges
    | some i => (fillBlocks read calls ranges blocks).2 = false ∧
        totalBytes (fillBlocks read calls ranges blocks).1 =
          totalLength (ranges.take (i + 1)) + totalBytes (blocks.drop (i + 1)) := by
  induction ranges generalizing calls blocks with
  | nil =>
    obtain rfl := List.length_eq_zero_iff.mp hlen
    exact ⟨rfl, rfl, rfl⟩
  | cons range ranges ih =>
    cases blocks with
    | nil => simp at hlen
    | cons block blocks =>
      have hlen : blocks.length = ranges.length := by simpa using hlen
      have hread := read.fits calls range.address range.length
      obtain ⟨hcount, hrest⟩ := ih (calls + 1) blocks hlen
      by_cases hshort : (read.read calls range.address range.length).1 = range.length
      · simp only [fillBlocks, firstShort, hshort, ne_eq, not_true_eq_false, if_false]
        refine ⟨by simp [hcount], ?_⟩
        cases hfirst : firstShort read (calls + 1) ranges with
        | none =>
          rw [hfirst] at hrest
          obtain ⟨hcomplete, htotal⟩ := hrest
          refine ⟨hcomplete, ?_⟩
          simp only [totalBytes, totalLength, List.map_cons, List.sum_cons, hread] at htotal ⊢
          omega
        | some i =>
          rw [hfirst] at hrest
          obtain ⟨hcomplete, htotal⟩ := hrest
          refine ⟨hcomplete, ?_⟩
          simp only [totalBytes, totalLength, List.take_succ_cons, List.drop_succ_cons,
            List.map_cons, List.sum_cons, hread] at htotal ⊢
          omega
      · simp only [fillBlocks, firstShort, ne_eq, hshort, not_false_eq_true, if_true]
        refine ⟨by simp [hlen], trivial, ?_⟩
        simp [totalBytes, totalLength, hread]

/-- Blocks that are resized keep their bytes, and the new ones have none.

**Proof sketch.** Resizing keeps the first blocks and adds empty ones, which have no bytes wherever
they are cut. -/
theorem totalBytes_drop_resized (blocks : List Wire.MemoryBlock) (count i : ℕ) :
    totalBytes ((resized blocks count).drop i) = totalBytes ((blocks.take count).drop i) := by
  have hnone : ∀ (l : List Wire.MemoryBlock), (∀ block ∈ l, block.bytes = []) →
      totalBytes l = 0 := by
    intro l hl
    refine List.sum_eq_zero fun n hn => ?_
    obtain ⟨block, hblock, rfl⟩ := List.mem_map.mp hn
    rw [hl block hblock]
    rfl
  have hnew : totalBytes ((List.replicate (count - blocks.length) (⟨0, []⟩ : Wire.MemoryBlock)).drop
      (i - (blocks.take count).length)) = 0 := by
    refine hnone _ fun block hblock => ?_
    rw [List.eq_of_mem_replicate (List.mem_of_mem_drop hblock)]
  unfold resized
  rw [List.drop_append]
  unfold totalBytes at hnew ⊢
  rw [List.map_append, List.sum_append, hnew, Nat.add_zero]

/-- **When the record of a pass fits**, for ranges `Subscribe` lets pass.

**Proof sketch.** With no ranges or no game the record has no blocks. A pass read in full has the
bytes of its ranges, which `Subscribe` bounds. A short one has the ranges up to the first short one
and the blocks left behind it (`lengths_fillBlocks`). -/
theorem size_record_le_iff (next : Wire.PollReply) (s : Service) (calls : ℕ)
    {ranges : List Wire.MemoryRange} (hadmitted : Admitted ranges) (rangesId : ℕ) :
    (record (takeSnapshot next s ranges calls).1 rangesId
        (takeSnapshot next s ranges calls).2).size ≤ snapshotBytes ↔
      (s.gameRunning = true → FitsShort next.blocks s.read calls ranges) := by
  rw [size_record]
  unfold takeSnapshot
  dsimp only
  obtain ⟨hcount, htotal⟩ := hadmitted
  by_cases hnone : (ranges.isEmpty || !s.gameRunning) = true
  · rw [if_pos hnone]
    refine iff_of_true (Nat.le_trans (Nat.le_add_right _ _) (Nat.le_add_right _ _))
      fun hgame i hi => ?_
    have hempty : ranges = [] := by simpa [hgame] using hnone
    rw [hempty] at hi
    cases hi
  · rw [if_neg hnone]
    have hgame : s.gameRunning = true := by
      cases hg : s.gameRunning <;> simp [hg] at hnone ⊢
    obtain ⟨hlength, hlengths⟩ := lengths_fillBlocks s.read ranges calls
      (resized next.blocks ranges.length) (length_resized _ _)
    dsimp only
    rw [hlength]
    unfold FitsShort snapshotBytes
    cases hfirst : firstShort s.read calls ranges with
    | none =>
      rw [hfirst] at hlengths
      refine iff_of_true ?_ nofun
      rw [hlengths.2]
      omega
    | some i =>
      rw [hfirst] at hlengths
      rw [hlengths.2, totalBytes_drop_resized]
      constructor
      · intro hle _ j hj
        obtain rfl := Option.some.inj hj
        omega
      · intro hfits
        have := hfits hgame i rfl
        omega

/-! ## The records of a run -/

/-- When a function of the host was called: the `Service` calls begun, and the calls made before in
the latest of them. -/
structure Moment where
  service : ℕ := 0
  calls : ℕ := 0
deriving DecidableEq, Repr

/-- One moment comes before another. -/
def Moment.before (m m' : Moment) : Prop :=
  m.service < m'.service ∨ m.service = m'.service ∧ m.calls < m'.calls

/-- A record that was built, and when its first read was made. -/
structure Record where
  snapshot : Snapshot
  moment : Moment

/-- The calls of the host's write function while `Service` answers: for which call, and the calls
made before. -/
def writesIn (s : Service) : List ℕ → Bridge → ℕ → List (ℕ × ℕ)
  | [], _, _ => []
  | c :: work, b, calls =>
    let rest := writesIn s work (b.answerOne s calls c).1 (b.answerOne s calls c).2
    if ((b.requests c).answer s b.addressSpace calls).applied.isSome then (c, calls) :: rest
    else rest

/-- The record a step builds, and the host's calls made before its reads. -/
def built (s : State) (a : Act) : Option (Snapshot × ℕ) :=
  match a, s.api with
  | .phase, .answering service work taken =>
    let (b, calls, current) := Bridge.answerAll service work s.bridge 0 taken
    let (next, complete) := takeSnapshot b.nextSnapshot service current.ranges calls
    some (record next current.id complete, calls)
  | .phase, .ending =>
    some (record { s.bridge.nextSnapshot with playerRunning := 0, blocks := [] } 0 false, 0)
  | _, _ => none

/-- The host's write calls of a step. -/
def written (s : State) (a : Act) : List (ℕ × ℕ) :=
  match a, s.api with
  | .phase, .answering service work _ => writesIn service work s.bridge 0
  | _, _ => []

/-- A state with the `Service` calls begun, the host's write calls, and the records built, newest
first. -/
structure Logged where
  state : State := {}
  services : ℕ := 0
  writes : List (ℕ × Moment) := []
  records : List Record := []

/-- A `Service` begins. -/
def Act.isService : Act → Bool
  | .service _ => true
  | _ => false

/-- A step with what it does to the log. -/
def Logged.step (t : Logged) (a : Act) : Option Logged :=
  (Memory.step t.state a).map fun s' =>
    { state := s'
      services := if a.isService then t.services + 1 else t.services
      writes := (written t.state a).map (fun w => (w.1, ⟨t.services, w.2⟩)) ++ t.writes
      records :=
        (built t.state a).toList.map (fun r => ⟨r.1, ⟨t.services, r.2⟩⟩) ++ t.records }

/-- The bridge from its start, with its log. -/
def logged : Runs.System Logged Act := .ofStep (· = {}) Logged.step

/-- What a step reads a snapshot of: its `Service`, the host's calls made before and the ranges. -/
def reading (s : State) (a : Act) : Option (Service × ℕ × List Wire.MemoryRange) :=
  match a, s.api with
  | .phase, .answering service work taken =>
    let (_, calls, current) := Bridge.answerAll service work s.bridge 0 taken
    some (service, calls, current.ranges)
  | _, _ => none

/-- When a `Service` reads its ranges short, the record fits all the same. -/
def roomFor (s : State) (a : Act) : Prop :=
  ∀ p ∈ reading s a, p.1.gameRunning = true →
    FitsShort s.bridge.nextSnapshot.blocks p.1.read p.2.1 p.2.2

instance (s : State) (a : Act) : Decidable (roomFor s a) :=
  inferInstanceAs (Decidable (∀ p ∈ reading s a, _))

/-- A run with its log is a run. -/
theorem simulation_logged (ok : State → Act → Prop) :
    Runs.Simulation logged system (fun t a => ok t.state a) ok Logged.state where
  init := by
    rintro t rfl
    rfl
  step := by
    intro t a t' hok hstep
    obtain ⟨s', hs', rfl⟩ := Option.map_eq_some_iff.mp hstep
    exact ⟨a, hok, hs'⟩

/-- The ids and the limits hold in every run. -/
theorem numbered_of_reachable {s : State} (h : system.Reachable s) :
    Sound s ∧ Numbered (core s) ∧ Limited (core s) :=
  holds_of_reaches (R := {}) (fun s a _ _ => Rules.allows s a)
    (I := fun k => Numbered k ∧ Limited k) ⟨Numbered.start, Limited.start⟩
    (fun _ _ hf hi hm => ⟨hi.1.move hf hm, hi.2.move hm⟩) h

/-- What a snapshot is read for is within the limits. -/
theorem admitted_answerAll {s : State} (h : system.Reachable s) {service : Service}
    {work : List ℕ} {taken : Installed} (hapi : s.api = .answering service work taken) :
    Admitted (Bridge.answerAll service work s.bridge 0 taken).2.2.ranges := by
  obtain ⟨hs, hn, hl⟩ := numbered_of_reachable h
  obtain ⟨-, hn, hl⟩ := keeps_of_moves (R := {}) (I := fun k => Numbered k ∧ Limited k)
    (fun _ _ hf hi hm => ⟨hi.1.move hf hm, hi.2.move hm⟩) hs.filed ⟨hn, hl⟩ (moves_answers hs hapi)
  exact hl.sets _ _ hn.following

/-- **The record a step builds fits exactly when there is room for it.**

**Proof sketch.** A step builds the record of a pass, for which it is `size_record_le_iff` with the
ranges of the set it follows, or one without blocks, which always fits. -/
theorem size_built_le_iff {s : State} (h : system.Reachable s) {a : Act} {r : Snapshot × ℕ}
    (hbuilt : built s a = some r) : r.1.size ≤ snapshotBytes ↔ roomFor s a := by
  unfold built at hbuilt
  unfold roomFor reading
  split at hbuilt
  · rename_i service work taken hapi
    obtain rfl := Option.some.inj hbuilt
    rw [hapi]
    have hiff := size_record_le_iff s.bridge.nextSnapshot service
      (Bridge.answerAll service work s.bridge 0 taken).2.1
      (admitted_answerAll h hapi) (Bridge.answerAll service work s.bridge 0 taken).2.2.id
    rw [← Bridge.nextSnapshot_answerAll service work s.bridge 0 taken] at hiff
    rw [← Bridge.nextSnapshot_answerAll service work s.bridge 0 taken]
    refine hiff.trans ⟨fun hfits p hp => ?_, fun hall => hall _ rfl⟩
    obtain rfl := Option.some.inj hp
    exact hfits
  · rename_i hapi
    obtain rfl := Option.some.inj hbuilt
    rw [hapi]
    refine iff_of_true ?_ nofun
    rw [size_record]
    exact Nat.le_trans (Nat.le_add_right _ _) (Nat.le_add_right _ _)
  · cases hbuilt

/-- The answers to all that is taken leave the buffers. -/
theorem Bridge.buffers_answerAll (s : Service) (work : List ℕ) (b : Bridge) (calls : ℕ)
    (current : Installed) :
    (Bridge.answerAll s work b calls current).1.buffers = b.buffers := by
  induction work generalizing b calls current with
  | nil => rfl
  | cons c work ih => exact ih _ _ _

/-- So do the answers without a game. -/
theorem Bridge.buffers_foldl_answerNoGame (pending : List ℕ) (b : Bridge) :
    (pending.foldl Bridge.answerNoGame b).buffers = b.buffers := by
  induction pending generalizing b with
  | nil => rfl
  | cons c pending ih => exact ih _

/-- A step that builds no record leaves the buffers as they are.

**Proof sketch.** By the step: the snapshot is only written where a record is built, and the next
one where it is taken. -/
theorem buffers_step {s s' : State} {a : Act} (h : step s a = some s') (hbuilt : built s a = none) :
    s'.bridge.buffers = s.bridge.buffers := by
  cases a with
  | subscribe | poll | readDirect | clear | stop =>
    obtain rfl := Option.some.inj h
    rfl
  | write ops =>
    simp only [step] at h
    split at h
    · obtain rfl := Option.some.inj h
      cases checkWrite ops <;> rfl
    · cases h
  | advance c =>
    obtain ⟨-, b, call, rfl, hbuffers⟩ := advance_goto h
    exact hbuffers
  | timeout c =>
    simp only [step, State.timeout] at h
    split at h
    · obtain rfl := Option.some.inj h
      exact Bridge.buffers_wrote _ _ _
    · cases h
  | torn c =>
    simp only [step, State.torn] at h
    split at h
    · obtain rfl := Option.some.inj h
      rfl
    · cases h
  | setGameRunning running =>
    simp only [step] at h
    split at h
    · obtain rfl := Option.some.inj h
      cases running with
      | true => rfl
      | false => exact (Bridge.buffers_complete _ _).trans (Bridge.buffers_foldl_answerNoGame _ _)
    · cases h
  | setAddressSpace space =>
    simp only [step] at h
    split at h
    · obtain rfl := Option.some.inj h
      rfl
    · cases h
  | service service =>
    simp only [step] at h
    split at h
    · obtain rfl := Option.some.inj h
      show (s.bridge.storeGameRunning service.gameRunning).buffers = s.bridge.buffers
      unfold Bridge.storeGameRunning
      split <;> rfl
    · cases h
  | phase =>
    simp only [step, State.phase] at h
    unfold built at hbuilt
    cases hapi : s.api with
    | idle =>
      rw [hapi] at h
      cases h
    | completing work =>
      rw [hapi] at h
      obtain rfl := Option.some.inj h
      exact Bridge.buffers_complete _ _
    | answering | ending =>
      rw [hapi] at hbuilt
      cases hbuilt

/-- What a step publishes: the record it builds, unless that does not fit.

**Proof sketch.** A step that builds none leaves the snapshot. One that does publishes it, and
`PublishSnapshot` refuses what does not fit. -/
theorem snapshot_step {s s' : State} {a : Act} (h : step s a = some s') :
    s'.bridge.snapshot = match built s a with
      | none => s.bridge.snapshot
      | some r => if r.1.size > snapshotBytes then s.bridge.snapshot else some r.1 := by
  cases hbuilt : built s a with
  | none => exact congrArg Prod.fst (buffers_step h hbuilt)
  | some r =>
    unfold built at hbuilt
    split at hbuilt
    · rename_i service work taken hapi
      obtain rfl := Option.some.inj hbuilt
      simp only [step, State.phase, hapi] at h
      obtain rfl := Option.some.inj h
      have hanswers := congrArg Prod.fst (Bridge.buffers_answerAll service work s.bridge 0 taken)
      rw [← show (Bridge.answerAll service work s.bridge 0 taken).1.snapshot = s.bridge.snapshot
        from hanswers]
      rfl
    · rename_i hapi
      obtain rfl := Option.some.inj hbuilt
      simp only [step, State.phase, hapi] at h
      obtain rfl := Option.some.inj h
      rfl
    · cases hbuilt

/-- **What is published is the newest record that fits.**

**Proof sketch.** By induction on the run: a step's record is put in front, and is published exactly
when it fits (`snapshot_step`). -/
theorem snapshot_eq_find {ok : Logged → Act → Prop} {t : Logged} (h : logged.Reaches ok t) :
    t.state.bridge.snapshot =
      (t.records.find? fun r => decide (r.snapshot.size ≤ snapshotBytes)).map (·.snapshot) := by
  refine h.invariant (I := fun t => t.state.bridge.snapshot =
    (t.records.find? fun r => decide (r.snapshot.size ≤ snapshotBytes)).map (·.snapshot)) ?_ ?_
  · rintro t rfl
    rfl
  · rintro t a t' hi - hstep
    obtain ⟨s', hs', rfl⟩ := Option.map_eq_some_iff.mp hstep
    dsimp only
    rw [snapshot_step hs']
    cases hbuilt : built t.state a with
    | none => exact hi
    | some r =>
      show _ = Option.map _ (List.find? _ (⟨r.1, ⟨t.services, r.2⟩⟩ :: t.records))
      dsimp only
      by_cases hfits : r.1.size ≤ snapshotBytes
      · rw [List.find?_cons_of_pos (by simpa using hfits), if_neg (by omega)]
        rfl
      · rw [List.find?_cons_of_neg (by simpa using hfits), if_pos (by omega)]
        exact hi

/-- Every record is published: it fits, and what a `Poll` reads is the latest. -/
structure AllPublished (t : Logged) : Prop where
  fits : ∀ r ∈ t.records, r.snapshot.size ≤ snapshotBytes
  latest : t.state.bridge.snapshot = t.records.head?.map (·.snapshot)

/-- The condition on the steps of a run with its log. -/
def roomy (t : Logged) (a : Act) : Prop := roomFor t.state a

instance (t : Logged) (a : Act) : Decidable (roomy t a) :=
  inferInstanceAs (Decidable (roomFor t.state a))

/-- A run with its log is a run of the bridge. -/
theorem reachable_of_logged {ok : Logged → Act → Prop} {t : Logged} (h : logged.Reaches ok t) :
    system.Reachable t.state :=
  ((simulation_logged fun _ _ => True).reaches h.reachable).reachable

/-- Every record is published in a run in which there is room for each.

**Proof sketch.** By induction on the run every record fits (`size_built_le_iff`), so the newest one
that fits is the newest. -/
theorem AllPublished.of_roomy {ok : Logged → Act → Prop} (hok : ∀ t a, ok t a → roomy t a)
    {t : Logged} (h : logged.Reaches ok t) : AllPublished t := by
  have hfits : ∀ r ∈ t.records, r.snapshot.size ≤ snapshotBytes := by
    induction h with
    | init hinit =>
      obtain rfl : _ = ({} : Logged) := hinit
      nofun
    | @step t t' a h ha hstep ih =>
      obtain ⟨s', hs', rfl⟩ := Option.map_eq_some_iff.mp hstep
      intro r hr
      rcases List.mem_append.mp hr with hnew | hold
      · obtain ⟨r', hr', rfl⟩ := List.mem_map.mp hnew
        have hbuilt : built t.state a = some r' := Option.mem_toList.mp hr'
        exact (size_built_le_iff (reachable_of_logged h) hbuilt).mpr (hok t a ha)
      · exact ih r hold
  refine ⟨hfits, ?_⟩
  rw [snapshot_eq_find h]
  cases hrecords : t.records with
  | nil => rfl
  | cons r rest =>
    rw [List.find?_cons_of_pos (by simpa using hfits r (hrecords ▸ List.mem_cons_self))]
    rfl

/-- **Every snapshot fits and is published, where there is room for the blocks left over**: in
every run in which a `Service` whose ranges do not read in full has room for the ranges up to the
short one and the blocks behind it. A record fits exactly then.

**Proof sketch.** A pass that reads in full has the lengths of its ranges, which `Subscribe` let
pass (`Limited.move`); one that is cut short leaves the blocks behind it as they were
(`lengths_fillBlocks`). What is published is the newest record that fits. -/
theorem fits_published {t : Logged} (h : logged.Reaches roomy t) :
    AllPublished t ∧ ∀ a r, built t.state a = some r →
      (r.1.size ≤ snapshotBytes ↔ roomy t a) :=
  ⟨.of_roomy (fun _ _ => id) h, fun _ _ hbuilt =>
    size_built_le_iff (reachable_of_logged h) hbuilt⟩

/-- A host that reads each range in full but for one call. -/
def failingAt (failing : ℕ) : ReadFn :=
  .filled (fun calls _ size => if calls = failing then 0 else size) fun _ => 0

/-- A service of that host, in the time of a game. -/
def failingService (failing : ℕ) (frame : UInt64) : Service where
  read := failingAt failing
  frame := frame
  gameRunning := true

/-- A call is made and waits for its answer. -/
def subscribed (c : ℕ) (ranges : List Wire.MemoryRange) : List Act :=
  [.subscribe ranges, .advance c, .advance c, .advance c]

/-- A set of two ranges is read, and then one of which the first is cut short. -/
def roomyRun : List Act :=
  .setGameRunning true :: subscribed 0 [⟨0, 1⟩, ⟨16, 4⟩] ++
    [.service (failingService 9 1), .phase, .phase, .advance 0] ++
    subscribed 1 [⟨32, 2⟩, ⟨0, 1⟩] ++ [.service (failingService 2 2), .phase]

/-- The second record is that of two bytes and of the four left behind them. -/
theorem fits_published_roomyRun : ∃ t, Runs.runOf Logged.step {} roomyRun = some t ∧
    t.records.map (·.snapshot.size) = [46, 45] ∧ AllPublished t := by
  have hrun : (Runs.runOf Logged.step {} roomyRun).any
      (fun t => decide (t.records.map (·.snapshot.size) = [46, 45])) = true := by
    decide +kernel
  obtain ⟨t, ht, hsizes⟩ := (Option.any_eq_true _ _).mp hrun
  have halong : Runs.holdsAlong Logged.step (fun t a => decide (roomy t a)) {} roomyRun = true := by
    decide +kernel
  have hreach : logged.Reaches roomy t :=
    Runs.System.Reaches.runOf (fun _ _ h => of_decide_eq_true h) roomyRun (.init rfl) halong ht
  exact ⟨t, ht, of_decide_eq_true hsizes, (fits_published hreach).1⟩

/-- A large range follows a small one, and then a small range a large one: of the second set the
large range is read to be accepted, but not for the snapshot. -/
def shortRun : List Act :=
  .setGameRunning true :: subscribed 0 [⟨0, 1⟩, ⟨16, 16000⟩] ++
    [.service (failingService 9 1), .phase, .phase, .advance 0] ++
    subscribed 1 [⟨32768, 16000⟩, ⟨0, 1⟩] ++ [.service (failingService 2 2), .phase]

set_option maxRecDepth 10000 in
/-- Its record has both large blocks. -/
theorem records_shortRun : (Runs.runOf Logged.step {} shortRun).map (fun t =>
    t.records.map (·.snapshot)) =
      some [record
          { frame := 2
            blocks := [⟨32768, List.replicate 16000 0⟩, ⟨16, List.replicate 16000 0⟩] } 2 false,
        record
          { frame := 1
            blocks := [⟨0, List.replicate 1 0⟩, ⟨16, List.replicate 16000 0⟩] } 1 true] := by
  rfl

/-- That record does not fit, and is not published. -/
theorem not_fits_published : ∃ t, logged.Reachable t ∧ ¬ AllPublished t := by
  obtain ⟨t, ht, hrecords⟩ := Option.map_eq_some_iff.mp records_shortRun
  refine ⟨t, Runs.reachable_of_runOf rfl ht, fun h => ?_⟩
  obtain ⟨r, hr, heq⟩ := List.mem_map.mp (hrecords ▸ List.mem_cons_self)
  have hfits := h.fits r hr
  rw [heq, size_record] at hfits
  simp only [totalBytes, List.map_cons, List.map_nil, List.sum_cons, List.sum_nil,
    List.length_replicate] at hfits
  exact absurd hfits (by decide)

end Memory
