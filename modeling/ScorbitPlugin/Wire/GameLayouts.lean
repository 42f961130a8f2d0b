import ScorbitPlugin.Wire.Layouts

set_option relaxedAutoImplicit false
set_option autoImplicit false

/-!
# Layouts of the game batches and read-backs

The payloads that are held to a rule as well as to a layout: game batches, whose ops carry the
fields their kind names, and the leaderboard and player payloads.

## Main definitions

* `Wire.GameOp.layout`, `Wire.GameBatch.layout`, `Wire.GameOp.carried`.
* `Wire.TopScoresRequest.layout`, `Wire.TopScores.layout`, `Wire.Players.layout`,
  `Wire.PlayerPicture.layout`.

## Main results

* `Wire.GameBatch.coding`, `Wire.TopScoresRequest.coding`, `Wire.TopScores.coding`,
  `Wire.Players.coding`, `Wire.PlayerPicture.coding`.
-/

namespace Wire

open Codec

/-! ## Game batches -/

/-- What of an op is carried: its kind, and the fields its kind names. -/
def GameOp.carried (op : GameOp) : GameOp :=
  if op.kind = gameStart ∨ op.kind = gameBall ∨ op.kind = gameActivePlayer then
    { kind := op.kind, value := op.value }
  else if op.kind = gameScore then
    { kind := op.kind, value := op.value, score := op.score, feature := op.feature }
  else if op.kind = gameAddModeExpiring then
    { kind := op.kind, seconds := op.seconds, mode := op.mode }
  else if op.kind = gameAddMode ∨ op.kind = gameModeCompleted ∨ op.kind = gameRemoveMode then
    { kind := op.kind, mode := op.mode }
  else { kind := op.kind }

/-- The bytes of an op after its kind. -/
def GameOp.tailSize (op : GameOp) : ℕ :=
  if op.kind = gameStart ∨ op.kind = gameBall ∨ op.kind = gameActivePlayer then 1
  else if op.kind = gameScore then 13
  else if op.kind = gameAddModeExpiring then 4 + strBytes op.mode
  else if op.kind = gameAddMode ∨ op.kind = gameModeCompleted ∨ op.kind = gameRemoveMode then
    strBytes op.mode
  else 0

/-- The layout of an op of a kind, after the kind. -/
def GameOp.tailLayout (kind : UInt8) : Layout GameOp :=
  if kind = gameStart ∨ kind = gameBall ∨ kind = gameActivePlayer then
    Layout.u8.map (fun value => { kind, value }) (fun op => op.value) fun _ _ => rfl
  else if kind = gameScore then
    (Layout.u8.pair <| Layout.u64.pair Layout.u32).map
      (fun p => { kind, value := p.1, score := p.2.1.toInt64, feature := p.2.2.toInt32 })
      (fun op => (op.value, op.score.toUInt64, op.feature.toUInt32)) (by simp)
  else if kind = gameAddModeExpiring then
    (Layout.u32.pair str).map (fun (seconds, mode) => { kind, seconds, mode })
      (fun op => (op.seconds, op.mode)) fun _ _ => rfl
  else if kind = gameAddMode ∨ kind = gameModeCompleted ∨ kind = gameRemoveMode then
    str.map (fun mode => { kind, mode }) (fun op => op.mode) fun _ _ => rfl
  else if kind = gameEnd ∨ kind = gameClearModes then Layout.const { kind }
  else Layout.empty

/-- An op of a kind has that kind. -/
theorem GameOp.kind_of_tailLayout (kind : UInt8) (op : GameOp)
    (h : (GameOp.tailLayout kind).valid op) : op.kind = kind := by
  unfold GameOp.tailLayout at h
  split_ifs at h
  · rw [← h.2]
  · rw [← h.2]
  · rw [← h.2]
  · rw [← h.2]
  · rw [Layout.valid_const] at h
    rw [h]
  · exact absurd h (Layout.valid_empty op)

/-- The layout of an op: its kind, then what the kind carries. -/
def GameOp.layout : Layout GameOp :=
  Layout.u8.dep (fun op => op.kind) GameOp.tailLayout GameOp.kind_of_tailLayout

/-- The strings of an op fit their lengths: the mode, where the kind names it. -/
def GameOp.fits (op : GameOp) : Prop := shortStrings [op.carried.mode]

/-- A known kind is one of the ten. -/
theorem knownGameOp_iff (kind : UInt8) : knownGameOp kind = true ↔
    (kind = gameStart ∨ kind = gameBall ∨ kind = gameActivePlayer) ∨ kind = gameScore ∨
      kind = gameAddModeExpiring ∨
      (kind = gameAddMode ∨ kind = gameModeCompleted ∨ kind = gameRemoveMode) ∨
      kind = gameEnd ∨ kind = gameClearModes := by
  simp only [knownGameOp, gameStart, gameClearModes, gameBall, gameActivePlayer, gameScore,
    gameAddModeExpiring, gameAddMode, gameModeCompleted, gameRemoveMode, gameEnd,
    Bool.and_eq_true, decide_eq_true_eq, ge_iff_le, UInt8.le_iff_toNat_le, ← UInt8.toNat_inj,
    UInt8.reduceToNat]
  omega

/-- An op is in the layout exactly if its kind is known, it has only the fields the kind names
and its mode fits. -/
theorem GameOp.valid_layout (op : GameOp) :
    GameOp.layout.valid op ↔ knownGameOp op.kind = true ∧ op.carried = op ∧ op.fits := by
  rw [knownGameOp_iff]
  simp only [GameOp.layout, Layout.valid_dep, Layout.valid_u8, true_and, GameOp.fits, shortStrings,
    List.forall_mem_singleton, GameOp.carried, GameOp.tailLayout]
  split_ifs with h₁ h₂ h₃ h₄ h₅
  · simp [h₁]
  · simp [h₂]
  · simp [h₃, and_comm]
  · simp [h₄, and_comm]
  · rw [Layout.valid_const]
    exact ⟨fun h => ⟨by simp [h₅], h.symm, by simp⟩, fun h => h.2.1.symm⟩
  · simp [h₁, h₂, h₃, h₄, h₅]

/-- The kind of what is carried of an op is that of the op. -/
@[simp] theorem GameOp.kind_carried (op : GameOp) : op.carried.kind = op.kind := by
  unfold GameOp.carried
  split_ifs <;> rfl

/-- What is carried of an op is carried whole. -/
@[simp] theorem GameOp.carried_carried (op : GameOp) : op.carried.carried = op.carried := by
  conv_lhs => rw [GameOp.carried]
  rw [GameOp.kind_carried]
  unfold GameOp.carried
  split_ifs <;> rfl

/-- An op takes a byte for its kind and what the kind carries. -/
theorem GameOp.length_put (op : GameOp) :
    (GameOp.layout.put op.carried).length = 1 + op.tailSize := by
  simp only [GameOp.layout, Layout.put_dep, GameOp.kind_carried, Layout.put_u8]
  unfold GameOp.tailLayout GameOp.tailSize GameOp.carried
  split_ifs <;> simp [strBytes, Layout.empty] <;> omega

/-- An op is written as what is carried of it. -/
theorem GameOp.wrote {w : Writer} {c : Prop} {b : Bytes} (op : GameOp) (h : Writer.Wrote w c b) :
    Writer.Wrote (GameOp.write w op) (c ∧ op.fits) (b ++ GameOp.layout.put op.carried) := by
  have hk := h.u8 op.kind
  simp only [GameOp.layout, Layout.put_dep, GameOp.kind_carried, Layout.put_u8, GameOp.fits,
    shortStrings, List.forall_mem_singleton, GameOp.write]
  unfold GameOp.tailLayout GameOp.carried
  split_ifs
  · simpa using hk.u8 op.value
  · simpa using ((hk.u8 op.value).u64 op.score.toUInt64).u32 op.feature.toUInt32
  · simpa [Nat.lt_succ_iff] using (hk.u32 op.seconds).str op.mode
  · simpa [Nat.lt_succ_iff] using hk.str op.mode
  · simpa using hk
  · simpa [Layout.empty] using hk

/-- An op reads as its layout does.

**Proof sketch.** The kind is read first. Each kind's tail has its own layout, which is read field
by field. -/
theorem GameOp.reads : Reads GameOp.read GameOp.layout.get := by
  refine Reads.bind (h := fun kind => (GameOp.tailLayout kind).get) .u8 fun kind => ?_
  unfold GameOp.tailLayout
  split_ifs
  · rw [Layout.get_map]
    exact .last .u8 fun _ => .pure _
  · rw [Layout.get_map]
    exact .field .u8 fun _ => .field .u64 fun _ => .last .u32 fun _ => .pure _
  · rw [Layout.get_map]
    exact .field .u32 fun _ => .last .str fun _ => .pure _
  · rw [Layout.get_map]
    exact .last .str fun _ => .pure _
  · exact .pure _
  · exact ⟨fun _ => rfl, fun _ _ _ h => by simp [Layout.empty] at h⟩

/-- What of a batch is carried: of each op, what its kind names. -/
def GameBatch.carried (v : GameBatch) : GameBatch := { v with ops := v.ops.map GameOp.carried }

/-- The batch meets the rules of its kind, and its strings fit their lengths. -/
def GameBatch.fits (v : GameBatch) : Prop := validGameBatch v = true ∧ ∀ op ∈ v.ops, op.fits

/-- The bytes a `GameBatch` takes. -/
def GameBatch.size (v : GameBatch) : ℕ := 6 + (v.ops.map fun op => 1 + op.tailSize).sum

/-- The layout of a `GameBatch`, rules included. -/
def GameBatch.layout : Layout GameBatch :=
  ((Layout.u32.pair <| Layout.counted 2 GameOp.layout).map (fun (a, b) => ⟨b, a⟩)
    (fun v => (v.batchId, v.ops)) fun _ _ => rfl).filter validGameBatch

/-- The rules look at the kinds of the ops only. -/
theorem validGameBatch_carried (v : GameBatch) : validGameBatch v.carried = validGameBatch v := by
  simp [validGameBatch, GameBatch.carried, List.zipIdx_map, List.all_map, Function.comp_def]

/-- The ops of a valid batch are of known kinds, and there are not too many. -/
theorem validGameBatch_ops {v : GameBatch} (h : validGameBatch v = true) :
    v.ops.length ≤ maxGameOps ∧ v.ops ≠ [] ∧ ∀ op ∈ v.ops, knownGameOp op.kind = true := by
  simp only [validGameBatch, Bool.and_eq_true, decide_eq_true_eq, List.all_eq_true] at h
  obtain ⟨⟨hne, hlen⟩, hall⟩ := h
  refine ⟨hlen, by simpa using hne, fun op hop => ?_⟩
  obtain ⟨i, hi, rfl⟩ := List.mem_iff_getElem.mp hop
  exact (hall (v.ops[i], i) (List.mem_zipIdx_iff_getElem?.mpr (by simp [hi]))).1.1

/-- `GameBatch` keeps to its layout.

**Proof sketch.** `Encode` refuses an invalid batch and otherwise writes the layout: the id, the
count, and each op. `Decode` reads the same, refuses a count that the bytes left cannot hold, and
checks what it has read. -/
theorem GameBatch.coding : Coding maxPayloadBytes GameBatch.encode GameBatch.decode
    GameBatch.layout GameBatch.carried GameBatch.fits GameBatch.size where
  encodes v := by
    by_cases hvalid : validGameBatch v = true
    · have h := (Writer.Wrote.new.u32 v.batchId).counted16 (P := GameOp.fits)
        (g := fun op => GameOp.layout.put op.carried) v.ops fun op h => GameOp.wrote op h
      rw [GameBatch.encode, if_neg (by simpa using hvalid)]
      refine h.finish.congr ?_ ?_
      · simp [GameBatch.fits, hvalid]
      · simp [GameBatch.layout, GameBatch.carried, List.flatMap_map]
    · rw [GameBatch.encode, if_pos (by simpa using hvalid)]
      exact Bounded.refuse fun hfits => hvalid hfits.1
  decodes p := by
    refine Reads.run ?_ p
    rw [GameBatch.layout, Layout.get_filter_map]
    refine .field .u32 fun _ => .dep .u16 Layout.le_get_u16 fun count =>
      .guard (.last (.each GameOp.reads _) fun _ => .check _ (.pure _)) fun b v t h => ?_
    have hlen := Layout.le_length_of_andThen (Layout.le_length_put_vec (k := 1)
      (by simp [GameOp.layout])) h
    obtain ⟨⟨ops, u⟩, hget, hvalid⟩ := Option.bind_eq_some_iff.mp h
    obtain ⟨⟨hcount, -⟩, -⟩ := (Layout.vec _ _).put_get _ _ _ hget
    dsimp only at hvalid
    split_ifs at hvalid with hrule
    obtain ⟨hmax, hne, -⟩ := validGameBatch_ops hrule
    have hpos : count ≠ 0 := by
      rintro rfl
      exact hne (List.length_eq_zero_iff.mp hcount)
    simp only [hcount] at hmax
    simpa [hpos, hmax] using hlen
  valid_carried v h hsize := by
    obtain ⟨hlen, -, hknown⟩ := validGameBatch_ops h.1
    have hcount : v.ops.length < 256 ^ 2 := lt_of_le_of_lt hlen (by decide)
    have hops : ∀ op ∈ v.ops, GameOp.layout.valid op.carried := fun op hop =>
      (GameOp.valid_layout _).mpr ⟨by simpa using hknown op hop, by simp, by
        simpa [GameOp.fits] using h.2 op hop⟩
    refine ⟨?_, (validGameBatch_carried v).trans h.1⟩
    simpa [GameBatch.carried] using ⟨hcount, hops⟩
  of_valid v h := by
    obtain ⟨⟨⟨-, hcounted⟩, -⟩, hrule⟩ := h
    have hops := ((Layout.valid_counted 2 GameOp.layout v.ops).mp hcounted).2
    have hsame : v.ops.map GameOp.carried = v.ops :=
      List.map_congr_left (fun op hop => ((GameOp.valid_layout op).mp (hops op hop)).2.1)
        |>.trans (List.map_id _)
    exact ⟨by rw [GameBatch.carried, hsame], hrule,
      fun op hop => ((GameOp.valid_layout op).mp (hops op hop)).2.2⟩
  length_put v := by
    have hops : (v.ops.map fun op => (GameOp.layout.put op.carried).length) =
        v.ops.map fun op => 1 + op.tailSize := List.map_congr_left fun op _ => op.length_put
    simp [GameBatch.layout, GameBatch.size, GameBatch.carried, Function.comp_def, hops]
    omega
  size_pos v := by simp [GameBatch.size]

/-- The mode an op carries is no longer than its own. -/
theorem GameOp.length_mode_carried (op : GameOp) :
    op.carried.mode.length ≤ op.mode.length := by
  unfold GameOp.carried
  split_ifs
  all_goals first | exact le_refl _ | exact Nat.zero_le _

/-- An op with a short mode takes few bytes. -/
theorem GameOp.size_le {op : GameOp} {bound : ℕ} (h : op.mode.length ≤ bound) :
    1 + op.tailSize ≤ 14 + bound := by
  unfold GameOp.tailSize strBytes
  split_ifs <;> omega

/-- The encoder takes every valid batch whose modes are short.

**Proof sketch.** An op with a short mode takes at most 142 bytes, and a batch has at most 256 ops,
so the batch fits a payload. -/
theorem GameBatch.encode_ne_nil_of_short {v : GameBatch} (h : validGameBatch v = true)
    (hmodes : ∀ op ∈ v.ops, op.mode.length ≤ 128) : v.encode ≠ [] := by
  have hop : ∀ n ∈ v.ops.map (fun op => 1 + op.tailSize), n ≤ 14 + 128 := by
    intro n hn
    obtain ⟨op, hop, rfl⟩ := List.mem_map.mp hn
    exact GameOp.size_le (hmodes op hop)
  have hsum := List.sum_le_card_nsmul _ _ hop
  have hlen := (validGameBatch_ops h).1
  simp only [List.length_map, nsmul_eq_mul, Nat.cast_id, maxGameOps] at hsum hlen
  have hmax : 142 * 256 + 6 ≤ maxPayloadBytes := by decide
  have hsize : v.size ≤ maxPayloadBytes := by
    rw [GameBatch.size]
    omega
  rw [Ne, GameBatch.coding.encode_eq_nil_iff, not_not]
  refine ⟨⟨h, fun op hop => ?_⟩, hsize⟩
  have hmode := (GameOp.length_mode_carried op).trans (hmodes op hop)
  simp only [GameOp.fits, shortStrings, List.forall_mem_singleton]
  omega

/-! ## Leaderboards -/

/-- The bytes a `TopScoresRequest` takes. -/
def TopScoresRequest.size (v : TopScoresRequest) : ℕ := 8 + strBytes v.since

/-- The layout of a `TopScoresRequest`, rules included. -/
def TopScoresRequest.layout : Layout TopScoresRequest :=
  ((Layout.u32.pair <| Layout.u8.pair <| Layout.u8.pair <| Layout.u8.pair <|
    Layout.u8.pair str).map (fun (a, b, c, d, e, f) => ⟨a, b, c, d, e, f⟩)
    (fun v => (v.requestId, v.scope, v.period, v.vpinFilter, v.limit, v.since))
    fun _ _ => rfl).filter validRequest

/-- The string of a valid request fits its length. -/
theorem validRequest_since {v : TopScoresRequest} (h : validRequest v = true) :
    v.since.length ≤ 0xFFFF := by
  simp only [validRequest, Bool.and_eq_true, decide_eq_true_eq] at h
  exact h.2.trans (by decide)

/-- `TopScoresRequest` keeps to its layout.

**Proof sketch.** `Encode` refuses an invalid request and otherwise writes the layout field by
field; `Decode` reads the same and checks what it has read. -/
theorem TopScoresRequest.coding : Coding maxPayloadBytes TopScoresRequest.encode
    TopScoresRequest.decode TopScoresRequest.layout id (fun v => validRequest v = true)
    TopScoresRequest.size := by
  refine .plain (fun v => ?_) (fun p => ?_) (fun v => ?_) ?_ ?_
  · by_cases hvalid : validRequest v = true
    · rw [TopScoresRequest.encode, if_neg (by simpa using hvalid)]
      refine Bounded.congr (Writer.Wrote.new.u32 _ |>.u8 _ |>.u8 _ |>.u8 _ |>.u8 _ |>.str _
        |>.finish) ?_ ?_
      · simp [hvalid, Nat.lt_succ_iff, validRequest_since hvalid]
      · simp [TopScoresRequest.layout]
    · rw [TopScoresRequest.encode, if_pos (by simpa using hvalid)]
      exact Bounded.refuse hvalid
  · refine Reads.run ?_ p
    rw [TopScoresRequest.layout, Layout.get_filter_map]
    exact .field .u32 fun _ => .field .u8 fun _ => .field .u8 fun _ => .field .u8 fun _ =>
      .field .u8 fun _ => .last .str fun _ => .check _ (.pure _)
  · simpa [TopScoresRequest.layout] using validRequest_since
  · simp [TopScoresRequest.layout, TopScoresRequest.size, strBytes]
    omega
  · simp [TopScoresRequest.size]

/-- The bytes of an entry. -/
def TopScoreEntry.size (e : TopScoreEntry) : ℕ :=
  11 + strBytes e.displayName + strBytes e.initials + strBytes e.created

/-- The layout of an entry. -/
def TopScoreEntry.layout : Layout TopScoreEntry :=
  (Layout.u16.pair <| Layout.u64.pair <| str.pair <| str.pair <| Layout.u8.pair str).map
    (fun p => ⟨p.1, p.2.1.toInt64, p.2.2.1, p.2.2.2.1, p.2.2.2.2.1, p.2.2.2.2.2⟩)
    (fun e => (e.rank, e.highScore.toUInt64, e.displayName, e.initials, e.flags, e.created))
    (by simp)

/-- The strings of an entry fit their lengths. -/
def TopScoreEntry.fits (e : TopScoreEntry) : Prop :=
  shortStrings [e.displayName, e.initials, e.created]

/-- The bytes a `TopScores` takes. -/
def TopScores.size (v : TopScores) : ℕ := 10 + (v.entries.map fun e => e.size).sum

/-- The layout of a `TopScores`, rules included. -/
def TopScores.layout : Layout TopScores :=
  ((Layout.u32.pair <| Layout.u8.pair <| Layout.u32.pair <|
    Layout.counted 1 TopScoreEntry.layout).map (fun (a, b, c, d) => ⟨a, b, c, d⟩)
    (fun v => (v.requestId, v.result, v.ageS, v.entries)) fun _ _ => rfl).filter validTopScores

/-- The entries of a valid answer are few, and their strings fit their lengths. -/
theorem validTopScores_entries {v : TopScores} (h : validTopScores v = true) :
    v.entries.length ≤ maxTopScores.toNat ∧ ∀ e ∈ v.entries, e.fits := by
  simp only [validTopScores, Bool.and_eq_true, Bool.not_eq_true', Bool.or_eq_false_iff,
    decide_eq_false_iff_not, gt_iff_lt, not_lt, List.all_eq_true] at h
  refine ⟨h.1.1.2, fun e he => ?_⟩
  obtain ⟨⟨hname, hinitials⟩, hcreated⟩ := h.2 e he
  simp only [TopScoreEntry.fits, shortStrings, List.forall_mem_cons, List.not_mem_nil,
    IsEmpty.forall_iff, implies_true, and_true]
  exact ⟨hname.trans (by decide), hinitials.trans (by decide), hcreated.trans (by decide)⟩

/-- An entry is written as its layout says. -/
theorem TopScoreEntry.wrote {w : Writer} {c : Prop} {b : Bytes} (e : TopScoreEntry)
    (h : Writer.Wrote w c b) :
    Writer.Wrote (TopScoreEntry.write w e) (c ∧ e.fits) (b ++ TopScoreEntry.layout.put e) := by
  have he := h.u16 e.rank |>.u64 e.highScore.toUInt64 |>.str e.displayName |>.str e.initials
    |>.u8 e.flags |>.str e.created
  simpa [TopScoreEntry.write, TopScoreEntry.fits, TopScoreEntry.layout, shortStrings, and_assoc,
    Nat.lt_succ_iff] using he

/-- An entry reads as its layout does. -/
theorem TopScoreEntry.reads : Reads TopScoreEntry.read TopScoreEntry.layout.get := by
  rw [TopScoreEntry.layout, Layout.get_map]
  exact .field .u16 fun _ => .field .u64 fun _ => .field .str fun _ => .field .str fun _ =>
    .field .u8 fun _ => .last .str fun _ => .pure _

/-- An entry is in the layout exactly if its strings fit. -/
theorem TopScoreEntry.valid_layout (e : TopScoreEntry) :
    TopScoreEntry.layout.valid e ↔ e.fits := by
  simp [TopScoreEntry.layout, TopScoreEntry.fits, shortStrings]

/-- `TopScores` keeps to its layout.

**Proof sketch.** `Encode` refuses invalid scores and otherwise writes the layout; `Decode` reads
the same, refuses a count that the bytes left cannot hold, and checks what it has read. -/
theorem TopScores.coding : Coding maxPayloadBytes TopScores.encode TopScores.decode
    TopScores.layout id (fun v => validTopScores v = true) TopScores.size := by
  refine .plain (fun v => ?_) (fun p => ?_) (fun v => ?_) (fun v => ?_) ?_
  · by_cases hvalid : validTopScores v = true
    · have h := (Writer.Wrote.new.u32 v.requestId |>.u8 v.result |>.u32 v.ageS).counted8
        (P := TopScoreEntry.fits) (g := TopScoreEntry.layout.put) v.entries
        fun e h => TopScoreEntry.wrote e h
      rw [TopScores.encode, if_neg (by simpa using hvalid)]
      refine h.finish.congr ?_ ?_
      · simp only [true_and, hvalid, iff_true]
        exact (validTopScores_entries hvalid).2
      · simp [TopScores.layout]
    · rw [TopScores.encode, if_pos (by simpa using hvalid)]
      exact Bounded.refuse hvalid
  · refine Reads.run ?_ p
    rw [TopScores.layout, Layout.get_filter_map]
    refine .field .u32 fun _ => .field .u8 fun _ => .field .u32 fun _ =>
      .dep .u8 Layout.le_get_u8 fun count =>
        .require (.last (.each TopScoreEntry.reads _) fun _ => .check _ (.pure _)) fun b v t h => ?_
    obtain ⟨⟨entries, u⟩, hget, hvalid⟩ := Option.bind_eq_some_iff.mp h
    obtain ⟨⟨hcount, -⟩, -⟩ := (Layout.vec _ _).put_get _ _ _ hget
    dsimp only at hvalid
    split_ifs at hvalid with hrule
    have hmax := (validTopScores_entries hrule).1
    simp only [hcount] at hmax
    simpa [UInt8.le_iff_toNat_le] using hmax
  · simp only [TopScores.layout, Layout.valid_filter, Layout.valid_map, Layout.valid_pair,
      Layout.valid_u32, Layout.valid_u8, Layout.valid_counted, TopScoreEntry.valid_layout, true_and,
      and_true, and_iff_right_iff_imp]
    intro h
    obtain ⟨hlen, hfits⟩ := validTopScores_entries h
    exact ⟨lt_of_le_of_lt hlen (by decide), hfits⟩
  · have hentry : ∀ e : TopScoreEntry, (TopScoreEntry.layout.put e).length = e.size := by
      intro e
      simp [TopScoreEntry.layout, TopScoreEntry.size, strBytes]
      omega
    simp [TopScores.layout, TopScores.size, hentry]
    omega
  · simp [TopScores.size]

/-! ## Players -/

/-- The bytes of a slot. -/
def PlayerSlot.size (s : PlayerSlot) : ℕ :=
  1 + strBytes s.playerId + strBytes s.preferredName + strBytes s.name + strBytes s.initials
    + strBytes s.claimDeeplink

/-- The layout of a slot. -/
def PlayerSlot.layout : Layout PlayerSlot :=
  (Layout.u8.pair <| str.pair <| str.pair <| str.pair <| str.pair str).map
    (fun (a, b, c, d, e, f) => ⟨a, b, c, d, e, f⟩)
    (fun s => (s.player, s.playerId, s.preferredName, s.name, s.initials, s.claimDeeplink))
    fun _ _ => rfl

/-- The strings of a slot fit their lengths. -/
def PlayerSlot.fits (s : PlayerSlot) : Prop :=
  shortStrings [s.playerId, s.preferredName, s.name, s.initials, s.claimDeeplink]

/-- The slots meet their rules, and the player ids, which no rule bounds, fit their lengths. -/
def Players.fits (v : Players) : Prop :=
  validPlayers v = true ∧ shortStrings (v.slots.map fun s => s.playerId)

/-- The bytes a `Players` takes. -/
def Players.size (v : Players) : ℕ := 1 + (v.slots.map fun s => s.size).sum

/-- The layout of a `Players`, rules included. -/
def Players.layout : Layout Players :=
  ((Layout.counted 1 PlayerSlot.layout).map (fun a => ⟨a⟩) (fun v => v.slots)
    fun _ _ => rfl).filter validPlayers

/-- The bounded strings of valid slots fit their lengths. -/
theorem validSlots_strings {last : UInt8} {slots : List PlayerSlot}
    (h : validSlots last slots = true) : ∀ s ∈ slots, s.preferredName.length ≤ 0xFFFF ∧
      s.name.length ≤ 0xFFFF ∧ s.initials.length ≤ 0xFFFF ∧ s.claimDeeplink.length ≤ 0xFFFF := by
  induction slots generalizing last with
  | nil => simp
  | cons s slots ih =>
    simp only [validSlots, Bool.and_eq_true, Bool.not_eq_true', Bool.or_eq_false_iff,
      decide_eq_false_iff_not, gt_iff_lt, not_lt] at h
    obtain ⟨⟨-, ⟨⟨hpreferred, hname⟩, hinitials⟩, hlink⟩, hrest⟩ := h
    rintro x (_ | ⟨_, hx⟩)
    · exact ⟨hpreferred.trans (by decide), hname.trans (by decide), hinitials.trans (by decide),
        hlink.trans (by decide)⟩
    · exact ih hrest x hx

/-- The slots of valid players are few, and their strings fit if the player ids do. -/
theorem validPlayers_slots {v : Players} (h : validPlayers v = true) :
    v.slots.length ≤ maxPlayers.toNat ∧
      ((∀ s ∈ v.slots, s.fits) ↔ shortStrings (v.slots.map fun s => s.playerId)) := by
  simp only [validPlayers, Bool.and_eq_true, Bool.not_eq_true', decide_eq_false_iff_not, gt_iff_lt,
    not_lt] at h
  refine ⟨h.1, ?_⟩
  simp only [shortStrings, List.forall_mem_map]
  refine forall₂_congr fun s hs => ?_
  have hstrings := validSlots_strings h.2 s hs
  simp [PlayerSlot.fits, shortStrings, hstrings]

/-- Recording where deeplinks go does not change what is written. -/
theorem PlayerSlot.foldl_write (slots : List PlayerSlot) (w : Writer) (spans : List SensitiveSpan) :
    (slots.foldl PlayerSlot.write (w, spans)).1 =
      w.each slots fun w s => (PlayerSlot.write (w, []) s).1 := by
  induction slots generalizing w spans with
  | nil => rfl
  | cons s slots ih =>
    rw [List.foldl_cons, Writer.each, List.foldl_cons]
    exact ih _ _

/-- A slot is written as its layout says. -/
theorem PlayerSlot.wrote {w : Writer} {c : Prop} {b : Bytes} (s : PlayerSlot)
    (h : Writer.Wrote w c b) :
    Writer.Wrote (PlayerSlot.write (w, []) s).1 (c ∧ s.fits) (b ++ PlayerSlot.layout.put s) := by
  have hs := h.u8 s.player |>.str s.playerId |>.str s.preferredName |>.str s.name |>.str s.initials
    |>.str s.claimDeeplink
  simpa [PlayerSlot.write, PlayerSlot.fits, PlayerSlot.layout, shortStrings, and_assoc,
    Nat.lt_succ_iff] using hs

/-- A slot is in the layout exactly if its strings fit. -/
theorem PlayerSlot.valid_layout (s : PlayerSlot) : PlayerSlot.layout.valid s ↔ s.fits := by
  simp [PlayerSlot.layout, PlayerSlot.fits, shortStrings]

/-- Without the position of its deeplink, a slot reads as its layout does. -/
theorem PlayerSlot.reads : Reads (Prod.fst <$> PlayerSlot.read) PlayerSlot.layout.get := by
  rw [PlayerSlot.layout, Layout.get_map]
  simp only [PlayerSlot.read, map_bind, map_pure]
  exact .field .u8 fun _ => .field .str fun _ => .field .str fun _ => .field .str fun _ =>
    .field .str fun _ => .position fun _ => .last .str fun _ => .pure _

/-- What `Encode` returns for valid players is what its writer holds. -/
theorem Players.encode_eq {v : Players} (h : validPlayers v = true) :
    v.encode = ((Writer.new.u8 (UInt8.ofNat v.slots.length)).each v.slots
      fun w s => (PlayerSlot.write (w, []) s).1).finish := by
  rw [← PlayerSlot.foldl_write _ _ []]
  simp only [Players.encode, Players.encodeSensitive, h, Bool.not_true, Bool.false_eq_true,
    if_false, Writer.finish]
  split_ifs <;> rfl

/-- `Decode` without the spans of the deeplinks. -/
theorem Players.decode_eq (payload : Bytes) : Players.decode payload = Reader.run (do
    let count ← Reader.u8
    Reader.require (count ≤ maxPlayers)
    let slots ← Reader.each (Prod.fst <$> PlayerSlot.read) count.toNat
    Reader.require (validPlayers { slots })
    return { slots }) payload := by
  rw [Players.decode, Players.decodeSensitive, Reads.run_map]
  simp only [map_bind, map_pure, ← Reads.map_each, bind_map_left]

/-- `Players` keeps to its layout.

**Proof sketch.** `Encode` refuses invalid players and otherwise writes the count and each slot;
`Decode` reads the same, refuses a count that the bytes left cannot hold, and checks what it has
read. -/
theorem Players.coding : Coding maxPayloadBytes Players.encode Players.decode Players.layout id
    Players.fits Players.size := by
  refine .plain (fun v => ?_) (fun p => ?_) (fun v => ?_) (fun v => ?_) ?_
  · by_cases hvalid : validPlayers v = true
    · have h := Writer.Wrote.new.counted8 (P := PlayerSlot.fits) (g := PlayerSlot.layout.put)
        v.slots fun s h => PlayerSlot.wrote s h
      rw [Players.encode_eq hvalid]
      refine h.finish.congr ?_ ?_
      · rw [Players.fits, true_and, (validPlayers_slots hvalid).2, and_iff_right hvalid]
      · simp [Players.layout]
    · have hnil : v.encode = [] := by
        simp only [Players.encode, Players.encodeSensitive, hvalid, Bool.not_false, if_true]
      rw [hnil]
      exact Bounded.refuse fun hfits => hvalid hfits.1
  · rw [Players.decode_eq]
    refine Reads.run ?_ p
    rw [Players.layout, Layout.get_filter_map]
    refine .dep .u8 Layout.le_get_u8 fun count =>
      .require (.last (.each PlayerSlot.reads _) fun _ => .check _ (.pure _)) fun b v t h => ?_
    obtain ⟨⟨slots, u⟩, hget, hvalid⟩ := Option.bind_eq_some_iff.mp h
    obtain ⟨⟨hcount, -⟩, -⟩ := (Layout.vec _ _).put_get _ _ _ hget
    dsimp only at hvalid
    split_ifs at hvalid with hrule
    have hmax := (validPlayers_slots hrule).1
    simp only [hcount] at hmax
    simpa [UInt8.le_iff_toNat_le] using hmax
  · simp only [Players.layout, Layout.valid_filter, Layout.valid_map, Layout.valid_counted,
      PlayerSlot.valid_layout, Players.fits, and_true]
    constructor
    · rintro ⟨⟨-, hfits⟩, hrule⟩
      exact ⟨hrule, (validPlayers_slots hrule).2.mp hfits⟩
    · rintro ⟨hrule, hids⟩
      obtain ⟨hlen, hfits⟩ := validPlayers_slots hrule
      exact ⟨⟨lt_of_le_of_lt hlen (by decide), hfits.mpr hids⟩, hrule⟩
  · have hslot : ∀ s : PlayerSlot, (PlayerSlot.layout.put s).length = s.size := by
      intro s
      simp [PlayerSlot.layout, PlayerSlot.size, strBytes]
      omega
    simp [Players.layout, Players.size, hslot]
  · simp [Players.size]

/-- The player is one of nine, and the strings fit their lengths. -/
def PlayerPicture.fits (v : PlayerPicture) : Prop :=
  validPicture v = true ∧ shortStrings [v.playerId, v.path]

/-- The bytes a `PlayerPicture` takes. -/
def PlayerPicture.size (v : PlayerPicture) : ℕ := 1 + strBytes v.playerId + strBytes v.path

/-- The layout of a `PlayerPicture`, rules included. -/
def PlayerPicture.layout : Layout PlayerPicture :=
  ((Layout.u8.pair <| str.pair str).map (fun (a, b, c) => ⟨a, b, c⟩)
    (fun v => (v.player, v.playerId, v.path)) fun _ _ => rfl).filter validPicture

/-- `Decode` without the span of the path. -/
theorem PlayerPicture.decode_eq (payload : Bytes) : PlayerPicture.decode payload = Reader.run (do
    let player ← Reader.u8
    let playerId ← Reader.str
    let _ ← Reader.position
    let path ← Reader.str
    Reader.require (validPicture { player, playerId, path })
    return { player, playerId, path }) payload := by
  rw [PlayerPicture.decode, PlayerPicture.decodeSensitive, Reads.run_map]
  simp only [map_bind, map_pure]

/-- `PlayerPicture` keeps to its layout.

**Proof sketch.** `Encode` refuses an invalid picture and otherwise writes the three fields;
`Decode` reads the same and checks what it has read. -/
theorem PlayerPicture.coding : Coding maxPayloadBytes PlayerPicture.encode PlayerPicture.decode
    PlayerPicture.layout id PlayerPicture.fits PlayerPicture.size := by
  refine .plain (fun v => ?_) (fun p => ?_) ?_ ?_ ?_
  · by_cases hvalid : validPicture v = true
    · have heq : v.encode =
          (Writer.new.u8 v.player |>.str v.playerId |>.str v.path |>.finish) := by
        simp only [PlayerPicture.encode, PlayerPicture.encodeSensitive, hvalid, Bool.not_true,
          Bool.false_eq_true, if_false, Writer.finish]
        split_ifs <;> rfl
      rw [heq]
      refine Bounded.congr (Writer.Wrote.new.u8 _ |>.str _ |>.str _ |>.finish) ?_ ?_
      · simp [PlayerPicture.fits, hvalid, shortStrings, Nat.lt_succ_iff]
      · simp [PlayerPicture.layout]
    · have hnil : v.encode = [] := by
        simp only [PlayerPicture.encode, PlayerPicture.encodeSensitive, hvalid, Bool.not_false,
          if_true]
      rw [hnil]
      exact Bounded.refuse fun hfits => hvalid hfits.1
  · rw [PlayerPicture.decode_eq]
    refine Reads.run ?_ p
    rw [PlayerPicture.layout, Layout.get_filter_map]
    exact .field .u8 fun _ => .field .str fun _ => .position fun _ =>
      .last .str fun _ => .check _ (.pure _)
  · simp [PlayerPicture.layout, PlayerPicture.fits, shortStrings, and_comm]
  · simp [PlayerPicture.layout, PlayerPicture.size, strBytes]
    omega
  · simp [PlayerPicture.size]

end Wire
