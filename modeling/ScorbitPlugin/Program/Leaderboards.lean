import ScorbitPlugin.Program.Refines
import ScorbitPlugin.Wire.GameLayouts
import ScorbitPlugin.Worker.Provenance

set_option relaxedAutoImplicit false
set_option autoImplicit false

/-!
# From a script's call to the result it reads

The program with what the script reads back. `NewEpoch` and `ClearScores` come with the source's
tags, `NoteRequest` with each id that `RequestTopScores` returns, and `Drain` takes what the worker
posted. So what the script's state is promised of the rest of the program is proved here, and a
result the script reads is traced to its call and to the message it came in.

The calls, and the messages the worker heard, are history. No function reads them.

## Main definitions

* `Program.Desk`, `Program.desk` — the program with the script's results, and its runs.
* `Program.Notes` — what the script's state knows of the requests.
* `Program.Desk.ReadsOwn` — what holds of the results a script reads.

## Main results

* `Program.Notes.follow`, `Program.Notes.note`, `Program.Notes.drain` — the script's state keeps
  what it knows.
* `Program.reads_own_calls` — it holds in every run.
-/

namespace Program

open Codec Source

/-! ## The program with the script's results -/

/-- The arguments of a call of `RequestTopScores`. -/
structure TopScoresCall where
  scope : Worker.ScriptNumber
  period : Worker.ScriptNumber
  vpinFilter : Worker.ScriptNumber
  limit : Worker.ScriptNumber
  since : Option Bytes := none
deriving DecidableEq, Repr

/-- The request the call makes, or the line that is logged. -/
def TopScoresCall.request (c : TopScoresCall) : Except String Wire.TopScoresRequest :=
  topScoresRequest c.scope c.period c.vpinFilter c.limit c.since

/-- A call that returned an id, with the source's tags. -/
structure Asked where
  call : TopScoresCall
  id : UInt32
  epoch : ℕ
  identity : ℕ
deriving DecidableEq, Repr

/-- The program with what the script reads back. -/
structure Desk where
  program : State
  log : Worker.ScoreLog := {}
  asked : List Asked := []
  heard : List Worker.Heard := []

/-- What can happen. -/
inductive DeskAct
  /-- A step of the program, but for the results. -/
  | act (a : Act)
  /-- `ScriptReadBack`: `Drain`, of what the latch holds and of the results in the channel, each
  with the time the worker had it. -/
  | drain (latch : Option Worker.PlayersPost) (results : List Worker.ScorePost) (now : ℤ)
  /-- `ReleaseTopScores`. -/
  | release (requestId : Worker.ScriptNumber)

/-- The script's state follows the source's tags: `NewEpoch` where the epoch was bumped, and
`ClearScores` where the identity was. -/
def follow (log : Worker.ScoreLog) (s s' : VpxSessionSource) : Worker.ScoreLog :=
  let log := if s'.epoch = s.epoch then log else log.step (.newEpoch s'.epoch)
  if s'.identity = s.identity then log else log.step .clearScores

namespace Desk

variable (d : Desk)

/-- The id that `RequestTopScores` returns, with its call; `none` where the call is ignored. -/
def returns : Act → Option Asked
  | .requestTopScores scope period vpinFilter limit since =>
    match topScoresRequest scope period vpinFilter limit since with
    | .ok request => some
        { call := ⟨scope, period, vpinFilter, limit, since⟩
          id := (d.program.worker.scores.channel.request d.program.trail.source.epoch request
            d.program.trail.source.identity).1
          epoch := d.program.trail.source.epoch
          identity := d.program.trail.source.identity }
    | .error _ => none
  | _ => none

/-- What the worker hears. -/
def hears : Act → List Worker.Heard
  | .worker a => d.program.seen.hears a
  | _ => []

/-- The script's state after a step of the program. -/
def logged (p : State) (a : Act) : Worker.ScoreLog :=
  let log := follow d.log d.program.trail.source p.trail.source
  match d.returns a with
  -- `ScriptRequestTopScores` notes the id
  | some asked => log.step (.noteRequest asked.id)
  | none => log

/-- A step of the program. -/
def after (p : State) (a : Act) : Desk where
  program := p
  log := d.logged p a
  asked := d.asked ++ (d.returns a).toList.filter (·.id != 0)
  heard := d.heard ++ d.hears a

/-- One step. -/
def step (platform : Platform) (cfg : Worker.Config) : DeskAct → Option Desk
  | .act .takeResults => none
  | .act a => (Program.step platform cfg d.program a).map fun p => d.after p a
  | .drain latch results now =>
    if results.map (·.toTopScoresPost) = d.program.worker.scores.channel.results then
      (Program.step platform cfg d.program .takeResults).map fun p =>
        { d with program := p, log := d.log.step (.drain latch results now) }
    else none
  | .release requestId => some { d with log := d.log.step (.release requestId) }

end Desk

/-- The program with the script's results, from its construction. -/
def desk (platform : Platform) (cfg : Worker.Config) : Runs.System Desk DeskAct :=
  .ofStep (fun d => ∃ seen, d = { program := start platform seen })
    (fun d a => d.step platform cfg a)

/-! ## What the script's state knows of the requests -/

/-- What is promised to the script's state keeps its results sound. -/
theorem scoresSound {log : Worker.ScoreLog}
    (h : Worker.scores.Reaches Worker.ScoreLog.WellPosted log) : Worker.ScoresSound log := by
  refine h.invariant (I := Worker.ScoresSound) ?_ ?_
  · rintro log rfl
    exact .start
  · intro log a log' hs ha hstep
    obtain rfl := Option.some.inj hstep
    exact hs.step ha

/-- A step that is promised. -/
theorem promised_step {log : Worker.ScoreLog}
    (h : Worker.scores.Reaches Worker.ScoreLog.WellPosted log) (a : Worker.ScoreAct)
    (ha : log.WellPosted a) : Worker.scores.Reaches Worker.ScoreLog.WellPosted (log.step a) :=
  .step h ha rfl

/-- What the script's state knows of the requests that got an id, under the source's tags. -/
structure Notes (log : Worker.ScoreLog) (handed : List Worker.TopScoresAsk)
    (epoch identity : ℕ) : Prop where
  promised : Worker.scores.Reaches Worker.ScoreLog.WellPosted log
  current : log.state.epoch = epoch
  ids : handed.map (·.id.toNat) = List.range' 1 handed.length
  last : log.state.lastRequest.toNat = handed.length
  noted : ∀ ask ∈ handed, .noted ask.id ask.epoch ∈ log.marks
  bound : ∀ ask ∈ handed, ask.epoch ≤ epoch ∧ ask.identity ≤ identity
  /-- Of this epoch's requests, those of this identity are above the floor. -/
  floor : ∀ ask ∈ handed, ask.epoch = epoch →
    (ask.identity = identity ↔ log.state.clearedThrough < ask.id)

namespace Notes

variable {log : Worker.ScoreLog} {handed : List Worker.TopScoresAsk} {epoch identity : ℕ}

/-- The ids are counted up from one. -/
theorem mem_ids (h : Notes log handed epoch identity) {ask : Worker.TopScoresAsk}
    (hask : ask ∈ handed) : 1 ≤ ask.id.toNat ∧ ask.id.toNat < 1 + handed.length := by
  refine List.mem_range'_1.mp ?_
  rw [← h.ids]
  exact List.mem_map_of_mem (f := fun ask : Worker.TopScoresAsk => ask.id.toNat) hask

/-- No id is zero. -/
theorem id_pos (h : Notes log handed epoch identity) {ask : Worker.TopScoresAsk}
    (hask : ask ∈ handed) : 0 < ask.id.toNat :=
  (h.mem_ids hask).1

/-- No id is above the last one. -/
theorem le_last (h : Notes log handed epoch identity) {ask : Worker.TopScoresAsk}
    (hask : ask ∈ handed) : ask.id ≤ log.state.lastRequest := by
  have hlt := (h.mem_ids hask).2
  rw [UInt32.le_iff_toNat_le, h.last]
  omega

/-- `NewEpoch`: no request is of the new epoch. -/
theorem newEpoch (h : Notes log handed epoch identity) {epoch' : ℕ} (hlt : epoch < epoch') :
    Notes (log.step (.newEpoch epoch')) handed epoch' identity where
  promised := promised_step h.promised (.newEpoch epoch')
    (show log.state.epoch < epoch' from h.current ▸ hlt)
  current := rfl
  ids := h.ids
  last := h.last
  noted ask hask := List.mem_cons_of_mem _ (h.noted ask hask)
  bound ask hask := ⟨(h.bound ask hask).1.trans hlt.le, (h.bound ask hask).2⟩
  floor ask hask heq := by
    have hle := (h.bound ask hask).1
    omega

/-- `ClearScores`: no request is of the new identity, nor above the last id. -/
theorem clearScores (h : Notes log handed epoch identity) {identity' : ℕ}
    (hlt : identity < identity') : Notes (log.step .clearScores) handed epoch identity' where
  promised := promised_step h.promised .clearScores trivial
  current := h.current
  ids := h.ids
  last := h.last
  noted ask hask := List.mem_cons_of_mem _ (h.noted ask hask)
  bound ask hask := ⟨(h.bound ask hask).1, (h.bound ask hask).2.trans hlt.le⟩
  floor ask hask _ := by
    have hle := (h.bound ask hask).2
    constructor
    · intro heq
      omega
    · intro hfloor
      have hfloor : log.state.lastRequest < ask.id := hfloor
      exact absurd (UInt32.lt_of_lt_of_le hfloor (h.le_last hask)) (UInt32.lt_irrefl _)

/-- The script's state follows the source's tags, which only grow. -/
theorem follow {s s' : VpxSessionSource} (h : Notes log handed s.epoch s.identity)
    (hepoch : s.epoch ≤ s'.epoch) (hidentity : s.identity ≤ s'.identity) :
    Notes (Program.follow log s s') handed s'.epoch s'.identity := by
  have hnew : Notes (if s'.epoch = s.epoch then log else log.step (.newEpoch s'.epoch)) handed
      s'.epoch s.identity := by
    split
    · rename_i heq
      rw [heq]
      exact h
    · exact h.newEpoch (by omega)
  unfold Program.follow
  dsimp only
  split
  · rename_i heq
    rw [heq]
    exact hnew
  · exact hnew.clearScores (by omega)

/-- `NoteRequest`: the next id is noted.

**Proof sketch.** The id is the number of requests so far, so below 2^31 it is not 0 and above those
noted; what the log promises of a note holds, and the rest of the log is as it was. -/
theorem note (h : Notes log handed epoch identity) (hfew : handed.length + 1 < 2 ^ 31)
    {ask : Worker.TopScoresAsk} (hid : ask.id.toNat = handed.length + 1)
    (hepoch : ask.epoch = epoch) (hidentity : ask.identity = identity) :
    Notes (log.step (.noteRequest ask.id)) (handed ++ [ask]) epoch identity := by
  have hzero : ask.id ≠ 0 := by
    intro hzero
    rw [hzero] at hid
    simp at hid
  have hlast : log.state.lastRequest < ask.id := by
    rw [UInt32.lt_iff_toNat_lt, h.last, hid]
    omega
  have hstep : log.step (.noteRequest ask.id) =
      ⟨{ log.state with lastRequest := ask.id }, .noted ask.id log.state.epoch :: log.marks⟩ := by
    simp [Worker.ScoreLog.step, Worker.ScriptState.noteRequest, hzero]
  have hpromise : log.WellPosted (.noteRequest ask.id) := .inr ⟨hlast, by omega⟩
  have hpromised := promised_step h.promised _ hpromise
  have hsound : log.state.clearedThrough ≤ log.state.lastRequest :=
    (scoresSound h.promised).noted.floor
  rw [hstep] at hpromised ⊢
  refine ⟨hpromised, h.current, ?_, ?_, fun ask' hask' => ?_, fun ask' hask' => ?_,
    fun ask' hask' heq => ?_⟩
  · rw [List.map_append, h.ids, List.length_append, List.length_singleton, List.range'_concat]
    simp [hid, Nat.add_comm]
  · show ask.id.toNat = _
    rw [hid, List.length_append, List.length_singleton]
  · rcases List.mem_append.mp hask' with hold | hnew
    · exact List.mem_cons_of_mem _ (h.noted ask' hold)
    · obtain rfl := List.mem_singleton.mp hnew
      rw [h.current, hepoch]
      exact List.mem_cons_self
  · rcases List.mem_append.mp hask' with hold | hnew
    · exact h.bound ask' hold
    · obtain rfl := List.mem_singleton.mp hnew
      exact ⟨hepoch.le, hidentity.le⟩
  · rcases List.mem_append.mp hask' with hold | hnew
    · exact h.floor ask' hold heq
    · obtain rfl := List.mem_singleton.mp hnew
      exact ⟨fun _ => UInt32.lt_of_le_of_lt hsound hlast, fun _ => hidentity⟩

/-- `Release` forgets no request. -/
theorem release (h : Notes log handed epoch identity) (requestId : Worker.ScriptNumber) :
    Notes (log.step (.release requestId)) handed epoch identity := by
  have hmarks : ∀ m ∈ log.marks, m ∈ (log.step (.release requestId)).marks := by
    intro m hm
    simp only [Worker.ScoreLog.step]
    split
    · exact List.mem_cons_of_mem _ hm
    · exact hm
  have hstate : (log.step (.release requestId)).state.epoch = log.state.epoch ∧
      (log.step (.release requestId)).state.lastRequest = log.state.lastRequest ∧
      (log.step (.release requestId)).state.clearedThrough = log.state.clearedThrough := by
    simp only [Worker.ScoreLog.step, Worker.ScriptState.release]
    split <;> exact ⟨rfl, rfl, rfl⟩
  obtain ⟨hepoch, hlast, hfloor⟩ := hstate
  refine ⟨promised_step h.promised (.release requestId) trivial, hepoch.trans h.current, h.ids, ?_,
    fun ask hask => hmarks _ (h.noted ask hask), h.bound, ?_⟩
  · rw [hlast]
    exact h.last
  · rw [hfloor]
    exact h.floor

/-- `Drain` takes results of requests that got an id. -/
theorem drain (h : Notes log handed epoch identity) (latch : Option Worker.PlayersPost)
    {results : List Worker.ScorePost} (now : ℤ)
    (hasked : ∀ post ∈ results, ∃ ask ∈ handed, ask.key = post.toTopScoresPost.key) :
    Notes (log.step (.drain latch results now)) handed epoch identity where
  promised := by
    refine promised_step h.promised (.drain latch results now) fun post hpost => ?_
    obtain ⟨ask, hask, hkey⟩ := hasked post hpost
    obtain ⟨hid, hepoch⟩ := Prod.mk.inj hkey
    have hnoted := h.noted ask hask
    rw [hid, hepoch] at hnoted
    exact hnoted
  current := (log.state.epoch_drain latch results now).trans h.current
  ids := h.ids
  last := h.last
  noted ask hask := List.mem_append_right _ (h.noted ask hask)
  bound := h.bound
  floor := h.floor

end Notes

/-! ## The requests of a script -/

/-- What `ScriptIndex` takes is a whole number in the range.

**Proof sketch.** The number is whole and within the bounds, which fit 32 bits, so the conversion
keeps it. -/
theorem scriptIndex_eq_some {v : Worker.ScriptNumber} {lo hi : ℤ} {i : UInt32} (hlo : 0 ≤ lo)
    (hhi : hi < 2 ^ 32) (h : Worker.scriptIndex v lo hi = some i) :
    v = .whole i.toNat ∧ lo ≤ i.toNat ∧ (i.toNat : ℤ) ≤ hi := by
  cases v with
  | other => cases h
  | whole n =>
    simp only [Worker.scriptIndex] at h
    split at h
    · cases h
    · rename_i hrange
      obtain rfl := Option.some.inj h
      have hnat : (UInt32.ofNat n.toNat).toNat = n.toNat :=
        UInt32.toNat_ofNat_of_lt' (by simp [UInt32.size]; omega)
      rw [hnat]
      refine ⟨congrArg _ ?_, ?_, ?_⟩ <;> omega

/-- A small index as a byte. -/
theorem toUInt8_le {i : UInt32} {bound : UInt8} (h : (i.toNat : ℤ) ≤ bound.toNat) :
    i.toUInt8 ≤ bound := by
  rw [UInt8.le_iff_toNat_le, UInt32.toNat_toUInt8]
  exact (Nat.mod_le _ _).trans (by omega)

/-- **A request that a script makes is one the daemon reads**, whatever its id.

**Proof sketch.** The request was checked by the script's call, so its scope, period, filter and
limit are ones that `Encode` accepts and its text is short enough. The id is not looked at. -/
theorem decode_request {call : TopScoresCall} {request : Wire.TopScoresRequest}
    (h : call.request = .ok request) (id : UInt32) :
    Wire.TopScoresRequest.decode ({ request with requestId := id } : Wire.TopScoresRequest).encode =
      some { request with requestId := id } := by
  have hvalid : Wire.validRequest { request with requestId := id } = true := by
    unfold TopScoresCall.request topScoresRequest at h
    split at h
    · rename_i scope period vpinFilter limit hscope hperiod hfilter hlimit
      obtain ⟨-, -, hscope⟩ := scriptIndex_eq_some le_rfl (by decide) hscope
      obtain ⟨-, -, hperiod⟩ := scriptIndex_eq_some le_rfl (by decide) hperiod
      obtain ⟨-, -, hfilter⟩ := scriptIndex_eq_some le_rfl (by decide) hfilter
      obtain ⟨-, hone, hlimit⟩ := scriptIndex_eq_some (by decide) (by decide) hlimit
      split at h
      · cases h
      · rename_i hsince
        obtain rfl := Except.ok.inj h
        have hmax : limit.toNat ≤ 20 := by
          have hmax : (limit.toNat : ℤ) ≤ 20 := hlimit
          omega
        have hlimit' : (1 : UInt8) ≤ limit.toUInt8 := by
          rw [UInt8.le_iff_toNat_le, UInt32.toNat_toUInt8, Nat.mod_eq_of_lt (by omega)]
          show 1 ≤ limit.toNat
          omega
        simp only [Wire.validRequest, Bool.and_eq_true, decide_eq_true_eq]
        exact ⟨⟨⟨⟨⟨toUInt8_le hscope, toUInt8_le hperiod⟩, toUInt8_le hfilter⟩, hlimit'⟩,
          toUInt8_le hlimit⟩, not_lt.mp hsince⟩
    · cases h
  refine Wire.TopScoresRequest.coding.decode_encode ?_
  rw [Ne, Wire.TopScoresRequest.coding.encode_eq_nil_iff, not_not]
  refine ⟨hvalid, ?_⟩
  have hsince : request.since.length ≤ 32 := by
    simp only [Wire.validRequest, Bool.and_eq_true, decide_eq_true_eq] at hvalid
    exact hvalid.2
  show 8 + (2 + request.since.length) ≤ Wire.maxPayloadBytes
  exact (by omega : _ ≤ 42).trans (by decide)

/-! ## The program's steps -/

section Steps

variable {platform : Platform} {cfg : Worker.Config} {p p' : State} {d d' : Desk}

/-- What a step of the program does to the worker and to the source's tags. -/
inductive Kind (cfg : Worker.Config) (p : State) (a : Act) (p' : State) : Prop
  /-- The API thread: the worker stays, and the tags grow. -/
  | api (worker : p'.worker = p.worker)
      (posted : p.trail.source.posted.upTo p'.trail.source.posted)
      (quiet : ∀ d : Desk, d.returns a = none ∧ d.hears a = [])
  /-- The script asks for a leaderboard. -/
  | asked (call : TopScoresCall) (request : Wire.TopScoresRequest)
      (act : a = .requestTopScores call.scope call.period call.vpinFilter call.limit call.since)
      (ok : call.request = .ok request)
      (step : Worker.step cfg p.seen (.request p.trail.source.epoch request
        p.trail.source.identity) = some p'.seen)
      (scores : p'.worker.scores = p.worker.scores.request p.trail.source.epoch request
        p.trail.source.identity)
      (trail : p'.trail = p.trail)
  /-- The script takes the results. -/
  | took (act : a = .takeResults) (step : Worker.step cfg p.seen .takeResults = some p'.seen)
      (trail : p'.trail = p.trail)
  /-- The worker. -/
  | worker (b : Worker.Act) (act : a = .worker b) (own : ofWorker b = true)
      (step : Worker.step cfg p.seen b = some p'.seen) (trail : p'.trail = p.trail)

/-- An event posts no older declaration. -/
theorem posted_api (h : p.Sound) (e : Event) :
    p.trail.source.posted.upTo (p.api platform e).trail.source.posted := by
  show p.trail.source.posted.upTo (p.trail.step platform e).source.posted
  rcases emits platform h.tagged e with ⟨-, hp, -⟩ | ⟨d, -, hp, -, hle⟩ | ⟨calls, -, hp, -⟩
  · rw [hp]
    exact .refl _
  · rw [hp]
    exact hle
  · rw [hp]
    exact .refl _

/-- A script's call posts no declaration. -/
theorem posted_script (h : p.Sound) (c : ScriptCall) :
    p.trail.source.posted.upTo (p.script platform c).trail.source.posted := by
  have hbuffer : p.trail.source.posted = (p.buffer platform c).trail.source.posted :=
    congrArg (fun w : Worker.State => w.path.source.inForce) (seen_buffer platform h c).symm
  unfold State.script
  rw [hbuffer]
  split
  · exact posted_api (h.buffer c) .scriptCommit
  · exact .refl _

/-- A script's call leaves the worker. -/
theorem worker_script (p : State) (c : ScriptCall) : (p.script platform c).worker = p.worker := by
  unfold State.script State.buffer
  dsimp only
  split <;> split <;> rfl

/-- Every step is of a kind.

**Proof sketch.** By the step: API events and the script's calls leave the scores, a request makes
one that is valid or reports an error, taking results takes them, and the rest are steps of the
worker's own. -/
theorem step_kind (h : p.Sound) {a : Act} (hs : Program.step platform cfg p a = some p') :
    Kind cfg p a p' := by
  cases a with
  | host e =>
    obtain rfl := Option.some.inj hs
    exact .api rfl (posted_api h _) fun _ => ⟨rfl, rfl⟩
  | declare machineId seen =>
    obtain rfl := Option.some.inj hs
    exact .api rfl (posted_api h _) fun _ => ⟨rfl, rfl⟩
  | script c =>
    obtain rfl := Option.some.inj hs
    exact .api (worker_script p c) (posted_script h c) fun _ => ⟨rfl, rfl⟩
  | requestTopScores scope period vpinFilter limit since =>
    simp only [Program.step] at hs
    split at hs
    · rename_i request hrequest
      obtain ⟨w, hw, rfl⟩ := Option.map_eq_some_iff.mp hs
      obtain rfl := Option.some.inj hw
      exact .asked ⟨scope, period, vpinFilter, limit, since⟩ request rfl hrequest rfl rfl rfl
    · rename_i why hrequest
      obtain rfl := Option.some.inj hs
      refine .api rfl (.refl _) fun d => ⟨?_, rfl⟩
      simp only [Desk.returns, hrequest]
  | takeResults =>
    simp only [Program.step] at hs
    obtain ⟨w, hw, rfl⟩ := Option.map_eq_some_iff.mp hs
    obtain rfl := Option.some.inj hw
    exact .took rfl rfl rfl
  | worker b =>
    obtain ⟨hb, hs⟩ := Option.ite_none_right_eq_some.mp hs
    obtain ⟨w, hw, rfl⟩ := Option.map_eq_some_iff.mp hs
    refine .worker b rfl hb ?_ rfl
    rw [seen_wrote (ownStep hb hw)]
    exact hw

/-- No step takes back an id. -/
theorem handed_step (h : p.Sound) {a : Act} (hs : Program.step platform cfg p a = some p') :
    p.worker.scores.ledger.handed <+: p'.worker.scores.ledger.handed := by
  have hstep : ∀ b, Worker.step cfg p.seen b = some p'.seen →
      p.seen.scores.ledger.handed <+: p'.seen.scores.ledger.handed :=
    fun b hb => (Worker.step_scores hb).moves.handed
  rcases step_kind h hs with ⟨hworker, -, -⟩ | ⟨call, request, -, -, hb, -⟩ | ⟨-, hb, -⟩ |
    ⟨b, -, -, hb, -⟩
  · rw [hworker]
  · exact hstep _ hb
  · exact hstep _ hb
  · exact hstep _ hb

/-- What the worker's system proves of a state of the program. -/
theorem worker_facts (h : (system platform cfg).Reachable p) (hf : p.worker.scores.Few) :
    p.Sound ∧ Worker.Accounted cfg p.seen ∧ p.seen.path.Linked ∧ p.seen.path.Declared := by
  have hlasting : Lasting fun _ => True := fun _ _ _ _ _ _ => trivial
  obtain ⟨w, hw, hsound, rfl⟩ := (refinement platform cfg hlasting).reaches
    (h.mono fun _ _ _ => trivial) trivial
  have hpath : Worker.GamePath.system.Reaches (fun _ _ => True) p.seen.path :=
    (Worker.simulation cfg fun _ _ => True).reaches (hw.mono fun _ _ _ _ _ => trivial)
  have hsorted := Worker.GamePath.sorted hpath
  exact ⟨hsound, Worker.accounted hw hf, hsorted.linked, hsorted.declared⟩

/-- A step of the desk: the program's, a `Drain` or a `Release`. -/
theorem step_cases {a : DeskAct} (h : d.step platform cfg a = some d') :
    (∃ act p, act ≠ .takeResults ∧ Program.step platform cfg d.program act = some p ∧
      d' = d.after p act) ∨
    (∃ latch results now p,
      results.map (·.toTopScoresPost) = d.program.worker.scores.channel.results ∧
      Program.step platform cfg d.program .takeResults = some p ∧
      d' = { d with program := p, log := d.log.step (.drain latch results now) }) ∨
    ∃ requestId, d' = { d with log := d.log.step (.release requestId) } := by
  unfold Desk.step at h
  split at h
  · cases h
  · rename_i act hact
    obtain ⟨p, hp, rfl⟩ := Option.map_eq_some_iff.mp h
    exact .inl ⟨act, p, hact, hp, rfl⟩
  · rename_i latch results now
    obtain ⟨hresults, h⟩ := Option.ite_none_right_eq_some.mp h
    obtain ⟨p, hp, rfl⟩ := Option.map_eq_some_iff.mp h
    exact .inr (.inl ⟨latch, results, now, p, hresults, hp, rfl⟩)
  · rename_i requestId
    exact .inr (.inr ⟨requestId, (Option.some.inj h).symm⟩)

/-- A run with the script's results is a run of the program. -/
theorem program_reachable (h : (desk platform cfg).Reachable d) :
    (system platform cfg).Reachable d.program := by
  induction h with
  | init hinit =>
    obtain ⟨seen, rfl⟩ := hinit
    exact .init ⟨seen, rfl⟩
  | step _ _ hs ih =>
    rcases step_cases hs with ⟨act, p, -, hp, rfl⟩ | ⟨latch, results, now, p, -, hp, rfl⟩ |
      ⟨requestId, rfl⟩
    · exact .step ih trivial hp
    · exact .step ih trivial hp
    · exact ih

end Steps

/-! ## The invariant -/

/-- A request is what its call asked for, under the id and the tags of the call. -/
structure Asked.Made (asked : Asked) (ask : Worker.TopScoresAsk) : Prop where
  id : ask.id = asked.id
  epoch : ask.epoch = asked.epoch
  identity : ask.identity = asked.identity
  request : ∃ request, asked.call.request = .ok request ∧
    ask.request = { request with requestId := asked.id }

/-- What holds in every state: the worker knows where the results come from, the script's state
knows the requests, these are what was asked, and what the script keeps has a source. -/
structure Desk.Sound (d : Desk) : Prop where
  sourced : Worker.Sourced d.program.seen d.heard
  notes : Notes d.log d.program.worker.scores.ledger.handed d.program.trail.source.epoch
    d.program.trail.source.identity
  made : List.Forall₂ Asked.Made d.asked d.program.worker.scores.ledger.handed
  kept : ∀ e ∈ d.log.state.scores, d.program.seen.Sources d.heard e.post.toTopScoresPost ∧
    ∃ ask ∈ d.program.worker.scores.ledger.handed, ask.key = e.post.toTopScoresPost.key

section Invariant

variable {platform : Platform} {cfg : Worker.Config} {p : State} {d d' : Desk}

/-- The tags of the source grow with what it posts. -/
theorem tags_le {t t' : Trail} (h : Tagged t) (h' : Tagged t')
    (hle : t.source.posted.upTo t'.source.posted) :
    t.source.epoch ≤ t'.source.epoch ∧ t.source.identity ≤ t'.source.identity := by
  rw [← h.epoch, ← h.identity, ← h'.epoch, ← h'.identity]
  exact hle

/-- Only what was kept is kept after the tags are followed. -/
theorem mem_follow {log : Worker.ScoreLog} {s s' : VpxSessionSource} {e : Worker.ScoreEntry}
    (he : e ∈ (follow log s s').state.scores) : e ∈ log.state.scores := by
  have hnew : ∀ e ∈ (if s'.epoch = s.epoch then log else
      log.step (.newEpoch s'.epoch)).state.scores, e ∈ log.state.scores := by
    intro e he
    split at he
    · exact he
    · cases he
  unfold follow at he
  dsimp only at he
  split at he
  · exact hnew e he
  · cases he

/-- What the script keeps stays sourced. -/
theorem Desk.Sound.kept_mono (h : d.Sound) {more : List Worker.Heard}
    (hhanded : d.program.seen.scores.ledger.handed <+: p.seen.scores.ledger.handed)
    (hforce : d.program.seen.path.source.inForce.upTo p.seen.path.source.inForce)
    {e : Worker.ScoreEntry} (he : e ∈ d.log.state.scores) :
    p.seen.Sources (d.heard ++ more) e.post.toTopScoresPost ∧
      ∃ ask ∈ p.worker.scores.ledger.handed, ask.key = e.post.toTopScoresPost.key := by
  obtain ⟨hsource, ask, hask, hkey⟩ := h.kept e he
  exact ⟨hsource.mono hhanded hforce more, ask, hhanded.subset hask, hkey⟩

/-- Nothing changes of the tags. -/
theorem follow_self (log : Worker.ScoreLog) (s : VpxSessionSource) : follow log s s = log := by
  simp [follow]

/-- A call returns no id and leaves the requests, or the next one with which it is made. -/
theorem request_handed {s : Worker.Scores} (hid : s.channel.nextId ≠ 0) (epoch : ℕ)
    (request : Wire.TopScoresRequest) (identity : ℕ) :
    (s.channel.request epoch request identity).1 = 0 ∧ s.request epoch request identity = s ∨
      (s.channel.request epoch request identity).1 = s.channel.nextId ∧
        (s.request epoch request identity).ledger.handed = s.ledger.handed ++
          [⟨epoch, identity, { request with requestId := s.channel.nextId }⟩] := by
  by_cases hc : (!s.channel.leaderboards || s.channel.requests.length ≥ Worker.maxQueued) = true
  · left
    simp [Worker.Scores.request, Worker.ReadBackChannel.request, hc]
  · right
    simp only [Worker.Scores.request, Worker.ReadBackChannel.request, if_neg hc, if_neg hid,
      and_self]

/-- The script asks for a leaderboard.

**Proof sketch.** What was asked is handed to the channel under the next id, with the epoch and
identity of the source, and noted under the same. The results that wait are as before, and the
declared table only moves on. -/
theorem Desk.Sound.asked (h : d.Sound) (hacc : Worker.Accounted cfg d.program.seen)
    (hlinked : d.program.seen.path.Linked) (hdeclared : d.program.seen.path.Declared)
    {call : TopScoresCall} {request : Wire.TopScoresRequest} (hok : call.request = .ok request)
    (hstep : Worker.step cfg d.program.seen (.request d.program.trail.source.epoch request
      d.program.trail.source.identity) = some p.seen)
    (hscores : p.worker.scores = d.program.worker.scores.request d.program.trail.source.epoch
      request d.program.trail.source.identity)
    (htrail : p.trail = d.program.trail) (hf : p.worker.scores.Few) :
    (d.after p (.requestTopScores call.scope call.period call.vpinFilter call.limit
      call.since)).Sound := by
  have hforce : d.program.seen.path.source.inForce.upTo p.seen.path.source.inForce := by
    show d.program.trail.source.posted.upTo p.trail.source.posted
    rw [htrail]
    exact .refl _
  have hsourced := h.sourced.step hacc hlinked hdeclared hstep hforce
  have hhanded : d.program.seen.scores.ledger.handed <+: p.seen.scores.ledger.handed :=
    (Worker.step_scores hstep).moves.handed
  let asked : Asked :=
    { call
      id := (d.program.worker.scores.channel.request d.program.trail.source.epoch request
        d.program.trail.source.identity).1
      epoch := d.program.trail.source.epoch
      identity := d.program.trail.source.identity }
  have hreturns : d.returns (.requestTopScores call.scope call.period call.vpinFilter call.limit
      call.since) = some asked := by
    have hok : topScoresRequest call.scope call.period call.vpinFilter call.limit call.since =
        .ok request := hok
    simp only [Desk.returns, hok]
    rfl
  have hlog : d.logged p (.requestTopScores call.scope call.period call.vpinFilter call.limit
      call.since) = d.log.step (.noteRequest asked.id) := by
    simp only [Desk.logged, hreturns, htrail, follow_self]
  have hkept : ∀ e ∈ (d.log.step (.noteRequest asked.id)).state.scores,
      e ∈ d.log.state.scores := by
    intro e he
    simp only [Worker.ScoreLog.step, Worker.ScriptState.noteRequest] at he
    split at he <;> exact he
  have hnumbered := hacc.conserved.numbered
  have hboth : Notes (d.log.step (.noteRequest asked.id)) p.worker.scores.ledger.handed
      p.trail.source.epoch p.trail.source.identity ∧
        List.Forall₂ Asked.Made (d.asked ++ [asked].filter (·.id != 0))
          p.worker.scores.ledger.handed := by
    rw [htrail]
    rcases request_handed hnumbered.nextId_ne_zero d.program.trail.source.epoch request
      d.program.trail.source.identity with ⟨hid, heq⟩ | ⟨hid, hnext⟩
    · have hid : asked.id = 0 := hid
      have heq : p.worker.scores = d.program.worker.scores := hscores.trans heq
      have hsame : d.log.step (.noteRequest asked.id) = d.log := by
        simp [Worker.ScoreLog.step, Worker.ScriptState.noteRequest, hid]
      have hnone : [asked].filter (·.id != 0) = [] := by simp [hid]
      rw [hsame, heq, hnone, List.append_nil]
      exact ⟨h.notes, h.made⟩
    · have hid : asked.id = d.program.worker.scores.channel.nextId := hid
      let ask : Worker.TopScoresAsk :=
        ⟨d.program.trail.source.epoch, d.program.trail.source.identity,
          { request with requestId := asked.id }⟩
      have hnext : p.worker.scores.ledger.handed =
          d.program.worker.scores.ledger.handed ++ [ask] := by
        have hask : ask = ⟨d.program.trail.source.epoch, d.program.trail.source.identity,
            { request with requestId := d.program.worker.scores.channel.nextId }⟩ := by
          rw [← hid]
        rw [hscores, hask]
        exact hnext
      have hone : [asked].filter (·.id != 0) = [asked] := by
        have hzero : asked.id ≠ 0 := hid ▸ hnumbered.nextId_ne_zero
        simp [hzero]
      have hfew : p.worker.scores.ledger.handed.length < 2 ^ 31 - 1 := hf
      rw [hnext, List.length_append, List.length_singleton] at hfew
      have hnextId : ask.id.toNat = d.program.worker.scores.ledger.handed.length + 1 := by
        show asked.id.toNat = _
        rw [hid]
        exact hnumbered.nextId
      have hmade : Asked.Made asked ask := ⟨rfl, rfl, rfl, request, hok, rfl⟩
      rw [hnext, hone]
      exact ⟨h.notes.note (by omega) hnextId rfl rfl, List.rel_append h.made (.cons hmade .nil)⟩
  refine ⟨hsourced, ?_, ?_, fun e he => ?_⟩
  · show Notes (d.logged p _) _ _ _
    rw [hlog]
    exact hboth.1
  · show List.Forall₂ Asked.Made (d.asked ++ _) _
    rw [hreturns]
    exact hboth.2
  · have he : e ∈ (d.logged p _).state.scores := he
    rw [hlog] at he
    exact h.kept_mono hhanded hforce (hkept e he)

/-- A step of the program but for the results.

**Proof sketch.** By the kind of the step. An API event may begin another epoch or identity, which
the log follows; a request is `Desk.Sound.asked`; a worker's step hands over nothing and hears only
what was asked. -/
theorem Desk.Sound.after (h : d.Sound) (hp : d.program.Sound)
    (hacc : Worker.Accounted cfg d.program.seen) (hlinked : d.program.seen.path.Linked)
    (hdeclared : d.program.seen.path.Declared) {a : Act} (hne : a ≠ .takeResults)
    (hs : Program.step platform cfg d.program a = some p) (hf : p.worker.scores.Few) :
    (d.after p a).Sound := by
  have hp' : p.Sound := hp.step hs
  rcases step_kind hp hs with ⟨hworker, hposted, hquiet⟩ | ⟨call, request, rfl, hok, hstep, hscores,
    htrail⟩ | ⟨rfl, -, -⟩ | ⟨b, rfl, hown, hstep, htrail⟩
  · obtain ⟨hreturns, hhears⟩ := hquiet d
    obtain ⟨hepoch, hidentity⟩ := tags_le hp.tagged hp'.tagged hposted
    have hlog : d.logged p a = follow d.log d.program.trail.source p.trail.source := by
      simp only [Desk.logged, hreturns]
    refine ⟨?_, ?_, ?_, fun e he => ?_⟩
    · show Worker.Sourced p.seen (d.heard ++ d.hears a)
      rw [hhears, List.append_nil]
      have hscores : p.seen.scores = d.program.seen.scores := by
        show p.worker.scores = d.program.worker.scores
        rw [hworker]
      have hlink : p.seen.path.link = d.program.seen.path.link := by
        show p.worker.path.link = d.program.worker.path.link
        rw [hworker]
      exact h.sourced.frame hscores hlink hposted
    · show Notes (d.logged p a) p.worker.scores.ledger.handed _ _
      rw [hlog, hworker]
      exact h.notes.follow hepoch hidentity
    · show List.Forall₂ Asked.Made (d.asked ++ _) p.worker.scores.ledger.handed
      rw [hreturns, hworker]
      simpa using h.made
    · have he : e ∈ (d.logged p a).state.scores := he
      rw [hlog] at he
      have hhanded : d.program.seen.scores.ledger.handed <+: p.seen.scores.ledger.handed := by
        show _ <+: p.worker.scores.ledger.handed
        rw [hworker]
        exact List.prefix_rfl
      exact h.kept_mono hhanded hposted (mem_follow he)
  · exact h.asked hacc hlinked hdeclared hok hstep hscores htrail hf
  · exact absurd rfl hne
  · have hforce : d.program.seen.path.source.inForce.upTo p.seen.path.source.inForce := by
      show d.program.trail.source.posted.upTo p.trail.source.posted
      rw [htrail]
      exact .refl _
    have hsame : p.worker.scores.ledger.handed = d.program.worker.scores.ledger.handed := by
      refine (Worker.step_handles hacc hlinked hdeclared hstep).handed ?_
      rintro epoch req identity rfl
      cases hown
    have hlog : d.logged p (.worker b) = d.log := by
      simp only [Desk.logged, Desk.returns, htrail, follow_self]
    refine ⟨h.sourced.step hacc hlinked hdeclared hstep hforce, ?_, ?_, fun e he => ?_⟩
    · show Notes (d.logged p (.worker b)) p.worker.scores.ledger.handed p.trail.source.epoch
        p.trail.source.identity
      rw [hlog, hsame, htrail]
      exact h.notes
    · show List.Forall₂ Asked.Made (d.asked ++ []) p.worker.scores.ledger.handed
      rw [List.append_nil, hsame]
      exact h.made
    · have he : e ∈ (d.logged p _).state.scores := he
      rw [hlog] at he
      exact h.kept_mono (hsame ▸ List.prefix_rfl) hforce he

/-- A `Drain` keeps what the worker posted.

**Proof sketch.** `Drain` takes the results the channel had, all of which were posted for requests
that were handed over, and no request is made. So the notes stay, and the ledger is read as it was.
-/
theorem Desk.Sound.drain (h : d.Sound) (hacc : Worker.Accounted cfg d.program.seen)
    (hlinked : d.program.seen.path.Linked) (hdeclared : d.program.seen.path.Declared)
    (hstep : Worker.step cfg d.program.seen .takeResults = some p.seen)
    (htrail : p.trail = d.program.trail) (latch : Option Worker.PlayersPost)
    {results : List Worker.ScorePost} (now : ℤ)
    (hresults : results.map (·.toTopScoresPost) = d.program.worker.scores.channel.results) :
    ({ d with program := p, log := d.log.step (.drain latch results now) } : Desk).Sound := by
  have hforce : d.program.seen.path.source.inForce.upTo p.seen.path.source.inForce := by
    show d.program.trail.source.posted.upTo p.trail.source.posted
    rw [htrail]
    exact .refl _
  have hsame : p.worker.scores.ledger.handed = d.program.worker.scores.ledger.handed :=
    (Worker.step_handles hacc hlinked hdeclared hstep).handed (by simp)
  have hpost : ∀ post ∈ results, post.toTopScoresPost ∈ d.program.worker.scores.ledger.posted := by
    intro post hpost
    refine h.sourced.posted.results _ ?_
    show post.toTopScoresPost ∈ d.program.worker.scores.channel.results
    rw [← hresults]
    exact List.mem_map_of_mem hpost
  have hasked : ∀ post ∈ results, ∃ ask ∈ d.program.worker.scores.ledger.handed,
      ask.key = post.toTopScoresPost.key := by
    intro post hmem
    have hkey : post.toTopScoresPost.key ∈ d.program.seen.scores.handed :=
      Multiset.mem_of_le hacc.conserved.answered_le (List.mem_map_of_mem (hpost post hmem))
    exact List.mem_map.mp hkey
  have hsourced : Worker.Sourced p.seen (d.heard ++ []) :=
    h.sourced.step hacc hlinked hdeclared hstep hforce
  rw [List.append_nil] at hsourced
  refine ⟨hsourced, ?_, ?_, fun e he => ?_⟩
  · show Notes _ p.worker.scores.ledger.handed p.trail.source.epoch p.trail.source.identity
    rw [hsame, htrail]
    exact h.notes.drain latch now hasked
  · show List.Forall₂ Asked.Made d.asked p.worker.scores.ledger.handed
    rw [hsame]
    exact h.made
  · show p.seen.Sources d.heard _ ∧ ∃ ask ∈ p.worker.scores.ledger.handed, _
    rcases Worker.mem_foldl_add he with hold | ⟨hin, -⟩
    · have hkept : p.seen.Sources (d.heard ++ []) e.post.toTopScoresPost ∧
          ∃ ask ∈ p.worker.scores.ledger.handed, ask.key = e.post.toTopScoresPost.key :=
        h.kept_mono (hsame ▸ List.prefix_rfl) hforce hold
      rwa [List.append_nil] at hkept
    · obtain ⟨ask, hask, hkey⟩ := hasked e.post hin
      refine ⟨?_, ask, hsame ▸ hask, hkey⟩
      have hsource := (h.sourced.posted.posted _ (hpost e.post hin)).mono
        (hsame ▸ List.prefix_rfl) hforce []
      rwa [List.append_nil] at hsource

/-- Every step keeps the invariant.

**Proof sketch.** By the step: the program's own is `after`, a drain is `drain`, and a release only
takes scores away. -/
theorem Desk.Sound.step (h : d.Sound) (hp : d.program.Sound)
    (hacc : Worker.Accounted cfg d.program.seen) (hlinked : d.program.seen.path.Linked)
    (hdeclared : d.program.seen.path.Declared) {a : DeskAct}
    (hs : d.step platform cfg a = some d') (hf : d'.program.worker.scores.Few) : d'.Sound := by
  rcases step_cases hs with ⟨act, p, hne, hp', rfl⟩ | ⟨latch, results, now, p, hresults, hp', rfl⟩ |
    ⟨requestId, rfl⟩
  · exact h.after hp hacc hlinked hdeclared hne hp' hf
  · simp only [Program.step] at hp'
    obtain ⟨w, hw, rfl⟩ := Option.map_eq_some_iff.mp hp'
    obtain rfl := Option.some.inj hw
    exact h.drain (p := { d.program with worker :=
      { d.program.seen with scores := d.program.seen.scores.takeResults } }) hacc hlinked hdeclared
      rfl rfl latch now hresults
  · refine ⟨h.sourced, h.notes.release requestId, h.made, fun e he => h.kept e ?_⟩
    have he : e ∈ (d.log.state.release requestId).scores := he
    unfold Worker.ScriptState.release at he
    split at he
    · exact List.mem_of_mem_filter he
    · exact he

/-- The invariant holds in every run in which ids are handed out once.

**Proof sketch.** By induction on the run. Below the bound on the ids each step is one of
`step_cases`, and the program's own invariants hold where it is taken. -/
theorem desk_sound (h : (desk platform cfg).Reachable d) :
    d.program.worker.scores.Few → d.Sound := by
  refine h.along.invariant (I := fun d => d.program.worker.scores.Few → d.Sound) ?_ ?_
  · rintro d ⟨seen, rfl⟩ -
    refine ⟨⟨nofun, nofun, nofun, nofun⟩, ⟨.init rfl, ?_, rfl, rfl, nofun, nofun, nofun⟩, .nil,
      nofun⟩
    exact (VpxSessionSource.epoch_updateDeclare platform {} seen).symm
  · rintro d a d' hI ⟨hreach, -⟩ hs hf
    have hprogram := program_reachable hreach
    have hsound := sound hprogram
    have hprefix : d.program.worker.scores.ledger.handed <+:
        d'.program.worker.scores.ledger.handed := by
      rcases step_cases hs with ⟨act, p, -, hp, rfl⟩ | ⟨latch, results, now, p, -, hp, rfl⟩ |
        ⟨requestId, rfl⟩
      · exact handed_step hsound hp
      · exact handed_step hsound hp
      · exact List.prefix_rfl
    have hfew : d.program.worker.scores.Few := lt_of_le_of_lt hprefix.length_le hf
    obtain ⟨-, hacc, hlinked, hdeclared⟩ := worker_facts hprogram hfew
    exact (hI hfew).step hsound hacc hlinked hdeclared hs hf

end Invariant

/-! ## What a script reads -/

/-- The call was made of the table the source has now. -/
def Desk.Current (d : Desk) (asked : Asked) : Prop :=
  asked.epoch = d.program.trail.source.epoch ∧ asked.identity = d.program.trail.source.identity

/-- A result answers a call: the script passed the id that the call returned, and the result was
decided by the plugin, or is what the daemon said while the table of the call was declared. -/
structure Desk.Answers (d : Desk) (requestId : Worker.ScriptNumber) (e : Worker.ScoreEntry)
    (asked : Asked) : Prop where
  passed : requestId = .whole asked.id.toNat
  current : d.Current asked
  source : e.post.toTopScoresPost.Decided ∨ ∃ h ∈ d.heard,
    e.post.toTopScoresPost.Carries h.scores ∧ h.declared.epoch = asked.epoch ∧
      h.declared.identity = asked.identity

/-- What holds of the results a script reads. -/
structure Desk.ReadsOwn (d : Desk) : Prop where
  /-- What the script's state is promised holds. -/
  promised : Worker.scores.Reaches Worker.ScoreLog.WellPosted d.log
  /-- Each call is one request, which the daemon reads as it was made. -/
  made : List.Forall₂ Asked.Made d.asked d.program.worker.scores.ledger.handed
  distinct : (d.asked.map (·.id)).Nodup
  readable : ∀ ask ∈ d.program.worker.scores.ledger.handed,
    Wire.TopScoresRequest.decode ask.request.encode = some ask.request
  /-- What the script reads answers a call of the current table. -/
  found : ∀ requestId e, d.log.state.find requestId = some e →
    ∃ asked ∈ d.asked, d.Answers requestId e asked
  /-- Of the results in the channel, `Drain` takes those of the current table, and no others. -/
  takes : ∀ post ∈ d.program.worker.scores.channel.results, ∀ received,
    d.log.state.accepts ⟨post, received⟩ = true ↔
      ∃ asked ∈ d.asked, asked.id = post.requestId ∧ d.Current asked

section Reads

variable {platform : Platform} {cfg : Worker.Config} {d : Desk}

/-- A request's call. -/
theorem Desk.Sound.asked_of_handed (h : d.Sound) {ask : Worker.TopScoresAsk}
    (hask : ask ∈ d.program.worker.scores.ledger.handed) :
    ∃ asked ∈ d.asked, Asked.Made asked ask := by
  obtain ⟨i, hi, rfl⟩ := List.mem_iff_getElem.mp hask
  have hlt : i < d.asked.length := h.made.length_eq ▸ hi
  exact ⟨d.asked[i], List.getElem_mem hlt, h.made.get hlt hi⟩

/-- The ids returned are those of the requests. -/
theorem Desk.Sound.ids (h : d.Sound) :
    d.asked.map (·.id) = d.program.worker.scores.ledger.handed.map Worker.TopScoresAsk.id := by
  have hmade := h.made
  generalize d.program.worker.scores.ledger.handed = handed, d.asked = asked at hmade ⊢
  induction hmade with
  | nil => rfl
  | cons hm _ ih => rw [List.map_cons, List.map_cons, ih, hm.id]

/-- A call's request. -/
theorem Desk.Sound.handed_of_asked (h : d.Sound) {asked : Asked} (ha : asked ∈ d.asked) :
    ∃ ask ∈ d.program.worker.scores.ledger.handed, Asked.Made asked ask := by
  obtain ⟨i, hi, rfl⟩ := List.mem_iff_getElem.mp ha
  have hlt : i < d.program.worker.scores.ledger.handed.length := h.made.length_eq ▸ hi
  exact ⟨d.program.worker.scores.ledger.handed[i], List.getElem_mem hlt, h.made.get hi hlt⟩

/-- What `Drain` checks of a request's result.

**Proof sketch.** The request's key is the result's, so its epoch is the one the result is of, and
an id above the last one cleared is one noted under the identity in force. -/
theorem Notes.accepts_iff {log : Worker.ScoreLog} {handed : List Worker.TopScoresAsk}
    {epoch identity : ℕ} (h : Notes log handed epoch identity) {ask : Worker.TopScoresAsk}
    (hask : ask ∈ handed) {post : Worker.ScorePost} (hkey : ask.key = post.toTopScoresPost.key) :
    log.state.accepts post = true ↔ ask.epoch = epoch ∧ ask.identity = identity := by
  obtain ⟨hid, hepoch⟩ := Prod.mk.inj hkey
  have hid : ask.id = post.requestId := hid
  have hepoch : ask.epoch = post.epoch := hepoch
  have habove : log.state.clearedThrough = 0 ∨ post.requestId > log.state.clearedThrough ↔
      log.state.clearedThrough < ask.id := by
    rw [hid]
    constructor
    · rintro (hzero | hlt)
      · rw [hzero, ← hid, UInt32.lt_iff_toNat_lt]
        exact h.id_pos hask
      · exact hlt
    · exact .inr
  simp only [Worker.ScriptState.accepts, Bool.and_eq_true, beq_iff_eq, Bool.or_eq_true,
    decide_eq_true_eq, habove, ← hepoch, h.current]
  constructor
  · rintro ⟨heq, hlt⟩
    exact ⟨heq, (h.floor ask hask heq).mpr hlt⟩
  · rintro ⟨heq, hidentity⟩
    exact ⟨heq, (h.floor ask hask heq).mp hidentity⟩

/-- What the script keeps is of the current table.

**Proof sketch.** An id is noted under one epoch, so the request is noted under the script's, and
the entry is above the floor. The request would then be accepted now, and such requests are of the
current epoch and identity. -/
theorem Desk.Sound.current_of_kept (h : d.Sound) {e : Worker.ScoreEntry}
    (he : e ∈ d.log.state.scores) : ∃ ask ∈ d.program.worker.scores.ledger.handed,
      ask.key = e.post.toTopScoresPost.key ∧ ask.epoch = d.program.trail.source.epoch ∧
        ask.identity = d.program.trail.source.identity := by
  have hscores := scoresSound h.notes.promised
  obtain ⟨hnoted, hfloor⟩ := hscores.kept e he
  obtain ⟨-, ask, hask, hkey⟩ := h.kept e he
  obtain ⟨hid, hepoch⟩ := Prod.mk.inj hkey
  -- the id was noted once, so under the epoch in force
  have hid : ask.id = e.id := hid
  have hsame : ask.epoch = d.log.state.epoch :=
    hscores.noted.once e.id _ _ (hid ▸ h.notes.noted ask hask) hnoted
  have haccepts : d.log.state.accepts e.post = true := by
    have hepoch : e.post.epoch = d.log.state.epoch := hepoch.symm.trans hsame
    have habove : d.log.state.clearedThrough = 0 ∨
        e.post.requestId > d.log.state.clearedThrough := hfloor
    simpa [Worker.ScriptState.accepts, hepoch] using habove
  exact ⟨ask, hask, hkey, (h.notes.accepts_iff hask hkey).mp haccepts⟩

/-- **A script reads the answers to its own calls**, in every run in which fewer than `2 ^ 31 - 1`
requests got an id, whatever the daemons send and in whatever order the two threads take their
steps. Each call that returned an id is one request of the worker's, and the ids are distinct; what
the script finds under an id is the answer to the call that returned it, made of the table the
source has now, and either has no entries or is what a daemon said while that very table was
declared; and of the results in the channel `Drain` takes exactly those of the table the source has
now.

**Proof sketch.** Of the epoch's requests, those of the identity in force are exactly those above
the floor that `ClearScores` left (`Notes.floor`), since ids are counted up and tags only grow. A
pending request is of the declared table (`Sourced`), which is not ahead of the source's. -/
theorem reads_own_calls (platform : Platform) (cfg : Worker.Config) {d : Desk}
    (h : (desk platform cfg).Reachable d) (hf : d.program.worker.scores.Few) : d.ReadsOwn := by
  have hsound := desk_sound h hf
  obtain ⟨hprogram, hacc, -, -⟩ := worker_facts (program_reachable h) hf
  have hnumbered := hacc.conserved.numbered
  refine ⟨hsound.notes.promised, hsound.made, ?_, fun ask hask => ?_, fun requestId e hfind => ?_,
    fun post hpost received => ?_⟩
  · rw [hsound.ids]
    exact hnumbered.nodup
  · obtain ⟨asked, -, hmade⟩ := hsound.asked_of_handed hask
    obtain ⟨request, hok, heq⟩ := hmade.request
    rw [heq]
    exact decode_request hok asked.id
  · obtain ⟨id, hindex, hfound⟩ := Option.bind_eq_some_iff.mp hfind
    obtain ⟨he, rfl⟩ := Worker.TopScoresStore.of_find hfound
    obtain ⟨hwhole, -, -⟩ := scriptIndex_eq_some (by decide) (by decide) hindex
    obtain ⟨ask, hask, hkey, hepoch, hidentity⟩ := hsound.current_of_kept he
    obtain ⟨asked, hasked, hmade⟩ := hsound.asked_of_handed hask
    have hid : asked.id = e.id := hmade.id.symm.trans (congrArg Prod.fst hkey)
    refine ⟨asked, hasked, hid ▸ hwhole, ⟨hmade.epoch ▸ hepoch, hmade.identity ▸ hidentity⟩, ?_⟩
    rcases (hsound.kept e he).1 with hdecided | ⟨heard, hmem, hheard⟩
    · exact .inl hdecided
    · obtain ⟨ask', hask', hkey', hepoch', hidentity'⟩ := hheard.ask
      -- the id was handed out for one request only
      have hsame : ask' = ask := List.inj_on_of_nodup_map hnumbered.nodup hask' hask
        (congrArg Prod.fst (hkey'.trans hkey.symm))
      subst hsame
      have hbound : heard.declared.identity ≤ d.program.trail.source.identity := by
        rw [← hprogram.tagged.identity]
        exact hheard.bound.2
      refine .inr ⟨heard, hmem, hheard.carries, hepoch'.symm.trans hmade.epoch, ?_⟩
      rw [← hmade.identity]
      omega
  · have hposted := hsound.sourced.posted.results post hpost
    have hkey : post.key ∈ d.program.seen.scores.handed :=
      Multiset.mem_of_le hacc.conserved.answered_le (List.mem_map_of_mem hposted)
    obtain ⟨ask, hask, hkey⟩ := List.mem_map.mp hkey
    have haccepts : d.log.state.accepts ⟨post, received⟩ = true ↔
        ask.epoch = d.program.trail.source.epoch ∧
          ask.identity = d.program.trail.source.identity := hsound.notes.accepts_iff hask hkey
    rw [haccepts]
    obtain ⟨asked, hasked, hmade⟩ := hsound.asked_of_handed hask
    have hid : asked.id = post.requestId := hmade.id.symm.trans (congrArg Prod.fst hkey)
    constructor
    · rintro ⟨hepoch, hidentity⟩
      exact ⟨asked, hasked, hid, hmade.epoch ▸ hepoch, hmade.identity ▸ hidentity⟩
    · rintro ⟨asked', hasked', hid', hepoch, hidentity⟩
      obtain ⟨ask', hask', hmade'⟩ := hsound.handed_of_asked hasked'
      have hids : ask'.id = ask.id := by rw [hmade'.id, hid', hmade.id, hid]
      obtain rfl := List.inj_on_of_nodup_map hnumbered.nodup hask' hask hids
      exact ⟨hmade'.epoch ▸ hepoch, hmade'.identity ▸ hidentity⟩

end Reads

/-- A daemon's answer, as the message and as the result in the channel. -/
def bestScore (id : UInt32) : Wire.TopScores :=
  { requestId := id, ageS := 7, entries := [{ rank := 1, highScore := 900 }] }

/-- A script asks, a ROM starts before the answer arrives, and the script asks again. -/
def lateAnswers : List DeskAct :=
  let ask : DeskAct := .act (.requestTopScores (.whole 1) (.whole 2) (.whole 0) (.whole 10) none)
  let go (n : ℕ) : List DeskAct := List.replicate n (.act (.worker .go))
  let answer (id : UInt32) : List DeskAct :=
    [.act (.worker (.recv
      { header := { type := Wire.typeTopScores }, payload := (bestScore id).encode })),
    .drain none [{ epoch := 1, requestId := id, ageS := 7, entries := (bestScore id).entries }] 5]
  [.act (.host (.gameStart (some somePaths) {})), .act (.declare (some someMachine) {}),
    .act (.worker (.connect (some []))),
    .act (.worker (Worker.helloAckOf 2 (Wire.capAuthoredTables ||| Wire.capLeaderboards)))] ++
  go 3 ++ [.act (.worker (Worker.ackOf 2))] ++ go 6 ++ [ask] ++ go 6 ++
  [.act (.host (.setRomId [82] {}))] ++ answer 1 ++ [.act (.worker (Worker.ackOf 3))] ++ go 5 ++
  [.act (.worker (Worker.ackOf 4))] ++ go 7 ++ [ask] ++ go 6 ++ answer 2

/-- The script reads the second answer only. -/
theorem reads_own_calls_lateAnswers : ∃ d,
    Runs.runOf (fun d a => Desk.step d plainPlatform {} a)
      { program := start plainPlatform {} } lateAnswers = some d ∧
      d.asked.map (·.id) = [1, 2] ∧ d.log.state.count (.whole 1) = 0 ∧
      d.log.state.count (.whole 2) = 1 ∧ d.ReadsOwn := by
  have hrun : (Runs.runOf (fun d a => Desk.step d plainPlatform {} a)
      { program := start plainPlatform {} } lateAnswers).any (fun d => decide
        (d.asked.map (·.id) = [1, 2] ∧ d.log.state.count (.whole 1) = 0 ∧
          d.log.state.count (.whole 2) = 1 ∧
          d.program.worker.scores.ledger.handed.length = 2)) = true := by
    decide +kernel
  obtain ⟨d, hd, hlast⟩ := (Option.any_eq_true _ _).mp hrun
  obtain ⟨hids, hfirst, hsecond, hlen⟩ := of_decide_eq_true hlast
  refine ⟨d, hd, hids, hfirst, hsecond,
    reads_own_calls plainPlatform {} (Runs.reachable_of_runOf ⟨{}, rfl⟩ hd) ?_⟩
  show d.program.worker.scores.ledger.handed.length < 2 ^ 31 - 1
  omega

end Program
