import ScorbitPlugin.Worker.Answers
import ScorbitPlugin.Worker.Step

set_option relaxedAutoImplicit false
set_option autoImplicit false

/-!
# Every leaderboard request gets one answer

The steps of the worker sorted by what they do to the leaderboard requests. Each keeps every
request that got an id, answered or on its way, and the end of a connection leaves none on its
way; so at the end of its session each has been answered exactly once.

## Main definitions

* `Worker.Scores.Moves` — what a step can do to the requests.
* `Worker.Accounted` — what holds of the requests in every state.
* `Worker.AnsweredOnce` — what is claimed of the results posted.

## Main results

* `Worker.step_scores` — every step is such a move.
* `Worker.answered_once` — each request is answered once, in every reachable state.
-/

namespace Worker

open Codec

/-- Neither offline nor awaiting a leaderboard's reply. -/
def Pc.plain : Pc TopScoresAsk → Bool
  | .offline | .exchange _ (.scores _) => false
  | _ => true

/-- What a step from `pc` can do to the requests. -/
inductive Scores.Moves (cfg : Config) (pc : Pc TopScoresAsk) (s : Scores) : Scores → Prop
  | still : Moves cfg pc s s
  | requested (epoch : ℕ) (req : Wire.TopScoresRequest) (identity : ℕ) :
      Moves cfg pc s (s.request epoch req identity)
  | tookResults : Moves cfg pc s s.takeResults
  | opened (available : Bool) (hr : cfg.readBack) (hpc : pc ≠ .offline) :
      Moves cfg pc s (s.setLeaderboards available)
  | ended (lost : Bool) : Moves cfg pc s (s.endReadBacks lost)
  | lostQueued (epoch identity : ℕ) : Moves cfg pc s (s.loseQueuedRequests epoch identity)
  | took : Moves cfg pc s s.takeRequests
  | turnedAway (ask : TopScoresAsk) (rest : List TopScoresAsk) (h : s.asks = ask :: rest)
      (result : ℕ) : Moves cfg pc s ({ s with asks := rest }.postScores ask.epoch ask.id result)
  | registered (ask : TopScoresAsk) (rest : List TopScoresAsk) (h : s.asks = ask :: rest) :
      Moves cfg pc s ({ s with asks := rest }.register ask.id ask.epoch)
  | refused (request : Wire.Message) (ask : TopScoresAsk) (h : pc = .exchange request (.scores ask))
      (code : UInt16) : Moves cfg pc s (s.refused ask code)
  | answered (payload : Bytes) : Moves cfg pc s (s.answerTopScores payload)

/-- A step moves the requests; it goes offline through the end of a connection only, and awaits a
leaderboard's reply only after it took the request. -/
structure ScoresStep (cfg : Config) (s s' : State) : Prop where
  moves : s.scores.Moves cfg s.path.pc s'.scores
  offline : s'.path.pc = .offline → s.path.pc = .offline ∨
    s'.scores = if cfg.readBack then s.scores.endReadBacks true else s.scores
  asked : ∀ request ask, s'.path.pc = .exchange request (.scores ask) →
    s'.path.pc = s.path.pc ∨ ask ∈ s.scores.asks

section Step

variable {cfg : Config} {s s' : State}

/-- A step that goes on to a plain place. -/
theorem ScoresStep.ofPlain (h : s.scores.Moves cfg s.path.pc s'.scores) (hp : s'.path.pc.plain) :
    ScoresStep cfg s s' := by
  refine ⟨h, fun ho => ?_, fun request ask ha => ?_⟩
  · simp [ho, Pc.plain] at hp
  · simp [ha, Pc.plain] at hp

/-- A step that leaves the worker where it stands. -/
theorem ScoresStep.ofStay (h : s.scores.Moves cfg s.path.pc s'.scores)
    (hp : s'.path.pc = s.path.pc) : ScoresStep cfg s s' :=
  ⟨h, fun ho => .inl (hp ▸ ho), fun _ _ _ => .inl hp⟩

/-- The end of a connection. -/
theorem ScoresStep.ofDisconnect {p : GamePath TopScoresAsk} :
    ScoresStep cfg s ({ s with path := p }.disconnect cfg) := by
  refine ⟨?_, fun _ => .inr rfl, fun _ _ ha => by cases ha⟩
  show s.scores.Moves cfg _ (if cfg.readBack then s.scores.endReadBacks true else s.scores)
  split
  · exact .ended true
  · exact .still

/-- Where a turn of `SendGames`' loop leaves the worker.

**Proof sketch.** By the branch of the turn: the queue is empty or its front of a later epoch, and
the loop is left; the front is dropped, and the loop goes on; or it is sent. -/
theorem pc_sendGames {p : GamePath TopScoresAsk} {flush : Bool} (hpc : p.pc = .sendGames flush) :
    (p.sendGames flush).pc = (if flush then .declare else .takeRequests) ∨
      (p.sendGames flush).pc = .sendGames flush ∨
      ∃ request, (p.sendGames flush).pc = .exchange request (.game flush) := by
  have hturn : ∀ (q : GamePath TopScoresAsk) (front : GamePost) (leaves drops : Prop)
      [Decidable leaves] [Decidable drops] (payload : Bytes), q.pc = p.pc →
      (if leaves then q.leaveGames flush else if drops then q.dropFront front
        else q.sendFront flush front payload).pc = (if flush then .declare else .takeRequests) ∨
      (if leaves then q.leaveGames flush else if drops then q.dropFront front
        else q.sendFront flush front payload).pc = .sendGames flush ∨
      ∃ request, (if leaves then q.leaveGames flush else if drops then q.dropFront front
        else q.sendFront flush front payload).pc = .exchange request (.game flush) := by
    intro q front leaves drops _ _ payload hq
    split
    · exact .inl rfl
    · split
      · exact .inr (.inl (hq.trans hpc))
      · exact .inr (.inr ⟨_, rfl⟩)
  unfold GamePath.sendGames
  split
  · exact .inl rfl
  · split
    · exact .inl rfl
    · split
      · exact .inl rfl
      · dsimp only
        split <;> exact hturn _ _ _ _ _ rfl

/-- `SendGames`' loop never leaves for a leaderboard. -/
theorem plain_sendGames {p : GamePath TopScoresAsk} {flush : Bool}
    (hpc : p.pc = .sendGames flush) : (p.sendGames flush).pc.plain := by
  rcases pc_sendGames hpc with h | h | ⟨_, h⟩ <;> rw [h]
  · cases flush <;> rfl
  · rfl
  · rfl

/-- The steps the worker takes by itself.

**Proof sketch.** By the place. The requests are taken over, lost, sent or answered at the places
named for it, and opened where a session is first served; everywhere else they stay. -/
theorem scores_go (h : s.go cfg = some s') : ScoresStep cfg s s' := by
  unfold State.go at h
  split at h
  case h_1 hpc =>
    obtain rfl := Option.some.inj h
    refine .ofPlain ?_ rfl
    show s.scores.Moves cfg _ (if cfg.readBack then _ else s.scores)
    split
    · exact .opened _ ‹_› (by simp [hpc])
    · exact .still
  case h_2 hpc =>
    obtain rfl := Option.some.inj h
    refine .ofPlain .still ?_
    show s.path.maybeDeclare.pc.plain
    simp only [GamePath.maybeDeclare]
    split <;> rfl
  case h_3 flush hpc =>
    obtain rfl := Option.some.inj h
    exact .ofPlain .still rfl
  case h_4 flush hpc =>
    obtain rfl := Option.some.inj h
    exact .ofPlain .still (plain_sendGames hpc)
  case h_5 hpc =>
    obtain rfl := Option.some.inj h
    refine .ofPlain ?_ ?_
    · show s.scores.Moves cfg _ (if _ then s.scores else _)
      split
      · exact .still
      · rename_i hc
        refine .opened _ ?_ (by simp [hpc])
        simp only [not_or] at hc
        simpa using hc.2.1
    · show s.path.sendDeclare.pc.plain
      unfold GamePath.sendDeclare
      split <;> rfl
  case h_6 hpc =>
    obtain rfl := Option.some.inj h
    refine .ofPlain ?_ rfl
    show s.scores.Moves cfg _ (if cfg.readBack then _ else s.scores)
    split
    · exact .lostQueued _ _
    · exact .still
  case h_7 hpc =>
    obtain rfl := Option.some.inj h
    unfold State.takeRequests
    split
    · exact .ofPlain .took rfl
    · exact .ofPlain .still rfl
  case h_8 hpc =>
    obtain rfl := Option.some.inj h
    unfold State.sendScores
    split
    · exact .ofPlain .still rfl
    · rename_i ask rest hasks
      split
      · exact .ofPlain .still rfl
      · split
        · exact .ofStay (.turnedAway ask rest hasks _) rfl
        · refine ⟨.registered ask rest hasks, fun ho => (by cases ho), fun _ _ ha => .inr ?_⟩
          obtain ⟨-, ⟨rfl⟩⟩ := Pc.exchange.inj ha
          simp [hasks]
  case h_9 hpc =>
    obtain rfl := Option.some.inj h
    exact .ofPlain .still rfl
  case h_10 | h_11 => simp at h

/-- A message that is no response.

**Proof sketch.** The dispatch ends the connection, answers a request or leaves the scores; what
follows depends on where the worker is. -/
theorem scores_dispatched (msg : Wire.Message) {pc : Pc TopScoresAsk}
    (hp : pc = s.path.pc ∨ pc.plain) : ScoresStep cfg s (s.dispatched cfg msg pc) := by
  have hm : ∀ scores, s.dispatch cfg msg = some scores → s.scores.Moves cfg s.path.pc scores := by
    intro scores h
    unfold State.dispatch at h
    split at h
    · obtain rfl := Option.some.inj h
      exact .answered _
    · split at h
      · cases h
      · obtain rfl := Option.some.inj h
        exact .still
  unfold State.dispatched
  split
  · exact .ofDisconnect
  · rename_i scores h
    rcases hp with hp | hp
    · exact .ofStay (hm scores h) hp
    · exact .ofPlain (hm scores h) hp

/-- An exchange's reply.

**Proof sketch.** By the exchange. A refused Hello or Declare disconnects, which answers everything;
a new table's Declare ends what is pending; a request's own reply refuses it or leaves it pending.
-/
theorem scores_resume {request : Wire.Message} {k : Awaiting TopScoresAsk}
    (hpc : s.path.pc = .exchange request k) (reply : Wire.Message) :
    ScoresStep cfg s (s.resume cfg k reply) := by
  cases k with
  | hello =>
    unfold State.resume
    dsimp only
    split
    · exact .ofDisconnect
    · exact .ofPlain .still rfl
  | game flush =>
    refine .ofPlain .still ?_
    show (s.path.gameAnswered flush reply).pc.plain
    unfold GamePath.gameAnswered
    split
    · exact hpc ▸ rfl
    · split <;> rfl
  | declare now =>
    show ScoresStep cfg s (s.declareAnswered cfg now reply)
    unfold State.declareAnswered
    split
    · exact .ofDisconnect
    · refine .ofPlain ?_ ?_
      · show s.scores.Moves cfg _ (if _ then _ else s.scores)
        split
        · exact .ended false
        · exact .still
      · show (if _ then _ else _ : Pc TopScoresAsk).plain
        split <;> rfl
  | scores ask =>
    show ScoresStep cfg s (s.scoresAnswered ask reply)
    unfold State.scoresAnswered
    dsimp only
    split
    · exact .ofPlain (.refused request ask hpc _) rfl
    · exact .ofPlain .still rfl
  | ping => exact .ofPlain .still rfl

/-- A message.

**Proof sketch.** By where the worker is: in an exchange a message is the reply, is another response
and dropped, or is dispatched; while idle a response only ends the wait, and any other message is
dispatched. -/
theorem scores_recv {msg : Wire.Message} (h : s.recv cfg msg = some s') : ScoresStep cfg s s' := by
  unfold State.recv at h
  split at h
  case h_1 request k hpc =>
    split at h
    · obtain rfl := Option.some.inj h
      exact scores_resume hpc msg
    · split at h
      · obtain rfl := Option.some.inj h
        exact .ofStay .still rfl
      · obtain rfl := Option.some.inj h
        exact scores_dispatched msg (.inl hpc.symm)
  case h_2 hpc =>
    split at h
    · obtain rfl := Option.some.inj h
      exact .ofPlain .still rfl
    · obtain rfl := Option.some.inj h
      exact scores_dispatched msg (.inr rfl)
  case h_3 => simp at h

/-- **Every step moves the requests.**

**Proof sketch.** By the step: the script asks or takes results, a message is dispatched or a reply,
and the worker goes on by itself (`scores_go`); the rest leaves the requests. -/
theorem step_scores {a : Act} (h : step cfg s a = some s') : ScoresStep cfg s s' := by
  cases a with
  | post d =>
    obtain ⟨-, h⟩ := Option.ite_none_right_eq_some.mp h
    obtain rfl := Option.some.inj h
    exact .ofStay .still rfl
  | commit batch =>
    obtain ⟨hb, h⟩ := Option.dite_none_right_eq_some.mp h
    obtain rfl := Option.some.inj h
    exact .ofStay .still rfl
  | evict i =>
    obtain rfl := Option.some.inj h
    exact .ofStay .still rfl
  | request epoch req identity =>
    obtain rfl := Option.some.inj h
    exact .ofStay (.requested epoch req identity) rfl
  | takeResults =>
    obtain rfl := Option.some.inj h
    exact .ofStay .tookResults rfl
  | connect token =>
    obtain ⟨-, h⟩ := Option.ite_none_right_eq_some.mp h
    cases token with
    | none =>
      obtain rfl := Option.some.inj h
      exact .ofDisconnect
    | some token =>
      obtain rfl := Option.some.inj h
      exact .ofPlain .still rfl
  | go => exact scores_go h
  | recv msg => exact scores_recv h
  | ping =>
    obtain ⟨-, h⟩ := Option.ite_none_right_eq_some.mp h
    obtain rfl := Option.some.inj h
    exact .ofPlain .still rfl
  | cut =>
    obtain ⟨-, h⟩ := Option.ite_none_right_eq_some.mp h
    obtain rfl := Option.some.inj h
    exact .ofDisconnect

end Step

/-! ## The requests in every state -/

namespace Scores.Moves

variable {cfg : Config} {pc : Pc TopScoresAsk} {s s' : Scores}

/-- A request that got an id is never forgotten. -/
theorem handed (h : s.Moves cfg pc s') : s.ledger.handed <+: s'.ledger.handed := by
  have heq : ∀ {t : Scores}, t.ledger.handed = s.ledger.handed →
      s.ledger.handed <+: t.ledger.handed := fun h => h ▸ List.prefix_rfl
  cases h with
  | still => exact heq rfl
  | requested epoch req identity => exact s.handed_request epoch req identity
  | tookResults => exact heq rfl
  | opened => exact heq rfl
  | ended lost => exact heq (s.keeps_endReadBacks lost).handed
  | lostQueued epoch identity => exact heq (s.keeps_loseQueuedRequests epoch identity).handed
  | took => exact heq rfl
  | turnedAway => exact heq rfl
  | registered ask rest => exact heq (keeps_makeRoom (s := { s with asks := rest })).handed
  | refused request ask _ code =>
    unfold Scores.refused
    split <;> exact heq rfl
  | answered payload =>
    unfold Scores.answerTopScores
    split <;> split
    · exact heq rfl
    · exact heq rfl
    · exact heq rfl
    · split <;> exact heq rfl

/-- **No step loses a request or answers one twice.**

**Proof sketch.** By the move: a new request is one more, a result moves its request from one place
to the next, and the others keep every place. -/
theorem conserved (h : s.Moves cfg pc s') (hc : s.Conserved)
    (ha : ∀ request ask, pc = .exchange request (.scores ask) → ask.key ∈ s.handed)
    (hf : s'.Few) : s'.Conserved := by
  cases h with
  | still => exact hc
  | requested epoch req identity => exact hc.request epoch req identity hf
  | tookResults => exact hc.keeps ⟨rfl, rfl, rfl⟩
  | opened => exact hc.keeps ⟨rfl, rfl, rfl⟩
  | ended lost => exact hc.keeps (s.keeps_endReadBacks lost)
  | lostQueued epoch identity => exact hc.keeps (s.keeps_loseQueuedRequests epoch identity)
  | took => exact hc.keeps s.keeps_takeRequests
  | turnedAway ask rest hasks result => exact hc.keeps (keeps_turnedAway hasks result)
  | registered ask rest hasks => exact hc.keeps (keeps_register hc.distinct hasks)
  | refused request ask hpc code =>
    refine hc.keeps (keeps_refused hc.distinct (fun epoch hm => ?_) code)
    -- the pending one and the one refused were handed the same id
    have hm' : (ask.id, epoch) ∈ s.handed := hc.mem_handed_of_pending hm
    exact congrArg Prod.snd (hc.numbered.key_inj hm' (ha request ask hpc) rfl)
  | answered payload => exact hc.keeps (keeps_answerTopScores hc.distinct payload)

/-- While nothing is admitted and nothing on its way it stays so, unless the worker opens. -/
theorem closed (h : s.Moves cfg pc s') (hc : s.Closed)
    (hpc : pc = .offline ∨ cfg.readBack = false) : s'.Closed := by
  cases h with
  | still => exact hc
  | requested epoch req identity => exact hc.request epoch req identity
  | tookResults => exact ⟨hc.leaderboards, hc.requests, hc.asks, hc.pending⟩
  | opened available hr hoff => exact absurd hpc (by simp [hr, hoff])
  | ended lost => exact hc.endReadBacks lost
  | lostQueued epoch identity => exact hc.loseQueuedRequests epoch identity
  | took => exact hc.takeRequests
  | turnedAway ask rest hasks => cases hc.asks.symm.trans hasks
  | registered ask rest hasks => cases hc.asks.symm.trans hasks
  | refused request ask _ code => exact hc.refused ask code
  | answered payload => exact hc.answerTopScores payload

end Scores.Moves

/-- What holds of the requests in every state: they are conserved, an awaited reply is about one of
them, and nothing is on its way outside a session, nor without a read-back target. -/
structure Accounted (cfg : Config) (s : State) : Prop where
  conserved : s.scores.Conserved
  asked : ∀ request ask, s.path.pc = .exchange request (.scores ask) → ask.key ∈ s.scores.handed
  closed : s.path.pc = .offline ∨ cfg.readBack = false → s.scores.Closed

/-- **A step keeps the requests accounted for.**

**Proof sketch.** A step makes one of the changes of `Scores.Moves`, and each of these conserves the
requests. A reply is awaited about a request that was waiting to be sent. And a session that ends
closes what was still open. -/
theorem Accounted.step {cfg : Config} {s s' : State} {a : Act} (h : Accounted cfg s)
    (hs : step cfg s a = some s') (hf : s'.scores.Few) : Accounted cfg s' := by
  obtain ⟨hm, hoff, hask⟩ := step_scores hs
  refine ⟨hm.conserved h.conserved h.asked hf, fun request ask hpc => ?_, fun hpc => ?_⟩
  · refine Multiset.mem_of_le (Multiset.coe_le.mpr (hm.handed.map _).sublist.subperm) ?_
    rcases hask request ask hpc with hst | hm
    · exact h.asked request ask (hst ▸ hpc)
    · exact h.conserved.mem_handed_of_asks hm
  · by_cases hr : cfg.readBack = false
    · exact hm.closed (h.closed (.inr hr)) (.inr hr)
    · rcases hoff (hpc.resolve_right hr) with ho | he
      · exact hm.closed (h.closed (.inl ho)) (.inl ho)
      · rw [he, if_pos (by simpa using hr)]
        exact s.scores.closed_endReadBacks

/-- The results posted for an id. -/
def Scores.answers (s : Scores) (id : UInt32) : List TopScoresPost :=
  s.ledger.posted.filter (·.requestId == id)

/-- Every request handed an id is answered at most once, and exactly once when no session is on,
under the epoch it was asked with; no id is handed out twice, none is zero, and every result is
for one that was handed out. -/
structure AnsweredOnce (s : State) : Prop where
  nonzero : ∀ ask ∈ s.scores.ledger.handed, ask.id ≠ 0
  distinct : (s.scores.ledger.handed.map TopScoresAsk.id).Nodup
  atMostOnce : ∀ id, (s.scores.answers id).length ≤ 1
  answered : s.path.pc = .offline → ∀ ask ∈ s.scores.ledger.handed,
    ∃ post, s.scores.answers ask.id = [post] ∧ post.epoch = ask.epoch
  asked : ∀ post ∈ s.scores.ledger.posted,
    ∃ ask ∈ s.scores.ledger.handed, ask.id = post.requestId ∧ ask.epoch = post.epoch

/-- Requests that are accounted for are answered once.

**Proof sketch.** The posted results and the requests still open are together the requests handed an
id, each once. So an id has at most one result, which is for one of them; and when nothing is open
every id has one. -/
theorem Accounted.answeredOnce {cfg : Config} {s : State} (h : Accounted cfg s) :
    AnsweredOnce s := by
  have honce : ∀ id, (s.scores.answers id).length ≤ 1 := fun id => by
    rw [Scores.answers, ← List.countP_eq_length_filter]
    have hcount := List.nodup_iff_count_le_one.mp h.conserved.nodup_posted id
    rwa [List.count, List.countP_map] at hcount
  refine ⟨fun ask ha => h.conserved.numbered.ne_zero ha, h.conserved.numbered.nodup, honce,
    fun ho ask ha => ?_, fun post hp => ?_⟩
  · have hmem : ask.key ∈ s.scores.answered := by
      rw [h.conserved.answered_of_closed (h.closed (.inl ho))]
      exact List.mem_map_of_mem ha
    obtain ⟨post, hp, hkey⟩ := List.mem_map.mp hmem
    have hpa : post ∈ s.scores.answers ask.id :=
      List.mem_filter.mpr ⟨hp, beq_iff_eq.mpr (congrArg Prod.fst hkey)⟩
    obtain ⟨p, hp⟩ := List.length_eq_one_iff.mp
      (le_antisymm (honce ask.id) (List.length_pos_of_mem hpa))
    obtain rfl := List.mem_singleton.mp (hp ▸ hpa)
    exact ⟨post, hp, congrArg Prod.snd hkey⟩
  · have hmem : post.key ∈ s.scores.handed :=
      Multiset.mem_of_le h.conserved.answered_le (List.mem_map_of_mem hp)
    obtain ⟨ask, ha, hkey⟩ := List.mem_map.mp hmem
    exact ⟨ask, ha, congrArg Prod.fst hkey, congrArg Prod.snd hkey⟩

/-- **In every run** in which ids are handed out once the requests are accounted for.

**Proof sketch.** By induction on the run (`Accounted.step`). Fewer requests had an id before the
step than after it, so the bound holds before it too. -/
theorem accounted {cfg : Config} {s : State} (h : (system cfg).Reachable s) :
    s.scores.Few → Accounted cfg s := by
  refine h.invariant (I := fun s => s.scores.Few → Accounted cfg s) ?_ ?_
  · rintro s ⟨d, rfl⟩ -
    exact ⟨⟨⟨rfl, rfl⟩, rfl⟩, fun _ _ hpc => (by cases hpc), fun _ => ⟨rfl, rfl, rfl, rfl⟩⟩
  · intro s a s' hI _ hs hf'
    have hle := (step_scores hs).moves.handed.length_le
    exact (hI (lt_of_le_of_lt hle hf')).step hs hf'

/-- **Every leaderboard request gets one answer**: in every state of every run in which fewer than
`2 ^ 31 - 1` requests got an id.

**Proof sketch.** At every moment the requests handed an id are those answered, queued, on their
way, pending or given up for another session's sake, each in one of these places (`Accounted`). The
end of a session empties all places but the first. -/
theorem answered_once (cfg : Config) {s : State} (h : (system cfg).Reachable s)
    (hf : s.scores.Few) : AnsweredOnce s :=
  (accounted h hf).answeredOnce

/-- A session in which the script asks twice: one request is sent and its result overtakes the
acknowledgement, the other is still queued when the connection ends. -/
def askedRun : List Act :=
  let caps := Wire.capAuthoredTables ||| Wire.capLeaderboards
  [.connect (some []), helloAckOf 2 caps, .go, .go, .go, ackOf 2, .go, .go, .go, .go, .go, .go,
    .request 1 {} 0, .go, .go, .go, .go, .go, .go,
    .recv
      { header := { type := Wire.typeTopScores }
        payload := Wire.TopScores.encode { requestId := 1 } },
    .request 1 {} 0, ackOf 3, .go, .cut]

/-- Both are answered, once each. -/
theorem answered_once_askedRun :
    ∃ s, Runs.runOf (step {}) (start (tableOf 1 0)) askedRun = some s ∧
      s.scores.ledger.handed.length = 2 ∧ s.path.pc = .offline ∧ AnsweredOnce s := by
  have hrun : (Runs.runOf (step {}) (start (tableOf 1 0)) askedRun).any
      (fun s => s.scores.ledger.handed.length == 2 && s.path.pc == .offline) = true := by
    decide +kernel
  obtain ⟨s, hs, hlast⟩ := (Option.any_eq_true _ _).mp hrun
  obtain ⟨hlen, hpc⟩ := Bool.and_eq_true_iff.mp hlast
  have hlen : s.scores.ledger.handed.length = 2 := by simpa using hlen
  refine ⟨s, hs, hlen, by simpa using hpc, answered_once {}
    (Runs.reachable_of_runOf ⟨tableOf 1 0, rfl⟩ hs) ?_⟩
  show s.scores.ledger.handed.length < 2 ^ 31 - 1
  omega

end Worker
