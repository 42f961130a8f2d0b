import ScorbitPlugin.Worker.AskedTable
import ScorbitPlugin.Worker.Flow

set_option relaxedAutoImplicit false
set_option autoImplicit false

/-!
# Where a leaderboard result comes from

A result that is posted was decided by the plugin, and then it has no entries; or it is what a
message said that the daemon sent while the request was pending. A request is pending only while the
declared table is the one it was asked of: it went out under that Declare (`State.Clears`), another
epoch ends those pending, and within the epoch the identity only grows.

## Main definitions

* `Worker.TopScoresPost.Decided`, `Worker.TopScoresPost.Carries` — the two kinds of results.
* `Worker.State.Handles` — what a step does to the requests and results, with what it checked.
* `Worker.Sourced` — where every result comes from.

## Main results

* `Worker.step_handles` — every step is such a one.
* `Worker.Sourced.step` — every step keeps where the results come from.
-/

namespace Worker

open Codec

/-! ## Results and messages -/

/-- A TopScores message that arrived, and what was declared then. -/
structure Heard where
  declared : DeclareSnapshot
  scores : Wire.TopScores
deriving DecidableEq, Repr

/-- The plugin decided the result itself. -/
def TopScoresPost.Decided (post : TopScoresPost) : Prop := post.ageS = 0 ∧ post.entries = []

/-- The result carries what a message said. -/
structure TopScoresPost.Carries (post : TopScoresPost) (scores : Wire.TopScores) : Prop where
  requestId : scores.requestId = post.requestId
  result : post.result = scores.result.toNat
  ageS : post.ageS = scores.ageS
  entries : post.entries = scores.entries

/-- What the worker hears in a step. -/
def State.hears (s : State) : Act → List Heard
  | .recv msg =>
    if msg.header.type = Wire.typeTopScores ∧ !msg.header.isResponse then
      (Wire.TopScores.decode msg.payload).toList.map fun scores => ⟨s.path.link.declared, scores⟩
    else []
  | _ => []

/-! ## The posts of the worker's functions -/

namespace Scores

variable {P : TopScoresPost → Prop} {s : Scores}

/-- What was posted meets `P`, and the results the script has not taken were posted. -/
structure AllPosted (P : TopScoresPost → Prop) (s : Scores) : Prop where
  posted : ∀ post ∈ s.ledger.posted, P post
  results : ∀ post ∈ s.channel.results, post ∈ s.ledger.posted

/-- Nothing is posted. -/
theorem AllPosted.same (h : s.AllPosted P) {t : Scores} (hl : t.ledger.posted = s.ledger.posted)
    (hr : t.channel.results = s.channel.results) : t.AllPosted P :=
  ⟨by rw [hl]; exact h.posted, by rw [hl, hr]; exact h.results⟩

/-- A post that meets `P`.

**Proof sketch.** The one post is new in both lists. A full channel loses its oldest result, and the
others were posted before. -/
theorem AllPosted.postResult (h : s.AllPosted P) {post : TopScoresPost} (hp : P post) :
    (s.postResult post).AllPosted P := by
  constructor
  · intro post' hpost'
    rcases List.mem_append.mp hpost' with hold | hnew
    · exact h.posted post' hold
    · exact List.mem_singleton.mp hnew ▸ hp
  · intro post' hpost'
    show post' ∈ s.ledger.posted ++ [post]
    have hpost' : post' ∈ (if s.channel.results.length ≥ maxQueued then s.channel.results.tail
        else s.channel.results) ++ [post] := hpost'
    rcases List.mem_append.mp hpost' with hold | hnew
    · refine List.mem_append_left _ (h.results post' ?_)
      split at hold
      · exact List.mem_of_mem_tail hold
      · exact hold
    · exact List.mem_append_right _ hnew

variable (hP : ∀ post : TopScoresPost, post.Decided → P post)
include hP

/-- A result decided here. -/
theorem AllPosted.postScores (h : s.AllPosted P) (epoch : ℕ) (id : UInt32) (result : ℕ) :
    (s.postScores epoch id result).AllPosted P :=
  h.postResult (hP _ ⟨rfl, rfl⟩)

/-- A result for each of a list. -/
theorem AllPosted.postAsks (h : s.AllPosted P) (asks : List TopScoresAsk) (result : ℕ) :
    (s.postAsks asks result).AllPosted P := by
  unfold Scores.postAsks
  induction asks generalizing s with
  | nil => exact h
  | cons ask asks ih => exact ih (h.postScores hP ask.epoch ask.id result)

/-- A result for each pending request. -/
theorem AllPosted.postPending (h : s.AllPosted P) (pending : List (UInt32 × ℕ)) (result : ℕ) :
    (s.postPending pending result).AllPosted P := by
  unfold Scores.postPending
  induction pending generalizing s with
  | nil => exact h
  | cons p pending ih => exact ih (h.postScores hP p.2 p.1 result)

/-- The end of the read-backs posts results decided here. -/
theorem AllPosted.endReadBacks (h : s.AllPosted P) (lost : Bool) :
    (s.endReadBacks lost).AllPosted P := by
  cases lost with
  | false => exact (h.postPending hP s.pendingScores scoresLost).same rfl rfl
  | true =>
    let t : Scores := { s with channel := (s.channel.close s.asks).2 }
    have ht : t.AllPosted P := h.same rfl rfl
    have hc : s.closeAsks.AllPosted P :=
      (ht.postAsks hP (s.asks ++ s.channel.requests) scoresLost).same rfl rfl
    exact (hc.postPending hP s.closeAsks.pendingScores scoresLost).same rfl rfl

/-- So does the loss of queued requests. -/
theorem AllPosted.loseQueuedRequests (h : s.AllPosted P) (epoch identity : ℕ) :
    (s.loseQueuedRequests epoch identity).AllPosted P := by
  have ht : s.takeRequests.AllPosted P := h.same rfl rfl
  exact (ht.postAsks hP (s.takeRequests.asks.filter (asksOld epoch identity)) scoresLost).same
    rfl rfl

/-- A request that is registered may turn another one away, which is decided here. -/
theorem AllPosted.register (h : s.AllPosted P) (id : UInt32) (epoch : ℕ) :
    (s.register id epoch).AllPosted P := by
  have hroom : s.makeRoom.AllPosted P := by
    unfold makeRoom
    split
    · exact h
    · split
      · rename_i oldest rest _ _
        exact (h.postScores hP oldest.2 oldest.1 scoresLost).same rfl rfl
      · exact h
  exact hroom.same rfl rfl

/-- A refused request gets a result decided here. -/
theorem AllPosted.refused (h : s.AllPosted P) (ask : TopScoresAsk) (code : UInt16) :
    (s.refused ask code).AllPosted P := by
  unfold Scores.refused
  split
  · exact h
  · have ht : { s with pendingScores := erasePending ask.id s.pendingScores }.AllPosted P :=
      h.same rfl rfl
    exact ht.postScores hP ask.epoch ask.id _

end Scores

/-! ## What a step does -/

/-- The declared table stays, and that there is one. -/
structure SameDeclared (p p' : GamePath TopScoresAsk) : Prop where
  haveDeclared : p'.link.haveDeclared = p.link.haveDeclared
  declared : p'.link.declared = p.link.declared

namespace SameDeclared

variable (p : GamePath TopScoresAsk)

/-- `MaybeDeclare` leaves the declared table: it only sends. -/
theorem maybeDeclare : SameDeclared p p.maybeDeclare := by
  simp only [GamePath.maybeDeclare]
  split <;> exact ⟨rfl, rfl⟩

/-- `SendGames` leaves the declared table. -/
theorem sendGames (flush : Bool) : SameDeclared p (p.sendGames flush) := by
  unfold GamePath.sendGames
  split
  · exact ⟨rfl, rfl⟩
  · split
    · exact ⟨rfl, rfl⟩
    · split
      · exact ⟨rfl, rfl⟩
      · dsimp only
        split_ifs <;> exact ⟨rfl, rfl⟩

/-- `SendDeclare` leaves it, until its answer. -/
theorem sendDeclare : SameDeclared p p.sendDeclare := by
  unfold GamePath.sendDeclare
  split <;> exact ⟨rfl, rfl⟩

/-- The answer to a batch leaves the declared table. -/
theorem gameAnswered (flush : Bool) (reply : Wire.Message) :
    SameDeclared p (p.gameAnswered flush reply) := by
  unfold GamePath.gameAnswered
  split
  · exact ⟨rfl, rfl⟩
  · split <;> exact ⟨rfl, rfl⟩

end SameDeclared

/-- What a step does to the requests and results. -/
inductive State.Handles (cfg : Config) (s : State) (a : Act) (s' : State) : Prop
  /-- It posts at most results decided here. -/
  | decides (handed : s'.scores.ledger.handed = s.scores.ledger.handed)
      (queued : s'.scores.queued.Sublist s.scores.queued)
      (pending : s'.scores.pendingScores.Sublist s.scores.pendingScores)
      (posted : ∀ P : TopScoresPost → Prop, (∀ post, post.Decided → P post) →
        s.scores.AllPosted P → s'.scores.AllPosted P)
      (kept : s'.scores.pendingScores = [] ∨ SameDeclared s.path s'.path ∨
        s.path.link.newTable s.path.link.current = false ∧
          s'.path.link.haveDeclared = true ∧ s'.path.link.declared = s.path.link.current)
  /-- The script asks. -/
  | requested (epoch : ℕ) (req : Wire.TopScoresRequest) (identity : ℕ)
      (act : a = .request epoch req identity)
      (eq : s' = { s with scores := s.scores.request epoch req identity })
  /-- A request goes out. -/
  | registered (ask : TopScoresAsk) (rest : List TopScoresAsk) (asks : s.scores.asks = ask :: rest)
      (clears : s.Clears cfg ask)
      (eq : s'.scores = { s.scores with asks := rest }.register ask.id ask.epoch)
      (kept : SameDeclared s.path s'.path)
  /-- A TopScores message arrives. -/
  | answered (msg : Wire.Message) (act : a = .recv msg)
      (type : msg.header.type = Wire.typeTopScores) (response : msg.header.isResponse = false)
      (eq : s'.scores = s.scores.answerTopScores msg.payload)
      (link : s'.path.link = s.path.link)

section Step

variable {cfg : Config} {s s' : State} {a : Act}

/-- A step that leaves requests and results, but for the admission. -/
theorem State.Handles.still (hl : s'.scores.ledger = s.scores.ledger)
    (hq : s'.scores.queued = s.scores.queued)
    (hp : s'.scores.pendingScores = s.scores.pendingScores)
    (hr : s'.scores.channel.results = s.scores.channel.results)
    (hd : SameDeclared s.path s'.path) : s.Handles cfg a s' :=
  .decides (by rw [hl]) (by rw [hq]) (by rw [hp]) (fun _ _ h => h.same (by rw [hl]) hr)
    (.inr (.inl hd))

/-- A step that leaves requests, results and the declared table. -/
theorem State.Handles.same (hs : s'.scores = s.scores) (hd : SameDeclared s.path s'.path) :
    s.Handles cfg a s' :=
  .still (by rw [hs]) (by rw [hs]) (by rw [hs]) (by rw [hs]) hd

/-- The connection ends: every request is answered, unless there is no read-back target.

**Proof sketch.** Without a read-back target nothing happens, and nothing was pending. With one
every request that waits, is queued or is pending is answered with an error, and none is left. -/
theorem State.Handles.disconnect (hacc : Accounted cfg s) (p : GamePath TopScoresAsk) :
    s.Handles cfg a ({ s with path := p }.disconnect cfg) := by
  cases hr : cfg.readBack with
  | false =>
    have hscores : ({ s with path := p }.disconnect cfg).scores = s.scores := if_neg (by simp [hr])
    have hclosed := (hacc.closed (.inr hr)).pending
    refine .decides ?_ ?_ ?_ ?_ (.inl ?_)
    · rw [hscores]
    · rw [hscores]
    · rw [hscores]
    · intro P _ h
      rw [hscores]
      exact h
    · rw [hscores]
      exact hclosed
  | true =>
    have hscores : ({ s with path := p }.disconnect cfg).scores = s.scores.endReadBacks true :=
      if_pos hr
    have hclosed := s.scores.closed_endReadBacks
    refine .decides ?_ ?_ ?_ ?_ (.inl ?_)
    · rw [hscores]
      exact (s.scores.keeps_endReadBacks true).handed
    · rw [hscores, Scores.queued, hclosed.asks, hclosed.requests]
      exact List.nil_sublist _
    · rw [hscores, hclosed.pending]
      exact List.nil_sublist _
    · intro P hP h
      rw [hscores]
      exact h.endReadBacks hP true
    · rw [hscores]
      exact hclosed.pending

/-- One turn of `SendTopScoresRequests`.

**Proof sketch.** With nothing to send nothing happens. Otherwise the first request is sent, and
then it is pending, or it is answered with an error for it cannot be sent. -/
theorem handles_sendScores (hdeclared : s.path.Declared) (hpc : s.path.pc = .sendScores) :
    s.Handles cfg a (s.sendScores cfg) := by
  have hask : AskStep cfg s (s.sendScores cfg) := ask_sendScores hdeclared hpc
  have hsent := hask.sent
  unfold State.sendScores at hsent ⊢
  cases hasks : s.scores.asks with
  | nil => exact .same rfl ⟨rfl, rfl⟩
  | cons ask rest =>
    rw [hasks] at hsent
    dsimp only at hsent ⊢
    split
    · exact .same rfl ⟨rfl, rfl⟩
    · rename_i hfront
      rw [if_neg hfront] at hsent
      split
      · rename_i result haway
        refine .decides rfl ?_ (List.Sublist.refl _) (fun P hP h => ?_) (.inr (.inl ⟨rfl, rfl⟩))
        · rw [Scores.queued, Scores.queued, hasks]
          exact (List.sublist_cons_self _ _).append (List.Sublist.refl _)
        · have ht : { s.scores with asks := rest }.AllPosted P := h.same rfl rfl
          exact ht.postScores hP ask.epoch ask.id result
      · rename_i haway
        rw [haway] at hsent
        refine .registered ask rest hasks (hsent _ ask rfl ?_) rfl ⟨rfl, rfl⟩
        rw [hpc]
        exact fun h => by cases h

/-- The worker goes on.

**Proof sketch.** By the place. Requests of a table that is no more are lost at `loseQueued`, the
script's are taken at `takeRequests`, and one is sent at `sendScores` (`handles_sendScores`). At no
other place are they touched. -/
theorem handles_go (hdeclared : s.path.Declared) (h : s.go cfg = some s') :
    s.Handles cfg a s' := by
  unfold State.go at h
  split at h
  case h_1 hpc =>
    obtain rfl := Option.some.inj h
    unfold State.serve
    dsimp only
    split <;> exact .still rfl rfl rfl rfl ⟨rfl, rfl⟩
  case h_2 hpc =>
    obtain rfl := Option.some.inj h
    exact .same rfl (.maybeDeclare s.path)
  case h_3 flush hpc =>
    obtain rfl := Option.some.inj h
    exact .same rfl ⟨rfl, rfl⟩
  case h_4 flush hpc =>
    obtain rfl := Option.some.inj h
    exact .same rfl (.sendGames s.path flush)
  case h_5 hpc =>
    obtain rfl := Option.some.inj h
    have hd := SameDeclared.sendDeclare s.path
    unfold State.sendDeclare
    split <;> exact .still rfl rfl rfl rfl hd
  case h_6 hpc =>
    obtain rfl := Option.some.inj h
    unfold State.loseQueued
    split
    · have hk := s.scores.keeps_loseQueuedRequests s.path.link.declared.epoch
        s.path.link.declared.identity
      refine .decides hk.handed ?_ ?_ (fun P hP h => h.loseQueuedRequests hP _ _)
        (.inr (.inl ⟨rfl, rfl⟩))
      · rw [Scores.queued_loseQueuedRequests]
        exact List.filter_sublist
      · have hpost := s.scores.takeRequests.postAsks_keep
          (s.scores.takeRequests.asks.filter (Scores.asksOld s.path.link.declared.epoch
            s.path.link.declared.identity)) scoresLost
        exact hpost.pending ▸ List.Sublist.refl _
    · exact .same rfl ⟨rfl, rfl⟩
  case h_7 hpc =>
    obtain rfl := Option.some.inj h
    unfold State.takeRequests
    split
    · exact .still rfl (Scores.queued_takeRequests _) rfl rfl ⟨rfl, rfl⟩
    · exact .same rfl ⟨rfl, rfl⟩
  case h_8 hpc =>
    obtain rfl := Option.some.inj h
    exact handles_sendScores hdeclared hpc
  case h_9 hpc =>
    obtain rfl := Option.some.inj h
    exact .same rfl ⟨rfl, rfl⟩
  case h_10 | h_11 => cases h

/-- A message that is no response. -/
theorem handles_dispatched (hacc : Accounted cfg s) {msg : Wire.Message}
    (hresponse : msg.header.isResponse = false) (pc : Pc TopScoresAsk) :
    s.Handles cfg (.recv msg) (s.dispatched cfg msg pc) := by
  unfold State.dispatched State.dispatch
  split
  · exact .disconnect hacc s.path
  · rename_i scores h
    split at h
    · rename_i htype
      obtain rfl := Option.some.inj h
      exact .answered msg rfl htype.1 hresponse rfl rfl
    · split at h
      · cases h
      · obtain rfl := Option.some.inj h
        exact .same rfl ⟨rfl, rfl⟩

/-- An exchange's reply.

**Proof sketch.** By the exchange. A Hello or a Declare that is refused ends the connection. An
acknowledged Declare of a new table ends the read-backs. A request's reply may refuse it, which
takes it from those pending. -/
theorem handles_resume (hacc : Accounted cfg s) (hlinked : s.path.Linked) {request : Wire.Message}
    {k : Awaiting TopScoresAsk} (hpc : s.path.pc = .exchange request k) (reply : Wire.Message) :
    s.Handles cfg a (s.resume cfg k reply) := by
  cases k with
  | hello =>
    unfold State.resume
    cases State.helloAck reply with
    | none => exact .disconnect hacc s.path
    | some ack => exact .same rfl ⟨rfl, rfl⟩
  | game flush => exact .same rfl (.gameAnswered s.path flush reply)
  | declare now =>
    obtain rfl := hlinked.declaring request now hpc
    show s.Handles cfg a (s.declareAnswered cfg _ reply)
    unfold State.declareAnswered
    split
    · exact .disconnect hacc s.path
    · split
      · refine .decides (s.scores.keeps_endReadBacks false).handed ?_ (List.nil_sublist _)
          (fun P hP h => h.endReadBacks hP false) (.inl rfl)
        rw [Scores.queued_endReadBacks]
      · rename_i hnew
        refine .decides rfl (List.Sublist.refl _) (List.Sublist.refl _) (fun _ _ h => h) ?_
        cases hr : cfg.readBack with
        | false => exact .inl (hacc.closed (.inr hr)).pending
        | true => exact .inr (.inr ⟨by simpa [hr] using hnew, rfl, rfl⟩)
  | scores ask =>
    show s.Handles cfg a (s.scoresAnswered ask reply)
    unfold State.scoresAnswered
    dsimp only
    split
    · refine .decides ?_ ?_ ?_ (fun P hP h => h.refused hP ask _) (.inr (.inl ⟨rfl, rfl⟩))
      · show (s.scores.refused ask _).ledger.handed = _
        unfold Scores.refused
        split <;> rfl
      · show (s.scores.refused ask _).queued.Sublist _
        rw [Scores.queued_refused]
      · show (s.scores.refused ask _).pendingScores.Sublist _
        unfold Scores.refused
        split
        · exact List.Sublist.refl _
        · exact List.filter_sublist
    · exact .same rfl ⟨rfl, rfl⟩
  | ping => exact .same rfl ⟨rfl, rfl⟩

/-- A message. -/
theorem handles_recv (hacc : Accounted cfg s) (hlinked : s.path.Linked) {msg : Wire.Message}
    (h : s.recv cfg msg = some s') : s.Handles cfg (.recv msg) s' := by
  unfold State.recv at h
  split at h
  case h_1 request k hpc =>
    split at h
    · obtain rfl := Option.some.inj h
      exact handles_resume hacc hlinked hpc msg
    · split at h
      · obtain rfl := Option.some.inj h
        exact .same rfl ⟨rfl, rfl⟩
      · rename_i hresponse
        obtain rfl := Option.some.inj h
        exact handles_dispatched hacc (Bool.eq_false_of_not_eq_true hresponse) _
  case h_2 hpc =>
    split at h
    · obtain rfl := Option.some.inj h
      exact .same rfl ⟨rfl, rfl⟩
    · rename_i hresponse
      obtain rfl := Option.some.inj h
      exact handles_dispatched hacc (Bool.eq_false_of_not_eq_true hresponse) _
  case h_3 => cases h

/-- **What a step does to the requests and results**, with what it checked before.

**Proof sketch.** By the step: the script's requests and results are what they say, a message the
worker received is dispatched or an exchange's reply, and the worker going on is `handles_go`. -/
theorem step_handles (hacc : Accounted cfg s) (hlinked : s.path.Linked)
    (hdeclared : s.path.Declared) (h : step cfg s a = some s') : s.Handles cfg a s' := by
  cases a with
  | post d =>
    obtain ⟨-, h⟩ := Option.ite_none_right_eq_some.mp h
    obtain rfl := Option.some.inj h
    exact .same rfl ⟨rfl, rfl⟩
  | commit batch =>
    obtain ⟨hb, h⟩ := Option.dite_none_right_eq_some.mp h
    obtain rfl := Option.some.inj h
    exact .same rfl ⟨rfl, rfl⟩
  | evict i =>
    obtain rfl := Option.some.inj h
    exact .same rfl ⟨rfl, rfl⟩
  | request epoch req identity =>
    obtain rfl := Option.some.inj h
    exact .requested epoch req identity rfl rfl
  | takeResults =>
    obtain rfl := Option.some.inj h
    refine .decides rfl (List.Sublist.refl _) (List.Sublist.refl _) (fun P _ h => ?_)
      (.inr (.inl ⟨rfl, rfl⟩))
    exact ⟨h.posted, fun _ hpost => by cases hpost⟩
  | connect token =>
    obtain ⟨hpc, h⟩ := Option.ite_none_right_eq_some.mp h
    cases token with
    | none =>
      obtain rfl := Option.some.inj h
      exact .disconnect hacc _
    | some token =>
      obtain rfl := Option.some.inj h
      exact .decides rfl (List.Sublist.refl _) (List.Sublist.refl _) (fun _ _ h => h)
        (.inl (hacc.closed (.inl hpc)).pending)
  | go => exact handles_go hdeclared h
  | recv msg => exact handles_recv hacc hlinked h
  | ping =>
    obtain ⟨-, h⟩ := Option.ite_none_right_eq_some.mp h
    obtain rfl := Option.some.inj h
    exact .same rfl ⟨rfl, rfl⟩
  | cut =>
    obtain ⟨-, h⟩ := Option.ite_none_right_eq_some.mp h
    obtain rfl := Option.some.inj h
    exact .disconnect hacc s.path

/-- A message hands out no id. -/
theorem Scores.handed_answerTopScores (s : Scores) (payload : Bytes) :
    (s.answerTopScores payload).ledger.handed = s.ledger.handed := by
  unfold Scores.answerTopScores
  split <;> split
  · rfl
  · rfl
  · rfl
  · split <;> rfl

/-- Only the script's request is handed an id. -/
theorem State.Handles.handed (h : s.Handles cfg a s')
    (ha : ∀ epoch req identity, a ≠ .request epoch req identity) :
    s'.scores.ledger.handed = s.scores.ledger.handed := by
  rcases h with ⟨hhanded, -, -, -, -⟩ | ⟨epoch, req, identity, rfl, -⟩ |
    ⟨ask, rest, -, -, hscores, -⟩ | ⟨msg, -, -, -, hscores, -⟩
  · exact hhanded
  · exact absurd rfl (ha epoch req identity)
  · rw [hscores]
    exact (Scores.keeps_makeRoom (s := { s.scores with asks := rest })).handed
  · rw [hscores]
    exact s.scores.handed_answerTopScores msg.payload

end Step

/-! ## Where every result comes from -/

/-- The worker heard what the result carries, under the Declare that its request was asked of or a
later one of the same epoch. -/
structure State.HeardFor (s : State) (h : Heard) (post : TopScoresPost) : Prop where
  carries : post.Carries h.scores
  bound : h.declared.upTo s.path.source.inForce
  ask : ∃ ask ∈ s.scores.ledger.handed, ask.key = post.key ∧ ask.epoch = h.declared.epoch ∧
    ask.identity ≤ h.declared.identity

/-- A result was decided here, or heard. -/
def State.Sources (s : State) (heard : List Heard) (post : TopScoresPost) : Prop :=
  post.Decided ∨ ∃ h ∈ heard, s.HeardFor h post

/-- What is queued got an id, what is pending is of the declared table, and where the results come
from. -/
structure Sourced (s : State) (heard : List Heard) : Prop where
  queued : ∀ ask ∈ s.scores.queued, ask ∈ s.scores.ledger.handed
  pending : ∀ key ∈ s.scores.pendingScores, s.path.link.haveDeclared = true ∧
    ∃ ask ∈ s.scores.ledger.handed, ask.key = key ∧ ask.epoch = s.path.link.declared.epoch ∧
      ask.identity ≤ s.path.link.declared.identity
  posted : s.scores.AllPosted (s.Sources heard)

/-- What was posted meets a weaker condition. -/
theorem Scores.AllPosted.mono {P Q : TopScoresPost → Prop} {s : Scores} (h : s.AllPosted P)
    (hPQ : ∀ post, P post → Q post) : s.AllPosted Q :=
  ⟨fun post hpost => hPQ post (h.posted post hpost), h.results⟩

/-- A source stays one. -/
theorem State.Sources.mono {s s' : State} {heard : List Heard} {post : TopScoresPost}
    (h : s.Sources heard post) (hhanded : s.scores.ledger.handed <+: s'.scores.ledger.handed)
    (hforce : s.path.source.inForce.upTo s'.path.source.inForce) (more : List Heard) :
    s'.Sources (heard ++ more) post := by
  rcases h with hdecided | ⟨h, hmem, hheard⟩
  · exact .inl hdecided
  · obtain ⟨ask, hask, hfor⟩ := hheard.ask
    exact .inr ⟨h, List.mem_append_left _ hmem, hheard.carries, hheard.bound.trans hforce, ask,
      hhanded.subset hask, hfor⟩

/-- What is in the map was put there, or was there.

**Proof sketch.** By induction on the map, which is sorted: the new key is put before, in place of,
or behind the first. -/
theorem mem_insertPending {id : UInt32} {epoch : ℕ} {pending : List (UInt32 × ℕ)}
    {key : UInt32 × ℕ} (h : key ∈ insertPending id epoch pending) :
    key = (id, epoch) ∨ key ∈ pending := by
  induction pending with
  | nil => exact .inl (List.mem_singleton.mp h)
  | cons p pending ih =>
    unfold insertPending at h
    split at h
    · exact List.mem_cons.mp h
    · split at h
      · rcases List.mem_cons.mp h with heq | hold
        · exact .inl heq
        · exact .inr (List.mem_cons_of_mem _ hold)
      · rcases List.mem_cons.mp h with rfl | hold
        · exact .inr List.mem_cons_self
        · exact (ih hold).imp_right (List.mem_cons_of_mem _)

section Sourced

variable {cfg : Config} {s s' : State} {a : Act} {heard : List Heard}

/-- A pending request stays one of the declared table. -/
theorem Sourced.pending_kept (h : Sourced s heard) (hlinked : s.path.Linked)
    (hhanded : s.scores.ledger.handed <+: s'.scores.ledger.handed)
    (hkept : SameDeclared s.path s'.path ∨
      s.path.link.newTable s.path.link.current = false ∧
        s'.path.link.haveDeclared = true ∧ s'.path.link.declared = s.path.link.current)
    {key : UInt32 × ℕ} (hkey : key ∈ s.scores.pendingScores) :
    s'.path.link.haveDeclared = true ∧
      ∃ ask ∈ s'.scores.ledger.handed, ask.key = key ∧ ask.epoch = s'.path.link.declared.epoch ∧
        ask.identity ≤ s'.path.link.declared.identity := by
  obtain ⟨hd, ask, hask, heq, hepoch, hidentity⟩ := h.pending key hkey
  rcases hkept with hsame | ⟨hnew, hd', heq'⟩
  · rw [hsame.haveDeclared, hsame.declared]
    exact ⟨hd, ask, hhanded.subset hask, heq, hepoch, hidentity⟩
  · -- the same table is declared again, in the same epoch
    have hsame : s.path.link.current.epoch = s.path.link.declared.epoch := by
      simp only [Link.newTable, hd, Bool.true_and, Bool.or_eq_false_iff,
        bne_eq_false_iff_eq] at hnew
      exact hnew.1
    rw [heq', hsame]
    exact ⟨hd', ask, hhanded.subset hask, heq, hepoch, hidentity.trans (hlinked.declared hd).2⟩

/-- What the API thread declares leaves the results. -/
theorem Sourced.frame (h : Sourced s heard) (hscores : s'.scores = s.scores)
    (hlink : s'.path.link = s.path.link)
    (hforce : s.path.source.inForce.upTo s'.path.source.inForce) : Sourced s' heard := by
  refine ⟨?_, ?_, ?_⟩
  · rw [hscores]
    exact h.queued
  · rw [hscores, hlink]
    exact h.pending
  · have hhanded : s.scores.ledger.handed <+: s'.scores.ledger.handed :=
      hscores ▸ List.prefix_rfl
    rw [hscores]
    exact h.posted.mono fun post hpost => List.append_nil heard ▸ hpost.mono hhanded hforce []

/-- A message is heard for the pending request it names. -/
theorem Sourced.heardFor (h : Sourced s heard) (hlinked : s.path.Linked) {scores : Wire.TopScores}
    {epoch : ℕ} (hfind : findPending scores.requestId s.scores.pendingScores = some epoch)
    (t : State) (hhanded : t.scores.ledger.handed = s.scores.ledger.handed)
    (hforce : s.path.source.inForce.upTo t.path.source.inForce) :
    t.HeardFor ⟨s.path.link.declared, scores⟩
      { epoch := epoch, requestId := scores.requestId, result := scores.result.toNat
        ageS := scores.ageS, entries := scores.entries } := by
  obtain ⟨hd, ask, hask, heq, hepoch, hidentity⟩ := h.pending _ (mem_of_findPending hfind)
  refine ⟨⟨rfl, rfl, rfl, rfl⟩, ?_, ask, hhanded ▸ hask, heq, hepoch, hidentity⟩
  exact ((hlinked.declared hd).trans hlinked.current).trans hforce

/-- A message is answered with what it says.

**Proof sketch.** The reply is decoded, and its request is the one pending under its id and epoch,
which was handed over. So the result's source is that request and what was heard; what is no longer
pending was answered. -/
theorem Sourced.answered (h : Sourced s heard) (hlinked : s.path.Linked) {msg : Wire.Message}
    (htype : msg.header.type = Wire.typeTopScores) (hresponse : msg.header.isResponse = false)
    (hscores : s'.scores = s.scores.answerTopScores msg.payload)
    (hlink : s'.path.link = s.path.link)
    (hforce : s.path.source.inForce.upTo s'.path.source.inForce) :
    Sourced s' (heard ++ s.hears (.recv msg)) := by
  have hhears : s.hears (.recv msg) = (Wire.TopScores.decode msg.payload).toList.map fun scores =>
      ⟨s.path.link.declared, scores⟩ := if_pos ⟨htype, by rw [hresponse]; rfl⟩
  have hhanded : s'.scores.ledger.handed = s.scores.ledger.handed :=
    hscores ▸ s.scores.handed_answerTopScores msg.payload
  have hold : s.scores.AllPosted (s'.Sources (heard ++ s.hears (.recv msg))) :=
    h.posted.mono fun post hpost => hpost.mono (hhanded ▸ List.prefix_rfl) hforce _
  have hsub : s'.scores.pendingScores.Sublist s.scores.pendingScores := by
    rw [hscores]
    unfold Scores.answerTopScores
    split <;> split
    · exact List.Sublist.refl _
    · exact List.filter_sublist
    · exact List.Sublist.refl _
    · split
      · exact List.Sublist.refl _
      · exact List.filter_sublist
  refine ⟨fun ask hask => ?_, fun key hkey => ?_, ?_⟩
  · rw [hscores, Scores.queued_answerTopScores] at hask
    exact hhanded ▸ h.queued ask hask
  · exact h.pending_kept hlinked (hhanded ▸ List.prefix_rfl)
      (.inl ⟨by rw [hlink], by rw [hlink]⟩) (hsub.subset hkey)
  · rw [hscores]
    unfold Scores.answerTopScores
    split
    · rename_i scores hdecode
      split
      · exact hold
      · rename_i epoch hfind
        let left := erasePending scores.requestId s.scores.pendingScores
        have herased : { s.scores with pendingScores := left }.AllPosted
            (s'.Sources (heard ++ s.hears (.recv msg))) := hold.same rfl rfl
        refine herased.postResult (.inr ⟨⟨s.path.link.declared, scores⟩, ?_,
          h.heardFor hlinked hfind s' hhanded hforce⟩)
        refine List.mem_append_right _ ?_
        rw [hhears, hdecode]
        exact List.mem_singleton_self _
    · split
      · exact hold
      · split
        · exact hold
        · exact (hold.postScores (fun _ => .inl) _ _ _).same rfl rfl

/-- **Every step keeps where the results come from.**

**Proof sketch.** By what the step handles (`step_handles`). The requests handed over only grow, and
so does what was heard, so older results keep their sources. New ones are errors, or say what was
heard (`Sourced.answered`). -/
theorem Sourced.step (h : Sourced s heard) (hacc : Accounted cfg s) (hlinked : s.path.Linked)
    (hdeclared : s.path.Declared) (hs : step cfg s a = some s')
    (hforce : s.path.source.inForce.upTo s'.path.source.inForce) :
    Sourced s' (heard ++ s.hears a) := by
  have hprefix : s.scores.ledger.handed <+: s'.scores.ledger.handed :=
    (step_scores hs).moves.handed
  have hold : s.scores.AllPosted (s'.Sources (heard ++ s.hears a)) :=
    h.posted.mono fun post hpost => hpost.mono hprefix hforce _
  rcases step_handles hacc hlinked hdeclared hs with
    ⟨hhanded, hqueued, hpending, hposted, hkept⟩ | ⟨epoch, req, identity, rfl, rfl⟩ |
    ⟨ask, rest, hasks, hclears, hscores, hkept⟩ | ⟨msg, rfl, htype, hresponse, hscores, hlink⟩
  · refine ⟨fun ask hask => hhanded ▸ h.queued ask (hqueued.subset hask), fun key hkey => ?_,
      hposted _ (fun _ => .inl) hold⟩
    rcases hkept with hnone | hkept
    · rw [hnone] at hkey
      cases hkey
    · exact h.pending_kept hlinked hprefix hkept (hpending.subset hkey)
  · have hid := hacc.conserved.numbered.nextId_ne_zero
    refine ⟨fun ask hask => ?_, fun key hkey => ?_, ?_⟩
    · rcases Scores.request_cases hid epoch req identity with heq | ⟨-, new, -, heq⟩
      · rw [heq] at hask ⊢
        exact h.queued ask hask
      · rw [heq] at hask ⊢
        have hask : ask ∈ s.scores.asks ++ (s.scores.channel.requests ++ [new]) := hask
        rw [← List.append_assoc] at hask
        rcases List.mem_append.mp hask with hold | hnew
        · exact List.mem_append_left _ (h.queued ask hold)
        · exact List.mem_append_right _ hnew
    · let asked : State := { s with scores := s.scores.request epoch req identity }
      have hsame : SameDeclared s.path asked.path := ⟨rfl, rfl⟩
      refine h.pending_kept hlinked hprefix (.inl hsame) ?_
      rcases Scores.request_cases hid epoch req identity with heq | ⟨-, new, -, heq⟩
      · rw [heq] at hkey
        exact hkey
      · rw [heq] at hkey
        exact hkey
    · rcases Scores.request_cases hid epoch req identity with heq | ⟨-, new, -, heq⟩
      · exact hold.same (by rw [heq]) (by rw [heq])
      · exact hold.same (by rw [heq]) (by rw [heq])
  · let t : Scores := { s.scores with asks := rest }
    have hroom : t.makeRoom.ledger.handed = s.scores.ledger.handed :=
      (Scores.keeps_makeRoom (s := t)).handed
    have hhanded : s'.scores.ledger.handed = s.scores.ledger.handed := by
      rw [hscores]
      exact hroom
    have hfront : ask ∈ s.scores.queued := by
      rw [Scores.queued, hasks]
      exact List.mem_cons_self
    refine ⟨fun ask' hask' => ?_, fun key hkey => ?_, ?_⟩
    · rw [hscores, Scores.queued_register] at hask'
      refine hhanded ▸ h.queued ask' ?_
      rw [Scores.queued, hasks]
      exact List.mem_cons_of_mem _ hask'
    · rw [hscores] at hkey
      rcases mem_insertPending hkey with rfl | hkey
      · -- the request that goes out is of the declared table
        rw [hkept.haveDeclared, hkept.declared]
        exact ⟨hclears.haveDeclared, ask, hhanded ▸ h.queued ask hfront, rfl, hclears.epoch.symm,
          hclears.identity.symm.le⟩
      · exact h.pending_kept hlinked hprefix (.inl hkept)
          ((Scores.pendingScores_makeRoom (s := t)).subset hkey)
    · have ht : t.AllPosted (s'.Sources (heard ++ s.hears a)) := hold.same rfl rfl
      rw [hscores]
      exact ht.register (fun _ => .inl) ask.id ask.epoch
  · exact h.answered hlinked htype hresponse hscores hlink hforce

end Sourced

end Worker
