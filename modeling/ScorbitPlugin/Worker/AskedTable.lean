import ScorbitPlugin.Worker.Leaderboards
import ScorbitPlugin.Worker.Watch

set_option relaxedAutoImplicit false
set_option autoImplicit false

/-!
# Leaderboard requests and their table

A leaderboard request is asked under an epoch and an identity. It goes out only while the Declare
last acknowledged in the session has both, and as long as that Declare is an older one the request
waits where it is queued.

## Main definitions

* `Worker.Scores.queued` — the requests neither sent nor answered.
* `Worker.GamePath.awaits` — no Declare as new as a request was acknowledged in the session.
* `Worker.Watch.AskedTable` — what is claimed.

## Main results

* `Worker.asked_table` — it holds in every state of every run.
* `Worker.superseded_ask` — a request whose own Declare never goes out is answered all the same.
-/

namespace Worker

open Codec

/-! ## The queued requests -/

namespace Scores

variable (s : Scores)

/-- The requests neither sent nor answered: those taken, and those in the channel. -/
def queued : List TopScoresAsk := s.asks ++ s.channel.requests

/-- The script's requests go behind the others. -/
theorem queued_request (epoch : ℕ) (req : Wire.TopScoresRequest) (identity : ℕ) :
    s.queued.Sublist (s.request epoch req identity).queued := by
  have hrequests :
      s.channel.requests.Sublist (s.channel.request epoch req identity).2.requests := by
    unfold ReadBackChannel.request
    split
    · exact List.Sublist.refl _
    · exact List.sublist_append_left _ _
  exact (List.Sublist.refl _).append hrequests

/-- `TakeRequests` keeps their order. -/
@[simp] theorem queued_takeRequests : s.takeRequests.queued = s.queued := by
  simp [queued, takeRequests, ReadBackChannel.takeRequests]

/-- To say that leaderboards are there queues no request. -/
@[simp] theorem queued_setLeaderboards (available : Bool) :
    (s.setLeaderboards available).queued = s.queued := rfl

/-- To take the results leaves the queued requests. -/
@[simp] theorem queued_takeResults : s.takeResults.queued = s.queued := rfl

variable {s} in
/-- Posts leave the queued requests alone. -/
theorem PostsKeep.queued {s' : Scores} {keys : Multiset (UInt32 × ℕ)} (h : PostsKeep s s' keys) :
    s'.queued = s.queued := by
  rw [Scores.queued, Scores.queued, h.asks, h.requests]

/-- A table switch answers those sent, and leaves the queued ones. -/
theorem queued_endReadBacks : (s.endReadBacks false).queued = s.queued :=
  (s.postPending_keep s.pendingScores scoresLost).queued

/-- `LoseQueuedRequests` answers those of an older identity. -/
theorem queued_loseQueuedRequests (epoch identity : ℕ) :
    (s.loseQueuedRequests epoch identity).queued =
      s.queued.filter (!asksOld epoch identity ·) := by
  have hk := s.takeRequests.postAsks_keep (s.takeRequests.asks.filter (asksOld epoch identity))
    scoresLost
  have hrequests : (s.loseQueuedRequests epoch identity).channel.requests = [] := hk.requests
  rw [queued, hrequests, List.append_nil]
  rfl

/-- A request registered leaves the others. -/
theorem queued_register (id : UInt32) (epoch : ℕ) : (s.register id epoch).queued = s.queued := by
  unfold register makeRoom
  split
  · rfl
  · split <;> rfl

/-- A refusal leaves the queued requests alone. -/
theorem queued_refused (ask : TopScoresAsk) (code : UInt16) :
    (s.refused ask code).queued = s.queued := by
  unfold refused
  split <;> rfl

/-- A result leaves the queued requests alone. -/
theorem queued_answerTopScores (payload : Bytes) :
    (s.answerTopScores payload).queued = s.queued := by
  unfold answerTopScores
  split
  · split <;> rfl
  · split
    · rfl
    · split <;> rfl

/-- No queued request has the id of one that was sent or answered.

**Proof sketch.** What was posted, what is pending and what is queued are apart in what is accounted
for, in which no id is twice. -/
theorem Distinct.queued {s : Scores} (h : s.Distinct) {ask : TopScoresAsk} (hq : ask ∈ s.queued) :
    (∀ post ∈ s.ledger.posted, post.requestId ≠ ask.id) ∧
      ask.id ∉ s.pendingScores.map Prod.fst := by
  have heq : (↑(s.ledger.posted.map TopScoresPost.requestId ++
      (s.queued.map TopScoresAsk.id ++ s.pendingScores.map Prod.fst)) : Multiset UInt32) =
      s.accounted.map Prod.fst := by
    have hposted : Prod.fst ∘ TopScoresPost.key = TopScoresPost.requestId := rfl
    have hask : Prod.fst ∘ TopScoresAsk.key = TopScoresAsk.id := rfl
    simp only [accounted, answered, outstanding, Scores.queued, Multiset.map_add, Multiset.map_coe,
      List.map_map, List.map_append, ← Multiset.coe_add, hposted, hask]
    abel
  have hdistinct : (s.accounted.map Prod.fst).Nodup := h
  rw [← heq] at hdistinct
  have hnodup := Multiset.coe_nodup.mp hdistinct
  obtain ⟨-, hrest, hposted⟩ := List.nodup_append.mp hnodup
  obtain ⟨-, -, hpending⟩ := List.nodup_append.mp hrest
  have hid : ask.id ∈ s.queued.map TopScoresAsk.id := List.mem_map_of_mem hq
  constructor
  · intro post hpost
    exact hposted _ (List.mem_map_of_mem hpost) _ (List.mem_append_left _ hid)
  · intro hmem
    exact hpending _ hid _ hmem rfl

end Scores

/-! ## A request's table -/

/-- The request was asked under a newer epoch, or identity of the same epoch, than a declaration. -/
def TopScoresAsk.newer (ask : TopScoresAsk) (d : DeclareSnapshot) : Bool :=
  decide (d.epoch < ask.epoch ∨ (ask.epoch = d.epoch ∧ d.identity < ask.identity))

/-- No Declare as new as the request was acknowledged in the session. -/
def GamePath.awaits {Ask : Type} (p : GamePath Ask) (ask : TopScoresAsk) : Bool :=
  (lastDeclared p.log.events).all ask.newer

/-- What `SendTopScoresRequests` checks before a request goes out. -/
structure State.Clears (cfg : Config) (s : State) (ask : TopScoresAsk) : Prop where
  pc : s.path.pc = .sendScores
  haveDeclared : s.path.link.haveDeclared = true
  epoch : s.path.link.declared.epoch = ask.epoch
  identity : s.path.link.declared.identity = ask.identity
  allowed : s.path.link.readBackAllowed cfg Wire.capLeaderboards = true
  identified : s.path.link.identifies s.path.link.declared.declare = true

/-- The requests that await their Declare stay queued, one that goes out was checked, and queued
ones are lost for a declared table only. -/
structure AskStep (cfg : Config) (s s' : State) : Prop where
  kept : s'.path.pc ≠ .offline → (s.scores.queued.filter s.path.awaits).Sublist s'.scores.queued
  sent : ∀ request ask, s'.path.pc = .exchange request (.scores ask) → s.path.pc ≠ s'.path.pc →
    s.Clears cfg ask
  lose : s'.path.pc = .loseQueued → s'.path.link.haveDeclared = true

/-- Neither at `LoseQueuedRequests` nor awaiting a leaderboard's reply. -/
def Pc.apart : Pc TopScoresAsk → Bool
  | .loseQueued | .exchange _ (.scores _) => false
  | _ => true

section Step

variable {cfg : Config} {s s' : State}

/-- The connection ends. -/
theorem AskStep.ofOffline (ho : s'.path.pc = .offline) : AskStep cfg s s' := by
  refine ⟨fun hne => absurd ho hne, fun request ask hpc => ?_, fun hpc => ?_⟩
  · cases ho.symm.trans hpc
  · cases ho.symm.trans hpc

/-- A step that leaves the queued requests, and goes on apart. -/
theorem AskStep.ofApart (hq : s.scores.queued.Sublist s'.scores.queued) (hp : s'.path.pc.apart) :
    AskStep cfg s s' := by
  refine ⟨fun _ => List.filter_sublist.trans hq, fun request ask hpc => ?_, fun hpc => ?_⟩
  · simp [hpc, Pc.apart] at hp
  · simp [hpc, Pc.apart] at hp

/-- A step that leaves the queued requests, and the worker where it stands. -/
theorem AskStep.ofStay (hq : s.scores.queued.Sublist s'.scores.queued)
    (hpc : s'.path.pc = s.path.pc) (hd : s'.path.link.haveDeclared = s.path.link.haveDeclared)
    (hl : s.path.pc = .loseQueued → s.path.link.haveDeclared = true) : AskStep cfg s s' :=
  ⟨fun _ => List.filter_sublist.trans hq, fun _ _ _ hne => absurd hpc.symm hne,
    fun h => hd.trans (hl (hpc.symm.trans h))⟩

/-- With a table declared, a request that is not newer does not wait. -/
theorem awaits_declared (hs : s.path.Declared) (hd : s.path.link.haveDeclared = true)
    (ho : s.path.pc ≠ .offline) (ask : TopScoresAsk) :
    s.path.awaits ask = ask.newer s.path.link.declared := by
  rw [GamePath.awaits, hs hd ho, Option.all_some]

/-- One turn of `SendTopScoresRequests`.

**Proof sketch.** With no request, or one whose table is not declared yet, nothing leaves the queue.
The first one is otherwise of the declared table: sent, or answered; and one of an older table is
lost. -/
theorem ask_sendScores (hs : s.path.Declared) (hpc : s.path.pc = .sendScores) :
    AskStep cfg s (s.sendScores cfg) := by
  unfold State.sendScores
  split
  · exact .ofApart (List.Sublist.refl _) rfl
  · rename_i ask rest hasks
    split
    · exact .ofApart (List.Sublist.refl _) rfl
    · rename_i hfront
      simp only [not_or, not_and, Bool.not_eq_true', Bool.not_eq_false, gt_iff_lt, not_lt] at hfront
      obtain ⟨hd, hepoch, hidentity⟩ := hfront
      have hnot : s.path.awaits ask = false := by
        rw [awaits_declared hs hd (by simp [hpc])]
        simp only [TopScoresAsk.newer, decide_eq_false_iff_not, not_or, not_and, not_lt]
        exact ⟨hepoch, hidentity⟩
      have hqueued : (s.scores.queued.filter s.path.awaits).Sublist
          { s.scores with asks := rest }.queued := by
        rw [Scores.queued, hasks, List.cons_append, List.filter_cons_of_neg (by simp [hnot])]
        exact List.filter_sublist
      split
      · refine ⟨fun _ => hqueued, fun request ask' hpc' => ?_, fun hpc' => ?_⟩
        · cases hpc.symm.trans hpc'
        · cases hpc.symm.trans hpc'
      · rename_i haway
        refine ⟨fun _ => ?_, fun request ask' hpc' _ => ?_, fun hpc' => by cases hpc'⟩
        · show (s.scores.queued.filter s.path.awaits).Sublist
            (Scores.register { s.scores with asks := rest } ask.id ask.epoch).queued
          rw [Scores.queued_register]
          exact hqueued
        · obtain ⟨-, hk⟩ := Pc.exchange.inj hpc'
          obtain rfl := Awaiting.scores.inj hk
          unfold State.turnedAway at haway
          split at haway
          · cases haway
          · rename_i hold
            simp only [not_or, not_lt] at hold
            have heq : ask.epoch = s.path.link.declared.epoch := le_antisymm hepoch hold.1
            split at haway
            · cases haway
            · rename_i hallowed
              split at haway
              · cases haway
              · rename_i hidentified
                refine ⟨hpc, hd, heq.symm, le_antisymm hold.2 (hidentity heq),
                  by simpa using hallowed, ?_⟩
                simp only [Bool.not_eq_true', Bool.not_eq_false, Link.tableIdentified,
                  Bool.and_eq_true] at hidentified
                exact hidentified.2

/-- `LoseQueuedRequests` loses no request that awaits its Declare. -/
theorem ask_loseQueued (hs : s.path.Declared) (hpc : s.path.pc = .loseQueued)
    (hd : s.path.link.haveDeclared = true) : AskStep cfg s (s.loseQueued cfg) := by
  refine ⟨fun _ => ?_, fun request ask hpc' => (by cases hpc'), fun hpc' => (by cases hpc')⟩
  show (s.scores.queued.filter s.path.awaits).Sublist (Scores.queued (if _ then _ else _))
  split
  · rw [Scores.queued_loseQueuedRequests]
    refine List.monotone_filter_right _ fun ask hask => ?_
    rw [awaits_declared hs hd (by simp [hpc])] at hask
    have hnewer := of_decide_eq_true hask
    simp only [Scores.asksOld, Bool.not_eq_true', Bool.and_eq_false_iff, beq_eq_false_iff_ne,
      decide_eq_false_iff_not, not_lt]
    omega
  · exact List.filter_sublist

/-- The worker goes on.

**Proof sketch.** By the place. What is queued is taken over, lost where its table is no more
(`ask_loseQueued`), or sent (`ask_sendScores`); at every other place it stays. -/
theorem ask_go (hs : s.path.Declared)
    (hl : s.path.pc = .loseQueued → s.path.link.haveDeclared = true) (h : s.go cfg = some s') :
    AskStep cfg s s' := by
  unfold State.go at h
  split at h
  case h_1 hpc =>
    obtain rfl := Option.some.inj h
    refine .ofApart ?_ rfl
    show s.scores.queued.Sublist (Scores.queued (if cfg.readBack then _ else s.scores))
    split <;> exact List.Sublist.refl _
  case h_2 hpc =>
    obtain rfl := Option.some.inj h
    refine .ofApart (List.Sublist.refl _) ?_
    show s.path.maybeDeclare.pc.apart
    simp only [GamePath.maybeDeclare]
    split <;> rfl
  case h_3 flush hpc =>
    obtain rfl := Option.some.inj h
    exact .ofApart (List.Sublist.refl _) rfl
  case h_4 flush hpc =>
    obtain rfl := Option.some.inj h
    refine .ofApart (List.Sublist.refl _) ?_
    show (s.path.sendGames flush).pc.apart
    rcases pc_sendGames hpc with heq | heq | ⟨_, heq⟩ <;> rw [heq]
    · cases flush <;> rfl
    · rfl
    · rfl
  case h_5 hpc =>
    obtain rfl := Option.some.inj h
    refine .ofApart ?_ ?_
    · show s.scores.queued.Sublist (Scores.queued (if _ then s.scores else _))
      split <;> exact List.Sublist.refl _
    · show s.path.sendDeclare.pc.apart
      unfold GamePath.sendDeclare
      split <;> rfl
  case h_6 hpc =>
    obtain rfl := Option.some.inj h
    exact ask_loseQueued hs hpc (hl hpc)
  case h_7 hpc =>
    obtain rfl := Option.some.inj h
    unfold State.takeRequests
    split
    · exact .ofApart (by simp) rfl
    · exact .ofApart (List.Sublist.refl _) rfl
  case h_8 hpc =>
    obtain rfl := Option.some.inj h
    exact ask_sendScores hs hpc
  case h_9 hpc =>
    obtain rfl := Option.some.inj h
    exact .ofApart (List.Sublist.refl _) rfl
  case h_10 | h_11 => simp at h

/-- A message that is no response.

**Proof sketch.** Serving a message leaves the queued requests, whatever becomes of it. -/
theorem ask_dispatched (hl : s.path.pc = .loseQueued → s.path.link.haveDeclared = true)
    (msg : Wire.Message) {pc : Pc TopScoresAsk} (hp : pc = s.path.pc ∨ pc.apart) :
    AskStep cfg s (s.dispatched cfg msg pc) := by
  have hqueued : ∀ scores, s.dispatch cfg msg = some scores → scores.queued = s.scores.queued := by
    intro scores h
    unfold State.dispatch at h
    split at h
    · obtain rfl := Option.some.inj h
      exact Scores.queued_answerTopScores _ _
    · split at h
      · cases h
      · obtain rfl := Option.some.inj h
        rfl
  unfold State.dispatched
  split
  · exact .ofOffline rfl
  · rename_i scores h
    have hsub : s.scores.queued.Sublist scores.queued := by
      rw [hqueued scores h]
    rcases hp with rfl | hp
    · exact .ofStay hsub rfl rfl hl
    · exact .ofApart hsub hp

/-- An exchange's reply.

**Proof sketch.** By the exchange. A refused Hello or Declare ends the connection. Otherwise no
reply takes a request from the queue, and only an acknowledged Declare leads to `loseQueued`, with
its table declared. -/
theorem ask_resume {request : Wire.Message} {k : Awaiting TopScoresAsk}
    (hpc : s.path.pc = .exchange request k) (reply : Wire.Message) :
    AskStep cfg s (s.resume cfg k reply) := by
  cases k with
  | hello =>
    unfold State.resume
    dsimp only
    split
    · exact .ofOffline rfl
    · exact .ofApart (List.Sublist.refl _) rfl
  | game flush =>
    refine .ofApart (List.Sublist.refl _) ?_
    show (s.path.gameAnswered flush reply).pc.apart
    unfold GamePath.gameAnswered
    split
    · exact hpc ▸ rfl
    · split <;> rfl
  | declare now =>
    show AskStep cfg s (s.declareAnswered cfg now reply)
    unfold State.declareAnswered
    split
    · exact .ofOffline rfl
    · refine ⟨fun _ => List.filter_sublist.trans ?_, fun request ask hpc' => ?_, fun _ => rfl⟩
      · show s.scores.queued.Sublist (Scores.queued (if _ then _ else s.scores))
        split
        · rw [Scores.queued_endReadBacks]
        · exact List.Sublist.refl _
      · simp only [GamePath.declareAcked] at hpc'
        split at hpc' <;> cases hpc'
  | scores ask =>
    show AskStep cfg s (s.scoresAnswered ask reply)
    unfold State.scoresAnswered
    dsimp only
    split
    · refine .ofApart ?_ rfl
      show s.scores.queued.Sublist (s.scores.refused ask _).queued
      rw [Scores.queued_refused]
    · exact .ofApart (List.Sublist.refl _) rfl
  | ping => exact .ofApart (List.Sublist.refl _) rfl

/-- **Every step leaves the requests that await their Declare queued.**

**Proof sketch.** By the step. What the script and the API thread do leaves the queue, and so does a
message that is dispatched; the worker's own steps are `ask_go` and `ask_resume`. -/
theorem ask_step {a : Act} (hs : s.path.Declared)
    (hl : s.path.pc = .loseQueued → s.path.link.haveDeclared = true)
    (h : step cfg s a = some s') : AskStep cfg s s' := by
  cases a with
  | post d =>
    obtain ⟨-, h⟩ := Option.ite_none_right_eq_some.mp h
    obtain rfl := Option.some.inj h
    exact .ofStay (List.Sublist.refl _) rfl rfl hl
  | commit batch =>
    obtain ⟨hb, h⟩ := Option.dite_none_right_eq_some.mp h
    obtain rfl := Option.some.inj h
    exact .ofStay (List.Sublist.refl _) rfl rfl hl
  | evict i =>
    obtain rfl := Option.some.inj h
    exact .ofStay (List.Sublist.refl _) rfl rfl hl
  | request epoch req identity =>
    obtain rfl := Option.some.inj h
    exact .ofStay (s.scores.queued_request epoch req identity) rfl rfl hl
  | takeResults =>
    obtain rfl := Option.some.inj h
    exact .ofStay (List.Sublist.refl _) rfl rfl hl
  | connect token =>
    obtain ⟨-, h⟩ := Option.ite_none_right_eq_some.mp h
    cases token with
    | none =>
      obtain rfl := Option.some.inj h
      exact .ofOffline rfl
    | some token =>
      obtain rfl := Option.some.inj h
      exact .ofApart (List.Sublist.refl _) rfl
  | go => exact ask_go hs hl h
  | recv msg =>
    change s.recv cfg msg = some s' at h
    unfold State.recv at h
    split at h
    case h_1 request k hpc =>
      split at h
      · obtain rfl := Option.some.inj h
        exact ask_resume hpc msg
      · split at h
        · obtain rfl := Option.some.inj h
          exact .ofStay (List.Sublist.refl _) rfl rfl hl
        · obtain rfl := Option.some.inj h
          exact ask_dispatched hl msg (.inl hpc.symm)
    case h_2 hpc =>
      split at h
      · obtain rfl := Option.some.inj h
        exact .ofApart (List.Sublist.refl _) rfl
      · obtain rfl := Option.some.inj h
        exact ask_dispatched hl msg (.inr rfl)
    case h_3 => simp at h
  | ping =>
    obtain ⟨-, h⟩ := Option.ite_none_right_eq_some.mp h
    obtain rfl := Option.some.inj h
    exact .ofApart (List.Sublist.refl _) rfl
  | cut =>
    obtain ⟨-, h⟩ := Option.ite_none_right_eq_some.mp h
    obtain rfl := Option.some.inj h
    exact .ofOffline rfl

end Step

/-! ## Every run -/

/-- A Declare names a table: a ROM, or an authored table's machine. -/
def namesTable (d : Wire.Declare) : Prop :=
  d.romId ≠ [] ∨ (d.tablePath ≠ [] ∧ d.tableKind = Wire.tableAuthored ∧ d.machineUuid ≠ [])

/-- A declaration that identifies a table to the daemon goes out in a Declare that names it. -/
theorem namesTable_asSent {l : Link} {d : Wire.Declare} (h : l.identifies d = true) :
    namesTable (l.asSent d) := by
  unfold Link.identifies at h
  unfold Link.asSent
  rcases Bool.or_eq_true_iff.mp h with h | h
  · have hrom : d.romId ≠ [] := by simpa using h
    split <;> exact .inl hrom
  · simp only [Bool.and_eq_true, Bool.not_eq_true', List.isEmpty_eq_false_iff, beq_iff_eq] at h
    obtain ⟨⟨⟨hpath, hkind⟩, huuid⟩, hallowed⟩ := h
    rw [if_neg (by simp [hallowed])]
    exact .inr ⟨hpath, hkind, huuid⟩

/-- What a request goes out under: the Declare last acknowledged in the session has its epoch and
its identity and names a table, and leaderboards were negotiated on the connection. -/
structure Watch.Asks (cfg : Config) (w : Watch) (ask : TopScoresAsk) : Prop where
  table : ∃ d sent, lastDeclared w.state.path.log.events = some d ∧ d.epoch = ask.epoch ∧
    d.identity = ask.identity ∧ w.out.head? = some (d, sent) ∧ namesTable sent
  offered : ∃ ack, w.offer = some ack ∧ 2 ≤ ack.protoMinor ∧
    ack.capabilities &&& Wire.capLeaderboards ≠ 0 ∧ cfg.ownCapabilities &&& Wire.capLeaderboards ≠ 0

/-- What is claimed of the leaderboard requests. -/
structure Watch.AskedTable (cfg : Config) (w : Watch) : Prop where
  /-- A request goes out to its own table. -/
  sent : ∀ a w' request ask, (watch cfg).step w a w' →
    w'.state.path.pc = .exchange request (.scores ask) → w.state.path.pc ≠ w'.state.path.pc →
    w.Asks cfg ask
  /-- A queued request stays queued for as long as the session lives and acknowledges no Declare
  as new as the request. -/
  kept : ∀ ask ∈ w.state.scores.queued, ∀ w',
    ((watch cfg).onFrom w).Reaches
      (fun v _ => v.state.path.pc ≠ .offline ∧ v.state.path.awaits ask = true) w' →
    w'.state.path.pc ≠ .offline → ask ∈ w'.state.scores.queued
  /-- A queued request was neither sent nor answered. -/
  queued : w.state.scores.Few → ∀ ask ∈ w.state.scores.queued,
    w.state.scores.answers ask.id = [] ∧ ask.id ∉ w.state.scores.pendingScores.map Prod.fst

/-- What the worker knows of its declared table. -/
theorem watch_lose {cfg : Config} {w : Watch} (h : (watch cfg).Reachable w) :
    w.state.path.Sorted ∧
      (w.state.path.pc = .loseQueued → w.state.path.link.haveDeclared = true) := by
  refine h.invariant (I := fun w => w.state.path.Sorted ∧
    (w.state.path.pc = .loseQueued → w.state.path.link.haveDeclared = true)) ?_ ?_
  · rintro w ⟨d, rfl⟩
    exact ⟨GamePath.sorted_init ⟨d, rfl⟩, fun hpc => by cases hpc⟩
  · rintro w a w' ⟨hs, hl⟩ - hstep
    obtain ⟨s', ht, rfl⟩ := Option.map_eq_some_iff.mp hstep
    obtain ⟨m, hm⟩ := step_moves ht
    exact ⟨hs.moves hm, (ask_step hs.declared hl ht).lose⟩

/-- A request that was checked goes out to its own table. -/
theorem Watch.asks {cfg : Config} {w : Watch} (h : (watch cfg).Reachable w) {ask : TopScoresAsk}
    (hc : w.state.Clears cfg ask) : w.Asks cfg ask := by
  have hs := (watch_lose h).1
  have hpc := hc.pc
  have hhead := (watch_recorded h).declared hc.haveDeclared (by simp [hpc]) (by simp [hpc])
  obtain ⟨ack, hack, hminor, hcaps⟩ := watch_offered h (by simp [hpc, Pc.past])
  constructor
  · exact ⟨_, _, hs.declared hc.haveDeclared (by simp [hpc]), hc.epoch, hc.identity, hhead,
      namesTable_asSent hc.identified⟩
  · have hallowed := hc.allowed
    have hne : Wire.capLeaderboards ≠ Wire.capPlayerPictures := by decide
    simp only [Link.readBackAllowed, hne, decide_false, Bool.false_and, Bool.false_eq_true,
      if_false, Bool.and_eq_true, decide_eq_true_eq, bne_iff_ne, hminor, hcaps] at hallowed
    exact ⟨ack, hack, hallowed.1.1, hallowed.2, hallowed.1.2⟩

/-- **Leaderboard requests go only to their own table.** In every state of every run a request goes
out only while the Declare last acknowledged in the session has its epoch and its identity and names
a table, and leaderboards were negotiated; and one asked under a newer epoch or identity is neither
sent nor answered before a Declare that is not older is acknowledged, unless the session ends.

**Proof sketch.** `SendTopScoresRequests` stops at the first request whose table is not declared yet
and answers those whose table has gone; the other steps that take a request from the queue are the
end of the session and `LoseQueuedRequests`, which takes those of an older identity. -/
theorem asked_table (cfg : Config) {w : Watch} (h : (watch cfg).Reachable w) :
    w.AskedTable cfg := by
  obtain ⟨hs, hl⟩ := watch_lose h
  refine ⟨?_, ?_, ?_⟩
  · intro a w' request ask hstep hpc hne
    obtain ⟨s', ht, rfl⟩ := Option.map_eq_some_iff.mp hstep
    exact Watch.asks h ((ask_step hs.declared hl ht).sent request ask hpc hne)
  · intro ask hask w' hrun
    have hall : (watch cfg).Reachable w' ∧
        (w'.state.path.pc ≠ .offline → ask ∈ w'.state.scores.queued) := by
      refine hrun.invariant (I := fun v => (watch cfg).Reachable v ∧
        (v.state.path.pc ≠ .offline → ask ∈ v.state.scores.queued)) ?_ ?_
      · rintro v rfl
        exact ⟨h, fun _ => hask⟩
      · rintro v a v' ⟨hv, hq⟩ ⟨ho, hawaits⟩ hstep
        refine ⟨.step hv trivial hstep, fun ho' => ?_⟩
        obtain ⟨hs, hl⟩ := watch_lose hv
        obtain ⟨s', ht, rfl⟩ := Option.map_eq_some_iff.mp hstep
        have hmem : ask ∈ v.state.scores.queued.filter v.state.path.awaits :=
          List.mem_filter.mpr ⟨hq ho, hawaits⟩
        exact ((ask_step hs.declared hl ht).kept ho').subset hmem
    exact hall.2
  · intro hf ask hask
    have hdistinct := (accounted ((watch_simulation cfg).reaches h) hf).conserved.distinct
    obtain ⟨hposted, hpending⟩ := hdistinct.queued hask
    refine ⟨?_, hpending⟩
    simpa [Scores.answers] using hposted

/-- A table is declared, its identity changes and the script asks under the new one. -/
def askingRun : List Act :=
  let caps := Wire.capAuthoredTables ||| Wire.capLeaderboards
  [.connect (some []), helloAckOf 2 caps, .go, .go, .go, ackOf 2, .go, .go, .go, .go, .go, .go,
    .post (tableOf 1 1), .request 1 {} 1]

/-- The new identity is declared, and the request comes to be sent. -/
def askedTableRun : List Act := askingRun ++ [.go, .go, ackOf 3, .go, .go, .go, .go]

/-- A request that waits for its Declare, and goes out under it. -/
theorem asked_table_askedTableRun : ∃ w w', Runs.runOf (watchStep {})
      { state := start (tableOf 1 0) } askedTableRun = some w ∧ (watch {}).step w .go w' ∧
    (∃ request ask, w'.state.path.pc = .exchange request (.scores ask) ∧ ask.identity = 1) ∧
    w.AskedTable {} := by
  have hrun : (Runs.runOf (watchStep {}) { state := start (tableOf 1 0) } askedTableRun).any
      (fun w => (watchStep {} w .go).any fun w' => decide
        (∃ ask ∈ w.state.scores.asks, w'.state.path.pc = .exchange
          ⟨⟨Wire.typeTopScoresRequest, 0, w'.state.path.link.seq⟩, ask.request.encode⟩
          (.scores ask) ∧ ask.identity = 1)) = true := by
    decide +kernel
  obtain ⟨w, hw, hstep⟩ := (Option.any_eq_true _ _).mp hrun
  obtain ⟨w', hw', hsent⟩ := (Option.any_eq_true _ _).mp hstep
  obtain ⟨ask, -, hpc, hid⟩ := of_decide_eq_true hsent
  have hreach : (watch {}).Reachable w := Runs.reachable_of_runOf ⟨tableOf 1 0, rfl⟩ hw
  exact ⟨w, w', hw, hw', ⟨_, ask, hpc, hid⟩, asked_table {} hreach⟩

/-- The identity changes again before the worker takes the declaration, so the request's own one is
never declared. -/
def supersededRun : List Act := [.post (tableOf 1 2), .go, .go, ackOf 3, .go]

/-- A request whose own Declare never goes out is answered in the session: lost, once a newer
identity is declared. -/
theorem superseded_ask : ∃ v w ask, (watch {}).Reachable v ∧ ask ∈ v.state.scores.queued ∧
    v.state.path.link.haveDeclared = true ∧ v.state.path.awaits ask = true ∧
    ((watch {}).onFrom v).Reaches (fun u _ => u.state.path.pc ≠ .offline) w ∧
    w.state.path.pc ≠ .offline ∧ w.state.scores.answers ask.id ≠ [] ∧
    ∀ d, .declared d ∈ w.state.path.log.events →
      ¬ (d.epoch = ask.epoch ∧ d.identity = ask.identity) := by
  have hrun : (Runs.runOf (watchStep {}) { state := start (tableOf 1 0) } askingRun).any
      (fun v => (Runs.runOf (watchStep {}) v supersededRun).any fun w =>
        Runs.holdsAlong (watchStep {}) (fun u _ => u.state.path.pc != .offline) v supersededRun &&
        decide (∃ ask ∈ v.state.scores.queued, v.state.path.link.haveDeclared = true ∧
          v.state.path.awaits ask = true ∧ w.state.path.pc ≠ .offline ∧
          w.state.scores.answers ask.id ≠ [] ∧
          w.state.path.log.events.all fun e => e != .declared (tableOf ask.epoch ask.identity) &&
            (e == .declared (tableOf 1 0) || e == .declared (tableOf 1 2)))) = true := by
    decide +kernel
  obtain ⟨v, hv, hrest⟩ := (Option.any_eq_true _ _).mp hrun
  obtain ⟨w, hw, hcheck⟩ := (Option.any_eq_true _ _).mp hrest
  obtain ⟨halong, hcheck⟩ := Bool.and_eq_true_iff.mp hcheck
  obtain ⟨ask, hask, hd, hawaits, ho, hanswers, hevents⟩ := of_decide_eq_true hcheck
  refine ⟨v, w, ask, Runs.reachable_of_runOf ⟨tableOf 1 0, rfl⟩ hv, hask, hd, hawaits, ?_, ho,
    hanswers, ?_⟩
  · exact Runs.System.Reaches.runOf (fun u a h => by simpa using h) supersededRun (.init rfl)
      halong hw
  · rintro d hd ⟨hepoch, hidentity⟩
    have he := List.all_eq_true.mp hevents _ hd
    simp only [Bool.and_eq_true, bne_iff_ne, ne_eq, GameEvent.declared.injEq, Bool.or_eq_true,
      beq_iff_eq] at he
    obtain ⟨hne, rfl | rfl⟩ := he
    · exact hne (by rw [← hepoch, ← hidentity]; rfl)
    · exact hne (by rw [← hepoch, ← hidentity]; rfl)

end Worker
