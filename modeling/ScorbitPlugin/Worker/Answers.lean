import Mathlib.Data.Multiset.Dedup
import Mathlib.Algebra.Order.Group.Multiset
import Mathlib.Tactic.Abel
import ScorbitPlugin.Worker.ReadBack

set_option relaxedAutoImplicit false
set_option autoImplicit false

/-!
# Every request is somewhere

A leaderboard request that got an id waits in the channel, among those the worker took, or among
those it sent; a result takes it from there. So the requests handed an id are, as a multiset of
ids and epochs, the results posted and the requests outstanding, and every function of the worker
keeps that. Ids are counted up from one, so while fewer than `2 ^ 31 - 1` were handed out no two
are the same, and the map of the sent ones loses none.

## Main definitions

* `Worker.Scores.outstanding`, `Worker.Scores.accounted` — the requests still on their way, and
  with those answered.
* `Worker.Scores.Numbered` — the ids handed out are `1, 2, …`.
* `Worker.Scores.Closed` — nothing is admitted and nothing outstanding.
* `Worker.Scores.Moves` — what a step can do to the requests.

## Main results

* `Worker.Scores.Moves.conserved` — no step loses a request or answers one twice.
-/

namespace Worker

open Codec

/-- What a request is known by: its id and the epoch it was asked with. -/
def TopScoresAsk.key (ask : TopScoresAsk) : UInt32 × ℕ := (ask.id, ask.epoch)

/-- What a result is known by. -/
def TopScoresPost.key (post : TopScoresPost) : UInt32 × ℕ := (post.requestId, post.epoch)

/-- The key of a request begins with its id. -/
@[simp] theorem TopScoresAsk.fst_key (ask : TopScoresAsk) : ask.key.1 = ask.id := rfl

/-! ## The map of the requests sent -/

/-- A new id is added to the others. -/
theorem coe_insertPending {id : UInt32} {epoch : ℕ} {pending : List (UInt32 × ℕ)}
    (h : id ∉ pending.map Prod.fst) :
    (insertPending id epoch pending : Multiset (UInt32 × ℕ)) = (id, epoch) ::ₘ ↑pending := by
  induction pending with
  | nil => rfl
  | cons p pending ih =>
    simp only [List.map_cons, List.mem_cons, not_or] at h
    unfold insertPending
    split
    · rfl
    · rw [if_neg h.1, ← Multiset.cons_coe, ih h.2, Multiset.cons_swap, Multiset.cons_coe]

/-- An id that is found is one of the map. -/
theorem mem_of_findPending {id : UInt32} {epoch : ℕ} {pending : List (UInt32 × ℕ)}
    (h : findPending id pending = some epoch) : (id, epoch) ∈ pending := by
  obtain ⟨p, hp, rfl⟩ := Option.map_eq_some_iff.mp h
  have hid : p.1 = id := by simpa using List.find?_some hp
  subst hid
  exact List.mem_of_find?_eq_some hp

/-- Erasing the one entry of an id leaves the others.

**Proof sketch.** By induction on the pending ones. The first entry of the id is erased, and with
distinct ids it is the entry itself. -/
theorem coe_erasePending {id : UInt32} {epoch : ℕ} {pending : List (UInt32 × ℕ)}
    (hn : (pending.map Prod.fst).Nodup) (h : (id, epoch) ∈ pending) :
    (id, epoch) ::ₘ (erasePending id pending : Multiset (UInt32 × ℕ)) = ↑pending := by
  induction pending with
  | nil => cases h
  | cons p pending ih =>
    simp only [List.map_cons, List.nodup_cons, List.mem_map, not_exists, not_and] at hn
    unfold erasePending at ih ⊢
    by_cases hp : p.1 = id
    · have hpe : p = (id, epoch) := by
        rcases List.mem_cons.mp h with rfl | hm
        · rfl
        · exact absurd hp.symm (hn.1 _ hm)
      have hrest : ∀ q ∈ pending, (q.1 != id) = true := fun q hq => by
        have := hn.1 q hq
        simpa [hp] using this
      subst hpe
      rw [List.filter_cons_of_neg (by simp), List.filter_eq_self.mpr hrest, Multiset.cons_coe]
    · have hm : (id, epoch) ∈ pending := by
        rcases List.mem_cons.mp h with rfl | hm
        · exact absurd rfl hp
        · exact hm
      rw [List.filter_cons_of_pos (by simpa using hp), ← Multiset.cons_coe, Multiset.cons_swap,
        ih hn.2 hm, Multiset.cons_coe]

namespace Scores

variable (s : Scores)

/-! ## Where the requests are -/

/-- The requests that got an id. -/
def handed : Multiset (UInt32 × ℕ) := ↑(s.ledger.handed.map TopScoresAsk.key)

/-- The requests a result was posted for. -/
def answered : Multiset (UInt32 × ℕ) := ↑(s.ledger.posted.map TopScoresPost.key)

/-- The requests on their way: queued, taken and sent. -/
def outstanding : Multiset (UInt32 × ℕ) :=
  ↑(s.channel.requests.map TopScoresAsk.key) + ↑(s.asks.map TopScoresAsk.key) + ↑s.pendingScores

/-- The requests answered and those on their way. -/
def accounted : Multiset (UInt32 × ℕ) := s.answered + s.outstanding

/-- Nothing is admitted and nothing is on its way. -/
structure Closed : Prop where
  leaderboards : s.channel.leaderboards = false
  requests : s.channel.requests = []
  asks : s.asks = []
  pending : s.pendingScores = []

/-- When nothing is on its way, every request is answered. -/
theorem Closed.accounted {s : Scores} (h : s.Closed) : s.accounted = s.answered := by
  simp [Scores.accounted, outstanding, h.requests, h.asks, h.pending]

/-! ## The posts -/

/-- The worker's side of a run of posts. -/
structure PostsKeep (s s' : Scores) (keys : Multiset (UInt32 × ℕ)) : Prop where
  answered : s'.answered = s.answered + keys
  handed : s'.ledger.handed = s.ledger.handed
  nextId : s'.channel.nextId = s.channel.nextId
  leaderboards : s'.channel.leaderboards = s.channel.leaderboards
  requests : s'.channel.requests = s.channel.requests
  asks : s'.asks = s.asks
  pending : s'.pendingScores = s.pendingScores

variable {s} in
/-- The posts take nothing from where the requests wait. -/
theorem PostsKeep.outstanding {s' : Scores} {keys : Multiset (UInt32 × ℕ)}
    (h : PostsKeep s s' keys) : s'.outstanding = s.outstanding := by
  simp [Scores.outstanding, h.requests, h.asks, h.pending]

/-- One post. -/
theorem postResult_keep (post : TopScoresPost) :
    PostsKeep s (s.postResult post) {post.key} := by
  refine ⟨?_, rfl, rfl, rfl, rfl, rfl, rfl⟩
  show ((s.ledger.posted ++ [post]).map TopScoresPost.key : Multiset (UInt32 × ℕ)) = _
  rw [List.map_append, ← Multiset.coe_add]
  rfl

/-- One post of a result decided here. -/
theorem postScores_keep (epoch : ℕ) (id : UInt32) (result : ℕ) :
    PostsKeep s (s.postScores epoch id result) {(id, epoch)} :=
  s.postResult_keep _

/-- A post after others. -/
theorem PostsKeep.trans {s s' s'' : Scores} {keys keys' : Multiset (UInt32 × ℕ)}
    (h : PostsKeep s s' keys) (h' : PostsKeep s' s'' keys') : PostsKeep s s'' (keys + keys') where
  answered := by rw [h'.answered, h.answered, add_assoc]
  handed := h'.handed.trans h.handed
  nextId := h'.nextId.trans h.nextId
  leaderboards := h'.leaderboards.trans h.leaderboards
  requests := h'.requests.trans h.requests
  asks := h'.asks.trans h.asks
  pending := h'.pending.trans h.pending

/-- A post for each of a list. -/
theorem postAsks_keep (asks : List TopScoresAsk) (result : ℕ) :
    PostsKeep s (s.postAsks asks result) ↑(asks.map TopScoresAsk.key) := by
  unfold postAsks
  induction asks generalizing s with
  | nil => exact ⟨by simp, rfl, rfl, rfl, rfl, rfl, rfl⟩
  | cons ask asks ih => exact (s.postScores_keep ask.epoch ask.id result).trans (ih _)

/-- A post for each pending request. -/
theorem postPending_keep (pending : List (UInt32 × ℕ)) (result : ℕ) :
    PostsKeep s (s.postPending pending result) ↑pending := by
  unfold postPending
  induction pending generalizing s with
  | nil => exact ⟨by simp, rfl, rfl, rfl, rfl, rfl, rfl⟩
  | cons p pending ih => exact (s.postScores_keep p.2 p.1 result).trans (ih _)

/-- Every request stays somewhere, and no id is handed out. -/
structure Keeps (s s' : Scores) : Prop where
  accounted : s'.accounted = s.accounted
  handed : s'.ledger.handed = s.ledger.handed
  nextId : s'.channel.nextId = s.channel.nextId

/-- Nothing changes. -/
theorem Keeps.refl : Keeps s s := ⟨rfl, rfl, rfl⟩

variable {s} in
/-- One after the other. -/
theorem Keeps.trans {s' s'' : Scores} (h : Keeps s s') (h' : Keeps s' s'') : Keeps s s'' :=
  ⟨h'.accounted.trans h.accounted, h'.handed.trans h.handed, h'.nextId.trans h.nextId⟩

variable {s} in
/-- Requests leave where they waited as their results are posted. -/
theorem PostsKeep.keeps {s' t : Scores} {keys : Multiset (UInt32 × ℕ)} (h : PostsKeep s s' keys)
    (hl : t.ledger = s'.ledger) (hn : t.channel.nextId = s'.channel.nextId)
    (ho : keys + t.outstanding = s'.outstanding) : Keeps s t where
  accounted := by
    have ha : t.answered = s'.answered := by rw [Scores.answered, Scores.answered, hl]
    rw [Scores.accounted, Scores.accounted, ha, h.answered, ← h.outstanding, ← ho, add_assoc]
  handed := by rw [hl, h.handed]
  nextId := hn.trans h.nextId

/-! ## The worker's functions keep every request -/

/-- `TakeRequests` moves the queued requests. -/
theorem keeps_takeRequests : Keeps s s.takeRequests := by
  have ho : s.takeRequests.outstanding = s.outstanding := by
    simp only [outstanding, takeRequests, ReadBackChannel.takeRequests, List.map_append,
      ← Multiset.coe_add, List.map_nil, Multiset.coe_nil]
    abel
  exact ⟨congrArg (s.answered + ·) ho, rfl, rfl⟩

/-- A connection that ended answers every request taken or queued. -/
theorem keeps_closeAsks : Keeps s s.closeAsks := by
  let t : Scores := { s with channel := (s.channel.close s.asks).2 }
  have hk := t.postAsks_keep (s.asks ++ s.channel.requests) scoresLost
  have ha : s.closeAsks.answered
      = s.answered + ↑((s.asks ++ s.channel.requests).map TopScoresAsk.key) := hk.answered
  have hr : s.closeAsks.channel.requests = [] := hk.requests
  have hp : s.closeAsks.pendingScores = s.pendingScores := hk.pending
  have hs : s.closeAsks.asks = [] := rfl
  refine ⟨?_, hk.handed, hk.nextId⟩
  rw [accounted, accounted, ha, outstanding, outstanding, hr, hp, hs, List.map_append,
    ← Multiset.coe_add]
  simp only [List.map_nil, Multiset.coe_nil]
  abel

/-- The requests sent are answered lost. -/
theorem keeps_endPending :
    Keeps s { s.postPending s.pendingScores scoresLost with pendingScores := [] } := by
  have hk := s.postPending_keep s.pendingScores scoresLost
  refine hk.keeps rfl rfl ?_
  simp only [outstanding, hk.pending, Multiset.coe_nil]
  abel

/-- The end of the read-backs keeps what was handed over. -/
theorem keeps_endReadBacks (lost : Bool) : Keeps s (s.endReadBacks lost) := by
  unfold endReadBacks
  cases lost with
  | false => exact s.keeps_endPending
  | true => exact s.keeps_closeAsks.trans s.closeAsks.keeps_endPending

/-- A connection that ended leaves nothing on its way, and no admission. -/
theorem closed_endReadBacks : (s.endReadBacks true).Closed := by
  let t : Scores := { s with channel := (s.channel.close s.asks).2 }
  have hk := t.postAsks_keep (s.asks ++ s.channel.requests) scoresLost
  have hk' := s.closeAsks.postPending_keep s.closeAsks.pendingScores scoresLost
  exact ⟨hk'.leaderboards.trans hk.leaderboards, hk'.requests.trans hk.requests, hk'.asks, rfl⟩

/-- A list's keys are those of the two halves a test splits it into. -/
theorem coe_filter_add (asks : List TopScoresAsk) (test : TopScoresAsk → Bool) :
    ((asks.filter test).map TopScoresAsk.key : Multiset (UInt32 × ℕ))
      + ↑((asks.filter (!test ·)).map TopScoresAsk.key) = ↑(asks.map TopScoresAsk.key) := by
  rw [Multiset.coe_add, ← List.map_append]
  exact Multiset.coe_eq_coe.mpr ((List.filter_append_perm test asks).map _)

/-- The requests of an older identity are answered, and the others kept. -/
theorem keeps_loseQueuedRequests (epoch identity : ℕ) :
    Keeps s (s.loseQueuedRequests epoch identity) := by
  have hk := s.takeRequests.postAsks_keep (s.takeRequests.asks.filter (asksOld epoch identity))
    scoresLost
  refine s.keeps_takeRequests.trans (hk.keeps rfl rfl ?_)
  simp only [outstanding, loseQueuedRequests, hk.requests, hk.asks, hk.pending,
    ← coe_filter_add s.takeRequests.asks (asksOld epoch identity)]
  abel

variable {s}

/-- A request turned away is answered. -/
theorem keeps_turnedAway {ask : TopScoresAsk} {rest : List TopScoresAsk}
    (h : s.asks = ask :: rest) (result : ℕ) :
    Keeps s ({ s with asks := rest }.postScores ask.epoch ask.id result) := by
  have hk := { s with asks := rest }.postScores_keep ask.epoch ask.id result
  refine ⟨?_, rfl, rfl⟩
  rw [accounted, accounted, hk.answered, hk.outstanding]
  simp only [outstanding, h, List.map_cons, ← Multiset.cons_coe, ← Multiset.singleton_add]
  show s.answered + {ask.key} + _ = _
  abel

/-- No two requests have one id. -/
def Distinct (s : Scores) : Prop := (s.accounted.map Prod.fst).Nodup

/-- No two requests taken or sent have one id. -/
theorem Distinct.waiting (h : s.Distinct) :
    (s.asks.map TopScoresAsk.id ++ s.pendingScores.map Prod.fst).Nodup := by
  have hle : (↑(s.asks.map TopScoresAsk.id ++ s.pendingScores.map Prod.fst) : Multiset UInt32)
      ≤ s.accounted.map Prod.fst := by
    have heq : (↑(s.asks.map TopScoresAsk.id ++ s.pendingScores.map Prod.fst) : Multiset UInt32)
        = (↑(s.asks.map TopScoresAsk.key) + ↑s.pendingScores : Multiset (UInt32 × ℕ)).map
          Prod.fst := by
      rw [Multiset.coe_add, Multiset.map_coe, List.map_append, List.map_map]
      rfl
    rw [heq]
    refine Multiset.map_le_map ?_
    rw [accounted, outstanding, add_assoc, ← add_assoc]
    exact Multiset.le_add_left _ _
  exact Multiset.coe_nodup.mp (Multiset.nodup_of_le hle h)

/-- No two requests sent have one id. -/
theorem Distinct.pending (h : s.Distinct) : (s.pendingScores.map Prod.fst).Nodup :=
  (List.nodup_append.mp h.waiting).2.1

/-- A pending request is answered as it leaves the map. -/
theorem keeps_popped (hd : s.Distinct) {id : UInt32} {epoch : ℕ}
    (hm : (id, epoch) ∈ s.pendingScores) (post : TopScoresPost) (hp : post.key = (id, epoch)) :
    Keeps s ({ s with pendingScores := erasePending id s.pendingScores }.postResult post) := by
  let t : Scores := { s with pendingScores := erasePending id s.pendingScores }
  have hk := t.postResult_keep post
  have ht : {post.key} + t.outstanding = s.outstanding := by
    simp only [outstanding, t]
    rw [← coe_erasePending hd.pending hm, ← Multiset.singleton_add, hp]
    abel
  refine ⟨?_, rfl, rfl⟩
  show (t.postResult post).accounted = _
  rw [accounted, accounted, hk.answered, hk.outstanding, ← ht, add_assoc]
  rfl

/-- A request refused is answered, unless it was. -/
theorem keeps_refused (hd : s.Distinct) {ask : TopScoresAsk}
    (hask : ∀ epoch, (ask.id, epoch) ∈ s.pendingScores → epoch = ask.epoch) (code : UInt16) :
    Keeps s (s.refused ask code) := by
  unfold refused
  split
  · exact .refl s
  · rename_i epoch hf
    have hm := mem_of_findPending hf
    obtain rfl := hask epoch hm
    exact keeps_popped hd hm _ rfl

/-- A result answers the pending request it names, if there is one. -/
theorem keeps_answerTopScores (hd : s.Distinct) (payload : Bytes) :
    Keeps s (s.answerTopScores payload) := by
  unfold answerTopScores
  split
  · split
    · exact .refl s
    · rename_i hf
      exact keeps_popped hd (mem_of_findPending hf) _ rfl
  · split
    · exact .refl s
    · split
      · exact .refl s
      · rename_i hf
        exact keeps_popped hd (mem_of_findPending hf) _ rfl

/-- The pending requests after room was made are among those before. -/
theorem pendingScores_makeRoom : s.makeRoom.pendingScores.Sublist s.pendingScores := by
  unfold makeRoom
  split
  · exact List.Sublist.refl _
  · rename_i oldest rest hp
    split
    · rw [hp]
      exact List.sublist_cons_self oldest rest
    · exact List.Sublist.refl _

/-- The oldest pending request is answered as it makes room. -/
theorem keeps_makeRoom : Keeps s s.makeRoom := by
  unfold makeRoom
  split
  · exact .refl s
  · rename_i oldest rest hp
    split
    · have hk := s.postScores_keep oldest.2 oldest.1 scoresLost
      refine hk.keeps rfl rfl ?_
      simp only [outstanding, hk.requests, hk.asks, hk.pending, hp, ← Multiset.cons_coe,
        ← Multiset.singleton_add]
      abel
    · exact .refl s

/-- A request sent moves to the pending ones.

**Proof sketch.** The id is in no pending entry, so the new one is put behind those for which room
is made, and what was waiting as a request is pending now. -/
theorem keeps_register (hd : s.Distinct) {ask : TopScoresAsk} {rest : List TopScoresAsk}
    (h : s.asks = ask :: rest) :
    Keeps s ({ s with asks := rest }.register ask.id ask.epoch) := by
  let t : Scores := { s with asks := rest }
  have hk : Keeps t t.makeRoom := keeps_makeRoom
  have hnew : ask.id ∉ s.pendingScores.map Prod.fst := by
    have hw := hd.waiting
    rw [h, List.map_cons, List.cons_append, List.nodup_cons, List.mem_append, not_or] at hw
    exact hw.1.2
  have hroom : ask.id ∉ t.makeRoom.pendingScores.map Prod.fst := fun hm =>
    hnew ((pendingScores_makeRoom (s := t).map Prod.fst).subset hm)
  have hreg : (t.register ask.id ask.epoch).accounted = {ask.key} + t.makeRoom.accounted := by
    simp only [accounted, outstanding, register, coe_insertPending hroom, ← Multiset.singleton_add]
    show t.makeRoom.answered + _ = _
    simp only [TopScoresAsk.key]
    abel
  have hs : s.accounted = {ask.key} + t.accounted := by
    simp only [accounted, outstanding, h, List.map_cons, ← Multiset.cons_coe,
      ← Multiset.singleton_add]
    show s.answered + _ = {ask.key} + (s.answered + _)
    abel
  refine ⟨?_, hk.handed, hk.nextId⟩
  rw [hs, ← hk.accounted]
  exact hreg

/-! ## The ids -/

/-- Fewer requests got an id than there are ids. -/
def Few (s : Scores) : Prop := s.ledger.handed.length < 2 ^ 31 - 1

/-- The ids handed out are `1, 2, …`. -/
structure Numbered (s : Scores) : Prop where
  ids : s.ledger.handed.map (·.id.toNat) = List.range' 1 s.ledger.handed.length
  nextId : s.channel.nextId.toNat = s.ledger.handed.length + 1

/-- No id is handed out twice. -/
theorem Numbered.nodup (h : s.Numbered) : (s.ledger.handed.map TopScoresAsk.id).Nodup := by
  refine List.Nodup.of_map UInt32.toNat ?_
  rw [List.map_map]
  exact h.ids ▸ List.nodup_range'

/-- No id handed out is zero. -/
theorem Numbered.ne_zero (h : s.Numbered) {ask : TopScoresAsk} (ha : ask ∈ s.ledger.handed) :
    ask.id ≠ 0 := by
  have hm : ask.id.toNat ∈ List.range' 1 s.ledger.handed.length :=
    h.ids ▸ List.mem_map_of_mem (f := fun a : TopScoresAsk => a.id.toNat) ha
  intro h0
  rw [h0, List.mem_range'_1] at hm
  exact absurd hm.1 (by decide)

/-- What is known of the requests in every state: the ids are numbered, and every request that got
one is answered or on its way. -/
structure Conserved (s : Scores) : Prop where
  numbered : s.Numbered
  handed : s.handed = s.accounted

/-- No two requests have one id. -/
theorem Conserved.distinct (h : s.Conserved) : s.Distinct := by
  rw [Distinct, ← h.handed, Scores.handed, Multiset.map_coe, List.map_map]
  exact Multiset.coe_nodup.mpr h.numbered.nodup

/-- It stays so while no id is handed out. -/
theorem Conserved.keeps {s' : Scores} (h : s.Conserved) (hk : Keeps s s') : s'.Conserved where
  numbered := ⟨by rw [hk.handed]; exact h.numbered.ids, by
    rw [hk.nextId, hk.handed]; exact h.numbered.nextId⟩
  handed := by rw [hk.accounted, ← h.handed, Scores.handed, Scores.handed, hk.handed]

/-- The script's request changes nothing, or is handed the next id.

**Proof sketch.** Without leaderboards, or with the queue full, nothing changes. Else the request
gets the next id, which is not zero. -/
theorem request_cases (hid : s.channel.nextId ≠ 0) (epoch : ℕ) (req : Wire.TopScoresRequest)
    (identity : ℕ) : s.request epoch req identity = s ∨
      s.channel.leaderboards = true ∧ ∃ ask : TopScoresAsk, ask.id = s.channel.nextId ∧
        s.request epoch req identity =
          { s with
            channel := { s.channel with
              nextId := if s.channel.nextId ≥ 0x7FFFFFFF then 1 else s.channel.nextId + 1
              requests := s.channel.requests ++ [ask] }
            ledger := { s.ledger with handed := s.ledger.handed ++ [ask] } } := by
  by_cases hc : (!s.channel.leaderboards || s.channel.requests.length ≥ maxQueued) = true
  · left
    simp [Scores.request, ReadBackChannel.request, hc]
  · right
    have hl : s.channel.leaderboards = true := by
      by_contra hl
      simp [hl] at hc
    refine ⟨hl, ⟨epoch, identity, { req with requestId := s.channel.nextId }⟩, rfl, ?_⟩
    simp only [Scores.request, ReadBackChannel.request, if_neg hc, if_neg hid]

/-- A request that got an id is recorded, and those before it stay. -/
theorem handed_request (s : Scores) (epoch : ℕ) (req : Wire.TopScoresRequest) (identity : ℕ) :
    s.ledger.handed <+: (s.request epoch req identity).ledger.handed := by
  simp only [Scores.request]
  split
  · exact List.prefix_rfl
  · exact List.prefix_append _ _

/-- The next id is not zero. -/
theorem Numbered.nextId_ne_zero (h : s.Numbered) : s.channel.nextId ≠ 0 := by
  intro h0
  have hn := h.nextId
  rw [h0] at hn
  exact absurd hn (by simp)

/-- It stays so when an id is handed out.

**Proof sketch.** A request that is refused changes nothing. One that gets an id gets the next one,
which below the bound was handed out never before, and it waits. -/
theorem Conserved.request (h : s.Conserved) (epoch : ℕ) (req : Wire.TopScoresRequest)
    (identity : ℕ) (hf : (s.request epoch req identity).Few) :
    (s.request epoch req identity).Conserved := by
  rcases request_cases h.numbered.nextId_ne_zero epoch req identity with
    he | ⟨-, ask, hask, he⟩
  · rw [he]
    exact h
  · rw [he] at hf ⊢
    have hn := h.numbered.nextId
    have hlt : s.ledger.handed.length + 1 < 2 ^ 31 - 1 := by simpa [Few] using hf
    refine ⟨⟨?_, ?_⟩, ?_⟩
    · show (s.ledger.handed ++ [ask]).map (·.id.toNat) =
        List.range' 1 (s.ledger.handed ++ [ask]).length
      rw [List.map_append, h.numbered.ids, List.length_append, List.length_singleton,
        List.range'_concat]
      simp [hask, hn, Nat.add_comm]
    · have hsmall : ¬ s.channel.nextId ≥ 0x7FFFFFFF := by
        rw [ge_iff_le, UInt32.le_iff_toNat_le, hn]
        show ¬ 2 ^ 31 - 1 ≤ _
        omega
      simp only [if_neg hsmall, UInt32.toNat_add, hn, List.length_append, List.length_singleton]
      show (_ + 1) % 2 ^ 32 = _
      omega
    · have hh := h.handed
      simp only [Scores.handed, Scores.accounted, Scores.answered, Scores.outstanding,
        List.map_append, ← Multiset.coe_add] at hh ⊢
      rw [hh]
      abel

/-- A request sent was handed its id. -/
theorem Conserved.mem_handed_of_pending (h : s.Conserved) {key : UInt32 × ℕ}
    (hm : key ∈ s.pendingScores) : key ∈ s.handed := by
  rw [h.handed, accounted, outstanding]
  exact Multiset.mem_add.mpr (.inr (Multiset.mem_add.mpr (.inr hm)))

/-- A request taken was handed its id. -/
theorem Conserved.mem_handed_of_asks (h : s.Conserved) {ask : TopScoresAsk}
    (hm : ask ∈ s.asks) : ask.key ∈ s.handed := by
  rw [h.handed, accounted, outstanding]
  exact Multiset.mem_add.mpr (.inr (Multiset.mem_add.mpr (.inl (Multiset.mem_add.mpr
    (.inr (List.mem_map_of_mem hm))))))

/-- An id was handed out for one request only. -/
theorem Numbered.key_inj (h : s.Numbered) {key key' : UInt32 × ℕ} (hm : key ∈ s.handed)
    (hm' : key' ∈ s.handed) (he : key.1 = key'.1) : key = key' := by
  obtain ⟨ask, ha, rfl⟩ := List.mem_map.mp hm
  obtain ⟨ask', ha', rfl⟩ := List.mem_map.mp hm'
  rw [List.inj_on_of_nodup_map h.nodup ha ha' he]

/-- When nothing is on its way, every request handed an id is answered once. -/
theorem Conserved.answered_of_closed (h : s.Conserved) (hc : s.Closed) :
    s.answered = s.handed := by
  rw [h.handed, hc.accounted]

/-- Every request answered was handed its id. -/
theorem Conserved.answered_le (h : s.Conserved) : s.answered ≤ s.handed := by
  rw [h.handed]
  exact Multiset.le_add_right _ _

/-- No id is answered twice. -/
theorem Conserved.nodup_posted (h : s.Conserved) :
    (s.ledger.posted.map TopScoresPost.requestId).Nodup := by
  have hd : (s.answered.map Prod.fst).Nodup :=
    Multiset.nodup_of_le (Multiset.map_le_map (Multiset.le_add_right _ _)) h.distinct
  rw [answered, Multiset.map_coe, List.map_map] at hd
  exact Multiset.coe_nodup.mp hd

/-! ## Outside a session -/

/-- A request is turned down. -/
theorem Closed.request (h : s.Closed) (epoch : ℕ) (req : Wire.TopScoresRequest) (identity : ℕ) :
    (s.request epoch req identity).Closed := by
  simpa [Scores.request, ReadBackChannel.request, h.leaderboards] using h

/-- The end of the read-backs closes what it answers. -/
theorem Closed.endReadBacks (h : s.Closed) (lost : Bool) : (s.endReadBacks lost).Closed := by
  cases lost with
  | true => exact s.closed_endReadBacks
  | false =>
    have hk := s.postPending_keep s.pendingScores scoresLost
    exact ⟨hk.leaderboards.trans h.leaderboards, hk.requests.trans h.requests,
      hk.asks.trans h.asks, rfl⟩

/-- Requests that are taken are not answered yet. -/
theorem Closed.takeRequests (h : s.Closed) : s.takeRequests.Closed :=
  ⟨h.leaderboards, rfl, by simp [Scores.takeRequests, ReadBackChannel.takeRequests, h.requests,
    h.asks], h.pending⟩

/-- Queued requests that are lost are closed as they are answered. -/
theorem Closed.loseQueuedRequests (h : s.Closed) (epoch identity : ℕ) :
    (s.loseQueuedRequests epoch identity).Closed := by
  have ht := h.takeRequests
  have hk := s.takeRequests.postAsks_keep (s.takeRequests.asks.filter (asksOld epoch identity))
    scoresLost
  have ha : s.takeRequests.asks.filter (!asksOld epoch identity ·) = [] := by
    rw [ht.asks]
    rfl
  exact ⟨hk.leaderboards.trans ht.leaderboards, hk.requests.trans ht.requests, ha,
    hk.pending.trans ht.pending⟩

/-- Nothing is pending. -/
theorem Closed.findPending (h : s.Closed) (id : UInt32) :
    Worker.findPending id s.pendingScores = none := by
  rw [h.pending]
  rfl

/-- A refused request is closed. -/
theorem Closed.refused (h : s.Closed) (ask : TopScoresAsk) (code : UInt16) :
    (s.refused ask code).Closed := by
  unfold Scores.refused
  rw [h.findPending]
  exact h

/-- A result is dropped. -/
theorem Closed.answerTopScores (h : s.Closed) (payload : Bytes) :
    (s.answerTopScores payload).Closed := by
  unfold Scores.answerTopScores
  simp only [h.findPending]
  split
  · exact h
  · split <;> exact h

end Scores

end Worker
