import ScorbitPlugin.Memory.Runs

set_option relaxedAutoImplicit false
set_option autoImplicit false

/-!
# What a subscription id stands for

A subscription id is given out once, to a `Subscribe` that made a request or to an emptied
subscription, and stands for one set of ranges from when the request is answered. Only an id whose
`Subscribe` was not given up on is ever installed.

## Main definitions

* `Memory.Unsettled`, `Memory.Settled` — a request that is not answered yet, and one that is.
* `Memory.Numbered` — what the ids stand for.

## Main results

* `Memory.Numbered.move` — the moves keep it.
-/

namespace Memory

/-- A request on its way to be answered. -/
def Unsettled (k : Core) (c : ℕ) : Prop :=
  k.calls c = .submit ∨ c ∈ k.bridge.queue ∨ ∃ locked, k.hold c = .asked locked

/-- An answered request. -/
def Settled (k : Core) (c : ℕ) : Prop :=
  (∃ locked, k.hold c = .answered locked) ∨ (k.bridge.requests c).done = true

/-- What the ids are given by. -/
def Bridge.numbers (b : Bridge) :
    ℕ × Installed × (ℕ → Option (List Wire.MemoryRange)) × List ℕ :=
  (b.nextSubscriptionId, ⟨b.subscriptionId, b.ranges⟩, b.history.sets, b.history.installs)

/-- What the subscription ids stand for. -/
structure Numbered (k : Core) : Prop where
  lt : ∀ c, (k.bridge.requests c).kind = .subscribe →
    (k.bridge.requests c).subscriptionId < k.bridge.nextSubscriptionId
  inj : ∀ c c', (k.bridge.requests c).kind = .subscribe →
    (k.bridge.requests c').kind = .subscribe →
    (k.bridge.requests c).subscriptionId = (k.bridge.requests c').subscriptionId → c = c'
  sets_lt : ∀ id ranges, k.bridge.history.sets id = some ranges →
    id < k.bridge.nextSubscriptionId
  unsettled : ∀ c, (k.bridge.requests c).kind = .subscribe → Unsettled k c →
    k.bridge.history.sets (k.bridge.requests c).subscriptionId = none
  settled : ∀ c, (k.bridge.requests c).kind = .subscribe → Settled k c →
    k.bridge.history.sets (k.bridge.requests c).subscriptionId =
      some (k.bridge.requests c).accepted
  current : k.bridge.history.sets k.bridge.subscriptionId = some k.bridge.ranges
  zero : k.bridge.history.sets 0 = some []
  following : k.bridge.history.sets k.following.id = some k.following.ranges
  passes : ∀ p ∈ k.bridge.history.passes,
    k.bridge.history.sets p.subscriptionId = some p.ranges
  installed : k.bridge.subscriptionId ∈ k.bridge.history.installs
  looked : ∀ c game looked, k.calls c = .pollRead game looked →
    k.bridge.history.sets looked.id = some looked.ranges ∧
      looked.id ∈ k.bridge.history.installs
  installs_lt : ∀ id ∈ k.bridge.history.installs, id < k.bridge.nextSubscriptionId
  /-- Nobody gave up on what is installed. -/
  installs : ∀ c, (k.bridge.requests c).kind = .subscribe →
    (k.bridge.requests c).subscriptionId ∈ k.bridge.history.installs →
    (k.bridge.requests c).done = true ∧ (k.bridge.requests c).abandoned = false

namespace Bridge

variable (b : Bridge) (c : ℕ) (s : Service) (calls : ℕ)

/-- Answering a subscription says what its id stands for. -/
theorem sets_answerOne : (b.answerOne s calls c).1.history.sets =
    if (b.requests c).kind = .subscribe then
      (b.history.assign (b.requests c).subscriptionId
        ((b.requests c).answer s b.addressSpace calls).request.accepted).sets
    else b.history.sets := by
  unfold answerOne
  dsimp only
  rw [Request.kind_answer, Request.subscriptionId_answer]
  split
  · split <;> rfl
  · split <;> rfl

/-- A `Write` that returns numbers nothing. -/
@[simp] theorem numbers_wrote (result : Result) : (b.wrote c result).numbers = b.numbers := by
  unfold wrote
  split <;> rfl

/-- A `Write` that returns assigns no set to an id. -/
@[simp] theorem sets_wrote (result : Result) :
    (b.wrote c result).history.sets = b.history.sets := by
  unfold wrote
  split <;> rfl

/-- A `Write` that returns is no pass. -/
@[simp] theorem passes_wrote (result : Result) :
    (b.wrote c result).history.passes = b.history.passes := by
  unfold wrote
  split <;> rfl

/-- The start of a game numbers nothing. -/
@[simp] theorem numbers_startGame : b.startGame.numbers = b.numbers := by
  unfold startGame numbers
  dsimp only
  split <;> rfl

/-- To take the queue numbers nothing. -/
theorem numbers_takeQueue : (b.takeQueue s).numbers = b.numbers := by
  unfold takeQueue storeGameRunning
  split
  · exact b.numbers_startGame
  · rfl

/-- To take the queue is no pass. -/
theorem passes_takeQueue : (b.takeQueue s).history.passes = b.history.passes := by
  unfold takeQueue storeGameRunning
  split
  · exact b.passes_startGame
  · rfl

/-- A snapshot numbers nothing. -/
theorem numbers_snapshotFor (current : Installed) :
    (b.snapshotFor s calls current).numbers = b.numbers := by
  unfold snapshotFor publish numbers
  dsimp only
  split <;> rfl

/-- A new pass is one for the subscription the snapshot was read for. -/
theorem mem_passes_snapshotFor {b : Bridge} {s : Service} {calls : ℕ} {current : Installed}
    {p : Pass} (h : p ∈ (b.snapshotFor s calls current).history.passes) :
    p ∈ b.history.passes ∨ p.subscriptionId = current.id ∧ p.ranges = current.ranges := by
  unfold snapshotFor publish at h
  dsimp only at h
  split at h
  · rcases List.mem_cons.mp h with rfl | hold
    · exact .inr ⟨rfl, rfl⟩
    · exact .inl hold
  · exact .inl h

/-- An answer is no pass. -/
theorem passes_answerOne : (b.answerOne s calls c).1.history.passes = b.history.passes := by
  unfold answerOne
  dsimp only
  split
  · split <;> rfl
  · split <;> rfl

/-- An answer installs nothing: that is left to its completion. -/
theorem installs_answerOne : (b.answerOne s calls c).1.history.installs = b.history.installs := by
  unfold answerOne
  dsimp only
  split
  · split <;> rfl
  · split <;> rfl

end Bridge

/-- An id that stands for a set goes on doing so. -/
theorem assign_of_some {h : History} {id id' : ℕ} {ranges ranges' : List Wire.MemoryRange}
    (hfresh : h.sets id' = none) (hsome : h.sets id = some ranges) :
    (h.assign id' ranges').sets id = some ranges := by
  have hne : id ≠ id' := by
    rintro rfl
    rw [hfresh] at hsome
    cases hsome
  exact (if_neg hne).trans hsome

namespace Numbered

variable {k k' : Core}

/-- A move that numbers, answers and installs nothing.

**Proof sketch.** Field by field. Where a request is a subscription it has the number and the ranges
it had, so what is known of the numbers goes over; a request that waits or is settled did so before.
-/
theorem of_frame (h : Numbered k) (hnumbers : k'.bridge.numbers = k.bridge.numbers)
    (hrequests : ∀ c, (k'.bridge.requests c).kind = .subscribe →
      (k.bridge.requests c).kind = .subscribe ∧
        (k'.bridge.requests c).subscriptionId = (k.bridge.requests c).subscriptionId ∧
        (k'.bridge.requests c).accepted = (k.bridge.requests c).accepted)
    (hkeeps : ∀ c, (k.bridge.requests c).done = true → (k.bridge.requests c).abandoned = false →
      (k'.bridge.requests c).done = true ∧ (k'.bridge.requests c).abandoned = false)
    (hfollowing : k.bridge.history.sets k'.following.id = some k'.following.ranges)
    (hpasses : ∀ p ∈ k'.bridge.history.passes,
      k.bridge.history.sets p.subscriptionId = some p.ranges)
    (hlooked : ∀ c game looked, k'.calls c = .pollRead game looked →
      k.calls c = .pollRead game looked ∨ looked = ⟨k.bridge.subscriptionId, k.bridge.ranges⟩)
    (hunsettled : ∀ c, (k'.bridge.requests c).kind = .subscribe → Unsettled k' c → Unsettled k c)
    (hsettled : ∀ c, (k'.bridge.requests c).kind = .subscribe → Settled k' c → Settled k c) :
    Numbered k' := by
  obtain ⟨hnext, hcurrent, hsets, hinstalls⟩ : k'.bridge.nextSubscriptionId =
      k.bridge.nextSubscriptionId ∧ (⟨k'.bridge.subscriptionId, k'.bridge.ranges⟩ : Installed) =
      ⟨k.bridge.subscriptionId, k.bridge.ranges⟩ ∧
      k'.bridge.history.sets = k.bridge.history.sets ∧
      k'.bridge.history.installs = k.bridge.history.installs := by
    simpa [Bridge.numbers] using hnumbers
  obtain ⟨hid', hranges'⟩ := Installed.mk.inj hcurrent
  constructor
  · intro c hc
    obtain ⟨hk, hid, -⟩ := hrequests c hc
    rw [hid, hnext]
    exact h.lt c hk
  · intro c c' hc hc' heq
    obtain ⟨hk, hid, -⟩ := hrequests c hc
    obtain ⟨hk', hid', -⟩ := hrequests c' hc'
    rw [hid, hid'] at heq
    exact h.inj c c' hk hk' heq
  · rw [hsets, hnext]
    exact h.sets_lt
  · intro c hc hun
    obtain ⟨hk, hid, -⟩ := hrequests c hc
    rw [hsets, hid]
    exact h.unsettled c hk (hunsettled c hc hun)
  · intro c hc hset
    obtain ⟨hk, hid, haccepted⟩ := hrequests c hc
    rw [hsets, hid, haccepted]
    exact h.settled c hk (hsettled c hc hset)
  · rw [hsets, hid', hranges']
    exact h.current
  · rw [hsets]
    exact h.zero
  · rw [hsets]
    exact hfollowing
  · rw [hsets]
    exact hpasses
  · rw [hid', hinstalls]
    exact h.installed
  · intro c game looked hc
    rw [hsets, hinstalls]
    rcases hlooked c game looked hc with hold | rfl
    · exact h.looked c game looked hold
    · exact ⟨h.current, h.installed⟩
  · rw [hinstalls, hnext]
    exact h.installs_lt
  · intro c hc hin
    obtain ⟨hk, hid, -⟩ := hrequests c hc
    rw [hinstalls, hid] at hin
    obtain ⟨hdone, habandoned⟩ := h.installs c hk hin
    exact hkeeps c hdone habandoned

/-- A call goes on, and no request changes.

**Proof sketch.** Nothing is numbered, answered or installed. The call may have entered the queue,
and then it was about to (`hqueue`). -/
theorem of_place (h : Numbered k) {c : ℕ} {b : Bridge} {call : Call}
    (hnumbers : b.numbers = k.bridge.numbers) (hrequests : b.requests = k.bridge.requests)
    (hpasses : b.history.passes = k.bridge.history.passes)
    (hqueue : ∀ c' ∈ b.queue, c' ∈ k.bridge.queue ∨ c' = c ∧ k.calls c = .submit)
    (hsubmit : call ≠ .submit)
    (hlooked : ∀ game looked, call = .pollRead game looked →
      looked = ⟨k.bridge.subscriptionId, k.bridge.ranges⟩) : Numbered (k.place c b call) := by
  refine h.of_frame hnumbers (fun c' hc' => ?_) (fun c' hd ha => ?_) h.following
    (hpasses ▸ h.passes) (fun c' game looked hc' => ?_) (fun c' _ hc' => ?_) (fun c' _ hc' => ?_)
  · rw [show (k.place c b call).bridge.requests = k.bridge.requests from hrequests] at hc' ⊢
    exact ⟨hc', rfl, rfl⟩
  · rw [show (k.place c b call).bridge.requests = k.bridge.requests from hrequests]
    exact ⟨hd, ha⟩
  · dsimp only [Core.place] at hc'
    split at hc'
    · exact .inr (hlooked game looked hc')
    · exact .inl hc'
  · rcases hc' with hcall | hqueued | hheld
    · dsimp only [Core.place] at hcall
      split at hcall
      · exact absurd hcall hsubmit
      · exact .inl hcall
    · rcases hqueue c' hqueued with hold | ⟨rfl, hcall⟩
      · exact .inr (.inl hold)
      · exact .inl hcall
    · exact .inr (.inr hheld)
  · rcases hc' with hheld | hdone
    · exact .inl hheld
    · refine .inr ?_
      rw [← hrequests]
      exact hdone

/-- A call makes a request that is no subscription.

**Proof sketch.** The request was empty before and is no subscription now, so every subscription is
another request, which is as it was. -/
theorem of_make (h : Numbered k) {c : ℕ} {r : Request} (hearly : k.bridge.requests c = {})
    (hkind : r.kind ≠ .subscribe) : Numbered (k.place c (k.bridge.setRequest c r) .submit) := by
  have hne : ∀ {c'}, ((k.bridge.setRequest c r).requests c').kind = .subscribe → c' ≠ c := by
    rintro c' hc' rfl
    simp only [Bridge.setRequest, if_true] at hc'
    exact hkind hc'
  refine h.of_frame rfl (fun c' hc' => ?_) (fun c' hd ha => ?_) h.following h.passes
    (fun c' game looked hc' => ?_) (fun c' hk hc' => ?_) (fun c' hk hc' => ?_)
  · have hcc := hne hc'
    dsimp only [Core.place, Bridge.setRequest] at hc' ⊢
    rw [if_neg hcc] at hc' ⊢
    exact ⟨hc', rfl, rfl⟩
  · have hcc : c' ≠ c := by
      rintro rfl
      rw [hearly] at hd
      cases hd
    dsimp only [Core.place, Bridge.setRequest]
    rw [if_neg hcc]
    exact ⟨hd, ha⟩
  · dsimp only [Core.place] at hc'
    split at hc'
    · cases hc'
    · exact .inl hc'
  · rcases hc' with hcall | hqueued | hheld
    · exact .inl ((if_neg (hne hk)).symm.trans hcall)
    · exact .inr (.inl hqueued)
    · exact .inr (.inr hheld)
  · rcases hc' with hheld | hdone
    · exact .inl hheld
    · refine .inr ?_
      simpa [Core.place, Bridge.setRequest, hne hk] using hdone

/-- The queue is taken.

**Proof sketch.** The requests keep kind, number and answer, and those taken from the queue are held
now, where they wait as before. -/
theorem of_take (h : Numbered k) {locked : Bool} {b : Bridge} {phase : Phase}
    {following : Installed} {frame : UInt64} (hnumbers : b.numbers = k.bridge.numbers)
    (hpasses : b.history.passes = k.bridge.history.passes) (hqueue : b.queue = [])
    (hrequests : ∀ c, b.requests c = if c ∈ k.bridge.queue then
      { k.bridge.requests c with taken := (k.bridge.requests c).taken || !locked }
      else k.bridge.requests c)
    (hfollowing : k.bridge.history.sets following.id = some following.ranges) :
    Numbered { k.take locked b with phase := phase, following := following, frame := frame } := by
  have hsame : ∀ c, (b.requests c).kind = (k.bridge.requests c).kind ∧
      (b.requests c).subscriptionId = (k.bridge.requests c).subscriptionId ∧
      (b.requests c).accepted = (k.bridge.requests c).accepted ∧
      (b.requests c).done = (k.bridge.requests c).done ∧
      (b.requests c).abandoned = (k.bridge.requests c).abandoned := by
    intro c
    rw [hrequests]
    split <;> exact ⟨rfl, rfl, rfl, rfl, rfl⟩
  refine h.of_frame hnumbers (fun c hc => ?_) (fun c hd ha => ?_) hfollowing
    (hpasses ▸ h.passes) (fun _ _ _ hc => .inl hc) (fun c _ hun => ?_) (fun c _ hs => ?_)
  · obtain ⟨hkind, hid, haccepted, -, -⟩ := hsame c
    exact ⟨hkind ▸ hc, hid, haccepted⟩
  · obtain ⟨-, -, -, hdone, habandoned⟩ := hsame c
    exact ⟨hdone.trans hd, habandoned.trans ha⟩
  · rcases hun with hsubmit | hqueued | ⟨locked', hheld⟩
    · exact .inl hsubmit
    · rw [show (k.take locked b).bridge.queue = [] from hqueue] at hqueued
      cases hqueued
    · dsimp only [Core.take] at hheld
      split at hheld
      · exact .inr (.inl (by assumption))
      · exact .inr (.inr ⟨locked', hheld⟩)
  · rcases hs with ⟨locked', hheld⟩ | hd
    · dsimp only [Core.take] at hheld
      split at hheld
      · cases hheld
      · exact .inl ⟨locked', hheld⟩
    · exact .inr ((hsame c).2.2.2.1 ▸ hd)

/-- The subscription is emptied.

**Proof sketch.** The next number stood for no set yet (`sets_lt`). It stands for the empty set now
and is the number installed, and every number given to a request is below it. -/
theorem of_reset (h : Numbered k) (c : ℕ) :
    Numbered (k.place c k.bridge.resetSubscription .returned) := by
  have hfresh : k.bridge.history.sets k.bridge.nextSubscriptionId = none := by
    by_contra hne
    obtain ⟨ranges, hsome⟩ := Option.ne_none_iff_exists'.mp hne
    exact lt_irrefl _ (h.sets_lt _ _ hsome)
  have hsets : ∀ {id ranges}, k.bridge.history.sets id = some ranges →
      k.bridge.resetSubscription.history.sets id = some ranges :=
    fun hsome => assign_of_some hfresh hsome
  have hold : ∀ {id}, id < k.bridge.nextSubscriptionId →
      k.bridge.resetSubscription.history.sets id = k.bridge.history.sets id :=
    fun hlt => if_neg (Nat.ne_of_lt hlt)
  have hreturned : ∀ {c' call}, (k.place c k.bridge.resetSubscription .returned).calls c' = call →
      call ≠ .returned → k.calls c' = call := by
    intro c' call hc' hne
    dsimp only [Core.place] at hc'
    split at hc'
    · exact absurd hc'.symm hne
    · exact hc'
  constructor
  · intro c' hc'
    exact Nat.lt_succ_of_lt (h.lt c' hc')
  · exact h.inj
  · intro id ranges hsome
    by_cases hid : id = k.bridge.nextSubscriptionId
    · rw [hid]
      exact Nat.lt_succ_self _
    · exact Nat.lt_succ_of_lt (h.sets_lt id ranges ((if_neg hid).symm.trans hsome))
  · intro c' hc' hun
    refine (hold (h.lt c' hc')).trans (h.unsettled c' hc' ?_)
    rcases hun with hcall | hqueued | hheld
    · exact .inl (hreturned hcall nofun)
    · exact .inr (.inl hqueued)
    · exact .inr (.inr hheld)
  · intro c' hc' hset
    exact hsets (h.settled c' hc' hset)
  · exact if_pos rfl
  · exact hsets h.zero
  · exact hsets h.following
  · exact fun p hp => hsets (h.passes p hp)
  · exact List.mem_cons_self
  · intro c' game looked hc'
    obtain ⟨hset, hin⟩ := h.looked c' game looked (hreturned hc' nofun)
    exact ⟨hsets hset, List.mem_cons_of_mem _ hin⟩
  · intro id hid
    rcases List.mem_cons.mp hid with rfl | hid
    · exact Nat.lt_succ_self _
    · exact Nat.lt_succ_of_lt (h.installs_lt id hid)
  · intro c' hc' hin
    rcases List.mem_cons.mp hin with heq | hin
    · exact absurd heq (Nat.ne_of_lt (h.lt c' hc'))
    · exact h.installs c' hc' hin

/-- A call takes an id.

**Proof sketch.** The request gets the next number, which stood for no set and was no other
request's. It waits for its answer from now on; every other request is as it was. -/
theorem of_number (h : Numbered k) {c : ℕ} {ranges : List Wire.MemoryRange}
    (hearly : k.bridge.requests c = {}) (hfree : k.hold c = .free) :
    Numbered (k.place c (k.bridge.number c ranges) .submit) := by
  have hfresh : ∀ {ranges}, k.bridge.history.sets k.bridge.nextSubscriptionId ≠ some ranges :=
    fun hsome => lt_irrefl _ (h.sets_lt _ _ hsome)
  have hother : ∀ {c'}, c' ≠ c →
      (k.place c (k.bridge.number c ranges) .submit).bridge.requests c' = k.bridge.requests c' :=
    fun hne => if_neg hne
  have hself : (k.place c (k.bridge.number c ranges) .submit).bridge.requests c =
      { kind := .subscribe, ranges := ranges, subscriptionId := k.bridge.nextSubscriptionId } :=
    if_pos rfl
  constructor
  · intro c' hc'
    by_cases hcc : c' = c
    · subst hcc
      rw [hself]
      exact Nat.lt_succ_self _
    · rw [hother hcc] at hc' ⊢
      exact Nat.lt_succ_of_lt (h.lt c' hc')
  · intro c' c'' hc' hc'' heq
    by_cases hcc : c' = c
    · by_cases hcc' : c'' = c
      · exact hcc.trans hcc'.symm
      · subst hcc
        rw [hself, hother hcc'] at heq
        rw [hother hcc'] at hc''
        exact absurd heq.symm (Nat.ne_of_lt (h.lt c'' hc''))
    · by_cases hcc' : c'' = c
      · subst hcc'
        rw [hself, hother hcc] at heq
        rw [hother hcc] at hc'
        exact absurd heq (Nat.ne_of_lt (h.lt c' hc'))
      · rw [hother hcc] at hc' heq
        rw [hother hcc'] at hc'' heq
        exact h.inj c' c'' hc' hc'' heq
  · exact fun id ranges hsome => Nat.lt_succ_of_lt (h.sets_lt id ranges hsome)
  · intro c' hc' hun
    by_cases hcc : c' = c
    · subst hcc
      rw [hself]
      exact Option.eq_none_iff_forall_ne_some.mpr fun _ => hfresh
    · rw [hother hcc] at hc' ⊢
      refine h.unsettled c' hc' ?_
      rcases hun with hcall | hqueued | hheld
      · exact .inl ((if_neg hcc).symm.trans hcall)
      · exact .inr (.inl hqueued)
      · exact .inr (.inr hheld)
  · intro c' hc' hset
    by_cases hcc : c' = c
    · subst hcc
      rcases hset with ⟨locked, hheld⟩ | hdone
      · rw [show (k.place c' (k.bridge.number c' ranges) .submit).hold c' = k.hold c' from rfl,
          hfree] at hheld
        cases hheld
      · rw [hself] at hdone
        cases hdone
    · rw [hother hcc] at hc' ⊢
      refine h.settled c' hc' ?_
      rcases hset with hheld | hdone
      · exact .inl hheld
      · rw [hother hcc] at hdone
        exact .inr hdone
  · exact h.current
  · exact h.zero
  · exact h.following
  · exact h.passes
  · exact h.installed
  · intro c' game looked hc'
    refine h.looked c' game looked ?_
    dsimp only [Core.place] at hc'
    split at hc'
    · cases hc'
    · exact hc'
  · exact fun id hid => Nat.lt_succ_of_lt (h.installs_lt id hid)
  · intro c' hc' hin
    by_cases hcc : c' = c
    · subst hcc
      rw [hself] at hin
      exact absurd rfl (Nat.ne_of_lt (h.installs_lt _ hin))
    · rw [hother hcc] at hc' hin ⊢
      exact h.installs c' hc' hin

/-- A held request is answered.

**Proof sketch.** The answered request keeps its number. What is accepted becomes the set of that
number, which had none yet, for the request was unsettled; so no other number stands for another
set. What `Service` follows is that set, or the one before. -/
theorem of_answer (h : Numbered k) (hf : Filed k) {s : Service} {calls c : ℕ} {locked : Bool}
    {following : Installed} (hhold : k.hold c = .asked locked)
    (hfollow : following = k.following ∨
      following = Bridge.followed ((k.bridge.answerOne s calls c).1.requests c) k.following) :
    Numbered { k.keep c (.answered locked) (k.bridge.answerOne s calls c).1 with
      following := following } := by
  let b := (k.bridge.answerOne s calls c).1
  have hself : b.requests c =
      ((k.bridge.requests c).answer s k.bridge.addressSpace calls).request := if_pos rfl
  have hother : ∀ {c'}, c' ≠ c → b.requests c' = k.bridge.requests c' := fun hne => if_neg hne
  have hpasses := k.bridge.passes_answerOne c s calls
  have hinstalls := k.bridge.installs_answerOne c s calls
  have hnot : ∀ {c'}, c' = c → ¬ Unsettled
      { k.keep c (.answered locked) b with following := following } c' := by
    rintro c' rfl (hcall | hqueued | ⟨locked', hheld⟩)
    · rw [((hf.filedAt c').out (.inr hcall)).2] at hhold
      cases hhold
    · rw [((hf.filedAt c').queued hqueued).2.1] at hhold
      cases hhold
    · simp [Core.keep] at hheld
  have hids : ∀ c', (b.requests c').kind = (k.bridge.requests c').kind ∧
      (b.requests c').subscriptionId = (k.bridge.requests c').subscriptionId ∧
      (b.requests c').done = (k.bridge.requests c').done ∧
      (b.requests c').abandoned = (k.bridge.requests c').abandoned := by
    intro c'
    by_cases hcc : c' = c
    · subst hcc
      rw [hself]
      simp
    · rw [hother hcc]
      exact ⟨rfl, rfl, rfl, rfl⟩
  have hsets := k.bridge.sets_answerOne c s calls
  -- no set of an id changes
  have hkeep : ∀ {id ranges}, k.bridge.history.sets id = some ranges →
      b.history.sets id = some ranges := by
    intro id ranges hsome
    by_cases hkind : (k.bridge.requests c).kind = .subscribe
    · rw [hsets, if_pos hkind]
      refine assign_of_some (h.unsettled c hkind (.inr (.inr ⟨locked, hhold⟩))) hsome
    · rw [hsets, if_neg hkind]
      exact hsome
  constructor
  · intro c' hc'
    obtain ⟨hk, hid, -, -⟩ := hids c'
    exact hid ▸ h.lt c' (hk ▸ hc')
  · intro c' c'' hc' hc'' heq
    obtain ⟨hk, hid, -, -⟩ := hids c'
    obtain ⟨hk', hid', -, -⟩ := hids c''
    exact h.inj c' c'' (hk ▸ hc') (hk' ▸ hc'') (hid ▸ hid' ▸ heq)
  · intro id ranges hsome
    by_cases hkind : (k.bridge.requests c).kind = .subscribe
    · by_cases hid : id = (k.bridge.requests c).subscriptionId
      · exact hid ▸ h.lt c hkind
      · have hsome : b.history.sets id = some ranges := hsome
        rw [hsets, if_pos hkind] at hsome
        exact h.sets_lt id ranges ((if_neg hid).symm.trans hsome)
    · have hsome : b.history.sets id = some ranges := hsome
      rw [hsets, if_neg hkind] at hsome
      exact h.sets_lt id ranges hsome
  · intro c' hc' hun
    by_cases hcc : c' = c
    · exact absurd hun (hnot hcc)
    · obtain ⟨hk, hid, -, -⟩ := hids c'
      have hc'' : (k.bridge.requests c').kind = .subscribe := hk ▸ hc'
      have hnone : k.bridge.history.sets (k.bridge.requests c').subscriptionId = none := by
        refine h.unsettled c' hc'' ?_
        rcases hun with hcall | hqueued | ⟨locked', hheld⟩
        · exact .inl hcall
        · exact .inr (.inl hqueued)
        · exact .inr (.inr ⟨locked', (if_neg hcc).symm.trans hheld⟩)
      show b.history.sets (b.requests c').subscriptionId = none
      rw [hid, hsets]
      by_cases hkind : (k.bridge.requests c).kind = .subscribe
      · rw [if_pos hkind]
        exact (if_neg fun heq => hcc (h.inj c' c hc'' hkind heq)).trans hnone
      · rw [if_neg hkind]
        exact hnone
  · intro c' hc' hset
    show b.history.sets (b.requests c').subscriptionId = some (b.requests c').accepted
    by_cases hcc : c' = c
    · subst hcc
      have hkind : (k.bridge.requests c').kind = .subscribe := (hids c').1 ▸ hc'
      rw [hsets, if_pos hkind, (hids c').2.1, hself]
      exact if_pos rfl
    · obtain ⟨hk, -, -, -⟩ := hids c'
      rw [hother hcc]
      refine hkeep (h.settled c' (hk ▸ hc') ?_)
      rcases hset with ⟨locked', hheld⟩ | hdone
      · exact .inl ⟨locked', (if_neg hcc).symm.trans hheld⟩
      · exact .inr (hother hcc ▸ hdone)
  · exact hkeep h.current
  · exact hkeep h.zero
  · show b.history.sets following.id = some following.ranges
    rcases hfollow with rfl | rfl
    · exact hkeep h.following
    · unfold Bridge.followed
      split
      · rename_i hnew
        have hkind : (k.bridge.requests c).kind = .subscribe := (hids c).1 ▸ hnew.1
        rw [hsets, if_pos hkind, (hids c).2.1, hself]
        exact if_pos rfl
      · exact hkeep h.following
  · exact fun p hp => hkeep (h.passes p (hpasses ▸ hp))
  · exact hinstalls ▸ h.installed
  · intro c' game looked hc'
    obtain ⟨hset, hin⟩ := h.looked c' game looked hc'
    exact ⟨hkeep hset, hinstalls ▸ hin⟩
  · exact fun id hid => h.installs_lt id (hinstalls ▸ hid)
  · intro c' hc' hin
    obtain ⟨hk, hid, hdone, habandoned⟩ := hids c'
    rw [show (k.keep c (.answered locked) b).bridge.history.installs = _ from hinstalls] at hin
    show (b.requests c').done = true ∧ (b.requests c').abandoned = false
    rw [hdone, habandoned]
    exact h.installs c' (hk ▸ hc') (hid ▸ hin)

/-- An answered request is completed.

**Proof sketch.** The request is done now, and installed unless it was abandoned. Its number was
below the next one and was not installed before, since it was unsettled; the installed set is then
the one it stands for. -/
theorem of_finish (h : Numbered k) {c : ℕ} {locked : Bool}
    (hhold : k.hold c = .answered locked) :
    Numbered (k.keep c .free (k.bridge.completeOne c)) := by
  have hself : (k.bridge.completeOne c).requests c = { k.bridge.requests c with done := true } :=
    (k.bridge.requests_completeOne c c).trans (if_pos rfl)
  have hids : ∀ c', ((k.bridge.completeOne c).requests c').kind = (k.bridge.requests c').kind ∧
      ((k.bridge.completeOne c).requests c').subscriptionId =
        (k.bridge.requests c').subscriptionId ∧
      ((k.bridge.completeOne c).requests c').accepted = (k.bridge.requests c').accepted ∧
      ((k.bridge.completeOne c).requests c').abandoned = (k.bridge.requests c').abandoned := by
    intro c'
    rw [Bridge.requests_completeOne]
    split
    · rename_i hcc
      rw [hcc]
      exact ⟨rfl, rfl, rfl, rfl⟩
    · exact ⟨rfl, rfl, rfl, rfl⟩
  have hdone : ∀ c', (k.bridge.requests c').done = true →
      ((k.bridge.completeOne c).requests c').done = true := by
    intro c' hd
    rw [Bridge.requests_completeOne]
    split
    · rfl
    · exact hd
  have hunsettled : ∀ c', Unsettled (k.keep c .free (k.bridge.completeOne c)) c' →
      Unsettled k c' := by
    rintro c' (hcall | hqueued | ⟨locked', hheld⟩)
    · exact .inl hcall
    · exact .inr (.inl (k.bridge.queue_completeOne c ▸ hqueued))
    · dsimp only [Core.keep] at hheld
      split at hheld
      · cases hheld
      · exact .inr (.inr ⟨locked', hheld⟩)
  have hsettled : ∀ c', Settled (k.keep c .free (k.bridge.completeOne c)) c' → Settled k c' := by
    rintro c' (⟨locked', hheld⟩ | hd)
    · dsimp only [Core.keep] at hheld
      split at hheld
      · cases hheld
      · exact .inl ⟨locked', hheld⟩
    · by_cases hcc : c' = c
      · exact .inl ⟨locked, hcc ▸ hhold⟩
      · refine .inr ?_
        simpa [Core.keep, hcc] using hd
  by_cases hi : k.bridge.installs (k.bridge.requests c) = true
  · -- the subscription of `c` is installed
    have hi' := hi
    simp only [Bridge.installs, Bool.and_eq_true, Bool.not_eq_true', beq_iff_eq,
      decide_eq_true_eq] at hi'
    obtain ⟨⟨habandoned, hkind⟩, -⟩ := hi'
    have hset := h.settled c hkind (.inl ⟨locked, hhold⟩)
    have hb : k.bridge.completeOne c = { k.bridge.completeOne c with
        ranges := (k.bridge.requests c).accepted
        subscriptionId := (k.bridge.requests c).subscriptionId
        nextSubscriptionId := k.bridge.nextSubscriptionId
        history := k.bridge.history.install (k.bridge.requests c).subscriptionId } := by
      rw [Bridge.completeOne_eq, if_pos hi, if_pos hi, if_pos hi]
    rw [hb] at hids hdone hunsettled hsettled hself ⊢
    constructor
    · exact fun c' hc' => (hids c').2.1 ▸ h.lt c' ((hids c').1 ▸ hc')
    · exact fun c' c'' hc' hc'' heq => h.inj c' c'' ((hids c').1 ▸ hc') ((hids c'').1 ▸ hc'')
        ((hids c').2.1 ▸ (hids c'').2.1 ▸ heq)
    · exact h.sets_lt
    · intro c' hc' hun
      have hnone := h.unsettled c' ((hids c').1 ▸ hc') (hunsettled c' hun)
      exact (hids c').2.1 ▸ hnone
    · intro c' hc' hs
      have hsome := h.settled c' ((hids c').1 ▸ hc') (hsettled c' hs)
      exact (hids c').2.1 ▸ (hids c').2.2.1 ▸ hsome
    · exact hset
    · exact h.zero
    · exact h.following
    · exact h.passes
    · exact List.mem_cons_self
    · intro c' game looked hc'
      obtain ⟨hl, hin⟩ := h.looked c' game looked hc'
      exact ⟨hl, List.mem_cons_of_mem _ hin⟩
    · intro id hid
      rcases List.mem_cons.mp hid with rfl | hid
      · exact h.lt c hkind
      · exact h.installs_lt id hid
    · intro c' hc' hin
      rcases List.mem_cons.mp hin with heq | hin
      · have hcc : c' = c :=
          h.inj c' c ((hids c').1 ▸ hc') hkind ((hids c').2.1 ▸ heq)
        rw [hcc]
        exact ⟨congrArg Request.done hself, (congrArg Request.abandoned hself).trans habandoned⟩
      · obtain ⟨hd, ha⟩ := h.installs c' ((hids c').1 ▸ hc') ((hids c').2.1 ▸ hin)
        exact ⟨hdone c' hd, (hids c').2.2.2.trans ha⟩
  · have hnumbers : (k.bridge.completeOne c).numbers = k.bridge.numbers := by
      rw [Bridge.completeOne_eq, if_neg hi, if_neg hi, if_neg hi]
      rfl
    have hpasses : (k.bridge.completeOne c).history.passes = k.bridge.history.passes := by
      rw [Bridge.completeOne_eq]
      dsimp only
      rw [if_neg hi]
    refine h.of_frame hnumbers (fun c' hc' => ?_) (fun c' hd ha => ?_) h.following
      (hpasses ▸ h.passes) (fun c' game looked hc' => .inl hc') (fun c' _ hun => hunsettled c' hun)
      (fun c' _ hs => hsettled c' hs)
    · exact ⟨(hids c').1 ▸ hc', (hids c').2.1, (hids c').2.2.1⟩
    · exact ⟨hdone c' hd, (hids c').2.2.2.trans ha⟩

/-- **The moves keep what the ids stand for.**

**Proof sketch.** By the move, each by its lemma: a call's step (`of_place`), a request that is
made, numbered, answered or completed, the queue taken, the subscription emptied. -/
theorem move {R : Rules} (h : Numbered k) (hf : Filed k) (hm : Move R k k') : Numbered k' := by
  cases hm with
  | @begin c call hcall hb _ =>
    refine h.of_place rfl rfl rfl (fun _ => .inl) ?_ ?_
    · rintro rfl
      cases hb
    · rintro game looked rfl
      cases hb
  | @go c call hadvance =>
    refine h.of_place rfl rfl rfl (fun _ => .inl) ?_ ?_
    · rintro rfl
      generalize k.calls c = old at hadvance
      cases hadvance
    · rintro game looked rfl
      generalize k.calls c = old at hadvance
      cases hadvance
      rfl
  | refuse => exact h.of_place rfl rfl rfl (fun _ => .inl) nofun nofun
  | @reset c => exact h.of_reset c
  | @clear c =>
    have hclear : Numbered { k with bridge := { k.bridge with writesUnsupported := false } } :=
      h.of_frame rfl (fun _ hc => ⟨hc, rfl, rfl⟩) (fun _ hd ha => ⟨hd, ha⟩) h.following h.passes
        (fun _ _ _ hc => .inl hc) (fun _ _ hun => hun) (fun _ _ hs => hs)
    exact hclear.of_reset c
  | @number c _ hcall =>
    have hat := hf.filedAt c
    have hearly : (k.calls c).early = true := by rw [hcall]; rfl
    exact h.of_number (hat.early hearly) (hat.out (.inl hearly)).2
  | @readDirect c _ _ hcall | @write c _ hcall =>
    exact h.of_make ((hf.filedAt c).early (by rw [hcall]; rfl)) nofun
  | @enqueue c hcall =>
    refine h.of_place rfl rfl rfl (fun c' hc' => ?_) nofun nofun
    rcases List.mem_append.mp hc' with hold | hnew
    · exact .inl hold
    · exact .inr ⟨List.mem_singleton.mp hnew, hcall⟩
  | @full c | @leave c =>
    exact h.of_place (Bridge.numbers_wrote _ _ _) (Bridge.requests_wrote _ _ _)
      (Bridge.passes_wrote _ _ _) (fun c' hc' => .inl (Bridge.queue_wrote _ _ _ ▸ hc')) nofun nofun
  | @hand c hcall =>
    refine h.of_frame rfl (fun _ hc => ⟨hc, rfl, rfl⟩) (fun _ hd ha => ⟨hd, ha⟩) h.following
      h.passes (fun c' game looked hc' => ?_) (fun c' _ hun => ?_) (fun c' _ hs => ?_)
    · dsimp only [Core.keep, Core.place] at hc'
      split at hc'
      · cases hc'
      · exact .inl hc'
    · by_cases hcc : c' = c
      · exact .inl (hcc ▸ hcall)
      · simpa [Unsettled, Core.keep, Core.place, hcc] using hun
    · by_cases hcc : c' = c
      · subst hcc
        rcases hs with ⟨locked, hheld⟩ | hd
        · simp [Core.keep] at hheld
        · exact .inr hd
      · simpa [Settled, Core.keep, Core.place, hcc] using hs
  | @abandon c hcall hdone _ _ =>
    have hrequests : ∀ c', ((k.bridge.abandon c).wrote c .busy).requests c' =
        if c' = c then { k.bridge.requests c with abandoned := true }
        else k.bridge.requests c' := fun c' => by
      rw [Bridge.requests_wrote]
      rfl
    refine h.of_frame ((Bridge.numbers_wrote _ _ _).trans rfl) (fun c' hc' => ?_)
      (fun c' hd ha => ?_) h.following ?_ (fun c' game looked hc' => ?_) (fun c' _ hun => ?_)
      (fun c' _ hs => ?_)
    · dsimp only [Core.place] at hc' ⊢
      rw [hrequests] at hc' ⊢
      split at hc'
      · rename_i hcc
        rw [if_pos hcc, hcc]
        exact ⟨hc', rfl, rfl⟩
      · rename_i hcc
        rw [if_neg hcc]
        exact ⟨hc', rfl, rfl⟩
    · have hcc : c' ≠ c := by
        rintro rfl
        rw [hdone] at hd
        cases hd
      dsimp only [Core.place]
      rw [hrequests, if_neg hcc]
      exact ⟨hd, ha⟩
    · intro p hp
      dsimp only [Core.place] at hp
      rw [Bridge.passes_wrote] at hp
      exact h.passes p hp
    · dsimp only [Core.place] at hc'
      split at hc'
      · cases hc'
      · exact .inl hc'
    · rcases hun with hsubmit | hqueued | hheld
      · dsimp only [Core.place] at hsubmit
        split at hsubmit
        · cases hsubmit
        · exact .inl hsubmit
      · dsimp only [Core.place] at hqueued
        rw [Bridge.queue_wrote] at hqueued
        exact .inr (.inl (List.mem_filter.mp hqueued).1)
      · exact .inr (.inr hheld)
    · rcases hs with hheld | hd
      · exact .inl hheld
      · dsimp only [Core.place] at hd
        rw [hrequests] at hd
        split at hd
        · rename_i hcc
          exact .inr (hcc ▸ hd)
        · exact .inr hd
  | polled => exact h.of_place rfl rfl rfl (fun _ => .inl) nofun nofun
  | stop | space | close =>
    exact h.of_frame rfl (fun _ hc => ⟨hc, rfl, rfl⟩) (fun _ hd ha => ⟨hd, ha⟩) h.following
      h.passes (fun _ _ _ hc => .inl hc) (fun _ _ hun => hun) (fun _ _ hs => hs)
  | startGame =>
    exact h.of_frame (Bridge.numbers_startGame _) (fun _ hc => ⟨hc, rfl, rfl⟩)
      (fun _ hd ha => ⟨hd, ha⟩) h.following
      (fun p hp => h.passes p (k.bridge.passes_startGame ▸ hp)) (fun _ _ _ hc => .inl hc)
      (fun _ _ hun => hun) (fun _ _ hs => hs)
  | endGame =>
    exact h.of_take rfl rfl rfl (fun c => by simp) h.following
  | service =>
    exact h.of_take (Bridge.numbers_takeQueue _ _) (Bridge.passes_takeQueue _ _) rfl
      (fun c => by simp [Bridge.takeQueue]) h.current
  | answer hhold _ hfollow => exact h.of_answer hf hhold hfollow
  | finish hhold _ => exact h.of_finish hhold
  | @pass s calls hphase hframe =>
    refine h.of_frame (Bridge.numbers_snapshotFor _ _ _ _) (fun _ hc => ⟨hc, rfl, rfl⟩)
      (fun _ hd ha => ⟨hd, ha⟩) h.zero (fun p hp => ?_) (fun _ _ _ hc => .inl hc)
      (fun _ _ hun => hun) (fun _ _ hs => hs)
    rcases Bridge.mem_passes_snapshotFor hp with hold | ⟨hid, hranges⟩
    · exact h.passes p hold
    · rw [hid, hranges]
      exact h.following

/-- At the start the empty set has the id 0. -/
theorem start : Numbered {} where
  lt := nofun
  inj := nofun
  sets_lt := fun id ranges hsome => by
    have hid : id = 0 := by
      by_contra hne
      rw [show ({} : Core).bridge.history.sets id = none from if_neg hne] at hsome
      cases hsome
    rw [hid]
    exact Nat.zero_lt_one
  unsettled := nofun
  settled := nofun
  current := rfl
  zero := rfl
  following := rfl
  passes := nofun
  installed := List.mem_cons_self
  looked := nofun
  installs_lt := fun id hid => by
    rw [List.mem_singleton.mp hid]
    exact Nat.zero_lt_one
  installs := nofun

end Numbered

end Memory
