import Mathlib.Algebra.Order.BigOperators.Group.List
import ScorbitPlugin.Memory.Polls

set_option relaxedAutoImplicit false
set_option autoImplicit false

/-!
# The ranges in use are within the limits

`Subscribe` refuses what is beyond its limits before it makes a request, and an answer only leaves
ranges out; so every set that is installed, or that a snapshot is read for, is within them.

## Main definitions

* `Memory.Admitted` — what `Subscribe` lets pass.
* `Memory.Limited` — every set of ranges in use is admitted.

## Main results

* `Memory.Limited.move` — the moves keep it so.
-/

namespace Memory

/-- The bytes of ranges. -/
def totalLength (ranges : List Wire.MemoryRange) : ℕ := (ranges.map (·.length.toNat)).sum

/-- What `Subscribe` lets pass. -/
structure Admitted (ranges : List Wire.MemoryRange) : Prop where
  count : ranges.length ≤ Wire.maxSubscribeRanges
  total : totalLength ranges ≤ Wire.maxSubscribeBytes

/-- `Subscribe` lets pass what is admitted. -/
theorem admitted_of_checkSubscribe {ranges : List Wire.MemoryRange}
    (h : checkSubscribe ranges = none) : Admitted ranges := by
  unfold checkSubscribe at h
  split at h
  · cases h
  · rename_i hcount
    split at h
    · cases h
    · split at h
      · cases h
      · rename_i htotal
        exact ⟨Nat.not_lt.mp hcount, Nat.not_lt.mp htotal⟩

/-- Some of admitted ranges are admitted. -/
theorem Admitted.sublist {ranges ranges' : List Wire.MemoryRange} (h : Admitted ranges)
    (hsub : ranges'.Sublist ranges) : Admitted ranges' := by
  refine ⟨hsub.length_le.trans h.count, le_trans ?_ h.total⟩
  exact (hsub.map _).sum_le_sum fun _ _ => Nat.zero_le _

/-- The accepted ranges are some of those asked for, in order. -/
theorem sublist_readable (read : ReadFn) (calls : ℕ) (ranges : List Wire.MemoryRange) :
    (Request.readable read calls ranges).1.Sublist ranges := by
  induction ranges generalizing calls with
  | nil => exact List.Sublist.slnil
  | cons range ranges ih =>
    unfold Request.readable
    split
    · exact (ih calls).cons _
    · dsimp only
      split
      · exact (ih (calls + 1)).cons_cons _
      · exact (ih (calls + 1)).cons _

/-- So are those of an answer. -/
theorem sublist_answer {r : Request} (hkind : r.kind = .subscribe) (s : Service)
    (space calls : ℕ) : (r.answer s space calls).request.accepted.Sublist r.ranges := by
  unfold Request.answer
  rw [hkind]
  dsimp only
  unfold Request.answerSubscribe
  split
  · exact List.nil_sublist _
  · exact sublist_readable s.read calls r.ranges

/-- Every set of ranges in use is one `Subscribe` lets pass. -/
structure Limited (k : Core) : Prop where
  sets : ∀ id ranges, k.bridge.history.sets id = some ranges → Admitted ranges
  requests : ∀ c, (k.bridge.requests c).kind = .subscribe → Admitted (k.bridge.requests c).ranges
  calls : ∀ c ranges, k.calls c = .subscribe ranges ∨ k.calls c = .number ranges →
    Admitted ranges

/-- Nothing asked for is nothing too much. -/
theorem admitted_nil : Admitted [] := ⟨Nat.zero_le _, Nat.zero_le _⟩

namespace Limited

variable {k k' : Core}

/-- A move that asks for no ranges. -/
theorem of_frame (h : Limited k)
    (hsets : ∀ id ranges, k'.bridge.history.sets id = some ranges →
      k.bridge.history.sets id = some ranges ∨ Admitted ranges)
    (hrequests : ∀ c, (k'.bridge.requests c).kind = .subscribe →
      (k.bridge.requests c).kind = .subscribe ∧
        (k'.bridge.requests c).ranges = (k.bridge.requests c).ranges ∨
      Admitted (k'.bridge.requests c).ranges)
    (hcalls : ∀ c ranges, k'.calls c = .subscribe ranges ∨ k'.calls c = .number ranges →
      k.calls c = .subscribe ranges ∨ k.calls c = .number ranges ∨ Admitted ranges) :
    Limited k' := by
  refine ⟨fun id ranges hsome => ?_, fun c hkind => ?_, fun c ranges hc => ?_⟩
  · rcases hsets id ranges hsome with hold | hnew
    · exact h.sets id ranges hold
    · exact hnew
  · rcases hrequests c hkind with ⟨hold, heq⟩ | hnew
    · exact heq ▸ h.requests c hold
    · exact hnew
  · rcases hcalls c ranges hc with hold | hold | hnew
    · exact h.calls c ranges (.inl hold)
    · exact h.calls c ranges (.inr hold)
    · exact hnew

/-- A call goes on.

**Proof sketch.** By which call holds the ranges: the one placed has admitted ones, and any other
held them before. -/
theorem of_place (h : Limited k) {c : ℕ} {b : Bridge} {call : Call}
    (hsets : ∀ id ranges, b.history.sets id = some ranges →
      k.bridge.history.sets id = some ranges ∨ Admitted ranges)
    (hrequests : ∀ c, (b.requests c).kind = .subscribe →
      (k.bridge.requests c).kind = .subscribe ∧
        (b.requests c).ranges = (k.bridge.requests c).ranges ∨
      Admitted (b.requests c).ranges)
    (hcall : ∀ ranges, call = .subscribe ranges ∨ call = .number ranges → Admitted ranges) :
    Limited (k.place c b call) := by
  refine h.of_frame hsets hrequests fun c' ranges hc' => ?_
  dsimp only [Core.place] at hc'
  split at hc'
  · exact .inr (.inr (hcall ranges hc'))
  · rcases hc' with hold | hold
    · exact .inl hold
    · exact .inr (.inl hold)

/-- **The moves ask for no more than is admitted.**

**Proof sketch.** By the move. What a call asks for was checked when it began, and goes on into its
request and the installed set; an answer accepts a part of it. -/
theorem move {R : Rules} (h : Limited k) (hm : Move R k k') : Limited k' := by
  have hcalls : ∀ c ranges, k.calls c = .subscribe ranges ∨ k.calls c = .number ranges →
      k.calls c = .subscribe ranges ∨ k.calls c = .number ranges ∨ Admitted ranges :=
    fun c ranges hc => hc.elim .inl fun hc => .inr (.inl hc)
  cases hm with
  | @begin c call hcall hb _ =>
    refine h.of_place (fun _ _ => .inl) (fun _ hk => .inl ⟨hk, rfl⟩) ?_
    cases hb with
    | subscribe hcheck =>
      rintro ranges (heq | heq)
      · obtain rfl := Call.subscribe.inj heq
        exact admitted_of_checkSubscribe hcheck
      · cases heq
    | _ => simp
  | @go c call hadvance =>
    refine h.of_place (fun _ _ => .inl) (fun _ hk => .inl ⟨hk, rfl⟩) ?_
    have hold := h.calls c
    generalize k.calls c = old at hadvance hold
    cases hadvance with
    | number ranges =>
      rintro ranges' (heq | heq)
      · cases heq
      · obtain rfl := Call.number.inj heq
        exact hold ranges (.inl rfl)
    | _ => simp
  | refuse | enqueue | polled =>
    exact h.of_place (fun _ _ => .inl) (fun _ hk => .inl ⟨hk, rfl⟩) (by simp)
  | reset | clear =>
    refine h.of_place (fun id ranges hsome => ?_) (fun _ hk => .inl ⟨hk, rfl⟩) (by simp)
    by_cases hid : id = k.bridge.nextSubscriptionId
    · obtain rfl : [] = ranges := Option.some.inj ((if_pos hid).symm.trans hsome)
      exact .inr admitted_nil
    · exact .inl ((if_neg hid).symm.trans hsome)
  | @number c ranges hcall =>
    refine h.of_place (fun _ _ => .inl) (fun c' hk => ?_) (by simp)
    by_cases hcc : c' = c
    · refine .inr ?_
      rw [show ((k.bridge.number c ranges).requests c').ranges = ranges from
        congrArg Request.ranges (if_pos hcc)]
      exact h.calls c ranges (.inr hcall)
    · rw [show (k.bridge.number c ranges).requests c' = _ from if_neg hcc] at hk ⊢
      exact .inl ⟨hk, rfl⟩
  | @readDirect c _ _ _ | @write c _ _ =>
    refine h.of_place (fun _ _ => .inl) (fun c' hk => ?_) (by simp)
    by_cases hcc : c' = c
    · simp [Bridge.setRequest, hcc] at hk
    · simp only [Bridge.setRequest, if_neg hcc] at hk ⊢
      exact .inl ⟨hk, trivial⟩
  | @full c | @leave c =>
    refine h.of_place (fun id ranges hsome => .inl ?_) (fun c' hk => ?_) (by simp)
    · rwa [Bridge.sets_wrote] at hsome
    · rw [Bridge.requests_wrote] at hk ⊢
      exact .inl ⟨hk, rfl⟩
  | @abandon c hcall =>
    refine h.of_place (fun id ranges hsome => .inl ?_) (fun c' hk => ?_) (by simp)
    · rwa [Bridge.sets_wrote] at hsome
    · rw [Bridge.requests_wrote] at hk ⊢
      refine .inl ?_
      dsimp only [Bridge.abandon, Bridge.setRequest] at hk ⊢
      split at hk
      · rename_i hcc
        rw [if_pos hcc, hcc]
        exact ⟨hk, rfl⟩
      · rename_i hcc
        rw [if_neg hcc]
        exact ⟨hk, rfl⟩
  | @hand c hcall =>
    have hplace : Limited (k.place c k.bridge .wait) :=
      h.of_place (fun _ _ => .inl) (fun _ hk => .inl ⟨hk, rfl⟩) (by simp)
    exact ⟨hplace.sets, hplace.requests, hplace.calls⟩
  | stop | space | endGame | close => exact ⟨h.sets, h.requests, h.calls⟩
  | startGame =>
    refine h.of_frame (fun id ranges hsome => .inl ?_) (fun _ hk => .inl ⟨hk, rfl⟩) hcalls
    have hnumbers := k.bridge.numbers_startGame
    simp only [Bridge.numbers, Prod.mk.injEq] at hnumbers
    exact hnumbers.2.2.1 ▸ hsome
  | @service s =>
    refine h.of_frame (fun id ranges hsome => .inl ?_) (fun c hk => .inl ?_) hcalls
    · have hnumbers := k.bridge.numbers_takeQueue s
      simp only [Bridge.numbers, Prod.mk.injEq] at hnumbers
      exact hnumbers.2.2.1 ▸ hsome
    · dsimp only [Core.take, Bridge.takeQueue] at hk ⊢
      split at hk
      · rename_i hc
        rw [if_pos hc]
        exact ⟨hk, rfl⟩
      · rename_i hc
        rw [if_neg hc]
        exact ⟨hk, rfl⟩
  | @answer s calls c locked following hhold _ _ =>
    refine h.of_frame (fun id ranges hsome => ?_) (fun c' hk => .inl ?_) hcalls
    · dsimp only [Core.keep] at hsome
      rw [Bridge.sets_answerOne] at hsome
      split at hsome
      · rename_i hkind
        by_cases hid : id = (k.bridge.requests c).subscriptionId
        · obtain rfl := Option.some.inj ((if_pos hid).symm.trans hsome)
          exact .inr ((h.requests c hkind).sublist (sublist_answer hkind s _ calls))
        · exact .inl ((if_neg hid).symm.trans hsome)
      · exact .inl hsome
    · dsimp only [Core.keep] at hk ⊢
      rw [Bridge.requests_answerOne] at hk ⊢
      split at hk
      · rename_i hcc
        rw [if_pos hcc, hcc]
        simpa using hk
      · rename_i hcc
        rw [if_neg hcc]
        exact ⟨hk, rfl⟩
  | @finish c locked _ =>
    refine h.of_frame (fun id ranges hsome => .inl ?_) (fun c' hk => .inl ?_) hcalls
    · dsimp only [Core.keep] at hsome
      rw [Bridge.completeOne_eq] at hsome
      dsimp only at hsome
      split at hsome
      · exact hsome
      · exact hsome
    · dsimp only [Core.keep] at hk ⊢
      rw [Bridge.requests_completeOne] at hk ⊢
      split at hk
      · rename_i hcc
        rw [if_pos hcc, hcc]
        exact ⟨hk, rfl⟩
      · rename_i hcc
        rw [if_neg hcc]
        exact ⟨hk, rfl⟩
  | @pass s calls =>
    refine h.of_frame (fun id ranges hsome => .inl ?_) (fun _ hk => .inl ⟨hk, rfl⟩) hcalls
    have hnumbers := k.bridge.numbers_snapshotFor s calls k.following
    simp only [Bridge.numbers, Prod.mk.injEq] at hnumbers
    exact hnumbers.2.2.1 ▸ hsome

/-- At the start there is only the empty set. -/
theorem start : Limited {} where
  sets id ranges hsome := by
    by_cases hid : id = 0
    · obtain rfl : [] = ranges := Option.some.inj ((if_pos hid).symm.trans hsome)
      exact admitted_nil
    · exact absurd ((if_neg hid).symm.trans hsome) nofun
  requests := nofun
  calls := by simp

end Limited

end Memory
