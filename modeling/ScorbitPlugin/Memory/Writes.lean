import ScorbitPlugin.Memory.Runs

set_option relaxedAutoImplicit false
set_option autoImplicit false

/-!
# A write that was refused is not applied

What the host's write function is called for, in any interleaving of the calls with the API
thread: once for a `Write` at most, never after the `Write` returned, and only with ops that lie in
the address space.

## Main definitions

* `Memory.Result.refused` — the answers of a write that was not applied.
* `Memory.AppliedOnce` — what is claimed of the events of a run.
* `Memory.Called` — the invariant that carries it.

## Main results

* `Memory.applied_once` — it holds of every run of a worker that is not stopping.
-/

namespace Memory

/-- A write so answered was not applied. -/
def Result.refused : Result → Bool
  | .busy | .noGame | .outOfRange | .tooLarge => true
  | .ok | .unsupported => false

/-- The host's write function was called for a call. -/
def Event.writes (c : ℕ) : Event → Bool
  | .hostWrite c' _ _ _ => c' == c
  | _ => false

/-- The call an event of a write is about. -/
def Event.about : Event → Option ℕ
  | .hostWrite c _ _ _ => some c
  | .wrote c _ => some c
  | .polled .. => none

/-- Every op lies in the 32-bit space, and in the host's where that is known. -/
structure InSpace (ops : List Wire.WriteOp) (space : ℕ) : Prop where
  inside : ∀ op ∈ ops, op.address.toNat + op.bytes.length ≤ 2 ^ 32
  known : space ≠ 0 → ∀ op ∈ ops, op.bytes ≠ [] → op.address.toNat + op.bytes.length ≤ space

/-- Writes are applied once, and not at all when they were refused; the events are newest first. -/
structure AppliedOnce (events : List Event) : Prop where
  once : ∀ c, events.countP (·.writes c) ≤ 1
  refused : ∀ c result, .wrote c result ∈ events → result.refused = true →
    ∀ ops applied space, .hostWrite c ops applied space ∈ events → applied = 0
  never : events.Pairwise fun newer older =>
    ∀ c result, older = .wrote c result → newer.writes c = false
  inSpace : ∀ c ops applied space, .hostWrite c ops applied space ∈ events → InSpace ops space

/-! ## The answer to a write -/

/-- Ops that passed `Write`'s checks lie in the 32-bit space. -/
def Inside (ops : List Wire.WriteOp) : Prop :=
  ∀ op ∈ ops, op.address.toNat + op.bytes.length ≤ 2 ^ 32

/-- The checks let no op pass that wraps.

**Proof sketch.** The last of the checks is that no op wraps, and a length below `2 ^ 32` is itself
as a 32-bit number. -/
theorem inside_of_checkWrite {ops : List Wire.WriteOp}
    (hsize : ∀ op ∈ ops, op.bytes.length < 2 ^ 32) (h : checkWrite ops = none) : Inside ops := by
  intro op hop
  unfold checkWrite at h
  split at h
  · cases h
  · split at h
    · cases h
    · split at h
      · cases h
      · rename_i hwraps
        have hone : wraps op.address (UInt32.ofNat op.bytes.length) = false :=
          List.any_eq_false.mp (Bool.eq_false_iff.mpr hwraps) op hop |> Bool.eq_false_iff.mpr
        have hlength : (UInt32.ofNat op.bytes.length).toNat = op.bytes.length :=
          UInt32.toNat_ofNat_of_lt (hsize op hop)
        unfold wraps at hone
        rw [hlength] at hone
        exact Nat.not_lt.mp (of_decide_eq_false hone)

/-- Ops not beyond the space lie in it. -/
theorem inSpace_of_beyondSpace {ops : List Wire.WriteOp} {space : ℕ} (hinside : Inside ops)
    (h : beyondSpace ops space = false) : InSpace ops space := by
  refine ⟨hinside, fun hspace op hop hbytes => ?_⟩
  have hone := List.any_eq_false.mp h op hop
  simpa [hspace, hbytes] using hone

/-- When the host was called the request is a write with ops in the space, and refused only if the
host applied nothing.

**Proof sketch.** Only the answer to a write calls the host's write function, and it does so after
the game and the space were checked. It is refused only where the host applied none. -/
theorem Request.of_applied {r : Request} {s : Service} {space calls : ℕ} {applied : UInt32}
    (h : (r.answer s space calls).applied = some applied) :
    r.kind = .write ∧ beyondSpace r.ops space = false ∧
      ((r.answer s space calls).request.result.refused = true → applied = 0) := by
  unfold Request.answer at h ⊢
  cases hkind : r.kind with
  | subscribe =>
    rw [hkind] at h
    unfold Request.answerSubscribe at h
    dsimp only at h
    split at h <;> cases h
  | readDirect =>
    rw [hkind] at h
    unfold Request.answerReadDirect at h
    dsimp only at h
    split at h <;> cases h
  | write =>
    rw [hkind] at h
    dsimp only at h ⊢
    refine ⟨rfl, ?_⟩
    unfold Request.answerWrite at h ⊢
    split at h
    · cases h
    · rename_i hgame
      split at h
      · cases h
      · rename_i hspace
        rw [if_neg hgame, if_neg hspace]
        refine ⟨Bool.eq_false_iff.mpr hspace, ?_⟩
        split at h
        · cases h
        · obtain rfl := Option.some.inj h
          dsimp only
          unfold Request.written
          split
          · nofun
          · split
            · exact fun _ => by assumption
            · nofun

/-! ## The invariant -/

/-- Where a call of which the host's write function was called can be, and one that returned. -/
structure CalledAt (events : List Event) (c : ℕ) (hold : Hold) (call : Call) (r : Request) :
    Prop where
  once : events.countP (·.writes c) ≤ 1
  called : ∀ ops applied space, .hostWrite c ops applied space ∈ events →
    ((∃ locked, hold = .answered locked) ∨ r.done = true) ∧ r.kind = .write ∧
      (r.result.refused = true → applied = 0)
  wrote : ∀ result, .wrote c result ∈ events → hold = .free ∧ call = .returned ∧
    (result.refused = true →
      ∀ ops applied space, .hostWrite c ops applied space ∈ events → applied = 0)
  ops : r.kind = .write → Inside r.ops
  early : ∀ ops, call = .write ops ∨ call = .writeSupported ops ∨ call = .writeGame ops →
    Inside ops

/-- The writes so far. -/
structure Called (k : Core) : Prop where
  at_ : ∀ c, CalledAt k.bridge.history.events c (k.hold c) (k.calls c) (k.bridge.requests c)
  never : k.bridge.history.events.Pairwise fun newer older =>
    ∀ c result, older = .wrote c result → newer.writes c = false
  inSpace : ∀ c ops applied space, .hostWrite c ops applied space ∈ k.bridge.history.events →
    InSpace ops space

namespace CalledAt

variable {events : List Event} {c : ℕ} {hold : Hold} {call : Call} {r : Request}

/-- Events of other calls change nothing.

**Proof sketch.** The event is not about the call, so the events about it are the ones before, and
the host's calls for it are as many. -/
theorem cons (h : CalledAt events c hold call r) {e : Event} (he : e.about ≠ some c) :
    CalledAt (e :: events) c hold call r := by
  have hmem : ∀ e' : Event, e'.about = some c → e' ∈ e :: events → e' ∈ events := by
    intro e' he' hmem
    rcases List.mem_cons.mp hmem with rfl | hmem
    · exact absurd he' he
    · exact hmem
  have hwrites : e.writes c = false := by
    cases e with
    | hostWrite c' ops applied space =>
      refine beq_eq_false_iff_ne.mpr fun heq => he ?_
      rw [heq]
      rfl
    | wrote | polled => rfl
  refine ⟨?_, fun ops applied space h' => h.called ops applied space (hmem _ rfl h'),
    fun result h' => ?_, h.ops, h.early⟩
  · rw [List.countP_cons_of_neg (by simp [hwrites])]
    exact h.once
  · obtain ⟨hfree, hreturned, hzero⟩ := h.wrote result (hmem _ rfl h')
    exact ⟨hfree, hreturned, fun href ops applied space hw =>
      hzero href ops applied space (hmem _ rfl hw)⟩

/-- No event is about a call that still waits for its answer.

**Proof sketch.** A host's write is noted of a call that is answered or done, and an answer of a
call that returned; this one is neither. -/
theorem unseen (h : CalledAt events c hold call r) (hhold : ∀ locked, hold ≠ .answered locked)
    (hdone : r.done = false) (hopen : hold = .free → call ≠ .returned) :
    ∀ e ∈ events, e.about ≠ some c := by
  intro e he hc
  cases e with
  | hostWrite c' ops applied space =>
    obtain rfl : c' = c := Option.some.inj hc
    rcases (h.called ops applied space he).1 with ⟨locked, hl⟩ | hd
    · exact hhold locked hl
    · rw [hdone] at hd
      cases hd
  | wrote c' result =>
    obtain rfl : c' = c := Option.some.inj hc
    obtain ⟨hfree, hreturned, -⟩ := h.wrote result he
    exact hopen hfree hreturned
  | polled => cases hc

/-- A call of which nothing happened yet may be anywhere. -/
theorem of_unseen (h : ∀ e ∈ events, e.about ≠ some c) (hops : r.kind = .write → Inside r.ops)
    (hearly : ∀ ops, call = .write ops ∨ call = .writeSupported ops ∨ call = .writeGame ops →
      Inside ops) : CalledAt events c hold call r := by
  refine ⟨?_, fun ops applied space h' => absurd rfl (h _ h'),
    fun result h' => absurd rfl (h _ h'), hops, hearly⟩
  rw [List.countP_eq_zero.mpr]
  · exact Nat.zero_le 1
  · intro e he hw
    cases e with
    | hostWrite c' ops applied space =>
      exact h _ he (congrArg some (beq_iff_eq.mp hw))
    | wrote | polled => cases hw

/-- A `Write` returns. -/
theorem returns (h : CalledAt events c hold call r) (hfree : hold = .free) {result : Result}
    (hresult : result.refused = true →
      ∀ ops applied space, .hostWrite c ops applied space ∈ events → applied = 0) :
    CalledAt (.wrote c result :: events) c hold .returned r := by
  have hold' : ∀ {ops applied space}, .hostWrite c ops applied space ∈
      Event.wrote c result :: events → .hostWrite c ops applied space ∈ events := by
    intro ops applied space hmem
    rcases List.mem_cons.mp hmem with heq | hmem
    · cases heq
    · exact hmem
  refine ⟨?_, fun ops applied space h' => h.called ops applied space (hold' h'), ?_, h.ops,
    nofun⟩
  · rw [List.countP_cons_of_neg (by simp [Event.writes])]
    exact h.once
  · intro result' hmem
    refine ⟨hfree, rfl, fun href ops applied space hw => ?_⟩
    rcases List.mem_cons.mp hmem with heq | hmem
    · obtain ⟨-, rfl⟩ := Event.wrote.inj heq
      exact hresult href ops applied space (hold' hw)
    · exact (h.wrote result' hmem).2.2 href ops applied space (hold' hw)

/-- A call that returns without having written. -/
theorem leaves (h : CalledAt events c hold call r) : CalledAt events c hold .returned r :=
  ⟨h.once, h.called, fun result h' =>
    ⟨(h.wrote result h').1, rfl, (h.wrote result h').2.2⟩, h.ops, nofun⟩

/-- The host's write function is called for a call of which nothing happened yet.

**Proof sketch.** No event is about the call, so this is its one host call, and nothing was returned
for it. It is held answered from now on. -/
theorem of_written (h : ∀ e ∈ events, e.about ≠ some c) {locked : Bool} {ops : List Wire.WriteOp}
    {applied : UInt32} {space : ℕ} (hkind : r.kind = .write)
    (hrefused : r.result.refused = true → applied = 0) (hops : Inside r.ops)
    (hearly : ∀ ops, call = .write ops ∨ call = .writeSupported ops ∨ call = .writeGame ops →
      Inside ops) :
    CalledAt (.hostWrite c ops applied space :: events) c (.answered locked) call r := by
  refine ⟨?_, fun ops' applied' space' hmem => ?_, fun result hmem => ?_, fun _ => hops, hearly⟩
  · have hzero : events.countP (·.writes c) = 0 := by
      rw [List.countP_eq_zero]
      intro e he hw
      cases e with
      | hostWrite c' ops applied space => exact h _ he (congrArg some (beq_iff_eq.mp hw))
      | wrote | polled => cases hw
    have hone := List.countP_le_length (p := (·.writes c))
      (l := [Event.hostWrite c ops applied space])
    rw [← List.singleton_append, List.countP_append, hzero]
    exact hone
  · refine ⟨.inl ⟨locked, rfl⟩, hkind, ?_⟩
    rcases List.mem_cons.mp hmem with heq | hmem
    · obtain ⟨-, -, rfl, -⟩ := Event.hostWrite.inj heq
      exact hrefused
    · exact absurd rfl (h _ hmem)
  · rcases List.mem_cons.mp hmem with heq | hmem
    · cases heq
    · exact absurd rfl (h _ hmem)

end CalledAt

namespace Called

variable {k k' : Core}

/-- A move of one call that no event tells of. -/
theorem of_same (h : Called k) {c : ℕ}
    (hevents : k'.bridge.history.events = k.bridge.history.events)
    (hother : ∀ c' ≠ c, k'.hold c' = k.hold c' ∧ k'.calls c' = k.calls c' ∧
      k'.bridge.requests c' = k.bridge.requests c')
    (hc : CalledAt k.bridge.history.events c (k'.hold c) (k'.calls c) (k'.bridge.requests c)) :
    Called k' := by
  refine ⟨fun c' => ?_, hevents ▸ h.never, hevents ▸ h.inSpace⟩
  rw [hevents]
  by_cases heq : c' = c
  · exact heq ▸ hc
  · obtain ⟨hhold, hcalls, hrequests⟩ := hother c' heq
    rw [hhold, hcalls, hrequests]
    exact h.at_ c'

/-- A move of one call that an event tells of.

**Proof sketch.** For the other calls nothing changed and the event is not about them. For this one
it is given. -/
theorem of_note (h : Called k) {c : ℕ} {e : Event}
    (hevents : k'.bridge.history.events = e :: k.bridge.history.events)
    (habout : e.about = some c ∨ e.about = none)
    (hother : ∀ c' ≠ c, k'.hold c' = k.hold c' ∧ k'.calls c' = k.calls c' ∧
      k'.bridge.requests c' = k.bridge.requests c')
    (hc : CalledAt (e :: k.bridge.history.events) c (k'.hold c) (k'.calls c)
      (k'.bridge.requests c))
    (hnever : ∀ c' result, .wrote c' result ∈ k.bridge.history.events → e.writes c' = false)
    (hspace : ∀ c' ops applied space, e = .hostWrite c' ops applied space → InSpace ops space) :
    Called k' := by
  refine ⟨fun c' => ?_, ?_, fun c' ops applied space hmem => ?_⟩
  · rw [hevents]
    by_cases heq : c' = c
    · exact heq ▸ hc
    · obtain ⟨hhold, hcalls, hrequests⟩ := hother c' heq
      rw [hhold, hcalls, hrequests]
      refine (h.at_ c').cons ?_
      rcases habout with habout | habout
      · rw [habout]
        exact fun hsome => heq (Option.some.inj hsome).symm
      · rw [habout]
        nofun
  · rw [hevents]
    refine List.pairwise_cons.mpr ⟨?_, h.never⟩
    rintro e' he' c' result rfl
    exact hnever c' result he'
  · rw [hevents] at hmem
    rcases List.mem_cons.mp hmem with heq | hmem
    · exact hspace c' ops applied space heq.symm
    · exact h.inSpace c' ops applied space hmem

/-- A `Write` returns. -/
theorem of_wrote (h : Called k) {c : ℕ} {b : Bridge} {r : Result}
    (hevents : b.history.events = .wrote c r :: k.bridge.history.events)
    (hother : ∀ c' ≠ c, b.requests c' = k.bridge.requests c')
    (hc : CalledAt (.wrote c r :: k.bridge.history.events) c (k.hold c) .returned
      (b.requests c)) : Called (k.place c b .returned) := by
  refine h.of_note hevents (.inl rfl) (fun c' hne => ⟨rfl, if_neg hne, hother c' hne⟩) ?_
    (fun _ _ _ => rfl) nofun
  rw [show (k.place c b .returned).calls c = .returned from if_pos rfl]
  exact hc

/-- A call that nothing was recorded of goes elsewhere. -/
theorem of_place (h : Called k) {c : ℕ} {b : Bridge} {call : Call}
    (hevents : b.history.events = k.bridge.history.events)
    (hother : ∀ c' ≠ c, b.requests c' = k.bridge.requests c')
    (hc : CalledAt k.bridge.history.events c (k.hold c) call (b.requests c)) :
    Called (k.place c b call) := by
  refine h.of_same hevents (fun c' hne => ⟨rfl, if_neg hne, hother c' hne⟩) ?_
  rw [show (k.place c b call).calls c = call from if_pos rfl]
  exact hc

/-- The queue is taken.

**Proof sketch.** A request in the queue was held by no one and not done, so nothing of it was
claimed; now it is asked. The others are as they were. -/
theorem of_take (h : Called k) (hf : Filed k) {locked : Bool} {b : Bridge} {phase : Phase}
    {following : Installed} {frame : UInt64}
    (hevents : b.history.events = k.bridge.history.events)
    (hrequests : ∀ c, b.requests c = if c ∈ k.bridge.queue then
      { k.bridge.requests c with taken := (k.bridge.requests c).taken || !locked }
      else k.bridge.requests c) :
    Called { k.take locked b with phase := phase, following := following, frame := frame } := by
  refine ⟨fun c => ?_, hevents ▸ h.never, hevents ▸ h.inSpace⟩
  have hat := h.at_ c
  dsimp only [Core.take]
  rw [hevents, hrequests]
  by_cases hc : c ∈ k.bridge.queue
  · rw [if_pos hc, if_pos hc]
    obtain ⟨hwait, hfree, -, hdone, -⟩ := (hf.filedAt c).queued hc
    refine .of_unseen (hat.unseen ?_ hdone ?_) hat.ops hat.early
    · intro locked
      rw [hfree]
      nofun
    · intro _
      rw [hwait]
      nofun
  · rw [if_neg hc, if_neg hc]
    exact hat

/-- A worker that may not stop goes on running. -/
theorem running_of_move {R : Rules} (h : Move R k k') (hstops : ¬ R.stops)
    (hrunning : k.running = true) : k'.running = true := by
  cases h with
  | stop hstop => exact absurd hstop hstops
  | _ => exact hrunning

/-- **The moves keep what is claimed of the writes**, while the worker is not stopping.

**Proof sketch.** By the move. A write that is answered in `Service` is called for once, since
nothing happened for it before; what is done or abandoned after is not called for again. A write
that timed out before it was taken is answered busy and its request is never answered. -/
theorem move {R : Rules} (h : Called k) (hf : Filed k) (hrunning : k.running = true)
    (hm : Move R k k') (hstops : ¬ R.stops) : Called k' := by
  -- a call that has not returned, and whose request nobody answered
  have hunseen : ∀ {c : ℕ}, Called k → (k.calls c).early = true ∨ k.calls c = .submit →
      ∀ e ∈ k.bridge.history.events, e.about ≠ some c := by
    intro c h hcall
    have hat := hf.filedAt c
    refine (h.at_ c).unseen (fun locked => ?_) ?_ ?_
    · rw [(hat.out hcall).2]
      simp
    · rcases hcall with hcall | hcall
      · rw [hat.early hcall]
      · exact (hat.submitted hcall).2.1
    · rintro - heq
      rw [heq] at hcall
      rcases hcall with hcall | hcall
      · cases hcall
      · cases hcall
  cases hm with
  | stop hstop => exact absurd hstop hstops
  | @begin c call hcall hb _ =>
    have hearly : (k.calls c).early = true := by rw [hcall]; rfl
    refine h.of_place rfl (fun _ _ => rfl)
      (.of_unseen (hunseen h (.inl hearly)) (h.at_ c).ops ?_)
    cases hb with
    | write hsize hcheck =>
      rintro ops' (heq | heq | heq)
      · obtain rfl := Call.write.inj heq
        exact inside_of_checkWrite hsize hcheck
      · cases heq
      · cases heq
    | _ => simp
  | @go c call hadvance =>
    have hearly : (k.calls c).early = true := by
      generalize k.calls c = old at hadvance
      cases hadvance <;> rfl
    refine h.of_place rfl (fun _ _ => rfl)
      (.of_unseen (hunseen h (.inl hearly)) (h.at_ c).ops ?_)
    have hinside := (h.at_ c).early
    generalize k.calls c = old at hadvance hinside
    cases hadvance with
    | supported ops =>
      rintro ops' (heq | heq | heq)
      · cases heq
      · obtain rfl := Call.writeSupported.inj heq
        exact hinside ops (.inl rfl)
      · cases heq
    | game ops =>
      rintro ops' (heq | heq | heq)
      · cases heq
      · cases heq
      · obtain rfl := Call.writeGame.inj heq
        exact hinside ops (.inr (.inl rfl))
    | _ => simp
  | @refuse c result hearly _ _ =>
    have hfree := ((hf.filedAt c).out (.inl hearly)).2
    refine h.of_wrote rfl (fun _ _ => rfl) ((h.at_ c).returns hfree ?_)
    exact fun _ ops applied space hw => absurd rfl (hunseen h (.inl hearly) _ hw)
  | @reset c hcall =>
    exact h.of_place rfl (fun _ _ => rfl) (h.at_ c).leaves
  | @clear c hcall =>
    exact h.of_place rfl (fun _ _ => rfl) (h.at_ c).leaves
  | @number c ranges hcall =>
    refine h.of_place rfl (fun c' hne => if_neg hne)
      (.of_unseen (hunseen h (.inl (by rw [hcall]; rfl))) ?_ (by simp))
    simp [Bridge.number, Bridge.setRequest]
  | @readDirect c address length hcall =>
    refine h.of_place rfl (fun c' hne => if_neg hne)
      (.of_unseen (hunseen h (.inl (by rw [hcall]; rfl))) ?_ (by simp))
    simp [Bridge.setRequest]
  | @write c ops hcall =>
    refine h.of_place rfl (fun c' hne => if_neg hne)
      (.of_unseen (hunseen h (.inl (by rw [hcall]; rfl))) ?_ (by simp))
    have hinside := (h.at_ c).early ops (.inr (.inr hcall))
    simpa [Bridge.setRequest] using hinside
  | @enqueue c hcall =>
    exact h.of_place rfl (fun _ _ => rfl)
      (.of_unseen (hunseen h (.inr hcall)) (h.at_ c).ops (by simp))
  | @full c hcall =>
    have hfree := ((hf.filedAt c).out (.inr hcall)).2
    by_cases hkind : (k.bridge.requests c).kind = .write
    · refine h.of_wrote (r := .busy) ?_ (fun _ _ => by simp) ?_
      · rw [Bridge.events_wrote, if_pos hkind]
      · rw [Bridge.requests_wrote]
        refine (h.at_ c).returns hfree fun _ ops applied space hw => ?_
        exact absurd rfl (hunseen h (.inr hcall) _ hw)
    · refine h.of_place ?_ (fun _ _ => by simp) ?_
      · rw [Bridge.events_wrote, if_neg hkind]
      · rw [Bridge.requests_wrote]
        exact (h.at_ c).leaves
  | @hand c hcall =>
    refine h.of_same (c := c) rfl (fun c' hne => ⟨if_neg hne, if_neg hne, rfl⟩) ?_
    refine .of_unseen (hunseen h (.inr hcall)) (h.at_ c).ops ?_
    simp [Core.keep, Core.place]
  | @leave c hcall hdone =>
    have hfree : k.hold c = .free := by
      by_contra hne
      have hheld := ((hf.filedAt c).held hne).1
      rw [hdone] at hheld
      cases hheld
    by_cases hkind : (k.bridge.requests c).kind = .write
    · refine h.of_wrote (r := (k.bridge.requests c).result) ?_ (fun _ _ => by simp) ?_
      · rw [Bridge.events_wrote, if_pos hkind]
      · rw [Bridge.requests_wrote]
        refine (h.at_ c).returns hfree fun href ops applied space hw => ?_
        exact ((h.at_ c).called ops applied space hw).2.2 href
    · refine h.of_place ?_ (fun _ _ => by simp) ?_
      · rw [Bridge.events_wrote, if_neg hkind]
      · rw [Bridge.requests_wrote]
        exact (h.at_ c).leaves
  | @abandon c hcall hdone hlocked hwrite =>
    by_cases hkind : (k.bridge.requests c).kind = .write
    · -- a write that is not taken is not held either
      have hfree : k.hold c = .free := by
        by_contra hne
        exact hwrite hrunning ⟨hkind, (hf.filedAt c).taken hne hlocked⟩
      have hnone := (h.at_ c).unseen (fun locked => by rw [hfree]; simp) hdone
        (fun _ => by rw [hcall]; simp)
      refine h.of_wrote (r := .busy) ?_ (fun c' hne => ?_) ?_
      · simp [Bridge.events_wrote, Bridge.abandon, Bridge.setRequest, hkind]
      · simp [Bridge.abandon, Bridge.setRequest, hne]
      · have hops := (h.at_ c).ops
        refine (CalledAt.of_unseen hnone ?_ (by simp) : CalledAt _ c _ .wait _).returns hfree ?_
        · simpa [Bridge.abandon, Bridge.setRequest] using hops
        · exact fun _ ops applied space hw => absurd rfl (hnone _ hw)
    · refine h.of_place ?_ (fun c' hne => ?_) ?_
      · simp [Bridge.events_wrote, Bridge.abandon, Bridge.setRequest, hkind]
      · simp [Bridge.abandon, Bridge.setRequest, hne]
      · have hleaves := (h.at_ c).leaves
        simpa [Bridge.abandon, Bridge.setRequest] using
          (⟨hleaves.once, hleaves.called, hleaves.wrote, hleaves.ops, hleaves.early⟩ :
            CalledAt k.bridge.history.events c (k.hold c) .returned
              { k.bridge.requests c with abandoned := true })
  | @polled c game looked read hcall _ =>
    refine h.of_note (c := c) rfl (.inr rfl) (fun c' hne => ⟨rfl, if_neg hne, rfl⟩) ?_
      (fun _ _ _ => rfl) (by simp)
    rw [show ∀ b, (k.place c b .returned).calls c = .returned from fun b => if_pos rfl]
    exact (h.at_ c).leaves.cons fun heq => by cases heq
  | startGame _ =>
    exact h.of_same (c := 0) (Bridge.events_startGame _) (fun _ _ => ⟨rfl, rfl, rfl⟩) (h.at_ 0)
  | endGame _ => exact h.of_take hf rfl fun c => by simp
  | space space => exact ⟨h.at_, h.never, h.inSpace⟩
  | service _ =>
    exact h.of_take hf (Bridge.events_takeQueue _ _) fun c => by simp [Bridge.takeQueue]
  | @answer s calls c locked following hhold =>
    have hat := h.at_ c
    have hheld : k.hold c ≠ .free := by
      rw [hhold]
      simp
    have hnone := hat.unseen (fun locked => by rw [hhold]; simp) ((hf.filedAt c).held hheld).1
      (fun hfree => absurd hfree hheld)
    have hother : ∀ c' ≠ c, (if c' = c then Hold.answered locked else k.hold c') = k.hold c' ∧
        k.calls c' = k.calls c' ∧
        (k.bridge.answerOne s calls c).1.requests c' = k.bridge.requests c' :=
      fun c' hne => ⟨if_neg hne, rfl, by simp [hne]⟩
    have hevents := k.bridge.events_answerOne c s calls
    cases happlied : ((k.bridge.requests c).answer s k.bridge.addressSpace calls).applied with
    | none =>
      rw [happlied] at hevents
      refine h.of_same (c := c) hevents hother (.of_unseen hnone ?_ hat.early)
      simpa [Core.keep] using hat.ops
    | some applied =>
      rw [happlied] at hevents
      obtain ⟨hkind, hbeyond, hrefused⟩ := Request.of_applied happlied
      refine h.of_note (c := c) hevents (.inl rfl) hother ?_ ?_ ?_
      · simp only [Core.keep, Bridge.requests_answerOne, if_true]
        exact .of_written hnone (by simpa using hkind) hrefused (by simpa using hat.ops hkind)
          hat.early
      · intro c' result hw
        refine beq_eq_false_iff_ne.mpr ?_
        rintro rfl
        exact hnone _ hw rfl
      · intro c' ops applied' space heq
        obtain ⟨-, rfl, -, rfl⟩ := Event.hostWrite.inj heq
        exact inSpace_of_beyondSpace (hat.ops hkind) hbeyond
  | @finish c locked hhold _ =>
    refine h.of_same (c := c) (Bridge.events_completeOne _ _)
      (fun c' hne => ⟨if_neg hne, rfl, by simp [Core.keep, hne]⟩) ?_
    have hat := h.at_ c
    simp only [Core.keep, Bridge.requests_completeOne, if_true]
    refine ⟨hat.once, fun ops applied space hw => ?_, fun result hw => ?_, hat.ops, hat.early⟩
    · exact ⟨.inr rfl, (hat.called ops applied space hw).2⟩
    · have hfree := (hat.wrote result hw).1
      rw [hhold] at hfree
      cases hfree
  | pass _ =>
    exact h.of_same (c := 0) (Bridge.events_snapshotFor _ _ _ _) (fun _ _ => ⟨rfl, rfl, rfl⟩)
      (h.at_ 0)
  | close _ => exact ⟨h.at_, h.never, h.inSpace⟩

end Called

/-- Nothing was written at the start. -/
theorem Called.start : Called {} :=
  ⟨fun _ => ⟨Nat.zero_le 1, nofun, nofun, nofun, nofun⟩, .nil, nofun⟩

/-- The worker stops. -/
def Act.isStop : Act → Bool
  | .stop => true
  | _ => false

/-- An act that is not a stop. -/
theorem Act.ne_stop {a : Act} (h : (!a.isStop) = true) : a ≠ .stop := by
  rintro rfl
  cases h

/-- **A write that was refused is not applied**: in every interleaving with `Service`,
`SetGameRunning`, `SetAddressSpace` and `Clear`, of a worker that is not stopping, a `Write` calls
the host's function at most once, and never when it has returned; if it was refused the host
applied nothing; and every op lies in the space.

**Proof sketch.** The host is called in an answer, which takes a held request from unanswered to
answered, and a request is queued once (`Called.move`). A call gives up on a write only while it is
in the queue, from where it is then removed; so nobody holds the request of a `Write` that
returned. -/
theorem applied_once {s : State} (h : system.Reaches (fun _ a => a ≠ .stop) s) :
    AppliedOnce s.bridge.history.events := by
  let R : Rules := { stops := False }
  have hallows : ∀ (s : State) (a : Act), Sound s → a ≠ .stop → R.Allows s a := fun _ _ _ ha =>
    ⟨fun _ _ => trivial, fun _ _ => trivial, fun hstop => ha hstop⟩
  obtain ⟨-, -, hcalled⟩ := holds_of_reaches hallows (I := fun k => k.running = true ∧ Called k)
    ⟨rfl, Called.start⟩ (fun k k' hf hi hm =>
      ⟨Called.running_of_move hm id hi.1, hi.2.move hf hi.1 hm id⟩) h
  exact
    { once := fun c => (hcalled.at_ c).once
      refused := fun c result hw href ops applied space hhost =>
        ((hcalled.at_ c).wrote result hw).2.2 href ops applied space hhost
      never := hcalled.never
      inSpace := hcalled.inSpace }

/-- A host whose memory reads as zeros and that applies every write. -/
def writableHost : Service where
  read := .filled (fun _ _ size => size) fun _ => 0
  frame := 1
  gameRunning := true
  write := some fun _ ops => UInt32.ofNat ops.length

/-- A write of one op, in the time of a game, and one beyond the space. -/
def writingRun : List Act :=
  [.setGameRunning true, .setAddressSpace 32, .write [⟨16, [1]⟩],
    .advance 0, .advance 0, .advance 0, .advance 0, .service writableHost, .phase, .phase,
    .advance 0, .write [⟨32, [1]⟩], .advance 1]

/-- Of the two the first is applied, once. -/
theorem applied_once_writingRun : ∃ s, Runs.runOf step {} writingRun = some s ∧
    s.bridge.history.events =
      [.wrote 1 .outOfRange, .wrote 0 .ok, .hostWrite 0 [⟨16, [1]⟩] 1 32] ∧
    AppliedOnce s.bridge.history.events := by
  have hrun : (Runs.runOf step {} writingRun).any (fun s => decide (s.bridge.history.events =
      [.wrote 1 .outOfRange, .wrote 0 .ok, .hostWrite 0 [⟨16, [1]⟩] 1 32])) = true := by
    decide +kernel
  obtain ⟨s, hs, hevents⟩ := (Option.any_eq_true _ _).mp hrun
  have halong : Runs.holdsAlong step (fun _ a => !a.isStop) {} writingRun = true := by
    decide +kernel
  have hreach : system.Reaches (fun _ a => a ≠ .stop) s :=
    Runs.System.Reaches.runOf (fun _ a ha => Act.ne_stop ha) writingRun (.init rfl) halong hs
  exact ⟨s, hs, of_decide_eq_true hevents, applied_once hreach⟩

end Memory
