import ScorbitPlugin.Memory.Records

set_option relaxedAutoImplicit false
set_option autoImplicit false

/-!
# The frames of writes and of snapshots

A write is answered with the frame of its `Service`, which reads its snapshot after it answers and
completes its requests after that. While the frames rise, a write that is done has a frame no later
than that of the next snapshot.

## Main definitions

* `Memory.risingFrames` — the rule that frames rise.
* `Memory.Framed` — the frames of the writes that are answered.

## Main results

* `Memory.Framed.move` — the moves keep them.
-/

namespace Memory

/-- The frame of a `Service` is no earlier than that of the latest snapshot. -/
def risingFrames : Rules where
  serves k s := k.bridge.nextSnapshot.frame ≤ s.frame

/-- A write answered `Ok`. -/
structure Request.Wrote (r : Request) : Prop where
  kind : r.kind = .write
  result : r.result = .ok

/-- The host's write function was called for a call. -/
def Applied (events : List Event) (c : ℕ) : Prop :=
  ∃ ops applied space, .hostWrite c ops applied space ∈ events

/-- What is known of a write that is answered `Ok`: the host was called for it, and its frame is
`frame` or an earlier one, and `next` or an earlier one when it is done. -/
structure FramedAt (events : List Event) (c : ℕ) (hold : Hold) (r : Request)
    (frame next : UInt64) : Prop where
  answered : ∀ locked, hold = .answered locked → r.Wrote →
    locked = false ∧ r.writeReply.frame ≤ frame ∧ Applied events c
  done : r.done = true → r.Wrote → r.writeReply.frame ≤ next ∧ Applied events c
  returned : .wrote c .ok ∈ events → r.done = true ∧ r.Wrote

/-- The frames of the writes, of the latest `Service` and of the next snapshot. -/
structure Framed (k : Core) : Prop where
  le : k.bridge.nextSnapshot.frame ≤ k.frame
  /-- Unless a `Service` is answering, they are the same. -/
  eq : (∀ running, k.phase ≠ .serving running) → k.bridge.nextSnapshot.frame = k.frame
  at_ : ∀ c, FramedAt k.bridge.history.events c (k.hold c) (k.bridge.requests c) k.frame
    k.bridge.nextSnapshot.frame

/-- A write that was applied stays applied, whatever happens after it. -/
theorem Applied.cons {events : List Event} {c : ℕ} (h : Applied events c) (e : Event) :
    Applied (e :: events) c := by
  obtain ⟨ops, applied, space, hmem⟩ := h
  exact ⟨ops, applied, space, List.mem_cons_of_mem _ hmem⟩

/-- A write is answered `Ok` by the host, and with the frame of the `Service`.

**Proof sketch.** The result is `Ok`, so of the branches of `Answer` only the one where the host's
function was called and applied is left. -/
theorem Request.frame_of_wrote {r : Request} {s : Service} {space calls : ℕ}
    (h : (r.answer s space calls).request.Wrote) :
    s.gameRunning = true ∧ (r.answer s space calls).request.writeReply.frame = s.frame ∧
      (r.answer s space calls).applied.isSome = true := by
  have hkind : r.kind = .write := (r.kind_answer s space calls).symm.trans h.kind
  have hanswer : r.answer s space calls = r.answerWrite s space calls := by
    unfold answer
    rw [hkind]
  have hresult := h.result
  rw [hanswer] at hresult ⊢
  unfold answerWrite at hresult ⊢
  split at hresult
  · cases hresult
  · rename_i hgame
    split at hresult
    · cases hresult
    · rename_i hspace
      rw [if_neg hgame, if_neg hspace]
      refine ⟨by simpa using hgame, ?_⟩
      unfold written at hresult ⊢
      cases hwrite : s.write with
      | none =>
        rw [hwrite] at hresult
        dsimp only at hresult
        rw [if_pos rfl] at hresult
        cases hresult
      | some write =>
        rw [hwrite] at hresult
        dsimp only at hresult ⊢
        split at hresult
        · cases hresult
        · split at hresult
          · cases hresult
          · rename_i hsupported happlied
            rw [if_neg hsupported, if_neg happlied]
            exact ⟨rfl, rfl⟩

namespace FramedAt

variable {events : List Event} {c : ℕ} {hold : Hold} {r : Request} {frame next : UInt64}

/-- An event that returns no write with `Ok`. -/
theorem cons (h : FramedAt events c hold r frame next) {e : Event} (he : e ≠ .wrote c .ok) :
    FramedAt (e :: events) c hold r frame next where
  answered locked hhold hwrote := by
    obtain ⟨hlocked, hle, happlied⟩ := h.answered locked hhold hwrote
    exact ⟨hlocked, hle, happlied.cons e⟩
  done hdone hwrote := by
    obtain ⟨hle, happlied⟩ := h.done hdone hwrote
    exact ⟨hle, happlied.cons e⟩
  returned hmem := by
    rcases List.mem_cons.mp hmem with heq | hold
    · exact absurd heq.symm he
    · exact h.returned hold

/-- Later frames. -/
theorem mono (h : FramedAt events c hold r frame next) {frame' next' : UInt64}
    (hframe : frame ≤ frame') (hnext : next ≤ next') : FramedAt events c hold r frame' next' where
  answered locked hhold hwrote := by
    obtain ⟨hlocked, hle, happlied⟩ := h.answered locked hhold hwrote
    exact ⟨hlocked, UInt64.le_trans hle hframe, happlied⟩
  done hdone hwrote := by
    obtain ⟨hle, happlied⟩ := h.done hdone hwrote
    exact ⟨UInt64.le_trans hle hnext, happlied⟩
  returned := h.returned

/-- A request that is not answered. -/
theorem of_open {r' : Request} (h : FramedAt events c hold r frame next) (hdone : r.done = false)
    {hold' : Hold} (hhold : ∀ locked, hold' ≠ .answered locked) (hdone' : r'.done = false) :
    FramedAt events c hold' r' frame next where
  answered locked heq := absurd heq (hhold locked)
  done heq := by
    rw [hdone'] at heq
    cases heq
  returned hmem := by
    have heq := (h.returned hmem).1
    rw [hdone] at heq
    cases heq

/-- What the frames depend on of a request. -/
theorem of_fields {r' : Request} (h : FramedAt events c hold r frame next)
    (hkind : r'.kind = r.kind) (hresult : r'.result = r.result)
    (hreply : r'.writeReply = r.writeReply) (hdone : r'.done = r.done) :
    FramedAt events c hold r' frame next := by
  have hwas : r'.Wrote → r.Wrote := fun hw => ⟨hkind ▸ hw.kind, hresult ▸ hw.result⟩
  refine ⟨fun locked hhold hw => ?_, fun hd hw => ?_, fun hmem => ?_⟩
  · rw [hreply]
    exact h.answered locked hhold (hwas hw)
  · rw [hreply]
    exact h.done (hdone ▸ hd) (hwas hw)
  · obtain ⟨hd, hw⟩ := h.returned hmem
    exact ⟨hdone.trans hd, hkind.trans hw.kind, hresult.trans hw.result⟩

/-- A `Write` returns. -/
theorem returns (h : FramedAt events c hold r frame next) {result : Result}
    (hok : result = .ok → r.done = true ∧ r.Wrote) :
    FramedAt (.wrote c result :: events) c hold r frame next where
  answered locked hhold hwrote := by
    obtain ⟨hlocked, hle, happlied⟩ := h.answered locked hhold hwrote
    exact ⟨hlocked, hle, happlied.cons _⟩
  done hdone hwrote := by
    obtain ⟨hle, happlied⟩ := h.done hdone hwrote
    exact ⟨hle, happlied.cons _⟩
  returned hmem := by
    rcases List.mem_cons.mp hmem with heq | hold
    · exact hok (Event.wrote.inj heq).2.symm
    · exact h.returned hold

/-- A request is completed. -/
theorem finishes {locked : Bool} (h : FramedAt events c (.answered locked) r frame next)
    (hframe : locked = false → frame ≤ next) :
    FramedAt events c .free { r with done := true } frame next where
  answered := nofun
  done _ hwrote := by
    obtain ⟨hlocked, hle, happlied⟩ := h.answered locked rfl ⟨hwrote.kind, hwrote.result⟩
    exact ⟨UInt64.le_trans hle (hframe hlocked), happlied⟩
  returned hmem := by
    obtain ⟨-, hw⟩ := h.returned hmem
    exact ⟨rfl, hw.kind, hw.result⟩

end FramedAt

namespace Framed

variable {k k' : Core}

/-- A move about one call. -/
theorem of_one (h : Framed k) {c : ℕ} (hnext : k'.bridge.nextSnapshot = k.bridge.nextSnapshot)
    (hframe : k'.frame = k.frame) (hphase : k'.phase = k.phase)
    (hevents : k'.bridge.history.events = k.bridge.history.events ∨
      ∃ e, k'.bridge.history.events = e :: k.bridge.history.events ∧ ∀ c' ≠ c, e ≠ .wrote c' .ok)
    (hother : ∀ c' ≠ c, k'.hold c' = k.hold c' ∧ k'.bridge.requests c' = k.bridge.requests c')
    (hc : FramedAt k'.bridge.history.events c (k'.hold c) (k'.bridge.requests c) k.frame
      k.bridge.nextSnapshot.frame) : Framed k' := by
  refine ⟨?_, ?_, fun c' => ?_⟩
  · rw [hnext, hframe]
    exact h.le
  · rw [hnext, hframe, hphase]
    exact h.eq
  · rw [hnext, hframe]
    by_cases heq : c' = c
    · exact heq ▸ hc
    · obtain ⟨hhold, hrequest⟩ := hother c' heq
      rw [hhold, hrequest]
      rcases hevents with hsame | ⟨e, hnew, he⟩
      · exact hsame ▸ h.at_ c'
      · exact hnew ▸ (h.at_ c').cons (he c' heq)

/-- A call goes elsewhere with its request as it was. -/
theorem of_place (h : Framed k) {c : ℕ} {b : Bridge} {call : Call}
    (hnext : b.nextSnapshot = k.bridge.nextSnapshot)
    (hevents : b.history.events = k.bridge.history.events)
    (hrequests : b.requests = k.bridge.requests) : Framed (k.place c b call) := by
  refine h.of_one (c := c) hnext rfl rfl (.inl hevents)
    (fun c' _ => ⟨rfl, congrFun hrequests c'⟩) ?_
  show FramedAt b.history.events c (k.hold c) (b.requests c) _ _
  rw [hevents, hrequests]
  exact h.at_ c

/-- A call makes a request. -/
theorem of_make (h : Framed k) (hf : Filed k) {c : ℕ} {b : Bridge} {call : Call}
    (hearly : (k.calls c).early = true) (hnext : b.nextSnapshot = k.bridge.nextSnapshot)
    (hevents : b.history.events = k.bridge.history.events)
    (hrequests : ∀ c' ≠ c, b.requests c' = k.bridge.requests c')
    (hdone : (b.requests c).done = false) : Framed (k.place c b call) := by
  have hfiled := hf.filedAt c
  obtain ⟨-, hfree⟩ := hfiled.out (.inl hearly)
  refine h.of_one (c := c) hnext rfl rfl (.inl hevents) (fun c' hne => ⟨rfl, hrequests c' hne⟩) ?_
  show FramedAt b.history.events c (k.hold c) (b.requests c) _ _
  rw [hevents]
  refine (h.at_ c).of_open ?_ (fun locked => by rw [hfree]; nofun) hdone
  rw [hfiled.early hearly]

/-- A call returns from `Submit`.

**Proof sketch.** The request is as it was, and of this call one event is new at most: its return,
which is `Ok` only where the write is done. -/
theorem of_wrote (h : Framed k) {c : ℕ} {b : Bridge} {result : Result}
    (hnext : b.nextSnapshot = k.bridge.nextSnapshot)
    (hevents : b.history.events = k.bridge.history.events)
    (hrequests : ∀ c' ≠ c, b.requests c' = k.bridge.requests c')
    (hat : FramedAt k.bridge.history.events c (k.hold c) (b.requests c) k.frame
      k.bridge.nextSnapshot.frame)
    (hok : result = .ok → (b.requests c).kind = .write →
      (b.requests c).done = true ∧ (b.requests c).Wrote) :
    Framed (k.place c (b.wrote c result) .returned) := by
  refine h.of_one (c := c) ((b.nextSnapshot_wrote c result).trans hnext) rfl rfl ?_
    (fun c' hne => ⟨rfl, ?_⟩) ?_
  · show (b.wrote c result).history.events = _ ∨
      ∃ e, (b.wrote c result).history.events = _ ∧ _
    rw [Bridge.events_wrote, hevents]
    split
    · exact .inr ⟨_, rfl, fun c' hne heq => hne (Event.wrote.inj heq).1.symm⟩
    · exact .inl rfl
  · show (b.wrote c result).requests c' = _
    rw [Bridge.requests_wrote]
    exact hrequests c' hne
  · show FramedAt (b.wrote c result).history.events c (k.hold c)
      ((b.wrote c result).requests c) _ _
    rw [Bridge.events_wrote, Bridge.requests_wrote, hevents]
    split
    · rename_i hkind
      exact hat.returns fun heq => hok heq hkind
    · exact hat

/-- The queue is taken.

**Proof sketch.** The requests keep their answers, and those taken are asked now, with none
answered. The frame of `Service` is no earlier than the one before. -/
theorem of_take (h : Framed k) (hf : Filed k) {locked : Bool} {b : Bridge} {phase : Phase}
    {following : Installed} {frame : UInt64} (hnext : b.nextSnapshot = k.bridge.nextSnapshot)
    (hevents : b.history.events = k.bridge.history.events)
    (hrequests : ∀ c, b.requests c = if c ∈ k.bridge.queue then
      { k.bridge.requests c with taken := (k.bridge.requests c).taken || !locked }
      else k.bridge.requests c)
    (hframe : k.frame ≤ frame)
    (heq : (∀ running, phase ≠ .serving running) → k.bridge.nextSnapshot.frame = frame) :
    Framed { k.take locked b with phase := phase, following := following, frame := frame } := by
  refine ⟨?_, ?_, fun c => ?_⟩
  · show b.nextSnapshot.frame ≤ frame
    rw [hnext]
    exact UInt64.le_trans h.le hframe
  · show _ → b.nextSnapshot.frame = frame
    rw [hnext]
    exact heq
  · show FramedAt b.history.events c (if c ∈ k.bridge.queue then .asked locked else k.hold c)
      (b.requests c) frame b.nextSnapshot.frame
    have hat := (h.at_ c).mono hframe (UInt64.le_refl _)
    rw [hevents, hnext, hrequests]
    by_cases hq : c ∈ k.bridge.queue
    · obtain ⟨-, -, -, hdone, -⟩ := (hf.filedAt c).queued hq
      rw [if_pos hq, if_pos hq]
      exact hat.of_open hdone nofun hdone
    · rw [if_neg hq, if_neg hq]
      exact hat

/-- `Service` answers a request.

**Proof sketch.** The request was not done, so nothing was claimed of it. A write that the host
applied is answered with the frame of `Service` (`Request.frame_of_wrote`). -/
theorem of_answer (h : Framed k) (hf : Filed k) {s : Service} {calls c : ℕ} {locked : Bool}
    {following : Installed} (hhold : k.hold c = .asked locked)
    (hgame : s.gameRunning = true → s.frame = k.frame ∧ locked = false) :
    Framed { k.keep c (.answered locked) (k.bridge.answerOne s calls c).1 with
      following := following } := by
  have hevents := k.bridge.events_answerOne c s calls
  have hdone := ((hf.filedAt c).held (by rw [hhold]; nofun)).1
  refine h.of_one (c := c) rfl rfl rfl ?_ (fun c' hne => ⟨if_neg hne, if_neg hne⟩) ?_
  · show (k.bridge.answerOne s calls c).1.history.events = _ ∨
      ∃ e, (k.bridge.answerOne s calls c).1.history.events = _ ∧ _
    rw [hevents]
    split
    · exact .inl rfl
    · exact .inr ⟨_, rfl, nofun⟩
  · show FramedAt (k.bridge.answerOne s calls c).1.history.events c
      (if c = c then .answered locked else k.hold c)
      ((k.bridge.answerOne s calls c).1.requests c) _ _
    rw [if_pos rfl, Bridge.requests_answerOne, if_pos rfl, hevents]
    refine ⟨fun locked' heq hwrote => ?_, fun hd => ?_, fun hmem => ?_⟩
    · obtain rfl := Hold.answered.inj heq
      obtain ⟨hrunning, hframe, happlied⟩ := Request.frame_of_wrote hwrote
      obtain ⟨hsame, hlocked⟩ := hgame hrunning
      obtain ⟨applied, hsome⟩ := Option.isSome_iff_exists.mp happlied
      rw [hsome]
      exact ⟨hlocked, (hframe.trans hsame) ▸ UInt64.le_refl _, _, _, _, List.mem_cons_self⟩
    · rw [Request.done_answer, hdone] at hd
      cases hd
    · have hold : .wrote c .ok ∈ k.bridge.history.events := by
        split at hmem
        · exact hmem
        · rcases List.mem_cons.mp hmem with heq | hold
          · cases heq
          · exact hold
      exact absurd (hdone.symm.trans ((h.at_ c).returned hold).1) nofun

/-- **The moves keep the frames.**

**Proof sketch.** By the move. The frame is set where `Service` takes its queue, and the next
snapshot gets it in the pass, after the answers. So what is answered under a frame is done before a
snapshot of a later one. -/
theorem move (h : Framed k) (hf : Filed k) (hm : Move risingFrames k k') : Framed k' := by
  cases hm with
  | begin | go => exact h.of_place rfl rfl rfl
  | @refuse c result _ hok _ =>
    refine h.of_one (c := c) rfl rfl rfl (.inr ⟨_, rfl, ?_⟩) (fun _ _ => ⟨rfl, rfl⟩) ?_
    · exact fun c' hne heq => hne (Event.wrote.inj heq).1.symm
    · exact (h.at_ c).returns fun heq => absurd heq hok
  | reset | clear => exact h.of_place rfl rfl rfl
  | @number c ranges hcall | @readDirect c address length hcall | @write c ops hcall =>
    refine h.of_make hf (by rw [hcall]; rfl) rfl rfl (fun c' hne => if_neg hne) ?_
    simp [Bridge.number, Bridge.setRequest]
  | enqueue => exact h.of_place rfl rfl rfl
  | @full c hcall =>
    exact h.of_wrote rfl rfl (fun _ _ => rfl) (h.at_ c) (by simp)
  | @hand c hcall =>
    have hdone := ((hf.filedAt c).submitted hcall).2.1
    refine h.of_one (c := c) rfl rfl rfl (.inl rfl) (fun c' hne => ⟨if_neg hne, rfl⟩) ?_
    show FramedAt _ c (if c = c then .asked true else k.hold c) _ _ _
    rw [if_pos rfl]
    exact (h.at_ c).of_open hdone (by simp) hdone
  | @leave c hcall hdone =>
    refine h.of_wrote rfl rfl (fun _ _ => rfl) (h.at_ c) fun hok hkind => ?_
    exact ⟨hdone, hkind, hok⟩
  | @abandon c hcall hdone _ _ =>
    refine h.of_wrote rfl rfl (fun c' hne => if_neg hne) ?_ (by simp)
    show FramedAt _ c _ (if c = c then _ else k.bridge.requests c) _ _
    rw [if_pos rfl]
    exact (h.at_ c).of_fields rfl rfl rfl rfl
  | @polled c game looked read _ _ =>
    refine h.of_one (c := c) rfl rfl rfl (.inr ⟨_, rfl, (by simp)⟩) (fun _ _ => ⟨rfl, rfl⟩) ?_
    exact (h.at_ c).cons (by simp)
  | stop | space => exact ⟨h.le, h.eq, h.at_⟩
  | startGame =>
    exact ⟨h.le, h.eq, fun c => k.bridge.events_startGame.symm ▸ h.at_ c⟩
  | endGame hphase =>
    refine h.of_take hf (b := { k.bridge with gameRunning := false, queue := [] }) rfl rfl
      (fun c => by simp) (UInt64.le_refl _) fun _ => h.eq fun running => ?_
    rw [hphase]
    simp
  | @service s hphase hserves =>
    have hnone : ∀ running, k.phase ≠ .serving running := by
      rw [hphase]
      simp
    have hnext : (k.bridge.takeQueue s).nextSnapshot = k.bridge.nextSnapshot := by
      unfold Bridge.takeQueue Bridge.storeGameRunning
      dsimp only
      split <;> rfl
    refine h.of_take hf hnext (k.bridge.events_takeQueue s) (fun c => ?_) ?_
      fun hserving => absurd rfl (hserving _)
    · simp [Bridge.takeQueue]
    · exact (h.eq hnone) ▸ hserves
  | answer hhold hgame _ => exact h.of_answer hf hhold hgame
  | @finish c locked hhold hphase =>
    have hat := h.at_ c
    rw [hhold] at hat
    refine h.of_one (c := c) (k.bridge.nextSnapshot_completeOne c) rfl rfl
      (.inl (k.bridge.events_completeOne c)) (fun c' hne => ⟨if_neg hne, ?_⟩) ?_
    · exact (k.bridge.requests_completeOne c c').trans (if_neg hne)
    · show FramedAt (k.bridge.completeOne c).history.events c (if c = c then .free else k.hold c)
        ((k.bridge.completeOne c).requests c) _ _
      rw [if_pos rfl, Bridge.events_completeOne, Bridge.requests_completeOne, if_pos rfl]
      refine hat.finishes fun hlocked => UInt64.le_of_eq (h.eq fun running => ?_).symm
      rw [hphase hlocked]
      simp
  | @pass s calls hphase hframe =>
    have hnext : (k.bridge.snapshotFor s calls k.following).nextSnapshot.frame = k.frame :=
      (frame_takeSnapshot _ _ _ _).trans hframe
    refine ⟨UInt64.le_of_eq hnext, fun _ => hnext, fun c => ?_⟩
    have hat := (h.at_ c).mono (UInt64.le_refl _) (hnext.symm ▸ h.le)
    rw [← Bridge.events_snapshotFor k.bridge s calls k.following] at hat
    exact hat
  | close hphase =>
    refine ⟨h.le, fun _ => h.eq fun running => ?_, h.at_⟩
    rw [hphase]
    simp

/-- Nothing was answered at the start. -/
theorem start : Framed {} :=
  ⟨UInt64.le_refl _, fun _ => rfl, fun _ => ⟨nofun, nofun, nofun⟩⟩

end Framed

end Memory
