import Mathlib.Data.List.Find
import ScorbitPlugin.Overlay.Chain
import ScorbitPlugin.Runs.Loop

set_option relaxedAutoImplicit false
set_option autoImplicit false

/-!
# Overriding settles

`DmdOverlay::Apply` makes the entries those that `DmdOverlay::Desired` asks for, and broadcasts what
it changed. The entries are sources of the chain themselves, so what is asked for changes with them,
and another `Apply` may follow; `DmdOverlay::NeedsApply` decides. Between two of them the display
list stays as it is, and only `Apply` touches what is live. How an id is composed of an endpoint
and a resource is left open (`CtlResId` is not part of the sources).

## Main definitions

* `Overlay.LiveEntry`, `Overlay.Overriding` — the entries, and what else `Apply` writes.
* `Overlay.apply`, `Overlay.needsApply` — the functions.
* `Overlay.applied` — the state after some calls.

## Main results

* `Overlay.settles` — after one call more than there are entries overridden by a listed source,
  nothing is left to apply, now and from then on.
-/

namespace Overlay

/-! ## Apply -/

/-- What `Apply` reads and does not write. -/
structure Listing where
  /-- `CtlResId`, from an endpoint and a resource. -/
  resourceId : UInt32 → UInt16 → UInt64
  endpointId : UInt32
  controller : UInt32
  detached : Bool := false
  /-- The sources of the other plugins. -/
  all : List Display

/-- `DmdOverlay::Entry`, with its live flag. -/
structure LiveEntry extends Entry where
  live : Bool := true
deriving DecidableEq, Repr

/-- What `Apply` writes. -/
structure Overriding where
  entries : List LiveEntry := []
  nextResId : UInt16 := 1
  surface : Bool := false
  surfaceGeneration : UInt64 := 0
deriving DecidableEq, Repr

/-- The target a list of entries overrides under an id. -/
def resolved (entries : List LiveEntry) (id : UInt64) : Option UInt64 :=
  (entries.find? fun e => e.listed.id == id).map fun e => e.target.source.id

variable (env : Listing)

/-- `DmdOverlay::Desired`, with as many visits as there are sources (`desired_eq`). -/
def desiredNow (entries : List LiveEntry) : List Target :=
  (desired (env.all.length + entries.length) env.controller env.detached env.all
    (entries.map (·.toEntry))).getD []

/-- `DmdOverlay::NeedsApply`. -/
def needsApply (entries : List LiveEntry) : Bool :=
  let desired := desiredNow env entries
  desired.length != entries.length ||
    entries.any fun e => !e.live || !decide (e.target ∈ desired)

/-- The resource after one. -/
def followingResId (resId : UInt16) : UInt16 :=
  if resId + 1 = 0xFFFF then 1 else resId + 1

/-- `DmdOverlay::MakeEntry`, under a resource. -/
def makeEntry (resId : UInt16) (t : Target) : LiveEntry where
  target := t
  listed :=
    { endpointId := env.endpointId
      id := env.resourceId env.endpointId resId
      overrideId := t.source.id
      width := t.source.width
      height := t.source.height
      frameFormat := t.source.frameFormat
      getRenderFrame := true
      identifyFormat := if t.identify then t.source.identifyFormat else .other
      getIdentifyFrame := t.identify }

/-- The entries that are pushed for those targets that have none, and the next resource. -/
def addMissing : List Target → List LiveEntry → UInt16 → List LiveEntry × UInt16
  | [], _, resId => ([], resId)
  | t :: ts, entries, resId =>
    if entries.any fun e => e.target == t then addMissing ts entries resId
    else
      let e := makeEntry env resId t
      let (rest, resId) := addMissing ts (entries ++ [e]) (followingResId resId)
      (e :: rest, resId)

/-- The entries that `Apply` does not erase. -/
def keep (entries : List LiveEntry) : List LiveEntry :=
  entries.filter fun e => e.live && decide (e.target ∈ desiredNow env entries)

/-- What a call leaves behind: the state, the broadcasts it sent, and the entries it pushed. -/
structure Outcome where
  state : Overriding
  broadcasts : ℕ := 0
  added : List LiveEntry := []
deriving DecidableEq, Repr

/-- `DmdOverlay::UpdateSurface`. -/
def updateSurface (s : Overriding) : Overriding :=
  let any := s.entries.any (·.live)
  { s with
    surface := any
    surfaceGeneration := if s.surface != any then s.surfaceGeneration + 1 else s.surfaceGeneration }

/-- `DmdOverlay::Apply`. -/
def apply (s : Overriding) : Outcome :=
  let kept := keep env s.entries
  let removed := kept.length != s.entries.length
  let (added, resId) := addMissing env
    (if removed then desiredNow env kept else desiredNow env s.entries) kept s.nextResId
  { state := updateSurface
      { s with
        entries := kept ++ added
        nextResId := resId
        surfaceGeneration :=
          if removed || !added.isEmpty then s.surfaceGeneration + 1 else s.surfaceGeneration }
    broadcasts := (if removed then 1 else 0) + if added.isEmpty then 0 else 1
    added := added }

/-- The state after some calls, one after another. -/
def applied (s : Overriding) : ℕ → Overriding
  | 0 => s
  | n + 1 => (apply env (applied s n)).state

/-- Some listed source overrides the entry. -/
def overridden (all : List Display) (e : LiveEntry) : Bool :=
  all.any fun d => d.overrideId == e.listed.id

/-! ## What is asked for depends on what the entries resolve to -/

variable {env} {all : List Display} {entries entries' kept added : List LiveEntry}

/-- The first of ours with an id is the first entry with it. -/
theorem findOurs_chainOf (all : List Display) (id : UInt64) :
    (findOurs (chainOf all (entries.map (·.toEntry))) id).map (·.overrides) =
      resolved entries id := by
  unfold findOurs chainOf resolved
  rw [List.find?_append]
  have hothers : (all.map fun s => (⟨s.id, s.overrideId, false⟩ : Source)).find?
      (fun s => s.ours && s.id == id) = none := by
    rw [List.find?_eq_none]
    intro s hs
    obtain ⟨d, -, rfl⟩ := List.mem_map.mp hs
    simp
  rw [hothers, Option.none_or, List.map_map, List.find?_map, Option.map_map]
  rfl

/-- The parent of a listed source is what the entries resolve its parent to. -/
theorem parentOf_chainOf (d : Display) :
    parentOf (chainOf all (entries.map (·.toEntry))) ⟨d.id, d.overrideId, false⟩ =
      (resolved entries d.overrideId).getD d.overrideId := by
  rw [← findOurs_chainOf all]
  unfold parentOf
  cases findOurs (chainOf all (entries.map (·.toEntry))) d.overrideId <;> rfl

/-- What passes over ours in the chain goes over the display list. -/
theorem filterMap_chainOf {β : Type} {f : Source → Option β}
    (hours : ∀ s, s.ours = true → f s = none) :
    (chainOf all (entries.map (·.toEntry))).filterMap f =
      all.filterMap fun d => f ⟨d.id, d.overrideId, false⟩ := by
  have hnone : (((entries.map (·.toEntry)).map fun e =>
      (⟨e.listed.id, e.target.source.id, true⟩ : Source)).filterMap f) = [] := by
    rw [List.filterMap_eq_nil_iff]
    intro s hs
    obtain ⟨e, -, rfl⟩ := List.mem_map.mp hs
    exact hours _ rfl
  rw [chainOf, List.filterMap_append, hnone, List.append_nil, List.filterMap_map]
  rfl

/-- The children of a node are listed sources. -/
theorem children_chainOf (node : UInt64) :
    children (chainOf all (entries.map (·.toEntry))) node =
      all.filterMap fun d =>
        if (resolved entries d.overrideId).getD d.overrideId = node ∧ d.id ≠ node then some d.id
        else none := by
  unfold children
  rw [← List.filterMap_eq_map, List.filterMap_filter, filterMap_chainOf]
  · refine List.filterMap_congr fun d _ => ?_
    simp [parentOf_chainOf]
  · intro s hs
    simp [hs]

/-- What is kept is what the entries resolve the parents to. -/
theorem kept_chainOf :
    Overlay.kept (chainOf all (entries.map (·.toEntry))) =
      all.filterMap fun d => resolved entries d.overrideId := by
  unfold Overlay.kept
  rw [filterMap_chainOf]
  · refine List.filterMap_congr fun d _ => ?_
    exact findOurs_chainOf all d.overrideId
  · intro s hs
    exact if_pos hs

/-- Entries agree on what the listed sources override. -/
def Agree (all : List Display) (entries entries' : List LiveEntry) : Prop :=
  ∀ d ∈ all, resolved entries d.overrideId = resolved entries' d.overrideId

/-- Entries that agree give the same walk.

**Proof sketch.** The walk reads of the chain what its children are, which nodes are kept and which
returned, and all three are read off the entries by display. -/
theorem targets_congr (h : Agree all entries entries') (fuel : ℕ) (root : UInt64) :
    targets fuel (chainOf all (entries.map (·.toEntry))) root =
      targets fuel (chainOf all (entries'.map (·.toEntry))) root := by
  have hchildren : children (chainOf all (entries.map (·.toEntry))) =
      children (chainOf all (entries'.map (·.toEntry))) := by
    funext node
    rw [children_chainOf, children_chainOf]
    refine List.filterMap_congr fun d hd => ?_
    rw [h d hd]
  have hkept : Overlay.kept (chainOf all (entries.map (·.toEntry))) =
      Overlay.kept (chainOf all (entries'.map (·.toEntry))) := by
    rw [kept_chainOf, kept_chainOf]
    exact List.filterMap_congr h
  have hreturned : returned (chainOf all (entries.map (·.toEntry))) =
      returned (chainOf all (entries'.map (·.toEntry))) := by
    funext node
    unfold returned
    rw [hchildren, hkept]
  have hlisted : ∀ entries : List LiveEntry,
      ((chainOf all (entries.map (·.toEntry))).any fun s => !s.ours && s.id == root) =
        all.any fun d => d.id == root := by
    intro entries
    unfold chainOf
    rw [List.any_append, List.any_map, List.any_map]
    simp [Function.comp_def]
  unfold targets
  rw [hlisted, hlisted, walk_eq, walk_eq, hchildren, hreturned]

/-- `Desired` is what any number of visits gives that is large enough. -/
theorem desired_eq {fuel : ℕ} (hfuel : env.all.length + entries.length ≤ fuel) :
    desired fuel env.controller env.detached env.all (entries.map (·.toEntry)) =
      some (desiredNow env entries) := by
  obtain ⟨out, hout⟩ :=
    exists_desired env.controller env.detached env.all (entries.map (·.toEntry))
  rw [List.length_map] at hout
  unfold desiredNow
  rw [hout fuel hfuel, hout _ le_rfl]
  rfl

/-- Entries that agree are asked for the same. -/
theorem desiredNow_congr (h : Agree env.all entries entries') :
    desiredNow env entries = desiredNow env entries' := by
  have hfuel := Nat.add_le_add_left (Nat.le_add_right entries.length entries'.length) env.all.length
  have hfuel' := Nat.add_le_add_left (Nat.le_add_left entries'.length entries.length) env.all.length
  refine Option.some.inj ?_
  rw [← desired_eq hfuel, ← desired_eq hfuel']
  unfold desired
  simp only [targets_congr h]

/-! ## What is asked for names every display once -/

/-- The targets come in the order of the ids, some left out. -/
theorem ids_targetsOf {root : Display × ℕ} {ids : List UInt64} {out : List Target}
    (h : targetsOf all root ids = some out) : (out.map (·.source.id)).Sublist ids := by
  induction ids generalizing out with
  | nil =>
    obtain rfl := Option.some.inj h
    exact List.Sublist.refl _
  | cons id ids ih =>
    unfold targetsOf at h
    cases hfind : all.zipIdx.find? fun s => s.1.id == id with
    | none =>
      rw [hfind] at h
      cases h
    | some node =>
      rw [hfind] at h
      obtain ⟨rest, hrest, rfl⟩ := Option.map_eq_some_iff.mp h
      have hid : node.1.id = id := by simpa using List.find?_some hfind
      split
      · exact (ih hrest).cons id
      · rw [List.map_cons, ← hid]
        exact (ih hrest).cons_cons node.1.id

/-- No target is asked for twice.

**Proof sketch.** The targets are those the walk returns, which are distinct, each with the display
of its id. -/
theorem nodup_desiredNow : (desiredNow env entries).Nodup := by
  have h : desired (env.all.length + entries.length) env.controller env.detached env.all
      (entries.map (·.toEntry)) = some (desiredNow env entries) := desired_eq le_rfl
  unfold desired at h
  split at h
  · rw [← Option.some.inj h]
    exact List.nodup_nil
  · split at h
    · rw [← Option.some.inj h]
      exact List.nodup_nil
    · split at h
      · rw [← Option.some.inj h]
        exact List.nodup_nil
      · rename_i root _ _
        obtain ⟨ids, hids, hout⟩ := Option.bind_eq_some_iff.mp h
        obtain ⟨ids', hids', hnodup, -⟩ :=
          exists_targets (chainOf env.all (entries.map (·.toEntry))) root.1.id
        have hlength : (chainOf env.all (entries.map (·.toEntry))).length =
            env.all.length + entries.length := by simp [chainOf]
        rw [hids' _ hlength.le] at hids
        obtain rfl := Option.some.inj hids
        exact ((ids_targetsOf hout).nodup hnodup).of_map

/-! ## What withdrawing and adding do to it -/

/-- Entries that no listed source overrides do not change what is asked for when they come last. -/
theorem desiredNow_append (hadded : ∀ e ∈ added, overridden env.all e = false) :
    desiredNow env (entries ++ added) = desiredNow env entries := by
  refine desiredNow_congr fun d hd => ?_
  unfold resolved
  rw [List.find?_append]
  have hnone : (added.find? fun e => e.listed.id == d.overrideId) = none := by
    rw [List.find?_eq_none]
    intro e he hid
    have hnot := List.any_eq_false.mp (hadded e he) d hd
    exact hnot (beq_iff_eq.mpr (beq_iff_eq.mp hid).symm)
  rw [hnone, Option.or_none]

/-- Nor do they when they are withdrawn.

**Proof sketch.** A withdrawn entry is overridden by no display, so what a display resolves to is
found among the entries that are kept. -/
theorem desiredNow_keep (hkept : ∀ e ∈ entries, overridden env.all e = true →
    e ∈ keep env entries) : desiredNow env (keep env entries) = desiredNow env entries := by
  refine desiredNow_congr fun d hd => ?_
  unfold resolved
  conv_lhs => rw [keep, List.find?_filter]
  congr 1
  refine List.find?_congr fun e he => ?_
  cases hid : e.listed.id == d.overrideId with
  | false => simp
  | true =>
    have hover : overridden env.all e = true :=
      List.any_eq_true.mpr ⟨d, hd, beq_iff_eq.mpr (beq_iff_eq.mp hid).symm⟩
    rw [(List.mem_filter.mp (hkept e he hover)).2]
    rfl

/-- What is pushed is live, and for a target that is asked for. -/
theorem of_mem_addMissing {ts : List Target} {resId : UInt16} {e : LiveEntry}
    (he : e ∈ (addMissing env ts entries resId).1) : e.live = true ∧ e.target ∈ ts := by
  induction ts generalizing entries resId with
  | nil => cases he
  | cons t ts ih =>
    unfold addMissing at he
    split at he
    · obtain ⟨hlive, htarget⟩ := ih he
      exact ⟨hlive, List.mem_cons_of_mem t htarget⟩
    · rcases List.mem_cons.mp he with rfl | hrest
      · exact ⟨rfl, List.mem_cons_self⟩
      · obtain ⟨hlive, htarget⟩ := ih hrest
        exact ⟨hlive, List.mem_cons_of_mem t htarget⟩

/-- Every target that is asked for has an entry in the end.

**Proof sketch.** By induction on the targets: one that has an entry keeps it, and one that has none
gets it. -/
theorem exists_entry {ts : List Target} {resId : UInt16} {t : Target} (ht : t ∈ ts) :
    ∃ e ∈ entries ++ (addMissing env ts entries resId).1, e.target = t := by
  induction ts generalizing entries resId with
  | nil => cases ht
  | cons first ts ih =>
    unfold addMissing
    split
    · rename_i hhave
      rcases List.mem_cons.mp ht with rfl | hrest
      · obtain ⟨e, he, htarget⟩ := List.any_eq_true.mp hhave
        exact ⟨e, List.mem_append_left _ he, beq_iff_eq.mp htarget⟩
      · exact ih hrest
    · rcases List.mem_cons.mp ht with rfl | hrest
      · exact ⟨makeEntry env resId t, List.mem_append_right _ List.mem_cons_self, rfl⟩
      · obtain ⟨e, he, htarget⟩ : ∃ e ∈ entries ++ [makeEntry env resId first] ++
            (addMissing env ts (entries ++ [makeEntry env resId first])
              (followingResId resId)).1, e.target = t := ih hrest
        refine ⟨e, ?_, htarget⟩
        rwa [List.append_assoc, List.singleton_append] at he

/-- No target has two entries.

**Proof sketch.** By induction on the targets: one is added only where no entry has it. -/
theorem nodup_addMissing {ts : List Target} {resId : UInt16}
    (h : (entries.map (·.target)).Nodup) :
    ((entries ++ (addMissing env ts entries resId).1).map (·.target)).Nodup := by
  induction ts generalizing entries resId with
  | nil =>
    rw [addMissing, List.append_nil]
    exact h
  | cons t ts ih =>
    unfold addMissing
    split
    · exact ih h
    · rename_i hnone
      have hone : ((entries ++ [makeEntry env resId t]).map (·.target)).Nodup := by
        rw [List.map_append, List.nodup_append']
        refine ⟨h, List.nodup_singleton _, fun t' ht' hlast => ?_⟩
        obtain ⟨e, he, rfl⟩ := List.mem_map.mp ht'
        refine hnone (List.any_eq_true.mpr ⟨e, he, ?_⟩)
        exact beq_iff_eq.mpr (List.mem_singleton.mp hlast)
      have hrest : ((entries ++ [makeEntry env resId t] ++
          (addMissing env ts (entries ++ [makeEntry env resId t])
            (followingResId resId)).1).map (·.target)).Nodup := ih hone
      rwa [List.append_assoc, List.singleton_append] at hrest

/-- Nothing is pushed when every target has an entry. -/
theorem addMissing_of_have (env : Listing) {ts : List Target} (resId : UInt16)
    (h : ∀ t ∈ ts, ∃ e ∈ entries, e.target = t) :
    addMissing env ts entries resId = ([], resId) := by
  induction ts with
  | nil => rfl
  | cons t ts ih =>
    obtain ⟨e, he, htarget⟩ := h t List.mem_cons_self
    have hhave : (entries.any fun e => e.target == t) = true :=
      List.any_eq_true.mpr ⟨e, he, beq_iff_eq.mpr htarget⟩
    unfold addMissing
    rw [if_pos hhave]
    exact ih fun t ht => h t (List.mem_cons_of_mem _ ht)

/-! ## One call -/

variable {s : Overriding}

/-- A call keeps entries, and pushes those that are asked for beside them.

**Proof sketch.** Where no entry is withdrawn the walk is not done again, and what is kept is all
there was. -/
theorem entries_apply (env : Listing) (s : Overriding) :
    (apply env s).state.entries =
      keep env s.entries ++ (apply env s).added ∧
    (apply env s).added =
      (addMissing env (desiredNow env (keep env s.entries)) (keep env s.entries)
        s.nextResId).1 := by
  refine ⟨rfl, ?_⟩
  cases hremoved : (keep env s.entries).length != s.entries.length with
  | true => simp only [apply, hremoved, if_true]
  | false =>
    have hall : keep env s.entries = s.entries :=
      List.filter_eq_self.mpr
        (List.length_filter_eq_length_iff.mp (bne_eq_false_iff_eq.mp hremoved))
    simp only [apply, hall, ite_self]

/-- A call keeps the targets distinct. -/
theorem nodup_apply (h : (s.entries.map (·.target)).Nodup) :
    ((apply env s).state.entries.map (·.target)).Nodup := by
  obtain ⟨hentries, hadded⟩ := entries_apply env s
  rw [hentries, hadded]
  exact nodup_addMissing (h.sublist (List.filter_sublist.map _))

/-- A call leaves the surface as the entries have it. -/
theorem surface_apply :
    (apply env s).state.surface = (apply env s).state.entries.any (·.live) := rfl

/-- The entries are those that are asked for. -/
structure Settled (env : Listing) (entries : List LiveEntry) : Prop where
  live : ∀ e ∈ entries, e.live = true
  wanted : ∀ e ∈ entries, e.target ∈ desiredNow env entries
  present : ∀ t ∈ desiredNow env entries, ∃ e ∈ entries, e.target = t

/-- All that is settled is kept. -/
theorem Settled.keep_eq (h : Settled env entries) : keep env entries = entries := by
  refine List.filter_eq_self.mpr fun e he => ?_
  rw [h.live e he, decide_eq_true (h.wanted e he)]
  rfl

/-- The targets are those asked for, in some order. -/
theorem Settled.perm (h : Settled env entries) (hnodup : (entries.map (·.target)).Nodup) :
    (entries.map (·.target)).Perm (desiredNow env entries) := by
  refine (List.perm_ext_iff_of_nodup hnodup nodup_desiredNow).mpr fun t => ?_
  rw [List.mem_map]
  constructor
  · rintro ⟨e, he, rfl⟩
    exact h.wanted e he
  · exact h.present t

/-- What is settled needs no call. -/
theorem Settled.needsApply_eq (h : Settled env entries)
    (hnodup : (entries.map (·.target)).Nodup) : needsApply env entries = false := by
  have hlength : (desiredNow env entries).length = entries.length := by
    rw [← (h.perm hnodup).length_eq, List.length_map]
  have hany : (entries.any fun e => !e.live || !decide (e.target ∈ desiredNow env entries)) =
      false := by
    rw [List.any_eq_false]
    intro e he
    rw [h.live e he, decide_eq_true (h.wanted e he)]
    decide
  show ((desiredNow env entries).length != entries.length || _) = false
  rw [hlength, hany, bne_self_eq_false]
  rfl

/-- A call on what is settled changes nothing and broadcasts nothing. -/
theorem Settled.apply_eq (h : Settled env s.entries)
    (hsurface : s.surface = s.entries.any (·.live)) :
    apply env s = { state := s, broadcasts := 0, added := [] } := by
  have hkeep := h.keep_eq
  have hadd := addMissing_of_have env s.nextResId h.present
  simp only [apply, hkeep, bne_self_eq_false, Bool.false_eq_true, if_false, hadd,
    List.append_nil, List.isEmpty_nil, Bool.not_true, Bool.or_self, if_true, updateSurface,
    ← hsurface, Nat.add_zero]

/-- A call that withdraws no overridden entry settles.

**Proof sketch.** No entry that was withdrawn is overridden, and no new one is, so the walk is the
same after the call (`targets_congr`). What it asks for has an entry, and each entry is asked for.
-/
theorem settled_apply (hfresh : ∀ e ∈ (apply env s).added, overridden env.all e = false)
    (hkept : ∀ e ∈ s.entries, overridden env.all e = true → e ∈ keep env s.entries) :
    Settled env (apply env s).state.entries := by
  obtain ⟨hentries, hadded⟩ := entries_apply env s
  have hdesired : desiredNow env (apply env s).state.entries =
      desiredNow env (keep env s.entries) := by
    rw [hentries]
    exact desiredNow_append hfresh
  have hsame := desiredNow_keep hkept
  constructor
  · intro e he
    rw [hentries, List.mem_append] at he
    rcases he with hold | hnew
    · exact (Bool.and_eq_true_iff.mp (List.mem_filter.mp hold).2).1
    · rw [hadded] at hnew
      exact (of_mem_addMissing hnew).1
  · intro e he
    rw [hdesired]
    rw [hentries, List.mem_append] at he
    rcases he with hold | hnew
    · rw [hsame]
      exact of_decide_eq_true (Bool.and_eq_true_iff.mp (List.mem_filter.mp hold).2).2
    · rw [hadded] at hnew
      exact (of_mem_addMissing hnew).2
  · intro t ht
    rw [hdesired] at ht
    rw [hentries, hadded]
    exact exists_entry ht

/-- The overridden entries of a state. -/
def countOverridden (env : Listing) (s : Overriding) : ℕ := s.entries.countP (overridden env.all)

/-- A call settles, or leaves fewer overridden entries.

**Proof sketch.** Where an overridden entry is withdrawn it is counted no more, and no new one is
counted; where none is, the call settles (`settled_apply`). -/
theorem settled_or_drops (hfresh : ∀ e ∈ (apply env s).added, overridden env.all e = false) :
    Settled env (apply env s).state.entries ∨
      countOverridden env (apply env s).state < countOverridden env s := by
  by_cases hkept : ∀ e ∈ s.entries, overridden env.all e = true → e ∈ keep env s.entries
  · exact .inl (settled_apply hfresh hkept)
  · right
    push Not at hkept
    obtain ⟨e, he, hover, hgone⟩ := hkept
    obtain ⟨hentries, -⟩ := entries_apply env s
    have hnew : (apply env s).added.countP (overridden env.all) = 0 :=
      List.countP_eq_zero.mpr fun e he => by simp [hfresh e he]
    have hnot : ¬ (e.live && decide (e.target ∈ desiredNow env s.entries)) = true :=
      fun hkeep => hgone (List.mem_filter.mpr ⟨he, hkeep⟩)
    unfold countOverridden
    rw [hentries, List.countP_append, hnew, Nat.add_zero, List.countP_eq_length_filter,
      List.countP_eq_length_filter, keep, List.filter_comm]
    exact List.length_filter_lt_length_iff_exists.mpr ⟨e, List.mem_filter.mpr ⟨he, hover⟩, hnot⟩

/-! ## Any number of calls -/

/-- The targets stay distinct. -/
theorem nodup_applied (env : Listing) (h : (s.entries.map (·.target)).Nodup) (n : ℕ) :
    ((applied env s n).entries.map (·.target)).Nodup := by
  induction n with
  | zero => exact h
  | succ n ih => exact nodup_apply ih

/-- **Overriding settles**: on a display list that stays as it is, whatever the entries are (their
targets distinct, some perhaps not live), and however the sources hang together, one call more than
there are entries that a listed source overrides is enough: nothing needs a call then, the targets
are those that `Desired` gives, and a further call changes and broadcasts nothing. A new entry must
have an id that no listed source overrides.

**Proof sketch.** What is asked for depends only on what the entries resolve the listed sources'
parents to (`desiredNow_congr`), so new entries do not change it (`desiredNow_append`), and neither
do withdrawn ones that nothing overrides (`desiredNow_keep`). A call that withdraws only such
entries therefore settles (`settled_apply`); any other leaves fewer entries that are overridden
(`settled_or_drops`). What has settled stays (`Settled.apply_eq`). -/
theorem settles {env : Listing} {s : Overriding} (htargets : (s.entries.map (·.target)).Nodup)
    (hfresh : ∀ n, ∀ e ∈ (apply env (applied env s n)).added, overridden env.all e = false)
    {n : ℕ} (hn : countOverridden env s + 1 ≤ n) :
    needsApply env (applied env s n).entries = false ∧
      ((applied env s n).entries.map (·.target)).Perm
        (desiredNow env (applied env s n).entries) ∧
      apply env (applied env s n) = { state := applied env s n, broadcasts := 0, added := [] } := by
  have hsurface : ∀ n, (applied env s (n + 1)).surface =
      (applied env s (n + 1)).entries.any (·.live) := fun n => surface_apply
  have hstays : ∀ m, (1 ≤ m ∧ Settled env (applied env s m).entries) →
      1 ≤ m + 1 ∧ Settled env (applied env s (m + 1)).entries := by
    rintro m ⟨hm, hsettled⟩
    obtain ⟨k, rfl⟩ := Nat.exists_eq_add_of_le' hm
    refine ⟨by omega, ?_⟩
    have hsame : applied env s (k + 1 + 1) = applied env s (k + 1) :=
      congrArg (·.state) (hsettled.apply_eq (hsurface k))
    rw [hsame]
    exact hsettled
  have hdrops : ∀ m, (1 ≤ m + 1 ∧ Settled env (applied env s (m + 1)).entries) ∨
      countOverridden env (applied env s (m + 1)) < countOverridden env (applied env s m) := by
    intro m
    rcases settled_or_drops (hfresh m) with hsettled | hfewer
    · exact .inl ⟨by omega, hsettled⟩
    · exact .inr hfewer
  obtain ⟨hpos, hsettled⟩ : 1 ≤ n ∧ Settled env (applied env s n).entries :=
    Runs.settled_of_drops (m := fun i => countOverridden env (applied env s i)) hstays hdrops hn
  have hnodup := nodup_applied env htargets n
  obtain ⟨k, rfl⟩ := Nat.exists_eq_add_of_le' hpos
  exact ⟨hsettled.needsApply_eq hnodup, hsettled.perm hnodup, hsettled.apply_eq (hsurface k)⟩

/-- Where a call changes nothing, no further one does. -/
theorem applied_of_fixed {k : ℕ} (h : applied env s (k + 1) = applied env s k) (n : ℕ) :
    applied env s (k + n) = applied env s k := by
  induction n with
  | zero => rfl
  | succ n ih =>
    show (apply env (applied env s (k + n))).state = applied env s k
    rw [ih]
    exact h

/-- A controller's display, and a colouriser that overrides our override of it. -/
def colourised : Listing where
  resourceId endpoint resource := endpoint.toUInt64 + resource.toUInt64 * 0x100000000
  endpointId := 7
  controller := 1
  all :=
    [{ endpointId := 1, id := 0x100000001, width := 128, height := 32, frameFormat := .srgb888,
       getRenderFrame := true },
     { endpointId := 2, id := 0x100000002, overrideId := 0x100000007, width := 128, height := 32,
       frameFormat := .srgb888, getRenderFrame := true }]

/-- Our override of an earlier display, no longer live. -/
def darkened : Overriding where
  entries :=
    [{ target := { source := { endpointId := 1, id := 0x100000001, width := 64, height := 32,
                               frameFormat := .srgb888, getRenderFrame := true } }
       listed := { endpointId := 7, id := 0x100000007, overrideId := 0x100000001 }
       live := false }]
  nextResId := 2

/-- The dead override is withdrawn and another added, and that settles. -/
theorem settles_darkened : countOverridden colourised darkened = 1 ∧
    (apply colourised darkened).broadcasts = 2 ∧
    needsApply colourised (applied colourised darkened 2).entries = false ∧
      ((applied colourised darkened 2).entries.map (·.target)).Perm
        (desiredNow colourised (applied colourised darkened 2).entries) ∧
      apply colourised (applied colourised darkened 2) =
        { state := applied colourised darkened 2, broadcasts := 0, added := [] } := by
  have hcount : countOverridden colourised darkened = 1 := by decide +kernel
  refine ⟨hcount, by decide +kernel, settles (by decide +kernel) ?_ (by rw [hcount])⟩
  intro n
  cases n with
  | zero => decide +kernel
  | succ n =>
    have hfixed : applied colourised darkened (1 + 1) = applied colourised darkened 1 := by
      decide +kernel
    rw [Nat.add_comm, applied_of_fixed hfixed]
    decide +kernel

end Overlay
