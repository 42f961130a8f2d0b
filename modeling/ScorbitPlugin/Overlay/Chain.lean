import Mathlib.Data.UInt
import ScorbitPlugin.Runs.Walk

set_option relaxedAutoImplicit false
set_option autoImplicit false

/-!
# The override chain

Which display sources the overlay overrides: `Chain::Targets` of `src/OverrideChain.h`, and
`DmdOverlay::Desired` of `src/DmdOverlay.cpp`, which looks each of them up in the display list. The
list of sources is whatever the other plugins report.

## Main definitions

* `Overlay.Source`, `Overlay.targets` — the sources, and the walk over them.
* `Overlay.Display`, `Overlay.desired` — the display list, and what is to be overridden of it.
* `Overlay.Sits`, `Overlay.IsTarget` — what a target is.

## Main results

* `Overlay.never_sibling` — the walk ends with exactly the targets, and each is a display.
-/

namespace Overlay

open Relation

/-! ## The walk of the source -/

/-- `Chain::Source`. -/
structure Source where
  id : UInt64 := 0
  /-- 0 when it overrides nothing. -/
  overrides : UInt64 := 0
  ours : Bool := false
deriving DecidableEq, Repr

/-- The first of ours with an id. -/
def findOurs (sources : List Source) (id : UInt64) : Option Source :=
  sources.find? fun s => s.ours && s.id == id

/-- The entry of `parents` of a source. -/
def parentOf (sources : List Source) (s : Source) : UInt64 :=
  if s.ours then 0
  else
    match findOurs sources s.overrides with
    | some ours => ours.overrides
    | none => s.overrides

/-- `parents`. -/
def parents (sources : List Source) : List UInt64 := sources.map (parentOf sources)

/-- `kept`. -/
def kept (sources : List Source) : List UInt64 :=
  sources.filterMap fun s =>
    if s.ours then none else (findOurs sources s.overrides).map (·.overrides)

/-- The sources in turn, with their parents, seen from a node: whether it is a leaf, and the queue
after it. -/
def visit (node : UInt64) : List (Source × UInt64) → Bool → List UInt64 → Bool × List UInt64
  | [], leaf, queue => (leaf, queue)
  | (s, parent) :: rest, leaf, queue =>
    if s.ours || parent != node || s.id == node then visit node rest leaf queue
    else visit node rest false (if s.id ∈ queue then queue else queue ++ [s.id])

/-- The walk from place `q` of the queue on, `none` when it does not end in so many visits. -/
def walk (listed : List (Source × UInt64)) (kept : List UInt64) :
    ℕ → ℕ → List UInt64 → List UInt64 → Option (List UInt64)
  | 0, q, queue, out => if q < queue.length then none else some out
  | fuel + 1, q, queue, out =>
    match queue[q]? with
    | none => some out
    | some node =>
      let (leaf, queue) := visit node listed true queue
      walk listed kept fuel (q + 1) queue
        (if leaf || decide (node ∈ kept) then out ++ [node] else out)

/-- `Chain::Targets`, when its walk ends in `fuel` visits. -/
def targets (fuel : ℕ) (sources : List Source) (root : UInt64) : Option (List UInt64) :=
  if sources.any fun s => !s.ours && s.id == root then
    walk (sources.zip (parents sources)) (kept sources) fuel 0 [root] []
  else some []

/-! ## What a target is -/

/-- A source overrides one of ours, and `o` is the first listed with that id. -/
structure OnOurs (sources : List Source) (s o : Source) : Prop where
  ours : o.ours = true
  id : o.id = s.overrides
  first : ∃ before after, sources = before ++ o :: after ∧
    ∀ x ∈ before, x.ours = true → x.id ≠ s.overrides

/-- A source's effective parent: what it overrides, or what that does if it is ours. -/
def Sits (sources : List Source) (s : Source) (parent : UInt64) : Prop :=
  (∃ o, OnOurs sources s o ∧ parent = o.overrides) ∨
    (∀ o ∈ sources, o.ours = true → o.id ≠ s.overrides) ∧ parent = s.overrides

/-- Some source of another plugin has the id. -/
def Listed (sources : List Source) (id : UInt64) : Prop :=
  ∃ s ∈ sources, s.ours = false ∧ s.id = id

/-- A source of another plugin with id `child` sits on `node`. -/
def SitsOn (sources : List Source) (node child : UInt64) : Prop :=
  ∃ s ∈ sources, s.ours = false ∧ Sits sources s node ∧ s.id = child

/-- Nothing of another id sits on it. -/
def Leaf (sources : List Source) (id : UInt64) : Prop :=
  ∀ s ∈ sources, s.ours = false → Sits sources s id → s.id = id

/-- A source of another plugin that overrides one of ours sits on it. -/
def Kept (sources : List Source) (id : UInt64) : Prop :=
  ∃ s ∈ sources, s.ours = false ∧ ∃ o, OnOurs sources s o ∧ id = o.overrides

/-- What is to be overridden. -/
structure IsTarget (sources : List Source) (root id : UInt64) : Prop where
  begins : Listed sources root
  listed : Listed sources id
  reachable : ReflTransGen (SitsOn sources) root id
  ends : Leaf sources id ∨ Kept sources id

/-! ## Parents -/

variable {sources : List Source}

/-- What is found is the first of ours.

**Proof sketch.** The search finds the first element that is ours with the source's id as its
display: before it none of ours has that id. -/
theorem findOurs_eq_some {s o : Source} :
    findOurs sources s.overrides = some o ↔ OnOurs sources s o := by
  unfold findOurs
  rw [List.find?_eq_some_iff_append]
  simp only [Bool.and_eq_true, beq_iff_eq, Bool.not_eq_true', Bool.and_eq_false_iff,
    beq_eq_false_iff_ne]
  constructor
  · rintro ⟨⟨hours, hid⟩, before, after, hlist, hbefore⟩
    refine ⟨hours, hid, before, after, hlist, fun x hx hxours => ?_⟩
    rcases hbefore x hx with hnot | hne
    · rw [hnot] at hxours
      cases hxours
    · exact hne
  · rintro ⟨hours, hid, before, after, hlist, hbefore⟩
    refine ⟨⟨hours, hid⟩, before, after, hlist, fun x hx => ?_⟩
    cases hx' : x.ours with
    | false => exact .inl rfl
    | true => exact .inr (hbefore x hx hx')

/-- What is not found is not listed. -/
theorem findOurs_eq_none {s : Source} : findOurs sources s.overrides = none ↔
    ∀ o ∈ sources, o.ours = true → o.id ≠ s.overrides := by
  unfold findOurs
  rw [List.find?_eq_none]
  refine forall₂_congr fun o _ => ?_
  simp only [Bool.and_eq_true, beq_iff_eq, not_and, ne_eq]

/-- A source of another plugin sits on its entry of `parents` and on nothing else.

**Proof sketch.** Where there is an entry of ours on the source, `findOurs` finds it and it is the
parent; where there is none the parent is the overridden source. -/
theorem sits_iff {s : Source} (hs : s.ours = false) {parent : UInt64} :
    Sits sources s parent ↔ parentOf sources s = parent := by
  unfold Sits parentOf
  rw [hs, if_neg Bool.false_ne_true]
  cases hfind : findOurs sources s.overrides with
  | some o =>
    have ho := findOurs_eq_some.mp hfind
    constructor
    · rintro (⟨o', ho', rfl⟩ | ⟨hnone, -⟩)
      · obtain rfl : o = o' := Option.some.inj (hfind.symm.trans (findOurs_eq_some.mpr ho'))
        rfl
      · rw [findOurs_eq_none.mpr hnone] at hfind
        cases hfind
    · rintro rfl
      exact .inl ⟨o, ho, rfl⟩
  | none =>
    have hnone := findOurs_eq_none.mp hfind
    constructor
    · rintro (⟨o', ho', -⟩ | ⟨-, rfl⟩)
      · rw [findOurs_eq_some.mpr ho'] at hfind
        cases hfind
      · rfl
    · rintro rfl
      exact .inr ⟨hnone, rfl⟩

/-- The kept nodes are those of `kept`. -/
theorem mem_kept {id : UInt64} : id ∈ kept sources ↔ Kept sources id := by
  unfold kept Kept
  rw [List.mem_filterMap]
  refine exists_congr fun s => and_congr_right fun _ => ?_
  cases s.ours with
  | true => simp
  | false =>
    rw [if_neg Bool.false_ne_true, Option.map_eq_some_iff]
    constructor
    · rintro ⟨o, ho, rfl⟩
      exact ⟨rfl, o, findOurs_eq_some.mp ho, rfl⟩
    · rintro ⟨-, o, ho, rfl⟩
      exact ⟨o, findOurs_eq_some.mpr ho, rfl⟩

/-! ## The walk -/

/-- The ids a node pushes. -/
def children (sources : List Source) (node : UInt64) : List UInt64 :=
  (sources.filter fun s => !s.ours && parentOf sources s == node && s.id != node).map (·.id)

/-- A visit pushes the children, and finds a leaf when there are none. -/
theorem visit_eq (node : UInt64) (l : List Source) (parent : Source → UInt64) (leaf : Bool)
    (queue : List UInt64) :
    visit node (l.map fun s => (s, parent s)) leaf queue =
      let pushed := (l.filter fun s => !s.ours && parent s == node && s.id != node).map (·.id)
      (leaf && pushed.isEmpty, Runs.pushAll queue pushed) := by
  induction l generalizing leaf queue with
  | nil => simp [visit, Runs.pushAll]
  | cons s l ih =>
    rw [List.map_cons, visit, List.filter_cons]
    by_cases hskip : (s.ours || parent s != node || s.id == node) = true
    · have hnot : (!s.ours && parent s == node && s.id != node) = false := by
        cases h₁ : s.ours <;> cases h₂ : parent s == node <;> cases h₃ : s.id == node <;>
          simp_all [bne]
      rw [if_pos hskip, hnot, if_neg Bool.false_ne_true]
      exact ih leaf queue
    · have hin : (!s.ours && parent s == node && s.id != node) = true := by
        cases h₁ : s.ours <;> cases h₂ : parent s == node <;> cases h₃ : s.id == node <;>
          simp_all [bne]
      rw [if_neg hskip, if_pos hin, ih]
      simp [Runs.pushAll, Runs.push]

/-- So does a visit of the sources with their parents. -/
theorem visit_children (sources : List Source) (node : UInt64) (queue : List UInt64) :
    visit node (sources.map fun s => (s, parentOf sources s)) true queue =
      ((children sources node).isEmpty, Runs.pushAll queue (children sources node)) :=
  visit_eq node sources (parentOf sources) true queue

/-- A child is another source that sits on the node. -/
theorem mem_children {node id : UInt64} :
    id ∈ children sources node ↔ SitsOn sources node id ∧ id ≠ node := by
  unfold children SitsOn
  simp only [List.mem_map, List.mem_filter, Bool.and_eq_true, Bool.not_eq_true', beq_iff_eq,
    bne_iff_ne, ne_eq]
  constructor
  · rintro ⟨s, ⟨hs, ⟨hours, hparent⟩, hne⟩, rfl⟩
    exact ⟨⟨s, hs, hours, (sits_iff hours).mpr hparent, rfl⟩, hne⟩
  · rintro ⟨⟨s, hs, hours, hsits, rfl⟩, hne⟩
    exact ⟨s, ⟨hs, ⟨hours, (sits_iff hours).mp hsits⟩, hne⟩, rfl⟩

/-- A node without children is a leaf. -/
theorem isEmpty_children {node : UInt64} :
    (children sources node).isEmpty = true ↔ Leaf sources node := by
  rw [List.isEmpty_iff, List.eq_nil_iff_forall_not_mem]
  constructor
  · intro h s hs hours hsits
    by_contra hne
    exact h s.id (mem_children.mpr ⟨⟨s, hs, hours, hsits, rfl⟩, hne⟩)
  · intro h id hid
    obtain ⟨⟨s, hs, hours, hsits, rfl⟩, hne⟩ := mem_children.mp hid
    exact hne (h s hs hours hsits)

/-- Whether a node is returned. -/
def returned (sources : List Source) (node : UInt64) : Bool :=
  (children sources node).isEmpty || decide (node ∈ kept sources)

/-- A node is returned when it is a leaf or kept. -/
theorem returned_iff {node : UInt64} :
    returned sources node = true ↔ Leaf sources node ∨ Kept sources node := by
  unfold returned
  rw [Bool.or_eq_true, decide_eq_true_eq, isEmpty_children, mem_kept]

/-- **The walk of the source is the walk over the children**, with what is returned of its queue.

**Proof sketch.** By induction on the fuel. A visit puts the node's children behind the queue and,
where it is returned, the node behind the output, so the output is what was visited and is returned.
-/
theorem walk_eq (fuel q : ℕ) (queue out : List UInt64) :
    walk (sources.zip (parents sources)) (kept sources) fuel q queue out =
      (Runs.walk (children sources) fuel q queue).map fun final =>
        out ++ (final.drop q).filter (returned sources) := by
  have hzip : sources.zip (parents sources) = sources.map fun s => (s, parentOf sources s) :=
    List.map_prod_left_eq_zip.symm
  rw [hzip]
  induction fuel generalizing q queue out with
  | zero =>
    unfold walk Runs.walk
    split
    · rfl
    · rename_i hend
      rw [Option.map_some, List.drop_of_length_le (Nat.le_of_not_lt hend)]
      simp
  | succ fuel ih =>
    unfold walk Runs.walk
    cases hnode : queue[q]? with
    | none =>
      have hend : queue.length ≤ q := List.getElem?_eq_none_iff.mp hnode
      dsimp only
      rw [Option.map_some, List.drop_of_length_le hend]
      simp
    | some node =>
      dsimp only
      rw [visit_children]
      dsimp only
      rw [ih]
      cases hwalk : Runs.walk (children sources) fuel (q + 1)
          (Runs.pushAll queue (children sources node)) with
      | none => rfl
      | some final =>
        have hfirst : final[q]? = some node := Runs.getElem?_of_prefix
          ((Runs.prefix_pushAll _ _).trans (Runs.prefix_walk hwalk)) hnode
        rw [Option.map_some, Option.map_some, List.drop_eq_getElem?_toList_append (i := q), hfirst]
        show some _ = some (out ++ List.filter _ (node :: _))
        rw [List.filter_cons]
        unfold returned
        split <;> simp

/-- The ids of the sources of other plugins. -/
def listedIds (sources : List Source) : List UInt64 :=
  (sources.filter fun s => !s.ours).map (·.id)

/-- The ids listed are those of the listed sources. -/
theorem mem_listedIds {id : UInt64} : id ∈ listedIds sources ↔ Listed sources id := by
  unfold listedIds Listed
  simp only [List.mem_map, List.mem_filter, Bool.not_eq_true', and_assoc]

/-- What sits on anything is listed. -/
theorem SitsOn.listed {node id : UInt64} (h : SitsOn sources node id) : Listed sources id := by
  obtain ⟨s, hs, hours, -, hid⟩ := h
  exact ⟨s, hs, hours, hid⟩

/-- What is reached over the children is what is reached over all that sits on a node.

**Proof sketch.** A child sits on its node. What sits on a node and is not the node itself is one of
its children; the node itself leads nowhere new. -/
theorem reachable_children {root id : UInt64} :
    ReflTransGen (fun a b => b ∈ children sources a) root id ↔
      ReflTransGen (SitsOn sources) root id := by
  constructor
  · intro h
    induction h with
    | refl => exact .refl
    | tail _ hchild ih => exact ih.tail (mem_children.mp hchild).1
  · intro h
    induction h with
    | refl => exact .refl
    | @tail node id _ hsits ih =>
      by_cases heq : id = node
      · exact heq ▸ ih
      · exact ih.tail (mem_children.mpr ⟨hsits, heq⟩)

/-- The root is looked for in the list. -/
theorem any_listed {root : UInt64} :
    (sources.any fun s => !s.ours && s.id == root) = true ↔ Listed sources root := by
  unfold Listed
  simp only [List.any_eq_true, Bool.and_eq_true, Bool.not_eq_true', beq_iff_eq]

/-- **What the walk returns.**

**Proof sketch.** The walk of the source is that over the children, and its queue stays within the
listed ids (`Runs.exists_walk`). -/
theorem exists_targets (sources : List Source) (root : UInt64) :
    ∃ out, (∀ fuel, sources.length ≤ fuel → targets fuel sources root = some out) ∧
      out.Nodup ∧ ∀ id, id ∈ out ↔ IsTarget sources root id := by
  by_cases hroot : Listed sources root
  · have hsucc : ∀ x ∈ listedIds sources, ∀ y ∈ children sources x, y ∈ listedIds sources :=
      fun x _ y hy => mem_listedIds.mpr (mem_children.mp hy).1.listed
    have hqueue : ∀ x ∈ [root], x ∈ listedIds sources := fun x hx =>
      mem_listedIds.mpr ((List.mem_singleton.mp hx) ▸ hroot)
    have hlength : (listedIds sources).length ≤ sources.length := by
      unfold listedIds
      rw [List.length_map]
      exact List.length_filter_le _ _
    have hall : ∀ fuel, sources.length ≤ fuel → (listedIds sources).length ≤ 0 + fuel :=
      fun fuel hfuel => by omega
    have hwalk : ∀ fuel, sources.length ≤ fuel → ∃ final,
        Runs.walk (children sources) fuel 0 [root] = some final ∧ final.Nodup ∧
          ∀ id, id ∈ final ↔ ReflTransGen (SitsOn sources) root id := by
      intro fuel hfuel
      obtain ⟨final, hwalk, hnodup, hreach, hclosed⟩ :=
        Runs.exists_walk hsucc (hall fuel hfuel) (List.nodup_singleton root) hqueue
      refine ⟨final, hwalk, hnodup, fun id => ?_⟩
      rw [← reachable_children]
      constructor
      · intro hid
        obtain ⟨x, hx, hxid⟩ := hreach id hid
        exact (List.mem_singleton.mp hx) ▸ hxid
      · intro h
        induction h with
        | refl => exact (Runs.prefix_walk hwalk).subset List.mem_cons_self
        | tail _ hchild ih => exact hclosed _ ih _ hchild
    obtain ⟨final, hfirst, hnodup, hmem⟩ := hwalk sources.length le_rfl
    refine ⟨final.filter (returned sources), fun fuel hfuel => ?_, hnodup.filter _, fun id => ?_⟩
    · unfold targets
      rw [if_pos (any_listed.mpr hroot), walk_eq]
      rw [Runs.walk_mono hfuel hfirst]
      rfl
    · rw [List.mem_filter, hmem, returned_iff]
      constructor
      · rintro ⟨hreach, hends⟩
        refine ⟨hroot, ?_, hreach, hends⟩
        rcases ReflTransGen.cases_tail hreach with rfl | ⟨_, -, hsits⟩
        · exact hroot
        · exact hsits.listed
      · exact fun h => ⟨h.reachable, h.ends⟩
  · refine ⟨[], fun fuel _ => ?_, List.nodup_nil, fun id => ⟨nofun, fun h => absurd h.begins hroot⟩⟩
    unfold targets
    rw [if_neg fun h => hroot (any_listed.mp h)]

/-! ## The display list -/

/-- `frameFormat`, as far as `BytesPerPixel` tells formats apart. -/
inductive FrameFormat
  | lum32f
  | srgb888
  | srgb565
  | other
deriving DecidableEq, Repr

/-- `BytesPerPixel`. -/
def bytesPerPixel : FrameFormat → ℕ
  | .lum32f => 4
  | .srgb888 => 3
  | .srgb565 => 2
  | .other => 0

/-- `identifyFormat`, as far as it is told apart. -/
inductive IdentifyFormat
  | bitplane4
  | other
deriving DecidableEq, Repr

/-- `DisplaySrcId`; its two functions may be null. -/
structure Display where
  endpointId : UInt32 := 0
  id : UInt64 := 0
  overrideId : UInt64 := 0
  width : UInt32 := 0
  height : UInt32 := 0
  frameFormat : FrameFormat := .other
  identifyFormat : IdentifyFormat := .other
  getRenderFrame : Bool := false
  getIdentifyFrame : Bool := false
  /-- What else `operator==` compares: the other fields, which of the other formats, and which
  functions these are. -/
  rest : ℕ := 0
deriving DecidableEq, Repr

/-- `DmdOverlay::Target`. -/
structure Target where
  source : Display
  identify : Bool := false
  baseWidth : UInt32 := 0
  baseHeight : UInt32 := 0
  sixteenShades : Bool := false
deriving DecidableEq, Repr

/-- `DmdOverlay::Entry`, as far as `Desired` reads it. -/
structure Entry where
  target : Target
  listed : Display
deriving DecidableEq, Repr

/-- The controller's own display, with its place in the list: the first of the largest. -/
def findRoot (controller : UInt32) :
    List (Display × ℕ) → Option (Display × ℕ) → Option (Display × ℕ)
  | [], root => root
  | (s, i) :: all, root =>
    if s.endpointId ≠ controller ∨ ¬ s.getRenderFrame then findRoot controller all root
    else if s.frameFormat ≠ .lum32f ∧ s.frameFormat ≠ .srgb888 then findRoot controller all root
    else
      findRoot controller all (match root with
        | none => some (s, i)
        | some best =>
          if s.width * s.height > best.1.width * best.1.height then some (s, i) else root)

/-- The sources `Desired` walks over. -/
def chainOf (all : List Display) (entries : List Entry) : List Source :=
  all.map (fun s => ⟨s.id, s.overrideId, false⟩) ++
    entries.map fun e => ⟨e.listed.id, e.target.source.id, true⟩

/-- The targets of the ids, `none` when the display of one is dereferenced that is not there. -/
def targetsOf (all : List Display) (root : Display × ℕ) : List UInt64 → Option (List Target)
  | [] => some []
  | id :: ids =>
    match all.zipIdx.find? fun s => s.1.id == id with
    | none => none
    | some node =>
      (targetsOf all root ids).map fun out =>
        if ¬ node.1.getRenderFrame ∨ bytesPerPixel node.1.frameFormat = 0 ∨ node.1.width = 0 ∨
            node.1.height = 0 then out
        else
          { source := node.1
            identify := node.2 == root.2 && node.1.getIdentifyFrame
            baseWidth := root.1.width
            baseHeight := root.1.height
            sixteenShades := root.1.identifyFormat == .bitplane4 } :: out

/-- `DmdOverlay::Desired`, when its walk ends in `fuel` visits. -/
def desired (fuel : ℕ) (controller : UInt32) (detached : Bool) (all : List Display)
    (entries : List Entry) : Option (List Target) :=
  if controller = 0 ∨ detached then some []
  else
    match findRoot controller all.zipIdx none with
    | none => some []
    | some root =>
      if root.1.width = 0 ∨ root.1.height = 0 then some []
      else (targets fuel (chainOf all entries) root.1.id).bind (targetsOf all root)

/-- What another plugin lists is in the display list. -/
theorem mem_of_listed {all : List Display} {entries : List Entry} {id : UInt64}
    (h : Listed (chainOf all entries) id) : ∃ s ∈ all, s.id = id := by
  obtain ⟨s, hs, hours, rfl⟩ := h
  rcases List.mem_append.mp hs with hall | hentries
  · obtain ⟨d, hd, rfl⟩ := List.mem_map.mp hall
    exact ⟨d, hd, rfl⟩
  · obtain ⟨e, -, rfl⟩ := List.mem_map.mp hentries
    cases hours

/-- Displays that are listed are found.

**Proof sketch.** By induction on the ids: the display of the first is in the list, so it is found
there. -/
theorem isSome_targetsOf {all : List Display} (root : Display × ℕ) {ids : List UInt64}
    (h : ∀ id ∈ ids, ∃ s ∈ all, s.id = id) : (targetsOf all root ids).isSome = true := by
  induction ids with
  | nil => rfl
  | cons id ids ih =>
    have hrest := ih fun id hid => h id (List.mem_cons_of_mem _ hid)
    obtain ⟨s, hs, hid⟩ := h id List.mem_cons_self
    unfold targetsOf
    cases hfind : all.zipIdx.find? fun s => s.1.id == id with
    | none =>
      obtain ⟨i, hi, hget⟩ := List.mem_iff_getElem.mp hs
      have hin : (s, i) ∈ all.zipIdx :=
        List.mem_zipIdx_iff_getElem?.mpr (List.getElem?_eq_some_iff.mpr ⟨hi, hget⟩)
      have hnot := List.find?_eq_none.mp hfind (s, i) hin
      exact absurd hid (by simpa using hnot)
    | some node =>
      dsimp only
      rw [Option.isSome_map]
      exact hrest

/-- The walk of `Desired` ends, and every id it looks up is in the display list.

**Proof sketch.** Where the walk does not begin nothing is looked up. Otherwise it ends with enough
fuel (`exists_targets`), and what it returns is in the display list. -/
theorem exists_desired (controller : UInt32) (detached : Bool) (all : List Display)
    (entries : List Entry) :
    ∃ out, ∀ fuel, all.length + entries.length ≤ fuel →
      desired fuel controller detached all entries = some out := by
  unfold desired
  split
  · exact ⟨[], fun _ _ => rfl⟩
  · split
    · exact ⟨[], fun _ _ => rfl⟩
    · rename_i root _
      split
      · exact ⟨[], fun _ _ => rfl⟩
      · obtain ⟨ids, hids, -, hmem⟩ := exists_targets (chainOf all entries) root.1.id
        have hfound : (targetsOf all root ids).isSome = true :=
          isSome_targetsOf root fun id hid => mem_of_listed ((hmem id).mp hid).listed
        obtain ⟨out, hout⟩ := Option.isSome_iff_exists.mp hfound
        refine ⟨out, fun fuel hfuel => ?_⟩
        have hlength : (chainOf all entries).length ≤ fuel := by
          unfold chainOf
          rwa [List.length_append, List.length_map, List.length_map]
        rw [hids fuel hlength, Option.bind_some]
        exact hout

/-- **Never a sibling**: for every list of sources and every root the walk ends, and returns each
target once and nothing else; and every id that `Desired` looks up is in the display list.

**Proof sketch.** The walk that ends is `exists_targets`, whose result has each target once and
nothing else; with a root that is not listed no override begins there. The ids `Desired` looks up
come out of the same walk (`exists_desired`), so each is that of a display. -/
theorem never_sibling :
    (∀ sources root, ∃ out, (∀ fuel, sources.length ≤ fuel → targets fuel sources root = some out) ∧
      out.Nodup ∧ (∀ id, id ∈ out ↔ IsTarget sources root id) ∧
      (¬ Listed sources root → out = [])) ∧
    ∀ controller detached all entries fuel, all.length + entries.length ≤ fuel →
      (desired fuel controller detached all entries).isSome = true := by
  refine ⟨fun sources root => ?_, fun controller detached all entries fuel hfuel => ?_⟩
  · obtain ⟨out, hout, hnodup, hmem⟩ := exists_targets sources root
    refine ⟨out, hout, hnodup, hmem,
      fun hroot => List.eq_nil_iff_forall_not_mem.mpr fun id hid => ?_⟩
    exact hroot ((hmem id).mp hid).begins
  · obtain ⟨out, hout⟩ := exists_desired controller detached all entries
    rw [hout fuel hfuel]
    rfl

/-- A colouriser that chained onto our override of display 10: ours stays, and its outputs are
overridden too. -/
example : targets 4 [⟨100, 10, true⟩, ⟨10, 0, false⟩, ⟨20, 100, false⟩, ⟨21, 100, false⟩] 10 =
    some [10, 20, 21] := by decide

end Overlay
