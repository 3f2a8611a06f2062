import ConcurrentRender.Proofs.Context.Shortcut
import ConcurrentRender.Proofs.Context.WayUp
import ConcurrentRender.Render.Pass

/-!
# Readers hand changes on

A fiber that is not rendered spreads the changes above it, and the spread stops at the first
readers. Such a reader is rendered then, on its twin, and if one of its children is not
rendered, that child spreads the changes further. It must not take the shortcut to the fiber
from where the changes were spread first. What holds it back is the mark that its parent got
by reading a context.

* `Renderer.StopsAt r b c`: the spread from `b` stops at the reader `c`.
* `Renderer.renderTwin r c value contexts`: the twin of `c` is rendered and reads `contexts`.
* `Renderer.Rerenders r b c F contexts w r₁`: one after the other, from `r` to `r₁`.
* `Renderer.GoesOn r r' u`: nothing has happened to the way up from `u`.
* `Renderer.Follows r u f G`: the child `f` of `u` is not rendered.

Results:
1. `goesOn_bailOut`: other children may be skipped before.
2. `told_of_rerender`: if the twin reads anything, the changes reach the next readers below
   the child.
3. `not_handsOn`: the conditions on the child and on the providers above cannot be left out,
   and readers of other contexts that changed stop the changes, too.
-/

namespace ConcurrentRender

namespace Renderer

variable {r r' r₁ r₂ : Renderer} {b c f g u w x : FiberId} {k : ContextId} {F G : Forest}
  {value : Option Value} {contexts : List ContextId}

/-- The spread from `b` stops at the reader `c`. -/
def StopsAt (r : Renderer) (b c : FiberId) : Prop :=
  ∃ contexts, r.tree.changedAbove b = .ok contexts ∧ r.tree.Reads contexts c ∧
    r.tree.Looks { start := b, contexts, lanes := r.renderLanes, forced := false } c

/-- Renders `c` on its twin, where it reads the contexts in this order. Answers the twin. -/
def renderTwin (r : Renderer) (c : FiberId) (value : Option Value) (contexts : List ContextId) :
    FiberId × Renderer :=
  let (w, t) := r.tree.startTwin c value
  let begun := (begin w (r.setTree fun _ => t)).state
  (w, (contexts.foldl (fun r k => (readContext k r).state) begun).complete)

/-! ## Rendering a fiber -/

/-- `r'` is `r` while it renders `w`. -/
structure Rendering (r r' : Renderer) (w : FiberId) : Prop where
  lanes : r'.renderLanes = r.renderLanes
  size : r'.tree.fibers.size = r.tree.fibers.size
  parent : (r'.tree.fiber w).parent = (r.tree.fiber w).parent
  others : ∀ h, h ≠ w → r'.tree.fiber h = r.tree.fiber h
  rendering : r'.contexts.path.rendering = some w
  needs : r'.contexts.path.hasRead → r.tree.fibers.has w →
    (r'.tree.fiber w).flags.needsPropagation

theorem rendering_begin (r : Renderer) (w : FiberId) :
    Rendering r (begin w r).state w := by
  unfold begin ContextView.prepare
  simp only [StepM.run_take]
  cases deps : (r.tree.fiber w).dependencies with
  | none => exact ⟨rfl, rfl, rfl, fun _ _ => rfl, rfl, fun read => nomatch read⟩
  | some d =>
    let t := r.tree.setFiber w fun x => { x with dependencies := some {} }
    have fiber : ∀ h, t.fiber h = if w = h ∧ r.tree.fibers.has h then
        { r.tree.fiber h with dependencies := some {} } else r.tree.fiber h :=
      fun h => Tree.fiber_setFiber r.tree w h _
    refine ⟨rfl, Tree.size_setFiber r.tree w _, ?_, fun h ne => ?_, rfl, fun read => nomatch read⟩
    · show (t.fiber w).parent = _
      rw [fiber]
      split <;> rfl
    · exact (fiber h).trans (if_neg fun e => ne e.1.symm)

theorem readContext_of_rendering (rendering : r.contexts.path.rendering = some w)
    (k : ContextId) : ∃ seen, ∀ r', r' = (readContext k r).state →
      r'.tree = r.tree.setFiber w
        (ContextView.noteRead (!r.contexts.path.hasRead) { context := k, seen }) ∧
      r'.contexts.path.rendering = some w ∧ r'.contexts.path.hasRead = true ∧
      r'.renderLanes = r.renderLanes := by
  refine ⟨(r.contexts.registry.valueOrUnit k r.contexts.path.slot).1, ?_⟩
  rintro _ rfl
  unfold readContext StepM.focus ContextView.read
  simp only [rendering]
  exact ⟨rfl, trivial, trivial, rfl⟩

theorem parent_noteRead (first : Bool) (read : ContextRead) (x : Fiber) :
    (ContextView.noteRead first read x).parent = x.parent := by
  cases first <;> rfl

/-- The mark is set by the first read. -/
theorem Rendering.read (rendering : Rendering r r' w) (k : ContextId) :
    Rendering r (readContext k r').state w ∧
      (readContext k r').state.contexts.path.hasRead := by
  obtain ⟨seen, h⟩ := readContext_of_rendering rendering.rendering k
  obtain ⟨tree, still, hasRead, lanes⟩ := h _ rfl
  refine ⟨⟨lanes.trans rendering.lanes, ?_, ?_, fun h ne => ?_, still, fun _ there => ?_⟩, hasRead⟩
  · rw [tree, Tree.size_setFiber, rendering.size]
  · rw [tree, Tree.fiber_setFiber, ← rendering.parent]
    split
    · exact parent_noteRead ..
    · rfl
  · rw [tree, Tree.fiber_setFiber, if_neg fun e => ne e.1.symm, rendering.others h ne]
  · have there' : r'.tree.fibers.has w := by
      simpa only [Arena.has, rendering.size] using there
    rw [tree, Tree.fiber_setFiber, if_pos ⟨rfl, there'⟩]
    cases before : r'.contexts.path.hasRead with
    | false => rfl
    | true => exact rendering.needs before there

theorem Rendering.readAll (rendering : Rendering r r' w) (contexts : List ContextId) :
    let r'' := contexts.foldl (fun r k => (readContext k r).state) r'
    Rendering r r'' w ∧ (contexts ≠ [] → r''.contexts.path.hasRead) := by
  induction contexts generalizing r' with
  | nil => exact ⟨rendering, fun none => absurd rfl none⟩
  | cons k contexts ih =>
    obtain ⟨once, hasRead⟩ := rendering.read k
    obtain ⟨all, some⟩ := ih once
    refine ⟨all, fun _ => ?_⟩
    cases contexts with
    | nil => exact hasRead
    | cons k' contexts => exact some (List.cons_ne_nil _ _)

/-- Rendering the twin puts it below the parent of the fiber, and marks it if it reads. -/
theorem twinned_renderTwin (there : r.tree.fibers.has c)
    (back : ∀ w, (r.tree.fiber c).twin = some w → (r.tree.fiber w).twin = some c)
    (rendered : r.renderTwin c value contexts = (w, r₁)) :
    r.tree.Twinned r₁.tree c w ∧ r₁.renderLanes = r.renderLanes ∧
      ((r.tree.fiber c).twin = some w ∨ (r.tree.fiber c).twin = none ∧
        r.tree.fibers.has w = false) ∧
      (contexts ≠ [] → (r₁.tree.fiber w).flags.needsPropagation) := by
  obtain ⟨w', t, started, twinned, has, status⟩ := Tree.twinned_startTwin there back value
  obtain ⟨begun, some⟩ := (rendering_begin (r.setTree fun _ => t) w').readAll contexts
  unfold renderTwin at rendered
  rw [started] at rendered
  obtain ⟨rfl, rfl⟩ := Prod.mk.inj rendered
  refine ⟨⟨?_, fun h ne => ?_, fun h new old => ?_⟩, begun.lanes, status, fun reads => ?_⟩
  · exact begun.parent.trans twinned.placed
  · exact (congrArg Fiber.parent (begun.others h ne)).trans (twinned.parent h ne)
  · exact (begun.others h new).trans (twinned.fiber h new old)
  · exact begun.needs (some reads) has

/-! ## What is above the twin -/

/-- Since `r`, nothing has happened to the way up from `u` and to what changed there. -/
structure GoesOn (r r' : Renderer) (u : FiberId) : Prop where
  lanes : r'.renderLanes = r.renderLanes
  needs : (r'.tree.fiber u).flags.needsPropagation = (r.tree.fiber u).flags.needsPropagation
  parent : ∀ p, r.tree.OnWay u p → (r'.tree.fiber p).parent = (r.tree.fiber p).parent
  changed : ∀ p k, r.tree.OnWay u p → r.tree.ChangedAt p k → r'.tree.ChangedAt p k

theorem GoesOn.changedFrom (goesOn : GoesOn r r' u) (changed : r.tree.ChangedFrom u k) :
    r'.tree.ChangedFrom u k := by
  obtain ⟨p, way, changed⟩ := changed
  exact ⟨p, way.imp id (Tree.above_congr_of_onWay goesOn.parent).mpr,
    goesOn.changed p k way changed⟩

theorem GoesOn.trans (first : GoesOn r r' u) (second : GoesOn r' r₂ u) : GoesOn r r₂ u := by
  have still : ∀ p, r.tree.OnWay u p → r'.tree.OnWay u p := fun p way =>
    way.imp id (Tree.above_congr_of_onWay first.parent).mpr
  exact ⟨second.lanes.trans first.lanes, second.needs.trans first.needs,
    fun p way => (second.parent p (still p way)).trans (first.parent p way),
    fun p k way changed => second.changed p k (still p way) (first.changed p k way changed)⟩

theorem goesOn_of_same (lanes : r'.renderLanes = r.renderLanes)
    (needs : (r'.tree.fiber u).flags.needsPropagation = (r.tree.fiber u).flags.needsPropagation)
    (offer : ∀ h, (r'.tree.fiber h).offer = (r.tree.fiber h).offer)
    (parent : ∀ p, r.tree.OnWay u p → (r'.tree.fiber p).parent = (r.tree.fiber p).parent) :
    GoesOn r r' u :=
  ⟨lanes, needs, parent, fun _ _ _ => (Tree.changedAt_congr offer).mpr⟩

/-- A child may be put below another parent. -/
theorem goesOn_setParent (away : ¬ r.tree.OnWay u f) (p : Option FiberId) :
    GoesOn r (r.setTree fun t => t.setParent f p) u := by
  have same := Tree.SameStem.setParent r.tree f p
  refine goesOn_of_same rfl (congrArg Flags.needsPropagation (same.flags u))
    same.offer fun q way => ?_
  show ((r.tree.setFiber f _).fiber q).parent = _
  rw [Tree.fiber_setFiber, if_neg fun e : f = q ∧ _ => away (e.1 ▸ way)]

/-- What stays where a fiber is not rendered. -/
theorem kept_bailOut (stands : r.tree.Stands b F) :
    let t := (bailOut b r).state.tree
    t.fibers.size = r.tree.fibers.size ∧ (∀ h, (t.fiber h).offer = (r.tree.fiber h).offer) ∧
      (∀ h, (t.fiber h).flags.needsPropagation = (r.tree.fiber h).flags.needsPropagation) ∧
      ∀ p, r.tree.OnWay b p → (t.fiber p).parent = (r.tree.fiber p).parent := by
  intro t
  cases above : r.tree.changedAbove b with
  | error e =>
    have same : t = r.tree := (Tree.spreadFromAbove_of_error above).2
    rw [same]
    exact ⟨rfl, fun _ => rfl, fun _ => rfl, fun _ _ => rfl⟩
  | ok changed =>
    let s : Tree.Search :=
      { start := b, contexts := changed, lanes := r.renderLanes, forced := false }
    let t₀ := if changed.isEmpty then r.tree else r.tree.spread s
    have tree : t = t₀.noteSpread b := (Tree.spreadFromAbove_of_ok above).2
    have grows := Tree.Grows.noteSpread t₀ b
    have same : Tree.SameStem r.tree t₀ ∧
        ∀ p, r.tree.OnWay b p → (t₀.fiber p).parent = (r.tree.fiber p).parent := by
      simp only [t₀]
      split
      · exact ⟨.refl r.tree, fun _ _ => rfl⟩
      · exact ⟨(Tree.marked_spread stands.there stands.spans stands.once).1.toSameStem,
          fun p => Tree.Stands.parent_spread (s := s) stands⟩
    rw [tree]
    refine ⟨grows.size.trans same.1.size, fun h => (grows.offer h).trans (same.1.offer h),
      fun h => ?_, fun p way => (grows.parent p).trans (same.2 p way)⟩
    rw [Tree.needs_noteSpread, same.1.flags]

/-- Another child may be skipped before. -/
theorem goesOn_bailOut (stands : r.tree.Stands g G) (way : r.tree.OnWay g u) :
    GoesOn r (bailOut g r).state u := by
  obtain ⟨-, offer, needs, parent⟩ := kept_bailOut stands
  exact goesOn_of_same rfl (needs u) offer fun p upper => parent p (way.trans upper)

/-- The tree after the spread that stopped at `c`. -/
theorem tree_bailOut (stops : r.StopsAt b c) : ∃ contexts,
    let s : Tree.Search := { start := b, contexts, lanes := r.renderLanes, forced := false }
    (bailOut b r).state.tree = (r.tree.spread s).noteSpread b ∧ r.tree.Looks s c := by
  obtain ⟨contexts, collected, reads, looks⟩ := stops
  refine ⟨contexts, ?_, looks⟩
  have some : ¬ contexts.isEmpty := fun none => by
    obtain ⟨k, mem, -⟩ := Tree.reads_iff.mp reads
    rw [List.isEmpty_iff.mp none] at mem
    cases mem
  refine (Tree.spreadFromAbove_of_ok collected).2.trans ?_
  rw [if_neg some]

/-- Where a spread stops can be computed. -/
theorem stopsAt_of_sight {changed : List ContextId}
    (spans : r.tree.Spans (r.tree.fiber b).child F) (once : (b :: F.fibers).Nodup)
    (collected : r.tree.changedAbove b = .ok changed) (reads : r.tree.Reads changed c)
    (sight : c ∈ (r.tree.sights
      { start := b, contexts := changed, lanes := r.renderLanes, forced := false }
      F).map Sight.fiber) : r.StopsAt b c :=
  ⟨changed, collected, reads, (Tree.looks_iff spans once).mpr sight⟩

/-- What is above the reader after the spread. -/
theorem above_bailOut {y : FiberId} (stands : r.tree.Stands b F) (stops : r.StopsAt b c) :
    (bailOut b r).state.tree.Above c y ↔
      r.tree.Below b y ∧ r.tree.Below y c ∨ r.tree.OnWay b y := by
  obtain ⟨contexts, tree, looks⟩ := tree_bailOut stops
  rw [tree, Tree.Above.congr (Tree.Grows.noteSpread _ b).parent, Tree.above_spread stands looks]

/-- The spread from `b` stops at the reader `c`. Then `c` is rendered on its twin `w`, where it
reads these contexts. The fibers below `b` form the forest `F`. -/
structure Rerenders (r : Renderer) (b c : FiberId) (F : Forest) (contexts : List ContextId)
    (w : FiberId) (r₁ : Renderer) : Prop where
  stands : r.tree.Stands b F
  valid : r.tree.ParentsThere
  twins : r.tree.TwinsMutual
  apart : ∀ w, (r.tree.fiber c).twin = some w → w ∉ F.fibers ∧ ¬ r.tree.OnWay b w
  stops : r.StopsAt b c
  rendered : ∃ value, (bailOut b r).state.renderTwin c value contexts = (w, r₁)

namespace Rerenders

variable (rerenders : Rerenders r b c F contexts w r₁)
include rerenders

theorem below : r.tree.Below b c := by
  obtain ⟨_, -, looks⟩ := tree_bailOut rerenders.stops
  exact looks.1

theorem mem : c ∈ F.fibers := (Tree.below_iff_mem rerenders.stands.spans).mp rerenders.below

/-- What rendering the twin does to the tree after the spread. -/
theorem twinned : (bailOut b r).state.tree.Twinned r₁.tree c w ∧ r₁.renderLanes = r.renderLanes ∧
    ((r.tree.fiber c).twin = some w ∨ (r.tree.fiber c).twin = none ∧
      r.tree.fibers.has w = false) ∧
    (contexts ≠ [] → (r₁.tree.fiber w).flags.needsPropagation) := by
  obtain ⟨size, offer, -, -⟩ := kept_bailOut rerenders.stands
  have twin : ∀ h, ((bailOut b r).state.tree.fiber h).twin = (r.tree.fiber h).twin :=
    fun h => congrArg Offer.twin (offer h)
  have has : ∀ h, (bailOut b r).state.tree.fibers.has h = r.tree.fibers.has h := fun h => by
    simp only [Arena.has, size]
  have lanes : (bailOut b r).state.renderLanes = r.renderLanes := rfl
  obtain ⟨value, rendered⟩ := rerenders.rendered
  simpa only [twin, has, lanes] using twinned_renderTwin
    ((has c).trans (rerenders.stands.spans.there rerenders.mem))
    (fun w => by simpa only [twin] using rerenders.twins c w) rendered

/-- What is above the reader is there, and it is neither the reader nor its twin. -/
theorem clear {y : FiberId} (way : r.tree.Below b y ∧ r.tree.Below y c ∨ r.tree.OnWay b y) :
    y ≠ w ∧ y ≠ c := by
  obtain ⟨-, -, status, -⟩ := rerenders.twinned
  have stands := rerenders.stands
  constructor
  · rintro rfl
    rcases status with twin | ⟨-, absent⟩
    · obtain ⟨outside, off⟩ := rerenders.apart y twin
      exact way.elim (fun inner => outside ((Tree.below_iff_mem stands.spans).mp inner.1)) off
    · have there : r.tree.fibers.has y := by
        rcases way with ⟨upper, -⟩ | rfl | upper
        · exact stands.spans.there ((Tree.below_iff_mem stands.spans).mp upper)
        · exact stands.there
        · exact upper.there rerenders.valid
      rw [absent] at there
      cases there
  · rintro rfl
    rcases way with ⟨upper, circle⟩ | way
    · exact Tree.not_below_self stands.spans (List.nodup_cons.mp stands.once).2 upper circle
    · exact stands.not_mem way rerenders.mem

/-- Only the reader and its twin are twins of each other. -/
theorem twin_ne {y : FiberId} (new : y ≠ w) (old : y ≠ c) :
    (r.tree.fiber y).twin ≠ some w ∧ (r.tree.fiber y).twin ≠ some c := by
  obtain ⟨-, -, status, -⟩ := rerenders.twinned
  constructor <;> intro twin
  · have back := rerenders.twins y w twin
    rcases status with twin | ⟨-, absent⟩
    · exact old (Option.some.inj (back.symm.trans (rerenders.twins c w twin)))
    · rw [Tree.has_of_twin back] at absent
      cases absent
  · have back := rerenders.twins y c twin
    rcases status with twin | ⟨none, -⟩
    · exact new (Option.some.inj (back.symm.trans twin))
    · rw [none] at back
      cases back

/-- A change above the start of the spread is one above the reader and above its twin, after
the twin was rendered. -/
theorem changedFrom (either : u = w ∨ u = c) (changed : r.tree.ChangedFrom b k) :
    r₁.tree.ChangedFrom u k := by
  obtain ⟨-, offer, -, -⟩ := kept_bailOut rerenders.stands
  have above := fun y => above_bailOut (y := y) rerenders.stands rerenders.stops
  obtain ⟨p, way, changed⟩ := changed
  refine rerenders.twinned.1.changedFrom either ((above p).mpr (.inr way))
    ((Tree.changedAt_congr offer).mpr changed) fun y higher => ?_
  obtain ⟨new, old⟩ := rerenders.clear ((above y).mp higher)
  rw [show ((bailOut b r).state.tree.fiber y).twin = _ from congrArg Offer.twin (offer y)]
  exact ⟨new, old, rerenders.twin_ne new old⟩

end Rerenders

/-! ## A sample -/

/-- A provider of context 3, a fragment, and a provider of context 2, which has a new value.
Below it are fibers in a row, of which 4 is not rendered, and 5 and 8 read context 2. The
fiber 9 is another child of the fiber 5, and 10 and 11 are twins of the providers. -/
def sample (change : Tree → Tree) : Renderer :=
  let reader := fun x : Fiber =>
    { x with
      dependencies := some { contexts := [{ context := ⟨2⟩, seen := .unit 0 }] }
      flags := { needsPropagation := true } }
  let fibers : List (FiberId × Tag) :=
    [(⟨0⟩, .contextProvider ⟨3⟩), (⟨1⟩, .fragment), (⟨2⟩, .contextProvider ⟨2⟩), (⟨3⟩, .fragment),
      (⟨4⟩, .functionComponent), (⟨5⟩, .fragment), (⟨6⟩, .functionComponent),
      (⟨7⟩, .functionComponent), (⟨5⟩, .fragment)]
  let t := fibers.foldl (fun t x => (t.createChild x.1 x.2).2) (({} : Tree).createRoot true).2
  let t := ((t.ensureTwin ⟨1⟩).2.ensureTwin ⟨3⟩).2
  let t := t.setFiber ⟨11⟩ fun x => { x with committedValue := some (.unit 0) }
  let t := t.setFiber ⟨3⟩ fun x => { x with pendingValue := some (.unit 1) }
  let t := (t.setFiber ⟨5⟩ reader).setFiber ⟨8⟩ reader
  { (default : Renderer) with renderLanes := LaneSet.defaultLane }.setTree fun _ => change t

/-- The fibers below the fiber 6 of the sample. -/
def lowerRow : Forest := .cons ⟨7⟩ (.cons ⟨8⟩ .nil .nil) .nil

/-- The fibers below the fiber 4. -/
def row : Forest := .cons ⟨5⟩ (.cons ⟨6⟩ lowerRow (.cons ⟨9⟩ .nil .nil)) .nil

/-- The spread from the fiber 4 stops at the reader 5, which is rendered on a new twin. -/
def sampleRendered : Renderer :=
  ((bailOut ⟨4⟩ (sample id)).state.renderTwin ⟨5⟩ none [⟨2⟩]).2

/-- The children are then put below the twin. -/
def samplePlaced : Renderer :=
  (sampleRendered.setTree fun t => t.setParent ⟨6⟩ (some ⟨12⟩)).setTree fun t =>
    t.setParent ⟨9⟩ (some ⟨12⟩)

/-- The fiber 9 is not rendered. -/
def sampleSkipped : Renderer := (bailOut ⟨9⟩ samplePlaced).state

theorem rerenders_sample : Rerenders (sample id) ⟨4⟩ ⟨5⟩ row [⟨2⟩] ⟨12⟩ sampleRendered := by
  have valid : (sample id).tree.ParentsThere := by decide +kernel
  have stands : (sample id).tree.Stands ⟨4⟩ row :=
    Tree.stands_of_ancestors valid (by decide +kernel) (by decide +kernel) (by decide +kernel)
      (by decide +kernel)
  have none : ((sample id).tree.fiber ⟨5⟩).twin = none := by decide +kernel
  have collected : (sample id).tree.changedAbove ⟨4⟩ = .ok [⟨2⟩] := by decide +kernel
  have twin : ((bailOut ⟨4⟩ (sample id)).state.renderTwin ⟨5⟩ .none [⟨2⟩]).1 = ⟨12⟩ := by
    decide +kernel
  exact
    { stands, valid
      twins := by decide +kernel
      apart := by simp [none]
      stops := stopsAt_of_sight stands.spans stands.once collected (by decide +kernel)
        (by decide +kernel)
      rendered := ⟨.none, by rw [← twin, sampleRendered]⟩ }

theorem goesOn_sample : GoesOn sampleRendered sampleSkipped ⟨12⟩ := by
  have away : ∀ r : Renderer, ∀ g, r.tree.ParentsThere →
      g ∉ (⟨12⟩ : FiberId) :: r.tree.ancestors ⟨12⟩ → ¬ r.tree.OnWay ⟨12⟩ g :=
    fun r g valid out way => out ((Tree.onWay_iff_mem valid).mp way)
  have first := goesOn_setParent
    (away sampleRendered ⟨6⟩ (by decide +kernel) (by decide +kernel)) (some ⟨12⟩)
  have second := goesOn_setParent
    (away (sampleRendered.setTree fun t => t.setParent ⟨6⟩ (some ⟨12⟩)) ⟨9⟩ (by decide +kernel)
      (by decide +kernel)) (some ⟨12⟩)
  have alone : samplePlaced.tree.Stands ⟨9⟩ .nil :=
    ⟨by decide +kernel, by decide +kernel, by decide, by simp [Forest.fibers]⟩
  exact (first.trans second).trans (goesOn_bailOut alone (.inr (.parent (by decide +kernel))))

/-! ## Handing on -/

/-- The child `f` of `u` is not rendered. The walk up from it is not to end there at once, and
it is to find twins of the providers. The fibers below `f` form the forest `G`. -/
structure Follows (r : Renderer) (u f : FiberId) (G : Forest) : Prop where
  valid : r.tree.ParentsThere
  up : (r.tree.fiber f).parent = some u
  spans : r.tree.Spans (r.tree.fiber f).child G
  once : (f :: G.fibers).Nodup
  free : (r.tree.fiber f).flags.didPropagate → (r.tree.fiber f).flags.needsPropagation
  ready : ∀ p, r.tree.OnWay f p → (r.tree.fiber p).tag.provides → (r.tree.fiber p).twin ≠ none

/-- A reader hands the changes on, if it reads anything when it is rendered. If a child of it
is not rendered, the changes reach the readers below the child, up to the next reader of a
changed context and the next fragment on each way down. The child may also be still below the
fiber whose twin was rendered, if that is marked. -/
theorem told_of_rerender (rerenders : Rerenders r b c F contexts w r₁)
    (changed : r.tree.ChangedFrom b k)
    (either : u = w ∧ contexts ≠ [] ∨ u = c ∧ (r₁.tree.fiber c).flags.needsPropagation)
    (goesOn : GoesOn r₁ r₂ u) (follows : Follows r₂ u f G) :
    (bailOut f r₂).result = .ok () ∧ ∀ x, r₂.tree.Below f x → r₂.tree.Reads [k] x →
      (∀ y, r₂.tree.Below f y → r₂.tree.Below y x →
        (r₂.tree.fiber y).tag ≠ .dehydratedFragment ∧
          ∀ k', r₂.tree.ChangedFrom f k' → ¬ r₂.tree.Reads [k'] y) →
      r.renderLanes ⊆ ((bailOut f r₂).state.tree.fiber x).lanes := by
  obtain ⟨-, lanes₁, -, marked⟩ := rerenders.twinned
  have lanes : r₂.renderLanes = r.renderLanes := goesOn.lanes.trans lanes₁
  have changedF : r₂.tree.ChangedFrom f k :=
    .of_onWay (.inr (.parent follows.up))
      (goesOn.changedFrom (rerenders.changedFrom (either.imp And.left And.left) changed))
  -- The walk up from the child goes past `u`, which is marked, to the end.
  have needs : (r₂.tree.fiber u).flags.needsPropagation := by
    rw [goesOn.needs]
    rcases either with ⟨rfl, reads⟩ | ⟨rfl, needs⟩
    · exact marked reads
    · exact needs
  obtain ⟨all, collected, inAll⟩ :=
    Tree.changedAbove_of_needs follows.valid follows.up needs follows.free follows.ready
  have mem : k ∈ all := (inAll k).mpr changedF
  have some : ¬ all.isEmpty := fun none => by
    rw [List.isEmpty_iff.mp none] at mem
    cases mem
  obtain ⟨ok, state⟩ : (bailOut f r₂).result = .ok () ∧ (bailOut f r₂).state.tree = _ :=
    Tree.spreadFromAbove_of_ok collected
  refine ⟨ok, fun x below readsX between l lane => ?_⟩
  obtain ⟨told, -⟩ := Tree.told_of_spread r₂.renderLanes (Tree.has_of_parent follows.up)
    follows.spans follows.once (fun k' => (inAll k').mp) below
    (Tree.reads_iff.mpr ⟨k, mem, readsX⟩) between
  rw [state, if_neg some]
  exact (Tree.Grows.noteSpread _ f).lanes x l (told l (lanes.symm ▸ lane))

/-- The change gets from the fiber 6 to the reader 8, after the fiber 9 was skipped. -/
theorem told_of_rerender_of_row :
    Rerenders (sample id) ⟨4⟩ ⟨5⟩ row [⟨2⟩] ⟨12⟩ sampleRendered ∧
      (sample id).tree.ChangedFrom ⟨4⟩ ⟨2⟩ ∧ GoesOn sampleRendered sampleSkipped ⟨12⟩ ∧
      Follows sampleSkipped ⟨12⟩ ⟨6⟩ lowerRow ∧ (bailOut ⟨6⟩ sampleSkipped).result = .ok () ∧
      .single 2 ⊆ ((bailOut ⟨6⟩ sampleSkipped).state.tree.fiber ⟨8⟩).lanes := by
  have collected : (sample id).tree.changedAbove ⟨4⟩ = .ok [⟨2⟩] := by decide +kernel
  have changed : (sample id).tree.ChangedFrom ⟨4⟩ ⟨2⟩ :=
    Tree.changedFrom_of_mem collected (.head _)
  have valid : sampleSkipped.tree.ParentsThere := by decide +kernel
  have ready : ∀ p ∈ (⟨6⟩ : FiberId) :: sampleSkipped.tree.ancestors ⟨6⟩,
      (sampleSkipped.tree.fiber p).tag.provides → (sampleSkipped.tree.fiber p).twin ≠ none := by
    decide +kernel
  have follows : Follows sampleSkipped ⟨12⟩ ⟨6⟩ lowerRow :=
    { valid
      up := by decide +kernel
      spans := by decide +kernel
      once := by decide +kernel
      free := by decide +kernel
      ready := fun p way => ready p ((Tree.onWay_iff_mem valid).mp way) }
  obtain ⟨ok, told⟩ := told_of_rerender rerenders_sample changed (.inl ⟨rfl, by decide⟩)
    goesOn_sample follows
  have quiet : ∀ y ∈ lowerRow.fibers, y ≠ ⟨8⟩ →
      (sampleSkipped.tree.fiber y).tag ≠ .dehydratedFragment ∧
        (sampleSkipped.tree.fiber y).dependencies = none := by decide +kernel
  have below : sampleSkipped.tree.Below ⟨6⟩ ⟨8⟩ :=
    (Tree.below_iff_mem follows.spans).mpr (by decide +kernel)
  refine ⟨rerenders_sample, changed, goesOn_sample, follows, ok,
    told ⟨8⟩ below (by decide +kernel) fun y upper lower => ?_⟩
  have onceRow := (List.nodup_cons.mp follows.once).2
  obtain ⟨unsealed, nothing⟩ := quiet y ((Tree.below_iff_mem follows.spans).mp upper) fun same =>
    Tree.not_below_self follows.spans onceRow upper (same ▸ lower)
  refine ⟨unsealed, fun k' _ reads => ?_⟩
  simp [Tree.Reads, Fiber.readsAny?, nothing] at reads

/-! ## What is needed for that -/

/-- Whatever `c` reads when it is rendered, the changes of `k` reach all readers of `k` below
the child `f` of its twin, up to the next reader of `k` and the next fragment. -/
def HandsOn (r : Renderer) (b c f : FiberId) (k : ContextId) (contexts : List ContextId) : Prop :=
  r.StopsAt b c → r.tree.ChangedFrom b k → r.tree.Reads [k] c →
    ∀ value w r₁, (bailOut b r).state.renderTwin c value contexts = (w, r₁) → r₁.tree.IsChild w f →
      ∀ x, r₁.tree.Below f x → r₁.tree.Reads [k] x →
        (∀ y, r₁.tree.Below f y → r₁.tree.Below y x →
          (r₁.tree.fiber y).tag ≠ .dehydratedFragment ∧ ¬ r₁.tree.Reads [k] y) →
        r.renderLanes ⊆ ((bailOut f r₁).state.tree.fiber x).lanes

/-- A reader that is missed, in terms that can be computed. -/
theorem not_handsOn_of_missed (F G : Forest) (x : FiberId) (l : Lane) (changed : List ContextId)
    (stops : r.tree.fibers.has b ∧ r.tree.Spans (r.tree.fiber b).child F ∧ (b :: F.fibers).Nodup ∧
      r.tree.changedAbove b = .ok changed ∧ k ∈ changed ∧ r.tree.Reads [k] c ∧
      c ∈ (r.tree.sights { start := b, contexts := changed, lanes := r.renderLanes,
                           forced := false } F).map Sight.fiber)
    (rendered : (bailOut b r).state.renderTwin c none contexts = (w, r₁))
    (misses : (r₁.tree.fiber w).child = some f ∧ r₁.tree.Spans (r₁.tree.fiber f).child G ∧
      G.fibers.Nodup ∧ x ∈ G.fibers ∧ r₁.tree.Reads [k] x ∧
      (∀ y ∈ G.fibers, y ≠ x →
        (r₁.tree.fiber y).tag ≠ .dehydratedFragment ∧ ¬ r₁.tree.Reads [k] y) ∧
      l ∈ r.renderLanes ∧ l ∉ ((bailOut f r₁).state.tree.fiber x).lanes) :
    ¬ r.HandsOn b c f k contexts := by
  obtain ⟨there, spans, once, collected, mem, reads, sight⟩ := stops
  obtain ⟨child, spansG, onceG, below, readsX, between, lane, missed⟩ := misses
  intro handsOn
  have stops : r.StopsAt b c := stopsAt_of_sight spans once collected
    (Tree.reads_iff.mpr ⟨k, mem, reads⟩) sight
  have isChild : r₁.tree.IsChild w f := by
    rw [Tree.IsChild, child]
    exact .here
  have told := handsOn stops (Tree.changedFrom_of_mem collected mem) reads
    none w r₁ rendered isChild x ((Tree.below_iff_mem spansG).mpr below) readsX fun y upper lower =>
      between y ((Tree.below_iff_mem spansG).mp upper) fun same =>
        Tree.not_below_self spansG onceG upper (same ▸ lower)
  exact missed (told l lane)

/-- There is no other reader of context 2 between the fiber 6 and the reader 8, and yet that is
missed where
* a reader of another context that changed is between,
* the fiber 6 has spread changes before,
* the fiber 6 is still below the fiber 5, which has no mark,
* the walk finds a provider without a twin, past the fiber 2 where it ended before,
* the twin, which the fiber 6 is below, reads nothing. -/
theorem not_handsOn :
    let otherReader := sample fun t =>
      ((t.setFiber ⟨10⟩ fun x => { x with committedValue := some (.unit 0) }).setFiber ⟨1⟩
        fun x => { x with pendingValue := some (.unit 1) }).setFiber ⟨7⟩ fun x =>
          { x with dependencies := some { contexts := [{ context := ⟨3⟩, seen := .unit 0 }] } }
    let spreadBefore := sample fun t =>
      t.setFiber ⟨6⟩ fun x => { x with flags := { didPropagate := true } }
    let unmarkedParent := sample fun t => t.setFiber ⟨5⟩ fun x => { x with flags := {} }
    let newProvider := sample fun t =>
      ((t.setFiber ⟨10⟩ fun x => { x with twin := none }).setFiber ⟨1⟩
        fun x => { x with twin := none }).setFiber ⟨2⟩ fun x =>
          { x with flags := { didPropagate := true } }
    let silent := sample fun t => (t.ensureTwin ⟨5⟩).2.setParent ⟨6⟩ (some ⟨12⟩)
    ¬ otherReader.HandsOn ⟨4⟩ ⟨5⟩ ⟨6⟩ ⟨2⟩ [⟨2⟩] ∧ ¬ spreadBefore.HandsOn ⟨4⟩ ⟨5⟩ ⟨6⟩ ⟨2⟩ [⟨2⟩] ∧
      ¬ unmarkedParent.HandsOn ⟨4⟩ ⟨5⟩ ⟨6⟩ ⟨2⟩ [⟨2⟩] ∧ ¬ newProvider.HandsOn ⟨4⟩ ⟨5⟩ ⟨6⟩ ⟨2⟩ [⟨2⟩] ∧
      ¬ silent.HandsOn ⟨4⟩ ⟨5⟩ ⟨6⟩ ⟨2⟩ [] := by
  refine ⟨not_handsOn_of_missed row lowerRow ⟨8⟩ 2 [⟨2⟩, ⟨3⟩] (by decide +kernel) rfl
    (by decide +kernel), ?_, ?_, ?_, ?_⟩
  all_goals
    exact not_handsOn_of_missed row lowerRow ⟨8⟩ 2 [⟨2⟩] (by decide +kernel) rfl
      (by decide +kernel)

end Renderer

end ConcurrentRender
