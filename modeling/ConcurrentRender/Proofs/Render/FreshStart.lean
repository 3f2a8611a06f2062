import ConcurrentRender.Proofs.Render.Access
import ConcurrentRender.Proofs.Render.Transitions
import ConcurrentRender.Proofs.Render.UnderWay

/-!
# Where a fresh render starts

A render may be given up in the middle of a fiber: providers are entered, contexts are being read,
passes are counted, and updates join the render. The start of the next render leaves all providers,
lets no contexts be read and counts passes from zero. That updates join the render it leaves as it
was. So an update that is made before the first fiber of the new render is begun gets a lane of that
render, if the fiber that was begun last has not been completed.

* `leftOpen as`: in the run, a fiber was begun that has not been completed, and nothing has been
  committed since.
* `Renderer.Clean r`: until a fiber is begun, updates outside of transitions get the lane of their
  priority.

Results:
1. `rendering_through`, `reader_through`: what a run says about the fiber that is being rendered.
2. `Renderer.Joins.through`: while no fiber is begun, updates either do not join a render, or join
   one that has lanes.
3. `clean_start_iff`: hence what is as it should be after the start of a render, and that updates
   are if and only if no fiber was left open.
-/

namespace ConcurrentRender

namespace Access

/-- The access says whether updates join the render from now on. -/
def opens? : Access → Option Bool
  | call (.begin _) => some true
  | call .complete => some false
  | call (.commit ..) => some false
  | _ => none

def begins : Access → Bool
  | call (.begin _) => true
  | _ => false

def startsOrEnds : Access → Bool
  | call op => op.startsOrEnds
  | _ => false

end Access

/-- A fiber was begun, and neither was it completed nor was anything committed since. -/
def leftOpen (as : List Access) : Bool := as.foldl (fun still a => a.opens?.getD still) false

namespace Renderer

variable {r r' : Renderer} {fiber : FiberId} {a : Access} {as : List Access}

/-- Whatever is done until a fiber is begun, an update of a concurrent fiber that is made outside of
transitions gets the lane of its priority. -/
structure Clean (r : Renderer) : Prop where
  resting : r.execution.rendering = false
  lane : ∀ later : List Access, (∀ a ∈ later, a.begins = false) → ∀ fiber,
    let r' := r.through later
    (r'.tree.fiber fiber).concurrent → r'.transitionDepth = 0 →
      (requestLane fiber r').result = .ok (r'.updatePriority.getD r'.eventPriority).lane

/-! ## The fiber that is being rendered -/

theorem rendering_access (r : Renderer) (a : Access) :
    (r.access a).execution.rendering = a.opens?.getD r.execution.rendering := by
  have same {c : Circumstances} (eq : (r.access a).circumstances = c) :
      (r.access a).execution.rendering = c.execution.rendering :=
    congrArg (·.execution.rendering) eq
  cases a with
  | tree | actions => rfl
  | aside c => exact same (circumstances_aside r c)
  | call op =>
    refine (same (circumstances_next r op)).trans ?_
    cases op with
    | enter scope => cases scope <;> rfl
    | leave saved => cases saved <;> rfl
    | prepare root =>
      dsimp only
      split <;> rfl
    | _ => rfl

theorem rendering_through (r : Renderer) (as : List Access) :
    (r.through as).execution.rendering =
      as.foldl (fun still a => a.opens?.getD still) r.execution.rendering := by
  induction as generalizing r with
  | nil => rfl
  | cons a as ih =>
    rw [through_cons, ih, rendering_access]
    rfl

/-- Contexts are read on behalf of a fiber only after it was begun. -/
theorem reader_access (resting : r.contexts.path.rendering = none) (waits : a.begins = false) :
    (r.access a).contexts.path.rendering = none := by
  have same {c : Circumstances} (eq : (r.access a).circumstances = c) (none : c.reader = none) :
      (r.access a).contexts.path.rendering = .none :=
    (congrArg (·.reader) eq).trans none
  cases a with
  | tree | actions => exact resting
  | aside c => exact same (circumstances_aside r c) resting
  | call op =>
    refine same (circumstances_next r op) ?_
    cases op with
    | begin => cases waits
    | enter scope => cases scope <;> exact resting
    | leave saved => cases saved <;> exact resting
    | prepare root =>
      dsimp only
      split
      · exact resting
      · rfl
    | complete | commit => rfl
    | _ => exact resting

theorem reader_through (resting : r.contexts.path.rendering = none)
    (waits : ∀ a ∈ as, a.begins = false) : (r.through as).contexts.path.rendering = none := by
  induction as generalizing r with
  | nil => exact resting
  | cons a as ih =>
    exact ih (reader_access resting (waits a (.head _))) fun a mem => waits a (.tail _ mem)

/-! ## The lanes of updates -/

theorem sameRender_access (r : Renderer) (between : a.startsOrEnds = false) :
    SameRender r (r.access a) := by
  cases a with
  | call op => exact sameRender_next between r
  | aside c =>
    cases c with
    | pooledCache => exact SameFrame.sameRender (keeps_pooledCache r)
    | _ => exact ⟨rfl, rfl⟩
  | tree | actions => exact ⟨rfl, rfl⟩

theorem access_prepare (root : RootId) :
    r.access (.call (.prepare root)) = (prepare root r).state := rfl

/-- If updates join a render, it has lanes. -/
def Joins (r : Renderer) : Prop := r.execution.rendering → r.renderLanes ≠ ∅

theorem withPartners_ne_empty {g : LaneLedger} {lanes : LaneSet} (some : ¬ lanes.isEmpty) :
    g.withPartners lanes ≠ ∅ := by
  intro none
  refine some (LaneSet.isEmpty_iff.mpr fun l mem => ?_)
  have mem : l ∈ g.withPartners lanes := LaneLedger.mem_withPartners.mpr (.inl mem)
  rw [none] at mem
  exact LaneSet.not_mem_empty l mem

theorem renderLanes_prepare {root : RootId} (busy : ¬ (r.nextLanes root).isEmpty) :
    (prepare root r).state.renderLanes =
      (r.tree.root root).lanes.withPartners (r.nextLanes root) := by
  rw [(prepare_of_busy busy).1]
  rfl

namespace Joins

theorem same (joins : r.Joins) (same : SameRender r r') (rendering : r.execution.rendering) :
    r'.renderLanes ≠ ∅ := same.lanes ▸ joins rendering

theorem access (joins : r.Joins) (waits : a.begins = false) : (r.access a).Joins := by
  intro rendering
  rw [rendering_access] at rendering
  cases a with
  | call op =>
    cases op with
    | begin => cases waits
    | complete | commit => cases rendering
    | prepare root =>
      rw [access_prepare]
      by_cases idle : (r.nextLanes root).isEmpty
      · rw [(prepare_of_idle idle).1]
        exact joins rendering
      · rw [renderLanes_prepare idle]
        exact withPartners_ne_empty idle
    | _ => exact joins.same (sameRender_access r rfl) rendering
  | aside | tree | actions => exact joins.same (sameRender_access r rfl) rendering

theorem through (joins : r.Joins) (waits : ∀ a ∈ as, a.begins = false) : (r.through as).Joins := by
  induction as generalizing r with
  | nil => exact joins
  | cons a as ih =>
    exact ih (joins.access (waits a (.head _))) fun a mem => waits a (.tail _ mem)

end Joins

/-- Outside of transitions, updates of concurrent fibers join the render if there is one to join,
and get the lane of their priority if not. -/
theorem run_requestLane (joins : r.Joins) (concurrent : (r.tree.fiber fiber).concurrent)
    (outside : r.transitionDepth = 0) :
    (requestLane fiber r).result =
      .ok (if r.execution.rendering then r.renderLanes.first
        else (r.updatePriority.getD r.eventPriority).lane) := by
  show Except.ok (r.supply.pick (r.request fiber)).1 = _
  congr 1
  simp only [LaneSupply.pick, rendered_request, rendered]
  have direct : (r.request fiber).inTransition = false := by simp [request, outside]
  have concurrent : (r.request fiber).concurrent = true := concurrent
  have first : (r.request fiber).retry = false := rfl
  cases rendering : r.execution.rendering with
  | true => simp [concurrent, first, LaneSet.isEmpty_eq_false (joins rendering)]
  | false =>
    have none : (∅ : LaneSet).isEmpty := rfl
    simp only [concurrent, first, direct, none, Bool.not_true, Bool.false_eq_true, if_false]
    rfl

theorem requestLane_through (joins : r.Joins) (waits : ∀ a ∈ as, a.begins = false)
    (fiber : FiberId) (concurrent : ((r.through as).tree.fiber fiber).concurrent)
    (outside : (r.through as).transitionDepth = 0) :
    (requestLane fiber (r.through as)).result =
      .ok (if as.foldl (fun still a => a.opens?.getD still) r.execution.rendering
        then (r.through as).renderLanes.first
        else ((r.through as).updatePriority.getD (r.through as).eventPriority).lane) := by
  rw [run_requestLane (joins.through waits) concurrent outside, rendering_through]

/-- What the start of a render that has something to do leaves as it should be. -/
theorem fresh_prepare {root : RootId} {lanes : LaneSet}
    (answer : (prepare root r).result = .ok lanes) (work : lanes ≠ ∅)
    (ended : (prepare root r).state = r') :
    r'.contexts.depth = 0 ∧ r'.passes.count = 0 ∧ r'.contexts.path.rendering = none ∧
      r'.renderLanes = lanes := by
  have busy : ¬ (r.nextLanes root).isEmpty := by
    intro idle
    rw [(prepare_of_idle idle).2] at answer
    cases answer
    exact work rfl
  have same := renderLanes_prepare busy
  rw [← result_prepare answer, ended] at same
  refine ⟨?_, ?_, ?_, same⟩ <;> (rw [← ended, (prepare_of_busy busy).1]; rfl)

theorem error_of_readContext (stopped : r.contexts.path.rendering = none) (context : ContextId) :
    (readContext context r).result = .error .contextReadOutsideRender := by
  show (ContextView.read context (r.contexts, r.tree)).result = _
  unfold ContextView.read
  dsimp only
  rw [stopped]

end Renderer

theorem leftOpen_append (before later : List Access) :
    leftOpen (before ++ later) =
      later.foldl (fun still a => a.opens?.getD still) (leftOpen before) := List.foldl_append

/-- A fiber that is not open stays so until one is begun. -/
theorem leftOpen_append_of_closed {before later : List Access} (closed : leftOpen before = false)
    (waits : ∀ a ∈ later, a.begins = false) : leftOpen (before ++ later) = false := by
  rw [leftOpen_append, closed]
  clear closed
  induction later with
  | nil => rfl
  | cons a later ih =>
    have stays : a.opens?.getD false = false := by
      have waits := waits a (.head _)
      cases a with
      | call op => cases op <;> first | rfl | cases waits
      | aside | tree | actions => rfl
    rw [List.foldl_cons, stays]
    exact ih fun a mem => waits a (.tail _ mem)

open Renderer in
/-- Whatever was done before, and wherever the last render was given up: a render that is started
and has something to do begins with no provider and no pass, and until a fiber is begun, no context
can be read. Meanwhile, updates outside of transitions get the lane of their priority, but only if
no fiber was left open. Otherwise they join the new render, until a fiber is completed. -/
theorem clean_start_iff {settings : Settings} {registry : ContextRegistry} {r₀ : Renderer}
    (begins : start settings registry = .ok r₀) {before : List Access} {root : RootId}
    {lanes : LaneSet} (answer : (prepare root (r₀.through before)).result = .ok lanes)
    (work : lanes ≠ ∅) :
    let r := (prepare root (r₀.through before)).state
    (r.contexts.depth = 0 ∧ r.passes.count = 0 ∧ r.renderLanes = lanes) ∧
    (∀ later : List Access, (∀ a ∈ later, a.begins = false) →
      let r' := r.through later
      (∀ context, (readContext context r').result = .error .contextReadOutsideRender) ∧
      ∀ fiber, (r'.tree.fiber fiber).concurrent → r'.transitionDepth = 0 →
        (requestLane fiber r').result =
          .ok (if leftOpen (before ++ later) then r'.renderLanes.first
            else (r'.updatePriority.getD r'.eventPriority).lane)) ∧
    (r.Clean ↔ leftOpen before = false) := by
  intro r
  have ended : (prepare root (r₀.through before)).state = r := rfl
  clear_value r
  obtain ⟨depth, passes, reader, same⟩ := fresh_prepare answer work ended
  have resting : r₀.execution.rendering = false := by rw [eq_of_start begins]
  -- The start itself does not change whether updates join the render.
  have rendering : r.execution.rendering = leftOpen before := by
    have prepared := rendering_access (r₀.through before) (.call (.prepare root))
    rwa [access_prepare, ended, rendering_through, resting] at prepared
  have joins : r.Joins := fun _ => same ▸ work
  have updates {later : List Access} (waits : ∀ a ∈ later, a.begins = false) (fiber : FiberId) :=
    requestLane_through joins waits fiber
  simp only [rendering, ← leftOpen_append] at updates
  refine ⟨⟨depth, passes, same⟩, fun later waits => ⟨?_, updates waits⟩, fun clean => ?_,
    fun closed => ?_⟩
  · exact error_of_readContext (reader_through reader waits)
  · exact rendering.symm.trans clean.resting
  · refine ⟨rendering.trans closed, fun later waits fiber concurrent outside => ?_⟩
    rw [updates waits fiber concurrent outside, leftOpen_append_of_closed closed waits]
    rfl

/-- A transition makes the fiber pending, its render is given up in the middle of the fiber, and
the render is started anew. An update that is made then, outside of transitions, gets the lane of
the new render and not the one of its priority. -/
theorem not_clean_start_of_abandoned :
    let work : List Access := [.call (.edit (.createRoot true)),
      .call (.edit (.createChild ⟨0⟩ .functionComponent)), .call (.enter .transition),
      .call (.forceUpdate ⟨1⟩), .call (.leave .transition), .call (.prepare ⟨0⟩),
      .call (.begin ⟨1⟩)]
    let again := Renderer.prepare ⟨0⟩ ((default : Renderer).through work)
    again.result = .ok (LaneSet.single 3) ∧ ¬ again.state.Clean ∧
      (Renderer.requestLane ⟨1⟩ again.state).result = .ok (LaneSet.single 3) ∧
      again.state.eventPriority.lane = LaneSet.single 2 := by
  intro work again
  have begins : Renderer.start {} .start = .ok default := by rfl
  have answer : again.result = .ok (LaneSet.single 3) := by decide +kernel
  have open_ : leftOpen work = true := by decide
  have fresh := clean_start_iff begins answer (by decide)
  refine ⟨answer, fun clean => ?_, ?_, by decide +kernel⟩
  · exact absurd (fresh.2.2.mp clean) (by rw [open_]; decide)
  · have update := (fresh.2.1 [] nofun).2 ⟨1⟩ (by decide +kernel) (by decide +kernel)
    rw [List.append_nil, open_] at update
    exact update.trans (by decide +kernel)

end ConcurrentRender
