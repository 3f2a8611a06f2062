import ConcurrentRender.Proofs.Render.Aside
import ConcurrentRender.Proofs.Render.Overlooked

/-!
# What calls do to the circumstances

A renderer is also used in ways that are no operations: its owner writes to the tree, tasks settle
actions, and callbacks of the indicator run. `Access` is everything that can be done to it. The
scopes and the fiber under way, on which the lane of an update depends, are changed by few of these.

* `Renderer.access r a` is the renderer after an access, and `Renderer.through r as` after several.
* `Renderer.SameFrame r r'`: the two differ in nothing but the tree, what is staged, the lanes to
  give out, the actions and the caches.
* `Renderer.circumstances`: the scopes that are open, and what is being rendered.

Results:
1. `sameFrame_dispatch`, `sameFrame_entangle` and so on: calls that schedule work stay in the frame.
2. `sameFrame_prepare`, `sameFrame_commit`: starting and ending a render changes nothing else
   besides the render itself.
3. `circumstances_next`, `circumstances_aside`: hence what every call does to the circumstances.
-/

namespace ConcurrentRender

/-- Something that is done to a renderer. -/
inductive Access where
  | call (op : Operation)
  | aside (c : SideCall)
  | tree (g : Tree → Tree)
  | actions (g : Actions → Actions)

/-- What decides on the lane of an update, besides the tree and the lanes themselves. -/
structure Circumstances where
  execution : Execution
  transitionDepth : Nat
  eventPriority : EventPriority
  updatePriority : Option EventPriority
  /-- The fiber that is being rendered, on whose behalf contexts are read. -/
  reader : Option FiberId

namespace Renderer

open StepM (Keeps)

variable {r r' r'' : Renderer}

def access (r : Renderer) : Access → Renderer
  | .call op => r.next op
  | .aside c => r.aside c
  | .tree g => r.setTree g
  | .actions g => { r with actions := g r.actions }

/-- The renderer after several accesses. -/
def through (r : Renderer) (as : List Access) : Renderer := as.foldl access r

@[simp] theorem through_nil (r : Renderer) : r.through [] = r := rfl

@[simp] theorem through_cons (r : Renderer) (a : Access) (as : List Access) :
    r.through (a :: as) = (r.access a).through as := rfl

theorem through_append (r : Renderer) (before later : List Access) :
    r.through (before ++ later) = (r.through before).through later := List.foldl_append

def circumstances (r : Renderer) : Circumstances where
  execution := r.execution
  transitionDepth := r.transitionDepth
  eventPriority := r.eventPriority
  updatePriority := r.updatePriority
  reader := r.contexts.path.rendering

/-! ## Scheduling work -/

/-- Only the tree, what is staged, the lanes to give out, the actions and the caches differ. -/
def SameFrame (r r' : Renderer) : Prop :=
  ∃ staging supply actions host, r' = { r with staging, supply, actions, host }

namespace SameFrame

theorem refl (r : Renderer) : SameFrame r r := ⟨_, _, _, _, rfl⟩

theorem trans (h : SameFrame r r') (h' : SameFrame r' r'') : SameFrame r r'' := by
  obtain ⟨_, _, _, _, rfl⟩ := h
  obtain ⟨staging, supply, actions, host, rfl⟩ := h'
  exact ⟨staging, supply, actions, host, rfl⟩

theorem circumstances (h : SameFrame r r') : r'.circumstances = r.circumstances := by
  obtain ⟨_, _, _, _, rfl⟩ := h
  rfl

end SameFrame

instance : Overlooks SameFrame where
  refl := .refl
  trans _ _ _ := .trans
  change _ _ _ := ⟨_, _, _, _, rfl⟩

theorem sameFrame_dispatch (fiber : FiberId) (queue : QueueId) (payload : Payload) :
    Keeps SameFrame (dispatch fiber queue payload) :=
  fun r => .trans ⟨_, _, _, _, rfl⟩ (overlooked_dispatch r fiber queue payload)

theorem sameFrame_dispatchQuietly (fiber : FiberId) (queue : QueueId) (payload : Payload) :
    Keeps SameFrame (dispatchQuietly fiber queue payload) :=
  fun r => .trans ⟨_, _, _, _, rfl⟩ (overlooked_dispatchQuietly r fiber queue payload)

theorem sameFrame_forceUpdate (fiber : FiberId) : Keeps SameFrame (forceUpdate fiber) :=
  fun r => .trans ⟨_, _, _, _, rfl⟩ (overlooked_forceUpdate r fiber)

theorem sameFrame_endEvent (r : Renderer) : SameFrame r r.endEvent := by
  unfold endEvent
  split <;> exact ⟨_, _, _, _, rfl⟩

theorem sameFrame_entangle (runtime : Bool) : Keeps SameFrame (entangle runtime) := by
  unfold entangle
  refine .bind (.look _) fun p => .bind (fun _ => ⟨_, _, _, _, rfl⟩) fun opened => ?_
  cases opened with
  | ok answer =>
    refine .bind (fun r => ?_) fun _ => .bind sameFrame_endEvent fun _ => .pure _
    show SameFrame r (if answer.2 then _ else r)
    split <;> exact ⟨_, _, _, _, rfl⟩
  | error e => exact .bind sameFrame_endEvent fun _ => .fail e

/-! ## Starting and ending a render -/

/-- Where nothing is to be done, nothing is started. -/
theorem prepare_of_idle {root : RootId} (idle : (r.nextLanes root).isEmpty) :
    (prepare root r).state = r ∧ (prepare root r).result = .ok ∅ := by
  unfold prepare
  rw [StepM.run_look_bind, if_pos idle]
  exact ⟨rfl, rfl⟩

/-- A render is under way once it was started, also if its flush fails. -/
theorem prepare_of_busy {root : RootId} (busy : ¬ (r.nextLanes root).isEmpty) :
    let lanes := (r.tree.root root).lanes.withPartners (r.nextLanes root)
    let flushed := Staging.flush (r.startRender root lanes).staging
    (prepare root r).state = { r.startRender root lanes with staging := flushed.state } ∧
      (prepare root r).result = flushed.result.map fun _ => lanes := by
  unfold prepare
  rw [StepM.run_look_bind, if_neg busy, StepM.run_look_bind, StepM.run_change_bind]
  exact StepM.run_bind_pure _ _ _

theorem sameFrame_prepare (r : Renderer) (root : RootId) :
    SameFrame
      (if (r.nextLanes root).isEmpty then r
        else r.startRender root ((r.tree.root root).lanes.withPartners (r.nextLanes root)))
      (prepare root r).state := by
  split
  next idle =>
    rw [(prepare_of_idle idle).1]
    exact .refl r
  next busy =>
    rw [(prepare_of_busy busy).1]
    exact ⟨_, _, _, _, rfl⟩

theorem SameFrame.endRender (h : SameFrame r r') : SameFrame r.endRender r'.endRender := by
  obtain ⟨_, _, _, _, rfl⟩ := h
  exact ⟨_, _, _, _, rfl⟩

/-- The renderer at the end of a commit, before the check that its commits do not go on for ever. -/
def committed (r : Renderer) (root : RootId) (left : LaneSet) : Renderer :=
  let noted := { r with execution := { r.execution with committing := true } }
  let finished := noted.setTree fun t => t.setRootLanes root fun g => g.markFinished left
  let switched := finished.switchTop root
  let priority := switched.settings.cacheAbortPriority
  let released := (onPool root (Pool.release left priority) switched).state
  let streak := released.staging.buffer.streak.record root (left.meets LaneSet.blocking)
  { released with
    staging :=
      { released.staging with buffer := { released.staging.buffer with streak } } }.endRender

/-- A commit ends with the check, and answers the lanes that are done. -/
theorem run_commit (r : Renderer) (root : RootId) (remaining : LaneSet) :
    let left := remaining ∪ r.staging.buffer.lanes
    let check := onStaging (Staging.onStreak CommitStreak.check) (r.committed root left)
    (commit root remaining r).state = check.state ∧
      (commit root remaining r).result =
        check.result.map fun _ => (r.tree.root root).lanes.finishedBy left := by
  unfold commit
  rw [StepM.run_change_bind, StepM.run_look_bind, StepM.run_look_bind, StepM.run_change_bind,
    StepM.run_change_bind, StepM.run_look_bind,
    (StepM.run_bind_of_ok (run_onPool_release _ root _ _).1).1,
    (StepM.run_bind_of_ok (run_onPool_release _ root _ _).1).2]
  exact StepM.run_bind_pure _ _ _

theorem sameFrame_committed (r : Renderer) (root : RootId) (left : LaneSet) :
    SameFrame r.endRender (r.committed root left) := by
  let noted := { r with execution := { r.execution with committing := true } }
  let finished := noted.setTree fun t => t.setRootLanes root fun g => g.markFinished left
  have switched : SameFrame noted (finished.switchTop root) :=
    .trans ⟨_, _, _, _, rfl⟩ (overlooked_switchTop finished root)
  have released := switched.trans (keeps_onPool root (Pool.release left
    (finished.switchTop root).settings.cacheAbortPriority) _)
  exact (released.trans ⟨_, _, _, _, rfl⟩).endRender

theorem sameFrame_commit (r : Renderer) (root : RootId) (remaining : LaneSet) :
    SameFrame r.endRender (commit root remaining r).state := by
  rw [(run_commit r root remaining).1]
  exact (sameFrame_committed r root _).trans (keeps_onStaging _ _)

/-! ## Every access -/

theorem reader_pop (fiber : FiberId) (context : ContextId) (v : ContextView) :
    (ContextView.pop fiber context v).state.path.rendering = v.path.rendering := by
  unfold ContextView.pop
  split
  · rfl
  · dsimp only
    split
    · rfl
    · split <;> rfl

theorem reader_read (context : ContextId) (v : ContextView) (t : Tree) :
    (ContextView.read context (v, t)).state.1.path.rendering = v.path.rendering := by
  unfold ContextView.read
  dsimp only
  split <;> rfl

theorem reader_prepare (fiber : FiberId) (lanes : LaneSet) (v : ContextView) (t : Tree) :
    (v.prepare t fiber lanes).2.1.path.rendering = some fiber := by
  unfold ContextView.prepare
  dsimp only
  split <;> rfl

theorem circumstances_prepare (r : Renderer) (root : RootId) :
    (prepare root r).state.circumstances =
      if (r.nextLanes root).isEmpty then r.circumstances
      else { r.circumstances with reader := none } := by
  rw [(sameFrame_prepare r root).circumstances]
  split <;> rfl

/-- What an operation does to the circumstances. -/
theorem circumstances_next (r : Renderer) (op : Operation) :
    (r.next op).circumstances = match op with
      | .enter scope => (r.enter scope).2.circumstances
      | .leave saved => (r.restore saved).circumstances
      | .prepare root =>
        if (r.nextLanes root).isEmpty then r.circumstances
        else { r.circumstances with reader := none }
      | .begin fiber =>
        { r.circumstances with
          execution := { r.execution with rendering := true }, reader := some fiber }
      | .complete =>
        { r.circumstances with
          execution := { r.execution with rendering := false }, reader := none }
      | .commit .. =>
        { r.circumstances with
          execution := { r.execution with rendering := false, committing := false }
          reader := none }
      | _ => r.circumstances := by
  cases op with
  | leave saved => exact (sameFrame_endEvent (r.restore saved)).circumstances
  | entangle runtime => exact (sameFrame_entangle runtime r).circumstances
  | dispatch fiber queue payload => exact (sameFrame_dispatch fiber queue payload r).circumstances
  | dispatchQuietly fiber queue payload =>
    exact (sameFrame_dispatchQuietly fiber queue payload r).circumstances
  | forceUpdate fiber => exact (sameFrame_forceUpdate fiber r).circumstances
  | prepare root => exact circumstances_prepare r root
  | commit root remaining => exact (sameFrame_commit r root remaining).circumstances
  | begin fiber =>
    refine congrArg (Circumstances.mk _ _ _ _) ?_
    exact reader_prepare fiber r.renderLanes r.contexts r.tree
  | readContext context =>
    exact congrArg (Circumstances.mk _ _ _ _) (reader_read context r.contexts r.tree)
  | popProvider fiber context =>
    exact congrArg (Circumstances.mk _ _ _ _) (reader_pop fiber context r.contexts)
  | edit | enter | settle | flush | takePending | suspended | pinged | starved | pushProvider
  | rerender | complete => rfl

theorem circumstances_aside (r : Renderer) (c : SideCall) :
    (r.aside c).circumstances = r.circumstances := by
  cases c with
  | pooledCache => exact SameFrame.circumstances (keeps_pooledCache r)
  | requestLane | requestRetryLane | createUpdate | writeFiber | bailOut | spreadDeferred
  | spreadCache | share => rfl

end Renderer

end ConcurrentRender
