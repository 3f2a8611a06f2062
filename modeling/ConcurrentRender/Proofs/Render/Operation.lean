import ConcurrentRender.Render.Commit
import ConcurrentRender.Render.Event
import ConcurrentRender.Render.Pass
import ConcurrentRender.Render.Update

/-!
# Runs of a renderer

An `Operation` is one call to a renderer, with its arguments, and a run is a list of them.
Everything that decides on which lane an update is made is among the operations: scopes of
events and transitions, async actions, and rendering itself. Context changes are not spread.

* `Renderer.next` is the renderer after a call, whether or not the call stopped with a fault.
* `Renderer.fits` says that the arguments of a call name things that are there. A fiber is
  appended only if it is linked nowhere and the new parent is not below it.
* `Renderer.flushes` says that a flush, if the call makes one, succeeds.
-/

namespace ConcurrentRender

/-- A change of the tree alone. -/
inductive TreeEdit where
  | createRoot (concurrent : Bool)
  | createFiber (tag : Tag) (concurrent : Bool)
  | createChild (parent : FiberId) (tag : Tag)
  | appendChild (parent child : FiberId)
  | startTwin (current : FiberId) (pendingValue : Option Value)
  | detach (fiber : FiberId)
  | clearLanes (fiber : FiberId)
  | createQueue (owner : FiberId)
  | createBoundary (fiber : FiberId) (visible : Bool)
  | setVisible (boundary : BoundaryId) (visible : Bool)
  | reveal (boundary : BoundaryId) (lanes : LaneSet)

namespace TreeEdit

def apply : TreeEdit → Tree → Tree
  | createRoot concurrent, t => (t.createRoot concurrent).2
  | createFiber tag concurrent, t => (t.createFiber tag concurrent).2
  | createChild parent tag, t => (t.createChild parent tag).2
  | appendChild parent child, t => t.appendChild parent child
  | startTwin current pendingValue, t => (t.startTwin current pendingValue).2
  | detach fiber, t => t.detach fiber
  | clearLanes fiber, t => t.clearLanes fiber
  | createQueue owner, t => (t.createQueue owner).2
  | createBoundary fiber visible, t => (t.createBoundary fiber visible).2
  | setVisible boundary visible, t => t.setVisible boundary visible
  | reveal boundary lanes, t => (t.reveal boundary lanes).2

/-- What the change is about is there. -/
def fits (t : Tree) : TreeEdit → Bool
  | createRoot _ => true
  | createFiber _ _ => true
  | createChild parent _ => t.fibers.has parent
  | appendChild parent child =>
    t.fibers.has parent && t.fibers.has child && (t.fiber child).parent.isNone
      && child != parent && !(t.ancestors parent).contains child
  | startTwin current _ => t.fibers.has current
  | detach fiber => t.fibers.has fiber
  | clearLanes fiber => t.fibers.has fiber
  | createQueue owner => t.fibers.has owner
  | createBoundary fiber _ => t.fibers.has fiber
  | setVisible boundary _ => t.boundaries.has boundary
  | reveal boundary _ => t.boundaries.has boundary

end TreeEdit

/-- One call to a renderer. -/
inductive Operation where
  | edit (e : TreeEdit)
  | enter (scope : EventScope)
  | leave (saved : SavedScope)
  | entangle (runtime : Bool)
  | settle (action : Id .action)
  | dispatch (fiber : FiberId) (queue : QueueId) (payload : Payload)
  | dispatchQuietly (fiber : FiberId) (queue : QueueId) (payload : Payload)
  | forceUpdate (fiber : FiberId)
  | flush
  | takePending (queue : QueueId)
  | suspended (root : RootId) (lanes : LaneSet)
  | pinged (root : RootId) (lanes : LaneSet)
  | starved (root : RootId) (now : Nat)
  | prepare (root : RootId)
  | begin (fiber : FiberId)
  | readContext (context : ContextId)
  | pushProvider (fiber : FiberId) (context : ContextId) (value : Value)
  | popProvider (fiber : FiberId) (context : ContextId)
  | rerender
  | complete
  | commit (root : RootId) (remaining : LaneSet)

namespace Renderer

/-- The renderer after a call. -/
def next (r : Renderer) : Operation → Renderer
  | .edit e => r.setTree e.apply
  | .enter scope => (r.enter scope).2
  | .leave saved => r.leave saved
  | .entangle runtime => (entangle runtime r).state
  | .settle action => r.settle action
  | .dispatch fiber queue payload => (dispatch fiber queue payload r).state
  | .dispatchQuietly fiber queue payload => (dispatchQuietly fiber queue payload r).state
  | .forceUpdate fiber => (forceUpdate fiber r).state
  | .flush => (flush r).state
  | .takePending queue => r.setTree fun t => (t.takePending queue).2
  | .suspended root lanes => r.setTree fun t => t.setRootLanes root (·.markSuspended lanes)
  | .pinged root lanes => r.setTree fun t => t.setRootLanes root (·.markPinged lanes)
  | .starved root now => (markStarved root now r).state
  | .prepare root => (prepare root r).state
  | .begin fiber => (begin fiber r).state
  | .readContext context => (readContext context r).state
  | .pushProvider fiber context value => r.pushProvider fiber context value
  | .popProvider fiber context => (popProvider fiber context r).state
  | .rerender => (rerender r).state
  | .complete => r.complete
  | .commit root remaining => (commit root remaining r).state

/-- What the call is about is there. -/
def fits (r : Renderer) : Operation → Bool
  | .edit e => e.fits r.tree
  | .dispatch fiber queue _ => r.tree.fibers.has fiber && r.tree.queues.has queue
  | .dispatchQuietly fiber queue _ => r.tree.fibers.has fiber && r.tree.queues.has queue
  | .forceUpdate fiber => r.tree.fibers.has fiber
  | .takePending queue => r.tree.queues.has queue
  | .suspended root _ => r.tree.roots.has root
  | .pinged root _ => r.tree.roots.has root
  | .starved root _ => r.tree.roots.has root
  | .prepare root => r.tree.roots.has root
  | .begin fiber => r.tree.fibers.has fiber
  | .commit root _ => r.tree.roots.has root
  | _ => true

/-- The call makes no flush that fails. -/
def flushes (r : Renderer) : Operation → Bool
  | .flush => (flush r).result.isOk
  | .dispatchQuietly fiber queue payload => (dispatchQuietly fiber queue payload r).result.isOk
  | .prepare root => (prepare root r).result.isOk
  | _ => true

/-- The renderer after several calls. -/
def after (r : Renderer) (ops : List Operation) : Renderer := ops.foldl next r

/-- Each of the calls, made in order, is about things that are there, and no flush fails. -/
def Smooth (r : Renderer) : List Operation → Prop
  | [] => True
  | op :: ops => r.fits op ∧ r.flushes op ∧ (r.next op).Smooth ops

instance decidableSmooth : (r : Renderer) → (ops : List Operation) → Decidable (r.Smooth ops)
  | _, [] => inferInstanceAs (Decidable True)
  | r, op :: ops =>
    have := decidableSmooth (r.next op) ops
    inferInstanceAs (Decidable (_ ∧ _ ∧ _))

@[simp] theorem after_nil (r : Renderer) : r.after [] = r := rfl

@[simp] theorem after_cons (r : Renderer) (op : Operation) (ops : List Operation) :
    r.after (op :: ops) = (r.next op).after ops := rfl

theorem eq_of_start {settings : Settings} {registry : ContextRegistry} {r : Renderer}
    (h : start settings registry = .ok r) :
    r =
      { settings
        staging :=
          { buffer := .start settings.nestedUpdateLimit settings.diagnostics, tree := {} }
        contexts := { registry, path := { slot := settings.slot } }
        actions := { usesIndicator := settings.defaultTransitionIndicator }
        passes := { limit := settings.rerenderLimit } } := by
  unfold start at h
  cases check : settings.check with
  | error e =>
    rw [check] at h
    cases h
  | ok =>
    rw [check] at h
    cases h
    rfl

theorem staging_start {settings : Settings} {registry : ContextRegistry} {r : Renderer}
    (h : start settings registry = .ok r) :
    r.staging =
      { buffer := .start settings.nestedUpdateLimit settings.diagnostics, tree := {} } := by
  rw [eq_of_start h]

end Renderer

end ConcurrentRender
