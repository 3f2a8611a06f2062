import ConcurrentRender.Render.State

/-!
# Scheduling updates

* `Renderer.dispatch` stages an update and tells the root of its fiber that there is work.
  Transitions on one queue are entangled, so that they are rendered together.
* `Renderer.dispatchQuietly` stages an update that is known to change nothing.
* `Renderer.forceUpdate` stages a new rendering of a fiber without any update.
-/

namespace ConcurrentRender

structure Dispatched where
  update : UpdateId
  lane : LaneSet
  /-- The root of its fiber. A fiber that is not mounted has none. -/
  root : Option RootId
deriving DecidableEq

namespace Renderer

def request (r : Renderer) (fiber : FiberId) : Request where
  concurrent := (r.tree.fiber fiber).concurrent
  renderLanes := if r.execution.rendering then some r.renderLanes else none
  inTransition := decide (r.transitionDepth > 0)
  updatePriority := r.updatePriority
  eventPriority := r.eventPriority
  actionLane := r.actions.lane

def pickLane (r : Renderer) (q : Request) : LaneSet × Renderer :=
  let (lane, supply) := r.supply.pick q
  (lane, { r with supply })

def requestLane (fiber : FiberId) : StepM Renderer LaneSet :=
  StepM.take fun r => r.pickLane (r.request fiber)

/-- The lane on which a boundary that waits for data is tried again. -/
def requestRetryLane (fiber : FiberId) : StepM Renderer LaneSet :=
  StepM.take fun r => r.pickLane { r.request fiber with retry := true }

def createUpdate (lane : LaneSet) (payload : Payload) : StepM Renderer UpdateId :=
  onTree (StepM.take fun t => t.createUpdate lane payload)

def scheduleOnRoot (r : Renderer) (root : RootId) (lane : LaneSet) : Renderer :=
  r.setTree fun t => t.setRootLanes root fun g => g.markUpdated lane

/-- Entangles a transition with the earlier ones on the queue that are still pending. -/
def entangleOnQueue (r : Renderer) (root : RootId) (queue : QueueId) (lane : LaneSet) : Renderer :=
  if lane.meets LaneSet.transitions then
    let pending := (r.tree.root root).lanes.pending
    let lanes := ((r.tree.queue queue).lanes ∩ pending) ∪ lane
    r.setTree fun t =>
      (t.setQueue queue fun x => { x with lanes }).setRootLanes root fun g => g.markEntangled lanes
  else r

/-- Schedules an update of the fiber for the queue. -/
def dispatch (fiber : FiberId) (queue : QueueId) (payload : Payload) :
    StepM Renderer Dispatched := do
  let lane ← requestLane fiber
  let update ← createUpdate lane payload
  let root ← onStaging (Staging.enqueue { fiber, queue, update, lane })
  match root with
  | none => pure ()
  | some root =>
    StepM.change fun r => (r.scheduleOnRoot root lane).entangleOnQueue root queue lane
  return { update, lane, root }

/-- Schedules an update that is known to change nothing. It takes its place in the queue
without a render of its own. -/
def dispatchQuietly (fiber : FiberId) (queue : QueueId) (payload : Payload) :
    StepM Renderer UpdateId := do
  let lane ← requestLane fiber
  let update ← createUpdate lane payload
  let rendering ← StepM.look isRendering
  onStaging (Staging.enqueueQuietly fiber queue update rendering)
  return update

/-- Schedules a new rendering of the fiber. -/
def forceUpdate (fiber : FiberId) : StepM Renderer (Option RootId) := do
  let lane ← requestLane fiber
  let root ← onStaging (Staging.enqueue { fiber, lane })
  match root with
  | none => pure ()
  | some root => StepM.change fun r => r.scheduleOnRoot root lane
  return root

def flush : StepM Renderer Unit := onStaging Staging.flush

end Renderer

end ConcurrentRender
