import ConcurrentRender.Render.State

/-!
# Looking at a renderer

What tools show of a renderer. Looking changes nothing.
-/

namespace ConcurrentRender

structure RootSnapshot where
  root : RootId
  current : FiberId
  lanes : LaneLedger
  pooledCache : Option UInt32

structure Snapshot where
  roots : List RootSnapshot
  fibers : Nat
  stagedUpdates : Nat
  stagedLanes : LaneSet
  renderRoot : Option RootId
  renderLanes : LaneSet
  execution : String
  actionLane : LaneSet
  pendingActions : Nat
  contextDepth : Nat
  nestedUpdates : Nat
  settings : Settings

namespace Renderer

def snapshot (r : Renderer) : Snapshot where
  roots := r.tree.roots.ids.map fun id =>
    let x := r.tree.root id
    { root := id
      current := x.current
      lanes := x.lanes
      pooledCache := x.pooledCache.map fun c => (r.host.cache c).refs }
  fibers := r.tree.fibers.size
  stagedUpdates := r.staging.buffer.staged.length
  stagedLanes := r.staging.buffer.lanes
  renderRoot := r.renderRoot
  renderLanes := r.renderLanes
  execution := r.execution.describe
  actionLane := r.actions.lane
  pendingActions := r.actions.pending
  contextDepth := r.contexts.depth
  nestedUpdates := r.staging.buffer.streak.count
  settings := r.settings

def describe (r : Renderer) : String :=
  let root := match r.renderRoot with
    | none => "None"
    | some root => "Some(" ++ root.text ++ ")"
  "Reconciler \x7b fibers: " ++ toString r.tree.fibers.size
    ++ ", staged_updates: " ++ toString r.staging.buffer.staged.length
    ++ ", wip_root: " ++ root
    ++ ", render_lanes: " ++ r.renderLanes.describe
    ++ ", execution_context: " ++ r.execution.describe ++ ", .. \x7d"

end Renderer

end ConcurrentRender
