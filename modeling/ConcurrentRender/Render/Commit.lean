import ConcurrentRender.Render.State

/-!
# Committing

A commit ends the render of a root. What was rendered becomes current, and the lanes left
to do, together with those staged during the render, stay pending. Commits of one root
that keep leaving blocking work are a fault in the end.
-/

namespace ConcurrentRender

namespace Renderer

/-- Makes the twin at the top of the root current, if the root was being rendered. -/
def switchTop (r : Renderer) (root : RootId) : Renderer :=
  if r.renderRoot = some root then
    match (r.tree.fiber (r.tree.root root).current).twin with
    | none => r
    | some twin => r.setTree fun t => t.setRoot root fun x => { x with current := twin }
  else r

def endRender (r : Renderer) : Renderer :=
  { r with
    renderRoot := none
    renderLanes := ∅
    contexts := r.contexts.unwind
    execution := { r.execution with rendering := false, committing := false } }

/-- Commits the render of the root, with `remaining` left to do. Answers the lanes that
are done. -/
def commit (root : RootId) (remaining : LaneSet) : StepM Renderer LaneSet := do
  StepM.change fun r => { r with execution := { r.execution with committing := true } }
  let remaining ← StepM.look fun r => remaining ∪ r.staging.buffer.lanes
  let finished ← StepM.look fun r => (r.tree.root root).lanes.finishedBy remaining
  StepM.change fun r => r.setTree fun t => t.setRootLanes root fun g => g.markFinished remaining
  StepM.change fun r => r.switchTop root
  let priority ← StepM.look (·.settings.cacheAbortPriority)
  onPool root (Pool.release remaining priority)
  onStaging (Staging.onStreak
    (StepM.change fun s => s.record root (remaining.meets LaneSet.blocking)))
  StepM.change endRender
  onStaging (Staging.onStreak CommitStreak.check)
  return finished

end Renderer

end ConcurrentRender
