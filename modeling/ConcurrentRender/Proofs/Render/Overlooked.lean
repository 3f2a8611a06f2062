import ConcurrentRender.Proofs.StepLaws
import ConcurrentRender.Render.Commit
import ConcurrentRender.Render.Pass
import ConcurrentRender.Render.Update

/-!
# What calls leave alone

Once its lane was chosen, the rest of an update takes place in the tree, in what is staged, and in
the queues of caches. Whoever asks for something else of a renderer may overlook it.

* `Renderer.Overlooks R`: `R` relates renderers that differ in the tree, in what is staged, and in
  the caches only.

Results:
1. `keeps_onStaging`, `keeps_onPool`, `keeps_pooledCache`: steps that are overlooked.
2. `overlooked_switchTop`, `overlooked_dispatch` and so on: what is overlooked of commits and updates.
-/

namespace ConcurrentRender

namespace Renderer

open StepM (Keeps)

/-- The relation does not depend on the tree, on what is staged, and on caches. -/
class Overlooks (R : Renderer → Renderer → Prop) : Prop extends IsPreorder Renderer R where
  change : ∀ r staging host, R r { r with staging, host }

variable {R : Renderer → Renderer → Prop} [Overlooks R] {α : Type}

theorem overlooked_setTree (r : Renderer) (g : Tree → Tree) : R r (r.setTree g) :=
  Overlooks.change r _ _

theorem keeps_onStaging (m : StepM Staging α) : Keeps R (onStaging m) :=
  fun r => Overlooks.change r _ _

theorem keeps_onPool (root : RootId) (m : StepM Pool α) : Keeps R (onPool root m) :=
  fun r => Overlooks.change r _ _

theorem keeps_pooledCache : Keeps R pooledCache := by
  refine .bind (.look _) fun at? => ?_
  split
  · exact .pure _
  · exact .bind (keeps_onPool _ _) fun _ => .pure _

theorem overlooked_switchTop (r : Renderer) (root : RootId) : R r (r.switchTop root) := by
  unfold switchTop
  split
  · split
    · exact refl r
    · exact overlooked_setTree r _
  · exact refl r

theorem overlooked_entangleOnQueue (r : Renderer) (root : RootId) (queue : QueueId)
    (lane : LaneSet) : R r (r.entangleOnQueue root queue lane) := by
  unfold entangleOnQueue
  split
  · exact overlooked_setTree r _
  · exact refl r

/-! ## Updates -/

variable (r : Renderer) (fiber : FiberId) (queue : QueueId) (payload : Payload)

theorem overlooked_dispatch :
    R (r.pickLane (r.request fiber)).2 (dispatch fiber queue payload r).state := by
  unfold dispatch requestLane
  rw [StepM.run_take_bind]
  refine Keeps.bind (keeps_onStaging _) (fun update => .bind (keeps_onStaging _) fun root => ?_) _
  cases root with
  | none => exact .pure _
  | some root =>
    refine .bind (fun r => ?_) fun _ => .pure _
    exact IsTrans.trans _ _ _ (overlooked_setTree r _) (overlooked_entangleOnQueue _ root queue _)

theorem overlooked_dispatchQuietly :
    R (r.pickLane (r.request fiber)).2 (dispatchQuietly fiber queue payload r).state := by
  unfold dispatchQuietly requestLane
  rw [StepM.run_take_bind]
  refine Keeps.bind (keeps_onStaging _) (fun update => .bind (.look _) fun rendering => ?_) _
  exact .bind (keeps_onStaging _) fun _ => .pure _

theorem overlooked_forceUpdate :
    R (r.pickLane (r.request fiber)).2 (forceUpdate fiber r).state := by
  unfold forceUpdate requestLane
  rw [StepM.run_take_bind]
  refine Keeps.bind (keeps_onStaging _) (fun root => ?_) _
  cases root with
  | none => exact .pure _
  | some root => exact .bind (fun r => Overlooks.change r _ _) fun _ => .pure _

end Renderer

end ConcurrentRender
