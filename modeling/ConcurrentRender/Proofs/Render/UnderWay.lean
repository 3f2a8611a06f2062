import ConcurrentRender.Proofs.Render.Access

/-!
# The render that is under way

A render is under way from its start to the next commit, of whichever root. Everything else that
is called in between, whether or not it stops with a fault, leaves the rendered root and its lanes
alone.

Results:
1. `sameRender_next`: calls other than starting and committing leave the render alone.
2. `result_prepare`, `underWay_prepare`: what the start of a render answers, and what is under way
   then.
3. `underWay_commit`: nothing is under way after a commit.
-/

namespace ConcurrentRender

/-- The call starts a render or ends one. -/
def Operation.startsOrEnds : Operation → Bool
  | .prepare _ => true
  | .commit .. => true
  | _ => false

namespace Renderer

variable {r r' r'' : Renderer}

/-- The lanes of the root that are being rendered. They are none if it is not being rendered. -/
def underWay (r : Renderer) (root : RootId) : LaneSet :=
  if r.renderRoot = some root then r.renderLanes else ∅

/-- The same render is under way. -/
structure SameRender (r r' : Renderer) : Prop where
  root : r'.renderRoot = r.renderRoot
  lanes : r'.renderLanes = r.renderLanes

theorem SameRender.trans (h : SameRender r r') (h' : SameRender r' r'') : SameRender r r'' :=
  ⟨h'.root.trans h.root, h'.lanes.trans h.lanes⟩

theorem SameRender.underWay (h : SameRender r r') (root : RootId) :
    r'.underWay root = r.underWay root := by
  unfold Renderer.underWay
  rw [h.root, h.lanes]

theorem SameFrame.sameRender (h : SameFrame r r') : SameRender r r' := by
  obtain ⟨_, _, _, _, rfl⟩ := h
  exact ⟨rfl, rfl⟩

/-- Between the start of a render and a commit, the same render is under way. -/
theorem sameRender_next {op : Operation} (between : op.startsOrEnds = false) (r : Renderer) :
    SameRender r (r.next op) := by
  cases op with
  | prepare | commit => cases between
  | enter scope => cases scope <;> exact ⟨rfl, rfl⟩
  | leave saved =>
    have restored : SameRender r (r.restore saved) := by cases saved <;> exact ⟨rfl, rfl⟩
    exact restored.trans (sameFrame_endEvent _).sameRender
  | entangle runtime => exact (sameFrame_entangle runtime r).sameRender
  | dispatch fiber queue payload => exact (sameFrame_dispatch fiber queue payload r).sameRender
  | dispatchQuietly fiber queue payload =>
    exact (sameFrame_dispatchQuietly fiber queue payload r).sameRender
  | forceUpdate fiber => exact (sameFrame_forceUpdate fiber r).sameRender
  | edit | settle | flush | takePending | suspended | pinged | starved | begin | readContext
  | pushProvider | popProvider | rerender | complete => exact ⟨rfl, rfl⟩

/-! ## Starting a render -/

theorem nextLanes_eq (r : Renderer) (root : RootId) :
    r.nextLanes root = (r.tree.root root).lanes.next (r.underWay root) := rfl

/-- A start that succeeds answers the lanes to do next, and all that is rendered with them. -/
theorem result_prepare {root : RootId} {lanes : LaneSet}
    (answer : (prepare root r).result = .ok lanes) :
    lanes = (r.tree.root root).lanes.withPartners (r.nextLanes root) := by
  by_cases idle : (r.nextLanes root).isEmpty
  · rw [(prepare_of_idle idle).2] at answer
    cases answer
    refine (LaneSet.ext_mem fun l => ?_)
    rw [beq_iff_eq.mp idle, LaneLedger.mem_withPartners]
    simp
  · rw [(prepare_of_busy idle).2] at answer
    cases flushed : (Staging.flush (r.startRender root
        ((r.tree.root root).lanes.withPartners (r.nextLanes root))).staging).result with
    | ok =>
      rw [flushed] at answer
      cases answer
      rfl
    | error e =>
      rw [flushed] at answer
      cases answer

/-- Once a render was started, the lanes to do next and all that is rendered with them are under
way on the root, and nothing on other roots. -/
theorem underWay_prepare {about : RootId} (busy : ¬ (r.nextLanes about).isEmpty) (root : RootId) :
    (r.next (.prepare about)).underWay root =
      if about = root then (r.tree.root about).lanes.withPartners (r.nextLanes about) else ∅ := by
  show (prepare about r).state.underWay root = _
  rw [(prepare_of_busy busy).1]
  show (if some about = some root then (r.tree.root about).lanes.withPartners _ else ∅) = _
  simp only [Option.some.injEq]

/-! ## Committing -/

/-- After a commit, of whichever root, nothing is under way. -/
theorem underWay_commit (r : Renderer) (about : RootId) (remaining : LaneSet) (root : RootId) :
    (r.next (.commit about remaining)).underWay root = ∅ := by
  have ended : (commit about remaining r).state.renderRoot = none :=
    (sameFrame_commit r about remaining).sameRender.root
  show (commit about remaining r).state.underWay root = ∅
  unfold underWay
  rw [ended]
  exact if_neg nofun

end Renderer

end ConcurrentRender
