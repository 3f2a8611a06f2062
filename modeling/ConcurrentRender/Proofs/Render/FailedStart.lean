import ConcurrentRender.Proofs.Render.FreshStart
import ConcurrentRender.Proofs.Staging.Settle

/-!
# What the start of a render leaves when it fails

The start of a render puts everything staged into effect, and stops where a staged change belongs to
a fiber that was never put into a tree. By then the renderer already counts as rendering the root.
So it does from there on, although its work loop was given no render that it could commit: an update
that changes nothing waits in the buffer as it would during a render. Only a commit ends that.

* `Access.ends a`: a commit, of whichever root.
* `Renderer.Drains r`: an update that changes nothing would be put into its queue at once, together
  with all that is staged.

Results:
1. `error_prepare_iff`: when the start of a render fails.
2. `drains_iff`: the buffer is drained if and only if no render is under way.
3. `rendering_through_of_no_end`, `drains_commit`: a render stays under way until a commit.
4. `failed_start_keeps_iff`: hence what a start that fails leaves, and that it leaves the render of
   before if and only if this was the same render.
-/

namespace ConcurrentRender

/-- The access ends every render. -/
def Access.ends : Access → Bool
  | call (.commit ..) => true
  | _ => false

namespace Renderer

variable {r r' : Renderer} {root : RootId} {a : Access} {as : List Access} {e : Fault}

/-- An update that changes nothing leaves nothing staged. -/
def Drains (r : Renderer) : Prop :=
  ∀ fiber queue payload,
    (dispatchQuietly fiber queue payload r).state.staging.buffer.staged = []

/-! ## Starts that fail -/

/-- The start of a render fails if there is something to do and one of the staged changes cannot be
settled. -/
theorem error_prepare_iff :
    (prepare root r).result = .error e ↔
      ¬ (r.nextLanes root).isEmpty ∧
        Staging.verdict (r.tree.startTwin (r.tree.root root).current none).2
          r.staging.buffer.staged = .error e := by
  by_cases idle : (r.nextLanes root).isEmpty
  · rw [(prepare_of_idle idle).2]
    exact ⟨nofun, fun fails => absurd idle fails.1⟩
  · rw [(prepare_of_busy idle).2, (Staging.flush_eq _).2]
    show (Staging.verdict (r.tree.startTwin (r.tree.root root).current none).2
      r.staging.buffer.staged).map _ = _ ↔ _
    cases Staging.verdict (r.tree.startTwin (r.tree.root root).current none).2
      r.staging.buffer.staged <;> simp [Except.map, idle]

/-- A start that fails has started the render. Only its flush was cut short, with nothing left in
the buffer. -/
theorem started_of_error (failed : (prepare root r).result = .error e) :
    ¬ (r.nextLanes root).isEmpty ∧
      ∃ staging, staging.buffer.staged = [] ∧
        (prepare root r).state =
          { r.startRender root ((r.tree.root root).lanes.withPartners (r.nextLanes root)) with
            staging } := by
  have busy := (error_prepare_iff.mp failed).1
  exact ⟨busy, _, congrArg (·.buffer.staged) (Staging.flush_eq _).1, (prepare_of_busy busy).1⟩

/-! ## Updates that change nothing -/

/-- During a render, an update that changes nothing is staged behind the others. -/
theorem staged_of_rendering (rendering : r.isRendering) (fiber : FiberId) (queue : QueueId)
    (payload : Payload) :
    (dispatchQuietly fiber queue payload r).state.staging.buffer.staged =
      r.staging.buffer.staged ++
        [{ fiber, queue, update := r.tree.updates.next, lane := ∅ }] := by
  rw [(run_dispatchQuietly r fiber queue payload).1, if_pos rendering]
  rfl

theorem drains_iff : r.Drains ↔ r.isRendering = false := by
  constructor
  · intro drains
    cases rendering : r.isRendering with
    | false => rfl
    | true =>
      have staged := staged_of_rendering rendering default default .unit
      rw [drains] at staged
      exact absurd staged.symm (List.append_ne_nil_of_right_ne_nil _ nofun)
  · intro resting fiber queue payload
    rw [(run_dispatchQuietly r fiber queue payload).1, resting]
    exact congrArg (·.buffer.staged) (Staging.flush_eq _).1

/-! ## How long a render is under way -/

/-- Nothing but a commit ends a render. -/
theorem rendering_access_of_no_end (rendering : r.isRendering) (goesOn : a.ends = false) :
    (r.access a).isRendering := by
  cases between : a.startsOrEnds with
  | false =>
    show (r.access a).renderRoot.isSome = true
    rwa [(sameRender_access r between).root]
  | true =>
    cases a with
    | aside | tree | actions => cases between
    | call op =>
      cases op with
      | commit => cases goesOn
      | prepare root =>
        rw [access_prepare]
        by_cases idle : (r.nextLanes root).isEmpty
        · rwa [(prepare_of_idle idle).1]
        · rw [(prepare_of_busy idle).1]
          rfl
      | _ => cases between

theorem rendering_through_of_no_end (rendering : r.isRendering)
    (goesOn : ∀ a ∈ as, a.ends = false) : (r.through as).isRendering := by
  induction as generalizing r with
  | nil => exact rendering
  | cons a as ih =>
    exact ih (rendering_access_of_no_end rendering (goesOn a (.head _)))
      fun a mem => goesOn a (.tail _ mem)

theorem drains_commit (r : Renderer) (about : RootId) (remaining : LaneSet) :
    (commit about remaining r).state.Drains := by
  have ended : (commit about remaining r).state.renderRoot = none :=
    (sameFrame_commit r about remaining).sameRender.root
  exact drains_iff.mpr (congrArg Option.isSome ended)

/-! ## What is left -/

/-- Whatever was done before, a start that fails leaves the root under way with the lanes that were
to be rendered. So the render is the one of before if and only if it was under way already. Nothing
is staged any more, but until the next commit, updates that change nothing are staged one after the
other, and none of them drains the buffer. -/
theorem failed_start_keeps_iff (failed : (prepare root r).result = .error e) :
    let lanes := (r.tree.root root).lanes.withPartners (r.nextLanes root)
    let r' := (prepare root r).state
    (lanes ≠ ∅ ∧ r'.renderRoot = some root ∧ r'.renderLanes = lanes) ∧
    (SameRender r r' ↔ r.renderRoot = some root ∧ r.renderLanes = lanes) ∧
    r'.staging.buffer.staged = [] ∧
    ∀ later : List Access, (∀ a ∈ later, a.ends = false) →
      let r'' := r'.through later
      (r''.isRendering ∧ ¬ r''.Drains ∧
        ∀ fiber queue payload,
          (dispatchQuietly fiber queue payload r'').state.staging.buffer.staged =
            r''.staging.buffer.staged ++
              [{ fiber, queue, update := r''.tree.updates.next, lane := ∅ }]) ∧
      ∀ about remaining, (commit about remaining r'').state.Drains := by
  intro lanes r'
  obtain ⟨busy, staging, empty, state⟩ := started_of_error failed
  have underWay : r'.renderRoot = some root := congrArg (·.renderRoot) state
  have same : r'.renderLanes = lanes := congrArg (·.renderLanes) state
  have drained : r'.staging = staging := congrArg (·.staging) state
  refine ⟨⟨withPartners_ne_empty busy, underWay, same⟩, ⟨fun kept => ?_, fun again => ?_⟩,
    drained ▸ empty, fun later goesOn => ⟨?_, drains_commit _⟩⟩
  · exact ⟨kept.root.symm.trans underWay, kept.lanes.symm.trans same⟩
  · exact ⟨underWay.trans again.1.symm, same.trans again.2.symm⟩
  · have rendering : (r'.through later).isRendering :=
      rendering_through_of_no_end (congrArg Option.isSome underWay) goesOn
    refine ⟨rendering, fun drains => ?_, staged_of_rendering rendering⟩
    exact Bool.false_ne_true ((drains_iff.mp drains).symm.trans rendering)

/-- A fiber that is in no tree is scheduled, and then the child of a root. The start of the render
of the root fails, and the root is under way from then on, although nothing was before. An update
that changes nothing stays staged. -/
theorem not_kept_by_failed_start :
    let r := (default : Renderer).after
      [.edit (.createRoot true), .edit (.createChild ⟨0⟩ .functionComponent),
        .edit (.createQueue ⟨1⟩), .edit (.createFiber .functionComponent true),
        .forceUpdate ⟨2⟩, .forceUpdate ⟨1⟩]
    let failed := prepare ⟨0⟩ r
    failed.result = .error (.notAttachedToRoot ⟨2⟩ ⟨2⟩) ∧ r.isRendering = false ∧
      ¬ SameRender r failed.state ∧
      (dispatchQuietly ⟨1⟩ ⟨0⟩ .unit failed.state).state.staging.buffer.staged =
        [{ fiber := ⟨1⟩, queue := some ⟨0⟩, update := some ⟨0⟩, lane := ∅ }] := by
  intro r failed
  have stops : failed.result = .error (.notAttachedToRoot ⟨2⟩ ⟨2⟩) := by decide +kernel
  have resting : r.renderRoot = none := by decide +kernel
  obtain ⟨-, same, staged, later⟩ := failed_start_keeps_iff stops
  refine ⟨stops, congrArg Option.isSome resting, fun kept => ?_, ?_⟩
  · exact nomatch resting.symm.trans (same.mp kept).1
  · have quiet := (later [] nofun).1.2.2 ⟨1⟩ ⟨0⟩ .unit
    rw [through_nil, staged, List.nil_append] at quiet
    have next : failed.state.tree.updates.next = ⟨0⟩ := by decide +kernel
    rw [quiet, next]

end Renderer

end ConcurrentRender
