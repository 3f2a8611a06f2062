import ConcurrentRender.Proofs.Render.Streak
import ConcurrentRender.Proofs.Tree.Core

/-!
# What a refused update leaves behind

An update is refused when the commits of a root go on for ever. Where a lane is made known at once,
the streak of commits is looked at first, and a refused lane leaves nothing behind. Where an update
is staged, the streak is looked at last. So a refused update is staged all the same, its fiber has
got the lane, and the next flush puts the update into its queue. Whoever is told of the fault and
tries again stages the update twice.

* `Staging.SameWork s s'`: the two have staged the same changes, and have the same tree.
* `Staging.attempts es s`: the state after several changes were staged, whatever was answered.

Results:
1. `sameWork_enqueue`, `sameWork_attempts`: what is staged does not depend on what is answered.
2. `SameWork.flush`: nor does what becomes of it.
3. `lanes_stage_eq_iff`, `tree_stage_eq_iff`: where staging shows.
4. `refused_is_staged`: what a refusal leaves behind, in both cases.
-/

namespace ConcurrentRender

theorem Tree.OnlyFibers.eq_of_fibers {t t' : Tree} (only : OnlyFibers t t')
    (fibers : t'.fibers = t.fibers) : t' = t := by
  obtain ⟨roots, queues, updates, boundaries⟩ := only
  cases t
  cases t'
  simp_all only

theorem CommitStreak.not_exhausted_reset (s : CommitStreak) : s.reset.exhausted = false := by
  simp [reset, exhausted]

namespace Staging

/-- The same changes are staged, and the trees are the same. -/
structure SameWork (s s' : Staging) : Prop where
  staged : s'.buffer.staged = s.buffer.staged
  lanes : s'.buffer.lanes = s.buffer.lanes
  tree : s'.tree = s.tree

/-- The state after changes were staged one after the other, whatever was answered. -/
def attempts (es : List StagedUpdate) (s : Staging) : Staging :=
  es.foldl (fun s e => (enqueue e s).state) s

variable {s s' s'' : Staging} {e : StagedUpdate} {es : List StagedUpdate}

namespace SameWork

theorem refl (s : Staging) : SameWork s s := ⟨rfl, rfl, rfl⟩

theorem trans (h : SameWork s s') (h' : SameWork s' s'') : SameWork s s'' :=
  ⟨h'.staged.trans h.staged, h'.lanes.trans h.lanes, h'.tree.trans h.tree⟩

theorem stage (h : SameWork s s') (e : StagedUpdate) : SameWork (s.stage e) (s'.stage e) := by
  refine ⟨?_, ?_, ?_⟩
  · simp only [Staging.stage, h.staged]
  · simp only [Staging.stage, h.lanes]
  · simp only [Staging.stage, h.tree]

/-- Flushes treat the same work in the same way. -/
theorem flush (h : SameWork s s') :
    SameWork (Staging.flush s).state (Staging.flush s').state ∧
      (Staging.flush s').result = (Staging.flush s).result := by
  obtain ⟨state, result⟩ := flush_eq s
  obtain ⟨state', result'⟩ := flush_eq s'
  rw [state, result, state', result', h.staged, h.tree]
  exact ⟨⟨rfl, rfl, rfl⟩, rfl⟩

end SameWork

/-- A change is staged whether it is refused or not. -/
theorem sameWork_enqueue (e : StagedUpdate) (s : Staging) :
    SameWork (s.stage e) (enqueue e s).state := by
  rw [(Renderer.run_enqueue e s).1]
  exact ⟨rfl, rfl, rfl⟩

theorem sameWork_attempts (es : List StagedUpdate) (s : Staging) :
    SameWork (es.foldl stage s) (attempts es s) := by
  suffices ∀ s', SameWork s s' → SameWork (es.foldl stage s) (attempts es s') from this s (.refl s)
  induction es generalizing s with
  | nil => exact fun _ same => same
  | cons e es ih =>
    exact fun s' same => ih (s.stage e) _ ((same.stage e).trans (sameWork_enqueue e s'))

/-! ## Where staging shows -/

theorem lanes_stage_eq_iff :
    (s.stage e).buffer.lanes = s.buffer.lanes ↔ e.lane ⊆ s.buffer.lanes := by
  show s.buffer.lanes ∪ e.lane = s.buffer.lanes ↔ _
  constructor
  · intro same l mem
    rw [← same]
    exact LaneSet.mem_union.mpr (.inr mem)
  · intro sub
    exact LaneSet.ext_mem fun l => LaneSet.mem_union.trans
      ⟨fun mem => mem.elim id (sub l), .inl⟩

/-- Staging does not change the tree if the fiber and its twin have the lane already. -/
theorem tree_stage_eq_iff :
    (s.stage e).tree = s.tree ↔
      ∀ f, s.tree.Beside e.fiber f → s.tree.fibers.has f → e.lane ⊆ (s.tree.fiber f).lanes := by
  have lanes {f : FiberId} {l : Lane} : l ∈ ((s.stage e).tree.fiber f).lanes ↔
      l ∈ (s.tree.fiber f).lanes ∨ l ∈ e.lane ∧ s.tree.Beside e.fiber f ∧ s.tree.fibers.has f :=
    Tree.mem_lanes_addLanes
  constructor
  · intro same f beside there l mem
    rw [← same]
    exact lanes.mpr (.inr ⟨mem, beside, there⟩)
  · intro known
    have only : Tree.OnlyFibers s.tree (s.stage e).tree := .setTwins ..
    have shape : s.tree.SameShape (s.stage e).tree := Tree.sameShape_addLanes ..
    refine only.eq_of_fibers (Arena.eq_of_get shape.size fun f => ?_)
    refine Fiber.eq_of_bare (shape.bare f) (LaneSet.ext_mem fun l => lanes.trans ?_)
      (Tree.childLanes_addLanes ..)
    exact ⟨fun mem => mem.elim id fun new => known f new.2.1 new.2.2 l new.1, .inl⟩

/-! ## Refusals -/

/-- The state with another streak, which starts over. -/
def startOver (s : Staging) : Staging :=
  { s with buffer := { s.buffer with streak := s.buffer.streak.reset } }

/-- What is checked starts over if it was exhausted. -/
theorem checked_of_exhausted (exhausted : s.buffer.streak.exhausted) :
    Move.apply s (.streak (·.checked)) = s.startOver := by
  have restarts : s.buffer.streak.checked = s.buffer.streak.reset := if_pos exhausted
  show { s with buffer := { s.buffer with streak := s.buffer.streak.checked } } = _
  rw [restarts]
  rfl

/-- A change that is refused is staged, and then the streak starts over. -/
theorem state_enqueue_of_exhausted (exhausted : s.buffer.streak.exhausted) :
    (enqueue e s).state = (s.stage e).startOver :=
  (Renderer.run_enqueue e s).1.trans (checked_of_exhausted (s := s.stage e) exhausted)

theorem result_enqueue_eq_error_iff {fault : Fault} :
    (enqueue e s).result = .error fault ↔
      s.buffer.streak.exhausted ∧ fault = .maximumUpdateDepth s.buffer.streak.limit := by
  rw [(Renderer.run_enqueue e s).2]
  cases s.buffer.streak.exhausted <;> simp [eq_comm]

/-- Making a lane known at once begins with a look at the streak. -/
theorem run_markNow_of_exhausted (exhausted : s.buffer.streak.exhausted) (fiber : FiberId)
    (lane : LaneSet) :
    (markNow fiber lane s).state = s.startOver ∧
      (markNow fiber lane s).result = .error (.maximumUpdateDepth s.buffer.streak.limit) := by
  have stops : (onStreak CommitStreak.check s).result =
      .error (.maximumUpdateDepth s.buffer.streak.limit) := by
    rw [Renderer.run_check]
    exact if_pos exhausted
  have unfound : (findRoot fiber s).state = _ ∧ (findRoot fiber s).result = _ :=
    StepM.run_bind_of_error stops
  have unmarked := StepM.run_bind_of_error (f := fun root => do
    let _ ← onTree (Tree.markPath fiber none lane)
    return root) unfound.2
  refine ⟨unmarked.1.trans (unfound.1.trans ?_), unmarked.2⟩
  rw [Renderer.run_check]
  exact checked_of_exhausted exhausted

/-- As long as the streak goes on, the lane is made known and the root is answered. -/
theorem run_markNow_of_calm (calm : s.buffer.streak.exhausted = false) (fiber : FiberId)
    (lane : LaneSet) :
    let marked := Tree.markPath fiber none lane s.tree
    (markNow fiber lane s).state = { s with tree := marked.state } ∧
      (markNow fiber lane s).result = marked.result.map fun _ => s.tree.findRoot? fiber := by
  intro marked
  have same : s.buffer.streak.checked = s.buffer.streak := if_neg (Bool.eq_false_iff.mp calm)
  have check := Renderer.run_check s
  have goes : (onStreak CommitStreak.check s).result = .ok () := by
    rw [check]
    exact if_neg (Bool.eq_false_iff.mp calm)
  have kept : (onStreak CommitStreak.check s).state = s := by
    rw [check]
    show { s with buffer := { s.buffer with streak := s.buffer.streak.checked } } = s
    rw [same]
  have found : (findRoot fiber s).state = s ∧
      (findRoot fiber s).result = .ok (s.tree.findRoot? fiber) := by
    obtain ⟨state, result⟩ := StepM.run_bind_of_ok (f := fun _ s =>
      { state := s
        result := .ok (s.tree.findRoot? fiber)
        notices := s.tree.mountNotices fiber s.buffer.diagnostics }) goes
    exact ⟨state.trans kept, result.trans (by rw [kept])⟩
  obtain ⟨state, result⟩ := StepM.run_bind_of_ok (f := fun root => do
    let _ ← onTree (Tree.markPath fiber none lane)
    return root) found.2
  rw [found.1] at state result
  obtain ⟨state', result'⟩ :=
    StepM.run_bind_pure (onTree (Tree.markPath fiber none lane)) (fun _ => s.tree.findRoot? fiber) s
  exact ⟨state.trans state', result.trans result'⟩

/-- An update is refused if the streak is exhausted, for no other reason. It is staged all the same,
like one that is not refused, and so are several of them: they are settled in the next flush. Its
lane shows unless it was there before. When the caller tries again, the update is staged twice. A
lane that is to be made known at once leaves nothing behind when it is refused. -/
theorem refused_is_staged (s : Staging) (e : StagedUpdate) :
    (∀ fault, (enqueue e s).result = .error fault ↔
      s.buffer.streak.exhausted ∧ fault = .maximumUpdateDepth s.buffer.streak.limit) ∧
    (∀ es, SameWork (es.foldl stage s) (attempts es s) ∧
      (flush (attempts es s)).state.tree = (flush (es.foldl stage s)).state.tree) ∧
    (s.buffer.streak.exhausted →
      (∀ fiber lane,
        (markNow fiber lane s).result = .error (.maximumUpdateDepth s.buffer.streak.limit) ∧
        (markNow fiber lane s).state = s.startOver) ∧
      let after := (enqueue e s).state
      after = (s.stage e).startOver ∧ after.buffer.staged ≠ s.buffer.staged ∧
      (after.buffer.lanes = s.buffer.lanes ↔ e.lane ⊆ s.buffer.lanes) ∧
      (after.tree = s.tree ↔
        ∀ f, s.tree.Beside e.fiber f → s.tree.fibers.has f → e.lane ⊆ (s.tree.fiber f).lanes) ∧
      (enqueue e after).result = .ok (s.tree.findRoot? e.fiber) ∧
      (enqueue e after).state.buffer.staged = s.buffer.staged ++ [e, e]) := by
  refine ⟨fun _ => result_enqueue_eq_error_iff, fun es => ?_,
    fun exhausted => ⟨fun fiber lane => ?_, ?_⟩⟩
  · have same := sameWork_attempts es s
    exact ⟨same, same.flush.1.tree⟩
  · have refused := run_markNow_of_exhausted exhausted fiber lane
    exact ⟨refused.2, refused.1⟩
  · intro after
    have state : after = (s.stage e).startOver := state_enqueue_of_exhausted exhausted
    have staged : after.buffer.staged = s.buffer.staged ++ [e] := by rw [state]; rfl
    have fresh : after.buffer.streak.exhausted = false := by
      rw [state]
      exact CommitStreak.not_exhausted_reset _
    refine ⟨state, ?_, ?_, ?_, ?_, ?_⟩
    · rw [staged]
      simp
    · rw [state]
      exact lanes_stage_eq_iff
    · rw [state]
      exact tree_stage_eq_iff
    · rw [(Renderer.run_enqueue e after).2, fresh, if_neg Bool.false_ne_true, state]
      exact congrArg _ (Renderer.findRoot?_stage s e e.fiber)
    · rw [(sameWork_enqueue e after).staged]
      show after.buffer.staged ++ [e] = _
      rw [staged, List.append_assoc]
      rfl

/-- An update is made after four commits in a row that leave blocking work, where two are allowed to
follow the first one. It is refused, and staged. The same lane would have left the tree as it is if
it had been made known at once. -/
theorem staged_of_four_commits :
    let t := ((({} : Tree).createRoot true).2.createChild ⟨0⟩ .functionComponent).2
    let t := ((t.createQueue ⟨1⟩).2.createUpdate (.single 0) .unit).2
    let streak := [true, true, true, true].foldl (·.record ⟨0⟩ ·) { limit := 2 }
    let s : Staging := { buffer := { streak, diagnostics := false }, tree := t }
    let e : StagedUpdate :=
      { fiber := ⟨1⟩, queue := some ⟨0⟩, update := some ⟨0⟩, lane := .single 0 }
    (enqueue e s).result = .error (.maximumUpdateDepth 2) ∧
      (enqueue e s).state.buffer.staged ≠ [] ∧ (enqueue e s).state.buffer.lanes ≠ ∅ ∧
      (enqueue e s).state.tree ≠ t ∧ (markNow ⟨1⟩ (.single 0) s).state.tree = t := by
  intro t₁ t streak s e
  have exhausted : s.buffer.streak.exhausted := by decide
  obtain ⟨refused, -, rest⟩ := refused_is_staged s e
  obtain ⟨now, -, staged, lanes, tree, -⟩ := rest exhausted
  refine ⟨(refused _).mpr ⟨exhausted, rfl⟩, staged, fun same => ?_, fun same => ?_, ?_⟩
  · exact absurd (lanes.mp same 0 (by decide)) (by decide)
  · exact absurd (tree.mp same ⟨1⟩ (.inl rfl) (by decide +kernel) 0 (by decide)) (by decide +kernel)
  · rw [(now ⟨1⟩ (.single 0)).2]
    rfl

end Staging

end ConcurrentRender
