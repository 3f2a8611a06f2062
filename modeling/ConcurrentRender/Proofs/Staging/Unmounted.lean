import ConcurrentRender.Proofs.Staging.Refusal
import ConcurrentRender.Proofs.Staging.Reorder
import ConcurrentRender.Proofs.Tree.Summit

/-!
# Updates of a removed part of the tree

An update may come late, for a fiber that is removed already together with a fiber above it. Its
lane is added on the way up, which ends at the fiber that was removed. So the lane stays in the
removed part and on the twins of the fibers in it, and no root is told. If the update is staged with
others, those are settled as if it had not been there.

* `Fiber.Cut x`: the fiber has no parent, and is marked as removed.
* `Tree.Removed t f`: so is `f`, and so is its twin, and none of them stands for a root.
* `Tree.Unmounted t f d`: the way up from `d` comes to `f` or its twin.
* `Tree.ClearOf t f h`: the fiber `h` is not unmounted with `f`, nor the twin of such a fiber.
* `Tree.SameOutside t f t₁ t₂`: two trees differ only in what was removed with `f`.

Results:
1. `Removed.unmounted_iff`, `Removed.findRoot?_eq_none`: which fibers are unmounted, and that no
   root is found above them.
2. `Removed.run_markPath`, `Removed.sameOutside_raise`: what a mark does there.
3. `reached_filter`: a change that does not end a flush can be left out.
4. `flush_mounted`: a flush with changes of unmounted fibers and without them.
-/

namespace ConcurrentRender

/-- The fiber has no parent, and is marked as removed. -/
def Fiber.Cut (x : Fiber) : Prop := x.parent = none ∧ x.flags.detached = true

namespace Tree

/-- The fiber and its twin are cut off, and stand for no root. -/
structure Removed (t : Tree) (f : FiberId) : Prop where
  cut : ∀ h, t.Beside f h → (t.fiber h).Cut
  plain : ∀ h, t.Beside f h → t.rootOf? h = none

/-- The way up from `d` comes to `f` or its twin. -/
def Unmounted (t : Tree) (f d : FiberId) : Prop := ∃ h, t.Beside f h ∧ t.OnWay d h

/-- The fiber `h` is not unmounted with `f`, nor the twin of a fiber that is. -/
def ClearOf (t : Tree) (f h : FiberId) : Prop := ∀ p, t.Unmounted f p → ¬ t.Beside p h

/-- The trees have the same in them and put the same updates aside. They differ at most in links of
updates, and in lanes of fibers that are unmounted with `f` in `t` or the twins of such fibers. -/
structure SameOutside (t : Tree) (f : FiberId) (t₁ t₂ : Tree) : Prop where
  core : t₁.SameCore t₂
  boundary : ∀ b, t₂.boundary b = t₁.boundary b
  lane : ∀ u, (t₂.update u).lane = (t₁.update u).lane
  fiber : ∀ h, t.ClearOf f h → t₂.fiber h = t₁.fiber h

variable {t : Tree} {f d h p : FiberId}

theorem has_of_cut (cut : (t.fiber h).Cut) : t.fibers.has h := has_of_marked cut.2

namespace Removed

/-- The way up from an unmounted fiber ends where it was cut. -/
theorem top_eq (removed : t.Removed f) (beside : t.Beside f h) (way : t.OnWay d h) :
    t.top d = h :=
  have cut := removed.cut h beside
  EndsAt.top_eq ⟨way, cut.1⟩ (has_of_cut cut)

theorem unmounted_iff (removed : t.Removed f) : t.Unmounted f d ↔ t.Beside f (t.top d) := by
  refine ⟨fun ⟨h, beside, way⟩ => ?_, fun beside => ⟨t.top d, beside, onWay_top t d⟩⟩
  rw [removed.top_eq beside way]
  exact beside

/-- What is above an unmounted fiber is unmounted, too. -/
theorem unmounted_above (removed : t.Removed f) (unmounted : t.Unmounted f d)
    (above : t.Above d p) : t.Unmounted f p := by
  obtain ⟨h, beside, way⟩ := unmounted
  have ends : t.EndsAt d h := ⟨way, (removed.cut h beside).1⟩
  exact ⟨h, beside, ends.onWay (.inr above)⟩

theorem findRoot?_eq_none (removed : t.Removed f) (unmounted : t.Unmounted f d) :
    t.findRoot? d = none :=
  removed.plain _ (removed.unmounted_iff.mp unmounted)

theorem summit_eq_detached (removed : t.Removed f) (unmounted : t.Unmounted f d) :
    t.summit d = .detached (t.top d) := by
  have marked := (removed.cut _ (removed.unmounted_iff.mp unmounted)).2
  rw [summit_eq, removed.findRoot?_eq_none unmounted]
  exact if_pos marked

/-- A mark adds the lane on the way up, and tells no root. -/
theorem run_markPath (removed : t.Removed f) (unmounted : t.Unmounted f d)
    (update : Option UpdateId) (lane : LaneSet) :
    (markPath d update lane t).state = t.raise d lane ∧
      (markPath d update lane t).result = .ok none := by
  unfold markPath
  dsimp only
  rw [removed.summit_eq_detached unmounted]
  exact ⟨rfl, rfl⟩

/-- The lane is added to unmounted fibers and their twins. -/
theorem fiber_raise (removed : t.Removed f) (unmounted : t.Unmounted f d)
    (clear : t.ClearOf f h) (lane : LaneSet) : (t.raise d lane).fiber h = t.fiber h := by
  refine Fiber.eq_of_bare ((sameShape_raise t d lane).bare h)
    (LaneSet.ext_mem fun l => mem_lanes_raise.trans ⟨?_, .inl⟩)
    (LaneSet.ext_mem fun l => mem_childLanes_raise.trans ⟨?_, .inl⟩)
  · rintro (old | ⟨-, beside, -⟩)
    · exact old
    · exact absurd beside (clear d unmounted)
  · rintro (old | ⟨-, -, p, above, beside⟩)
    · exact old
    · exact absurd beside
        (clear p (removed.unmounted_above unmounted (above_of_mem_climb above)))

theorem sameOutside_raise (removed : t.Removed f) (unmounted : t.Unmounted f d) (lane : LaneSet) :
    t.SameOutside f t (t.raise d lane) := by
  have frame := onlyFibers_raise t d lane
  refine ⟨.raise t d lane, fun b => ?_, fun u => ?_, fun h clear => ?_⟩
  · simp only [boundary, frame.boundaries]
  · simp only [update, frame.updates]
  · exact removed.fiber_raise unmounted clear lane

end Removed

end Tree

namespace Staging

variable {s : Staging} {t : Tree} {f h : FiberId} {e : StagedUpdate} {es : List StagedUpdate}
  {stays : StagedUpdate → Bool}

/-! ## Leaving changes out -/

/-- Changes that do not block can be left out of a flush. -/
theorem reached_filter (free : ∀ e ∈ es, stays e = false → blocks t e = false) :
    reached t (es.filter stays) = (reached t es).filter stays ∧
      verdict t (es.filter stays) = verdict t es := by
  induction es with
  | nil => exact ⟨rfl, rfl⟩
  | cons e es ih =>
    obtain ⟨reach, fault⟩ := ih fun d mem => free d (.tail _ mem)
    cases kept : stays e with
    | true =>
      rw [List.filter_cons_of_pos kept]
      unfold reached verdict
      by_cases block : blocks t e
      · simp only [if_pos block, List.filter_cons_of_pos kept, List.filter_nil, and_self]
      · simp only [if_neg block, List.filter_cons_of_pos kept, reach, fault, and_self]
    | false =>
      have goes := Bool.eq_false_iff.mp (free e (.head _) kept)
      have out := Bool.eq_false_iff.mp kept
      have tail : (reached t (e :: es)).filter stays = (reached t es).filter stays :=
        (congrArg _ (if_neg goes)).trans (List.filter_cons_of_neg out)
      rw [List.filter_cons_of_neg out]
      exact ⟨reach.trans tail.symm, fault.trans (if_neg goes).symm⟩

/-- Changes that put nothing aside can be left out for what is put aside. -/
theorem parked_filter (shown : ∀ e ∈ es, stays e = false → shelf? t e = none) (b : BoundaryId) :
    (es.filter stays).filterMap (shelved? t b) = es.filterMap (shelved? t b) := by
  rw [List.filterMap_filter]
  refine List.filterMap_congr fun e mem => ?_
  cases kept : stays e with
  | true => rfl
  | false =>
    unfold shelved?
    rw [shown e mem kept]
    rfl

theorem lane_filter (shown : ∀ e ∈ es, stays e = false → shelf? t e = none) (v : UpdateId)
    (lane : LaneSet) :
    (es.filter stays).foldl (laneAfter t v) lane = es.foldl (laneAfter t v) lane := by
  induction es generalizing lane with
  | nil => rfl
  | cons e es ih =>
    have rest := ih fun d mem => shown d (.tail _ mem)
    rw [List.filter_cons]
    cases kept : stays e with
    | true => exact rest _
    | false =>
      have same : laneAfter t v lane e = lane := by
        unfold laneAfter
        rw [shown e (.head _) kept]
      rw [List.foldl_cons, same]
      exact rest lane

/-! ## Changes of unmounted fibers -/

theorem blocks_of_unmounted (removed : t.Removed f) (unmounted : t.Unmounted f e.fiber) :
    blocks t e = false := by
  unfold blocks
  rw [removed.summit_eq_detached unmounted, Bool.and_false]

theorem shelf?_of_unmounted (removed : t.Removed f) (unmounted : t.Unmounted f e.fiber) :
    shelf? t e = none := by
  unfold shelf?
  rw [removed.summit_eq_detached unmounted]
  split <;> rfl

/-- The other fibers do not see whether changes of unmounted fibers are settled. -/
theorem fiber_settleEach_filter (removed : t.Removed f)
    (out : ∀ e ∈ es, stays e = false → t.Unmounted f e.fiber) (clear : t.ClearOf f h) :
    (settleEach t es).fiber h = (settleEach t (es.filter stays)).fiber h := by
  have kept (e : StagedUpdate) (mem : e ∈ es) (reaches : ¬ t.Unmounted f e.fiber) :
      e ∈ es.filter stays :=
    List.mem_filter.mpr ⟨mem, Bool.of_not_eq_false fun gone => reaches (out e mem gone)⟩
  have bare := ((sameShape_settleEach es t).bare h).trans
    ((sameShape_settleEach (es.filter stays) t).bare h).symm
  refine Fiber.eq_of_bare bare
    (LaneSet.ext_mem fun l => mem_lanes_settleEach.trans (.trans ?_ mem_lanes_settleEach.symm))
    (LaneSet.ext_mem fun l =>
      mem_childLanes_settleEach.trans (.trans ?_ mem_childLanes_settleEach.symm))
  · refine or_congr Iff.rfl ⟨?_, ?_⟩
    · rintro ⟨e, mem, hl, beside, there⟩
      exact ⟨e, kept e mem fun unmounted => clear _ unmounted beside, hl, beside, there⟩
    · rintro ⟨e, mem, rest⟩
      exact ⟨e, List.mem_of_mem_filter mem, rest⟩
  · refine or_congr Iff.rfl ⟨?_, ?_⟩
    · rintro ⟨e, mem, hl, there, a, above, beside⟩
      refine ⟨e, kept e mem fun unmounted => ?_, hl, there, a, above, beside⟩
      exact clear a (removed.unmounted_above unmounted (Tree.above_of_mem_climb above)) beside
    · rintro ⟨e, mem, rest⟩
      exact ⟨e, List.mem_of_mem_filter mem, rest⟩

/-- What is staged for other fibers than those unmounted with `f`. -/
def mounted (s : Staging) (f : FiberId) : Staging :=
  { s with
    buffer :=
      { s.buffer with
        staged := s.buffer.staged.filter fun e => ¬ s.tree.Beside f (s.tree.top e.fiber) } }

/-- A flush settles the changes of mounted fibers as if the others had not been staged. -/
theorem flush_mounted (removed : s.tree.Removed f) :
    (flush s).result = (flush (s.mounted f)).result ∧
      s.tree.SameOutside f (flush (s.mounted f)).state.tree (flush s).state.tree := by
  let stays (e : StagedUpdate) : Bool := decide ¬ s.tree.Beside f (s.tree.top e.fiber)
  have out (e : StagedUpdate) (gone : stays e = false) : s.tree.Unmounted f e.fiber :=
    removed.unmounted_iff.mpr (not_not.mp (of_decide_eq_false gone))
  have free : ∀ e ∈ s.buffer.staged, stays e = false → blocks s.tree e = false :=
    fun e _ gone => blocks_of_unmounted removed (out e gone)
  have shown : ∀ e ∈ reached s.tree s.buffer.staged, stays e = false → shelf? s.tree e = none :=
    fun e _ gone => shelf?_of_unmounted removed (out e gone)
  obtain ⟨state, result⟩ := flush_eq s
  obtain ⟨state', result'⟩ := flush_eq (s.mounted f)
  have tree' : (flush (s.mounted f)).state.tree =
      settleEach s.tree ((reached s.tree s.buffer.staged).filter stays) :=
    (congrArg Staging.tree state').trans (congrArg (settleEach s.tree) (reached_filter free).1)
  have core := sameCore_settleEach (reached s.tree s.buffer.staged) s.tree
  have core' := sameCore_settleEach ((reached s.tree s.buffer.staged).filter stays) s.tree
  rw [state, tree', result, result']
  refine ⟨(reached_filter free).2.symm, core'.symm.trans core, fun b => ?_, fun u => ?_,
    fun h clear => ?_⟩
  · refine Boundary.eq_of_bare ((core.boundary b).trans (core'.boundary b).symm) ?_
    exact (parked_settleEach ..).trans
      ((congrArg _ (parked_filter shown b).symm).trans (parked_settleEach ..).symm)
  · rw [lane_settleEach, lane_settleEach, lane_filter shown]
  · exact fiber_settleEach_filter removed (fun e _ => out e) clear

/-- If all of them are unmounted, nothing else changes, and the flush succeeds. -/
theorem flush_unmounted (removed : s.tree.Removed f)
    (all : ∀ e ∈ s.buffer.staged, s.tree.Unmounted f e.fiber) :
    (flush s).result = .ok () ∧ s.tree.SameOutside f s.tree (flush s).state.tree := by
  have none : (s.mounted f).buffer.staged = [] :=
    List.filter_eq_nil_iff.mpr fun e mem => by
      simpa using removed.unmounted_iff.mp (all e mem)
  obtain ⟨state, result⟩ := flush_eq (s.mounted f)
  rw [none] at state result
  obtain ⟨same, outside⟩ := flush_mounted removed
  rw [state] at outside
  exact ⟨same.trans result, outside⟩

/-- No root is told at once either. -/
theorem markNow_unmounted (removed : s.tree.Removed f) (unmounted : s.tree.Unmounted f h)
    (calm : s.buffer.streak.exhausted = false) (lane : LaneSet) :
    (markNow h lane s).result = .ok none ∧
      s.tree.SameOutside f s.tree (markNow h lane s).state.tree := by
  obtain ⟨state, result⟩ := run_markNow_of_calm calm h lane
  obtain ⟨marked, answer⟩ := removed.run_markPath unmounted none lane
  rw [state, result, answer, marked, removed.findRoot?_eq_none unmounted]
  exact ⟨rfl, removed.sameOutside_raise unmounted lane⟩

end Staging

end ConcurrentRender
