import ConcurrentRender.Proofs.Context.Changes

/-!
# What is at the end of the way up

A lane is made known along the way up from a fiber. Only at its end is it found out whether that was
of any use: the way up may end at a root, in a removed part of the tree, or in a part that was never
put into one. The lane is added all the same.

* `Tree.EndsAt t f p`: the way up from `f` ends at `p`.
* `Tree.Acyclic t`: no way up comes back to where it was.

Results:
1. `endsAt_iff`: a way up that comes back to no fiber has one end, which is the one that the walk
   finds.
2. `result_markPath`: the answer to a mark depends on that end alone.
3. `markPath_exact`: what a mark changes, and what it answers.
-/

namespace ConcurrentRender

namespace Tree

/-- The way up from `f` ends at `p`. -/
def EndsAt (t : Tree) (f p : FiberId) : Prop := t.OnWay f p ∧ (t.fiber p).parent = none

/-- No way up comes back to a fiber. -/
def Acyclic (t : Tree) : Prop := ∀ f, ¬ t.Above f f

variable {t : Tree} {f g p q : FiberId}

/-- It is enough to look at the fibers that are there. -/
theorem acyclic_iff (valid : t.ParentsThere) :
    t.Acyclic ↔ ∀ f ∈ t.fibers.ids, f ∉ t.ancestors f := by
  simp only [Acyclic, ← mem_ancestors_iff valid]
  refine ⟨fun h f _ => h f, fun h f circle => ?_⟩
  have there : f.index < t.fibers.size :=
    of_decide_eq_true (((mem_ancestors_iff valid).mp circle).there valid)
  exact h f (List.mem_map.mpr ⟨f.index, List.mem_range.mpr there, rfl⟩) circle

/-! ## The end of the way up -/

/-- Nothing is above the end. -/
theorem EndsAt.onWay (ends : t.EndsAt f p) (way : t.OnWay f q) : t.OnWay q p := by
  rcases way with rfl | upper
  · exact ends.1
  · rcases ends.1 with rfl | lower
    · exact absurd upper (Above.not_of_no_parent ends.2)
    · exact (upper.linear lower).resolve_right fun above =>
        Above.not_of_no_parent ends.2 above

theorem EndsAt.unique (ends : t.EndsAt f p) (ends' : t.EndsAt f q) : p = q := by
  rcases ends.onWay ends'.1 with same | above
  · exact same
  · exact absurd above (Above.not_of_no_parent ends'.2)

theorem onWay_top (t : Tree) (f : FiberId) : t.OnWay f (t.top f) := by
  unfold top
  cases last : (t.ancestors f).getLast? with
  | none => exact .inl (by rw [List.getLastD_eq_getLast?, last]; rfl)
  | some p =>
    rw [List.getLastD_eq_getLast?, last]
    exact .inr (above_of_mem_climb (List.mem_of_getLast? last))

/-- The walk does not stop short of a fiber that it came over. -/
theorem onWay_top_of_mem (mem : p ∈ t.ancestors f) : t.OnWay p (t.top f) := by
  obtain ⟨before, m, split, -⟩ := climb_split mem
  have split : t.ancestors f = before ++ p :: t.climb m p := split
  unfold top
  rw [split, List.getLastD_eq_getLast?, List.getLast?_append_cons]
  cases last : (t.climb m p).getLast? with
  | none =>
    rw [List.getLast?_cons, last]
    exact .inl rfl
  | some q =>
    rw [List.getLast?_cons, last]
    exact .inr (above_of_mem_climb (List.mem_of_getLast? last))

/-- The walk comes to the end of a way up that has one. -/
theorem EndsAt.top_eq (ends : t.EndsAt f p) (there : t.fibers.has p) : t.top f = p := by
  have above : ∀ q, t.Above f q → t.fibers.has q := by
    intro q upper
    rcases ends.onWay (.inr upper) with rfl | further
    · exact there
    · cases further with
      | parent up => exact has_of_parent up
      | step up _ => exact has_of_parent up
  have last : t.OnWay p (t.top f) := by
    rcases ends.1 with rfl | upper
    · exact onWay_top t p
    · exact onWay_top_of_mem (mem_ancestors_of_there above upper)
  exact last.resolve_right (Above.not_of_no_parent ends.2)

theorem endsAt_top (acyclic : t.Acyclic) (valid : t.ParentsThere) (f : FiberId) :
    t.EndsAt f (t.top f) := by
  refine ⟨onWay_top t f, ?_⟩
  cases up : (t.fiber (t.top f)).parent with
  | none => rfl
  | some p =>
    -- The walk came over `p` as well, which is above its own end then.
    have above : t.Above f p := (onWay_top t f).above (.parent up)
    have back := onWay_top_of_mem ((mem_ancestors_iff valid).mpr above)
    exact absurd ((Above.parent up).onWay back) (acyclic _)

/-- The way up has one end, which is the one that the walk finds. -/
theorem endsAt_iff (acyclic : t.Acyclic) (valid : t.ParentsThere) :
    t.EndsAt f p ↔ p = t.top f := by
  have found := endsAt_top acyclic valid f
  exact ⟨fun ends => ends.unique found, fun same => same ▸ found⟩

/-! ## Marking the way up -/

theorem summit_eq (t : Tree) (source : FiberId) :
    t.summit source =
      match t.findRoot? source with
      | some r => .root r
      | none =>
        if (t.fiber (t.top source)).flags.detached then .detached (t.top source)
        else .loose (t.top source) := rfl

/-- The answer to a mark depends on what is at the top. -/
theorem result_markPath (t : Tree) (source : FiberId) (update : Option UpdateId)
    (lane : LaneSet) :
    (markPath source update lane t).result =
      match t.findRoot? source with
      | some r => .ok (some r)
      | none =>
        if (t.fiber (t.top source)).flags.detached then .ok none
        else .error (.notAttachedToRoot source (t.top source)) := by
  unfold markPath
  dsimp only
  rw [summit_eq]
  cases t.findRoot? source with
  | some r => rfl
  | none => cases (t.fiber (t.top source)).flags.detached <;> rfl

/-- A mark that finds no root changes fibers only. -/
theorem onlyFibers_markPath {source : FiberId} (update : Option UpdateId) (lane : LaneSet)
    (unrooted : t.findRoot? source = none) :
    OnlyFibers t (markPath source update lane t).state := by
  have raised := onlyFibers_raise t source lane
  unfold markPath
  dsimp only
  rw [summit_eq, unrooted]
  cases (t.fiber (t.top source)).flags.detached <;> exact raised

/-- Marking the way up adds the lane to the lanes of the fiber and its twin, and to the child lanes
of the fibers above and of their twins. It changes nothing else of any fiber, whatever it answers.
It answers the root that is found on the same way up, if there is one. If not, it answers that there
is none for a removed part of the tree, and fails for any other. -/
theorem markPath_exact (acyclic : t.Acyclic) (valid : t.ParentsThere) (source : FiberId)
    (update : Option UpdateId) (lane : LaneSet) :
    let after := markPath source update lane t
    (∀ h l,
      (l ∈ (after.state.fiber h).lanes ↔
        l ∈ (t.fiber h).lanes ∨ l ∈ lane ∧ t.fibers.has h ∧ t.Beside source h) ∧
      (l ∈ (after.state.fiber h).childLanes ↔
        l ∈ (t.fiber h).childLanes ∨
          l ∈ lane ∧ t.fibers.has h ∧ ∃ p, t.Above source p ∧ t.Beside p h)) ∧
    after.state.fibers.size = t.fibers.size ∧
    (∀ h, (after.state.fiber h).bare = (t.fiber h).bare) ∧
    (∀ r, after.result = .ok (some r) ↔ t.findRoot? source = some r) ∧
    ∃ top, (∀ p, t.EndsAt source p ↔ p = top) ∧ t.findRoot? source = t.rootOf? top ∧
      (t.findRoot? source = none →
        (after.result = .ok none ↔ (t.fiber top).flags.detached) ∧
        (after.result = .error (.notAttachedToRoot source top) ↔
          ¬ (t.fiber top).flags.detached) ∧
        after.state.updates = t.updates ∧ after.state.boundaries = t.boundaries) := by
  intro after
  have shape := sameShape_markPath t source update lane
  have read (h : FiberId) : after.state.fiber h = (t.raise source lane).fiber h := by
    simp only [fiber, after, fibers_markPath]
  refine ⟨fun h l => ⟨?_, ?_⟩, shape.size, shape.bare, fun r => ?_, t.top source,
    fun p => endsAt_iff acyclic valid, rfl, fun none => ?_⟩
  · rw [read, mem_lanes_raise, and_comm (a := t.Beside source h)]
  · rw [read, mem_childLanes_raise]
    simp only [mem_ancestors_iff valid]
  · rw [result_markPath]
    cases t.findRoot? source with
    | some r' => simp
    | none => cases (t.fiber (t.top source)).flags.detached <;> simp
  · have frame := onlyFibers_markPath update lane none
    rw [result_markPath, none]
    refine ⟨?_, ?_, frame.updates, frame.boundaries⟩ <;>
      cases (t.fiber (t.top source)).flags.detached <;> simp

/-- A lane of a fiber is made known to the root, over a fiber with a twin. Of a removed fiber nobody
is told, and of a fiber that is in no tree not either. -/
theorem markPath_of_three_tops :
    let t := (({} : Tree).createRoot true).2
    let t := ((t.createChild ⟨0⟩ .functionComponent).2.createChild ⟨1⟩ .hostText).2
    let t := ((t.startTwin ⟨1⟩ none).2.createChild ⟨0⟩ .hostText).2
    let t := ((t.detach ⟨4⟩).createFiber .fragment true).2
    let mark (f : FiberId) := markPath f none (LaneSet.single 2) t
    ((2 : Lane) ∈ ((mark ⟨2⟩).state.fiber ⟨3⟩).childLanes ∧
      (2 : Lane) ∈ ((mark ⟨2⟩).state.fiber ⟨0⟩).childLanes ∧
      (mark ⟨2⟩).result = .ok (some ⟨0⟩)) ∧
    (mark ⟨4⟩).result = .ok none ∧
    (mark ⟨5⟩).result = .error (.notAttachedToRoot ⟨5⟩ ⟨5⟩) := by
  intro t₁ t₂ t₃ t mark
  have valid : t.ParentsThere := by decide +kernel
  have acyclic : t.Acyclic := (acyclic_iff valid).mpr (by decide +kernel)
  have exact (f : FiberId) := markPath_exact acyclic valid f none (LaneSet.single 2)
  have lowest : t.Above ⟨2⟩ ⟨1⟩ := .parent (by decide +kernel)
  have highest : t.Above ⟨2⟩ ⟨0⟩ := .step (by decide +kernel : _ = some ⟨1⟩) (.parent (by decide +kernel))
  refine ⟨⟨?_, ?_, ?_⟩, ?_, ?_⟩
  · exact ((exact ⟨2⟩).1 ⟨3⟩ 2).2.mpr
      (.inr ⟨by decide, by decide +kernel, ⟨1⟩, lowest, by decide +kernel⟩)
  · exact ((exact ⟨2⟩).1 ⟨0⟩ 2).2.mpr (.inr ⟨by decide, by decide +kernel, ⟨0⟩, highest, .inl rfl⟩)
  · exact ((exact ⟨2⟩).2.2.2.1 ⟨0⟩).mpr (by decide +kernel)
  · obtain ⟨top, ends, -, none⟩ := (exact ⟨4⟩).2.2.2.2
    obtain rfl : ⟨4⟩ = top := (ends ⟨4⟩).mp ⟨.inl rfl, by decide +kernel⟩
    exact (none (by decide +kernel)).1.mpr (by decide +kernel)
  · obtain ⟨top, ends, -, none⟩ := (exact ⟨5⟩).2.2.2.2
    obtain rfl : ⟨5⟩ = top := (ends ⟨5⟩).mp ⟨.inl rfl, by decide +kernel⟩
    exact (none (by decide +kernel)).2.1.mpr (by decide +kernel)

end Tree

end ConcurrentRender
