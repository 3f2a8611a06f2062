import ConcurrentRender.Proofs.Context.Changes
import ConcurrentRender.Proofs.Context.Sights
import ConcurrentRender.Proofs.Tree.Kin

/-!
# Ways up after a spread

A lazy spread leaves it to the readers at which it stops to hand the changes on. That works
because of the way up from such a reader. The spread has set parents right on its way to it,
so it leads to the start of the spread and on from there. A twin that is started for the
reader is put below the same parent.

* `Tree.Stands t b F`: the fibers below `b` form the forest `F`, and the way up from `b` does
  not run through it.

Results:
1. `above_spread`: what is above a fiber that a spread looked at.
2. `Twinned.changedFrom`: what changed above the reader changed above its twin, too.
3. `changedAbove_of_needs`: a walk up past a fiber that needs propagation collects all changes.
-/

namespace ConcurrentRender

namespace Tree

variable {t t' : Tree} {s : Search} {b c f g p y : FiberId} {F : Forest} {path : List FiberId}
  {k : ContextId}

/-- The fibers below `b` form the forest `F`, through which the way up from `b` does not run. -/
structure Stands (t : Tree) (b : FiberId) (F : Forest) : Prop where
  there : t.fibers.has b
  spans : t.Spans (t.fiber b).child F
  once : (b :: F.fibers).Nodup
  outside : ∀ p, t.Above b p → p ∉ F.fibers

/-- It is enough to look at the fibers that the walk up from `b` finds. -/
theorem stands_of_ancestors (valid : t.ParentsThere) (there : t.fibers.has b)
    (spans : t.Spans (t.fiber b).child F) (once : (b :: F.fibers).Nodup)
    (outside : ∀ p ∈ t.ancestors b, p ∉ F.fibers) : t.Stands b F :=
  ⟨there, spans, once, fun p above => outside p ((mem_ancestors_iff valid).mpr above)⟩

/-- The twin of a twin is the fiber itself. -/
def TwinsMutual (t : Tree) : Prop :=
  ∀ f w, (t.fiber f).twin = some w → (t.fiber w).twin = some f

/-- It is enough to look at the fibers that are there. -/
theorem twinsMutual_iff :
    t.TwinsMutual ↔ ∀ f ∈ t.fibers.ids, ∀ w ∈ (t.fiber f).twin, (t.fiber w).twin = some f := by
  constructor
  · exact fun h f _ w hw => h f w hw
  · intro h f w hw
    refine h f ?_ w hw
    have there : f.index < t.fibers.size := of_decide_eq_true (has_of_twin hw)
    exact List.mem_map.mpr ⟨f.index, List.mem_range.mpr there, rfl⟩

instance (t : Tree) : Decidable t.TwinsMutual := decidable_of_iff _ twinsMutual_iff.symm

theorem Stands.not_mem (stands : t.Stands b F) (way : t.OnWay b p) : p ∉ F.fibers := by
  rcases way with rfl | above
  · exact (List.nodup_cons.mp stands.once).1
  · exact stands.outside p above

/-- A spread leaves the way up from its start as it is. -/
theorem Stands.parent_spread (stands : t.Stands s.start F) (way : t.OnWay s.start p) :
    ((t.spread s).fiber p).parent = (t.fiber p).parent :=
  parent_spread_of_not_looks stands.there stands.spans stands.once fun looks =>
    stands.not_mem way ((below_iff_mem stands.spans).mp looks.1)

/-- A way up is the same in a tree in which all fibers on it have the same parents. -/
theorem above_congr_of_onWay
    (parent : ∀ q, t.OnWay f q → (t'.fiber q).parent = (t.fiber q).parent) :
    t'.Above f p ↔ t.Above f p := by
  constructor <;> intro above
  · induction above with
    | parent up => exact .parent ((parent _ (.inl rfl)).symm.trans up)
    | step up _ ih =>
      have up := (parent _ (.inl rfl)).symm.trans up
      exact .step up (ih fun q way => parent q ((onWay_step up).mpr (.inr way)))
  · induction above with
    | parent up => exact .parent ((parent _ (.inl rfl)).trans up)
    | step up _ ih =>
      exact .step ((parent _ (.inl rfl)).trans up)
        (ih fun q way => parent q ((onWay_step up).mpr (.inr way)))

/-- The way up from a fiber that a spread looked at runs through the fibers between, to the
start and on. -/
theorem above_spread (stands : t.Stands s.start F) (looks : t.Looks s f) :
    (t.spread s).Above f y ↔ t.Below s.start y ∧ t.Below y f ∨ t.OnWay s.start y := by
  have there := stands.there
  have spans := stands.spans
  have once := stands.once
  have onceF := (List.nodup_cons.mp once).2
  obtain ⟨path, found⟩ := Forest.exists_at_of_mem ((below_iff_mem spans).mp looks.1)
  rw [← mem_path_iff spans onceF found]
  induction path generalizing f with
  | nil =>
    obtain ⟨p, upper, child, up⟩ := parent_spread_of_looks there spans once looks
    have top : p = s.start := by
      refine upper.resolve_right fun below => ?_
      obtain ⟨more, found'⟩ := Forest.exists_at_of_mem ((below_iff_mem spans).mp below)
      cases Forest.at_unique onceF found ((at_cons_iff spans).mpr ⟨found', child⟩)
    rw [Above.cases_parent up, top, above_congr_of_onWay fun q => stands.parent_spread]
    simp [OnWay]
  | cons g path ih =>
    obtain ⟨p, upper, child, up⟩ := parent_spread_of_looks there spans once looks
    obtain ⟨foundG, -⟩ := (at_cons_iff spans).mp found
    have inPath := fun q => mem_path_iff (g := q) spans onceF found
    have same : p = g := by
      rcases upper with rfl | below
      · cases Forest.at_unique onceF found ((listed_iff_at spans).mp child)
      · obtain ⟨more, found'⟩ := Forest.exists_at_of_mem ((below_iff_mem spans).mp below)
        have equal := Forest.at_unique onceF found ((at_cons_iff spans).mpr ⟨found', child⟩)
        exact (List.cons.inj equal).1.symm
    subst same
    have looksG : t.Looks s p := by
      obtain ⟨below, lower⟩ := (inPath p).mp (.head _)
      exact ⟨below, fun q upper inner => looks.2 q upper (inner.trans lower)⟩
    have further : (t.spread s).Above p y ↔ y ∈ path ∨ t.OnWay s.start y := ih looksG foundG
    rw [Above.cases_parent up, further, List.mem_cons, or_assoc]

/-! ## Starting a twin -/

/-- `t'` differs from `t` at `w`, which was put below the parent of `c`, and in the twin of
`c`. -/
structure Twinned (t t' : Tree) (c w : FiberId) : Prop where
  placed : (t'.fiber w).parent = (t.fiber c).parent
  parent : ∀ h, h ≠ w → (t'.fiber h).parent = (t.fiber h).parent
  fiber : ∀ h, h ≠ w → h ≠ c → t'.fiber h = t.fiber h

/-- The twin is the one that the fiber had, or a new one. -/
theorem twinned_startTwin (there : t.fibers.has c)
    (back : ∀ w, (t.fiber c).twin = some w → (t.fiber w).twin = some c) (value : Option Value) :
    ∃ w t', t.startTwin c value = (w, t') ∧ Twinned t t' c w ∧ t'.fibers.has w ∧
      ((t.fiber c).twin = some w ∨ (t.fiber c).twin = none ∧ t.fibers.has w = false) := by
  obtain ⟨w, t', origin, run, has, -, status, fiber⟩ := fiber_startTwin there back value
  refine ⟨w, t', run, ⟨?_, fun h new => ?_, fun h new old => ?_⟩, has,
    status.imp And.left And.left⟩
  · rw [fiber, if_pos rfl]
  · rw [fiber, if_neg new]
    split
    next same => rw [same]
    next => rfl
  · rw [fiber, if_neg new, if_neg old]

/-- What changed above the fiber changed above the fiber and its twin, if neither is on the way
up or the twin of a fiber there. -/
theorem Twinned.changedFrom {w u : FiberId} (twinned : Twinned t t' c w) (either : u = w ∨ u = c)
    (above : t.Above c p) (changed : t.ChangedAt p k)
    (clear : ∀ y, t.Above c y → y ≠ w ∧ y ≠ c ∧ (t.fiber y).twin ≠ some w ∧
      (t.fiber y).twin ≠ some c) : t'.ChangedFrom u k := by
  have same : ∀ y, t.Above c y → t'.fiber y = t.fiber y := fun y hy =>
    twinned.fiber y (clear y hy).1 (clear y hy).2.1
  have changed' : t'.ChangedAt p k := by
    obtain ⟨q, twin, differs⟩ := changed
    have other : t'.fiber q = t.fiber q := twinned.fiber q
      (fun e => (clear p above).2.2.1 (e ▸ twin)) (fun e => (clear p above).2.2.2 (e ▸ twin))
    refine ⟨q, ?_, ?_⟩
    · rw [same p above, twin]
    · rw [same p above, other]
      exact differs
  obtain ⟨g, up⟩ : ∃ g, (t.fiber c).parent = some g := by
    cases above with
    | parent up => exact ⟨_, up⟩
    | step up => exact ⟨_, up⟩
  have up' : (t'.fiber u).parent = some g := by
    rcases either with rfl | rfl
    · exact twinned.placed.trans up
    · by_cases e : u = w
      · subst e
        exact twinned.placed.trans up
      · exact (twinned.parent u e).trans up
  have kept : ∀ q, t.OnWay g q → (t'.fiber q).parent = (t.fiber q).parent := fun q way =>
    congrArg Fiber.parent (same q ((Above.cases_parent up).mpr way))
  refine ⟨p, .inr ((Above.cases_parent up').mpr ?_), changed'⟩
  exact ((Above.cases_parent up).mp above).imp id (above_congr_of_onWay kept).mpr

/-! ## The walk past a fiber that needs propagation -/

/-- The walk up from a fiber collects all changes, if the parent needs propagation and the
fiber itself has not spread changes before. -/
theorem changedAbove_of_needs {u : FiberId} (valid : t.ParentsThere)
    (up : (t.fiber f).parent = some u) (needs : (t.fiber u).flags.needsPropagation)
    (free : (t.fiber f).flags.didPropagate → (t.fiber f).flags.needsPropagation)
    (ready : ∀ p, t.OnWay f p → (t.fiber p).tag.provides → (t.fiber p).twin ≠ none) :
    ∃ contexts, t.changedAbove f = .ok contexts ∧ ∀ k, k ∈ contexts ↔ t.ChangedFrom f k := by
  obtain ⟨contexts, ok⟩ :=
    exists_changedAlong t false fun p mem => ready p ((onWay_iff_mem valid).mpr mem)
  refine ⟨contexts, ok, fun k => ?_⟩
  obtain ⟨more, next⟩ : ∃ more, t.ancestors f = u :: more := by
    have there : f.index < t.fibers.size := of_decide_eq_true (has_of_parent up)
    obtain ⟨n, size⟩ : ∃ n, t.fibers.size = n + 1 := ⟨t.fibers.size - 1, by omega⟩
    exact ⟨t.climb n u, by rw [ancestors, size, climb_succ, up]⟩
  obtain ⟨seen, rest, split, collected, stops⟩ := changedAlong_split ok
  cases rest with
  | nil =>
    rw [List.append_nil] at split
    rw [collected, ← split]
    simp only [← onWay_iff_mem valid, ChangedFrom]
  | cons g above =>
    -- The walk cannot have stopped at the fiber, at its parent, or after it passed the parent.
    obtain ⟨-, did, quiet, before⟩ := stops g above rfl
    rw [next] at split
    exfalso
    cases seen with
    | nil =>
      obtain ⟨rfl, -⟩ := List.cons.inj split
      rw [free did] at quiet
      cases quiet
    | cons h seen =>
      obtain ⟨-, split⟩ := List.cons.inj split
      cases seen with
      | nil =>
        obtain ⟨rfl, -⟩ := List.cons.inj split
        rw [needs] at quiet
        cases quiet
      | cons q seen =>
        obtain ⟨rfl, -⟩ := List.cons.inj split
        have silent := before u (by simp)
        rw [needs] at silent
        cases silent

end Tree

end ConcurrentRender
