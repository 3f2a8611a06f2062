import ConcurrentRender.Proofs.Tree.Ancestors
import ConcurrentRender.Staging.Ascent

/-!
# What raising a lane changes

`Tree.raise` changes lanes and nothing else, so every way up stays as it is
(`Tree.SameShape`), and it changes them exactly where it should.

Results:
1. `sameShape_markPath`: making a lane known leaves the shape of the tree alone, also when
   it fails.
2. `mem_lanes_raise`, `mem_childLanes_raise`: a lane raised from a fiber is added to the
   lanes of the fiber and its twin, to the child lanes of the fibers above and their twins,
   and nowhere else.
-/

namespace ConcurrentRender

/-- The fiber without its lanes. -/
def Fiber.bare (x : Fiber) : Fiber := { x with lanes := ∅, childLanes := ∅ }

namespace Tree

/-- `t'` has the fibers of `t`, with other lanes perhaps. -/
structure SameShape (t t' : Tree) : Prop where
  size : t'.fibers.size = t.fibers.size
  bare : ∀ f, (t'.fiber f).bare = (t.fiber f).bare

variable {t t' t'' : Tree}

namespace SameShape

theorem refl (t : Tree) : SameShape t t := ⟨rfl, fun _ => rfl⟩

theorem trans (h : SameShape t t') (h' : SameShape t' t'') : SameShape t t'' :=
  ⟨h'.size.trans h.size, fun f => (h'.bare f).trans (h.bare f)⟩

theorem parent (h : SameShape t t') (f : FiberId) : (t'.fiber f).parent = (t.fiber f).parent := by
  simpa only [Fiber.bare] using congrArg Fiber.parent (h.bare f)

theorem twin (h : SameShape t t') (f : FiberId) : (t'.fiber f).twin = (t.fiber f).twin := by
  simpa only [Fiber.bare] using congrArg Fiber.twin (h.bare f)

theorem tag (h : SameShape t t') (f : FiberId) : (t'.fiber f).tag = (t.fiber f).tag := by
  simpa only [Fiber.bare] using congrArg Fiber.tag (h.bare f)

theorem inst (h : SameShape t t') (f : FiberId) : (t'.fiber f).inst = (t.fiber f).inst := by
  simpa only [Fiber.bare] using congrArg Fiber.inst (h.bare f)

theorem flags (h : SameShape t t') (f : FiberId) : (t'.fiber f).flags = (t.fiber f).flags := by
  simpa only [Fiber.bare] using congrArg Fiber.flags (h.bare f)

theorem has (h : SameShape t t') (f : FiberId) : t'.fibers.has f = t.fibers.has f := by
  simp only [Arena.has, h.size]

theorem ancestors (h : SameShape t t') (f : FiberId) : t'.ancestors f = t.ancestors f := by
  have same : ∀ n f, t'.climb n f = t.climb n f := by
    intro n
    induction n with
    | zero => intro f; rfl
    | succ n ih => intro f; simp only [climb_succ, h.parent, ih]
  simp only [Tree.ancestors, h.size, same]

theorem top (h : SameShape t t') (f : FiberId) : t'.top f = t.top f := by
  simp only [Tree.top, h.ancestors]

theorem rootOf? (h : SameShape t t') (f : FiberId) : t'.rootOf? f = t.rootOf? f := by
  simp only [Tree.rootOf?, h.tag, h.inst]

theorem findRoot? (h : SameShape t t') (f : FiberId) : t'.findRoot? f = t.findRoot? f := by
  simp only [Tree.findRoot?, h.top, h.rootOf?]

theorem summit (h : SameShape t t') (f : FiberId) : t'.summit f = t.summit f := by
  simp only [Tree.summit, h.top, h.rootOf?, h.flags]

theorem above (h : SameShape t t') (f p : FiberId) : t'.Above f p ↔ t.Above f p :=
  Above.congr h.parent

theorem parentsThere (h : SameShape t t') (valid : t.ParentsThere) : t'.ParentsThere := by
  intro f p hp
  rw [h.has]
  exact valid f p ((h.parent f).symm.trans hp)

theorem of_setFiber {g : Fiber → Fiber} (hg : ∀ x, (g x).bare = x.bare) (t : Tree) (f : FiberId) :
    SameShape t (t.setFiber f g) := by
  refine ⟨size_setFiber t f g, fun h => ?_⟩
  rw [fiber_setFiber]
  split
  · exact hg _
  · rfl

theorem of_setTwins {g : Fiber → Fiber} (hg : ∀ x, (g x).bare = x.bare) (t : Tree) (f : FiberId) :
    SameShape t (t.setTwins f g) :=
  keeps_setTwins (R := SameShape) trans (of_setFiber hg) t f

/-- Changes outside the fibers leave the shape alone. -/
theorem of_fibers_eq (h : t'.fibers = t.fibers) : SameShape t t' := by
  refine ⟨by rw [h], fun f => ?_⟩
  simp only [fiber, h]

end SameShape

theorem sameShape_addLanes (t : Tree) (f : FiberId) (lanes : LaneSet) :
    SameShape t (t.addLanes f lanes) := by
  unfold addLanes
  exact .of_setTwins (fun _ => by rfl) t f

theorem sameShape_addChildLanes (t : Tree) (f : FiberId) (lanes : LaneSet) :
    SameShape t (t.addChildLanes f lanes) := by
  unfold addChildLanes
  exact .of_setTwins (fun _ => by rfl) t f

theorem sameShape_foldl_addChildLanes (fs : List FiberId) (lanes : LaneSet) (t : Tree) :
    SameShape t (fs.foldl (fun t f => t.addChildLanes f lanes) t) := by
  induction fs generalizing t with
  | nil => exact .refl t
  | cons f fs ih => exact (sameShape_addChildLanes t f lanes).trans (ih _)

theorem sameShape_raise (t : Tree) (source : FiberId) (lane : LaneSet) :
    SameShape t (t.raise source lane) :=
  (sameShape_addLanes t source lane).trans (sameShape_foldl_addChildLanes _ lane _)

/-- Putting an update aside changes no fiber. -/
theorem fibers_parkBelow (t : Tree) (source : FiberId) (update : Option UpdateId)
    (lane : LaneSet) : (t.parkBelow source update lane).fibers = t.fibers := by
  unfold parkBelow
  split <;> rfl

/-- Of the fibers, making a lane known changes what raising the lane changes. -/
theorem fibers_markPath (t : Tree) (source : FiberId) (update : Option UpdateId)
    (lane : LaneSet) :
    (markPath source update lane t).state.fibers = (t.raise source lane).fibers := by
  unfold markPath
  dsimp only
  split
  · exact fibers_parkBelow _ _ _ _
  · rfl
  · rfl

theorem sameShape_markPath (t : Tree) (source : FiberId) (update : Option UpdateId)
    (lane : LaneSet) : SameShape t (markPath source update lane t).state :=
  (sameShape_raise t source lane).trans (.of_fibers_eq (fibers_markPath t source update lane))

theorem onlyFibers_foldl_addChildLanes (fs : List FiberId) (lanes : LaneSet) (t : Tree) :
    OnlyFibers t (fs.foldl (fun t f => t.addChildLanes f lanes) t) := by
  induction fs generalizing t with
  | nil => exact .refl t
  | cons f fs ih => exact (OnlyFibers.setTwins t f _).trans (ih _)

theorem onlyFibers_raise (t : Tree) (source : FiberId) (lane : LaneSet) :
    OnlyFibers t (t.raise source lane) :=
  (OnlyFibers.setTwins t source _).trans (onlyFibers_foldl_addChildLanes _ lane _)

/-- No root is changed when a lane is made known. -/
theorem roots_markPath (t : Tree) (source : FiberId) (update : Option UpdateId)
    (lane : LaneSet) : (markPath source update lane t).state.roots = t.roots := by
  have raised := (onlyFibers_raise t source lane).roots
  unfold markPath
  dsimp only
  split
  · unfold parkBelow
    split <;> exact raised
  · exact raised
  · exact raised

/-! ## Where the lane is added -/

/-- `t.Beside f h`: the fiber `h` is `f` or its twin. -/
def Beside (t : Tree) (f h : FiberId) : Prop := f = h ∨ (t.fiber f).twin = some h

instance (t : Tree) (f h : FiberId) : Decidable (t.Beside f h) :=
  inferInstanceAs (Decidable (_ ∨ _))

theorem SameShape.beside (h : SameShape t t') (f g : FiberId) : t'.Beside f g ↔ t.Beside f g := by
  simp only [Beside, h.twin]

/-- A change of twins is seen at the two of them only. A change that adds something may be
made twice, which is what happens to a fiber that is its own twin. -/
theorem fiber_setTwins {g : Fiber → Fiber} (twice : ∀ x, g (g x) = g x) (t : Tree)
    (f h : FiberId) :
    (t.setTwins f g).fiber h =
      if t.Beside f h ∧ t.fibers.has h then g (t.fiber h) else t.fiber h := by
  unfold setTwins Beside
  dsimp only
  split
  next hw => simp [hw, fiber_setFiber]
  next w hw =>
    simp only [hw, fiber_setFiber, has_setFiber, Option.some.injEq]
    by_cases hf : f = h <;> by_cases hh : t.fibers.has h <;> by_cases hwh : w = h <;>
      simp [hf, hh, hwh, twice]

theorem union_twice (a b : LaneSet) : a ∪ b ∪ b = a ∪ b :=
  LaneSet.ext_mem fun l => by simp only [LaneSet.mem_union]; tauto

theorem fiber_addLanes (t : Tree) (f h : FiberId) (lanes : LaneSet) :
    (t.addLanes f lanes).fiber h =
      if t.Beside f h ∧ t.fibers.has h then
        { t.fiber h with lanes := (t.fiber h).lanes ∪ lanes }
      else t.fiber h :=
  fiber_setTwins (fun x => by simp only [union_twice]) t f h

theorem fiber_addChildLanes (t : Tree) (f h : FiberId) (lanes : LaneSet) :
    (t.addChildLanes f lanes).fiber h =
      if t.Beside f h ∧ t.fibers.has h then
        { t.fiber h with childLanes := (t.fiber h).childLanes ∪ lanes }
      else t.fiber h :=
  fiber_setTwins (fun x => by simp only [union_twice]) t f h

theorem mem_lanes_addLanes {f h : FiberId} {lanes : LaneSet} {l : Lane} :
    l ∈ ((t.addLanes f lanes).fiber h).lanes ↔
      l ∈ (t.fiber h).lanes ∨ l ∈ lanes ∧ t.Beside f h ∧ t.fibers.has h := by
  rw [fiber_addLanes]
  split <;> simp_all

@[simp] theorem childLanes_addLanes (t : Tree) (f h : FiberId) (lanes : LaneSet) :
    ((t.addLanes f lanes).fiber h).childLanes = (t.fiber h).childLanes := by
  rw [fiber_addLanes]
  split <;> rfl

theorem mem_childLanes_addChildLanes {f h : FiberId} {lanes : LaneSet} {l : Lane} :
    l ∈ ((t.addChildLanes f lanes).fiber h).childLanes ↔
      l ∈ (t.fiber h).childLanes ∨ l ∈ lanes ∧ t.Beside f h ∧ t.fibers.has h := by
  rw [fiber_addChildLanes]
  split <;> simp_all

@[simp] theorem lanes_addChildLanes (t : Tree) (f h : FiberId) (lanes : LaneSet) :
    ((t.addChildLanes f lanes).fiber h).lanes = (t.fiber h).lanes := by
  rw [fiber_addChildLanes]
  split <;> rfl

/-- Adding a lane along a path adds it beside each fiber of the path. -/
theorem mem_childLanes_foldl {fs : List FiberId} {lane : LaneSet} {h : FiberId} {l : Lane} :
    l ∈ ((fs.foldl (fun t f => t.addChildLanes f lane) t).fiber h).childLanes ↔
      l ∈ (t.fiber h).childLanes ∨
        l ∈ lane ∧ t.fibers.has h ∧ ∃ a ∈ fs, t.Beside a h := by
  induction fs generalizing t with
  | nil => simp
  | cons f fs ih =>
    have shape := sameShape_addChildLanes t f lane
    simp only [List.foldl_cons, ih, mem_childLanes_addChildLanes, shape.has, shape.beside,
      List.mem_cons, exists_eq_or_imp]
    tauto

theorem lanes_foldl (fs : List FiberId) (lane : LaneSet) (t : Tree) (h : FiberId) :
    ((fs.foldl (fun t f => t.addChildLanes f lane) t).fiber h).lanes = (t.fiber h).lanes := by
  induction fs generalizing t with
  | nil => rfl
  | cons f fs ih => rw [List.foldl_cons, ih, lanes_addChildLanes]

theorem mem_lanes_raise {source h : FiberId} {lane : LaneSet} {l : Lane} :
    l ∈ ((t.raise source lane).fiber h).lanes ↔
      l ∈ (t.fiber h).lanes ∨ l ∈ lane ∧ t.Beside source h ∧ t.fibers.has h := by
  rw [raise, lanes_foldl, mem_lanes_addLanes]

theorem mem_childLanes_raise {source h : FiberId} {lane : LaneSet} {l : Lane} :
    l ∈ ((t.raise source lane).fiber h).childLanes ↔
      l ∈ (t.fiber h).childLanes ∨
        l ∈ lane ∧ t.fibers.has h ∧ ∃ a ∈ t.ancestors source, t.Beside a h := by
  have shape := sameShape_addLanes t source lane
  rw [raise, mem_childLanes_foldl, childLanes_addLanes]
  simp only [shape.has, shape.beside]

end Tree

end ConcurrentRender
