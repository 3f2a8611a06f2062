import ConcurrentRender.Proofs.Tree.Raise
import ConcurrentRender.Tree.Ring

/-!
# What settled changes have in common

Settling staged changes adds lanes, links updates and puts some of them aside. Everything else in a
tree stays, and what stays already decides which boundaries are hidden (`Tree.SameCore`). Two trees
that agree on lanes and links besides may still differ in the order in which updates were put aside
(`Tree.Alike`).

Results:
1. `SameCore.appendPending`, `SameCore.raise`, `SameCore.park`: what settling a change consists of.
2. `SameCore.hiddenAbove?`: the nearest hidden boundary stays the same.
3. `SameCore.alike`: trees with the same core, lanes and links are alike.
-/

namespace ConcurrentRender

/-- Entries and their number determine an arena. -/
theorem Arena.eq_of_get {k : Kind} {α : Type} [Inhabited α] {a b : Arena k α}
    (size : a.size = b.size) (get : ∀ i, a.get i = b.get i) : a = b := by
  obtain ⟨items⟩ := a
  obtain ⟨items'⟩ := b
  refine congrArg Arena.mk (Array.ext size fun n here there => ?_)
  have same := get ⟨n⟩
  simpa [Arena.get, Arena.get?, here, there] using same

theorem Fiber.eq_of_bare {x y : Fiber} (bare : x.bare = y.bare) (lanes : x.lanes = y.lanes)
    (childLanes : x.childLanes = y.childLanes) : x = y := by
  cases x
  cases y
  simp_all [Fiber.bare]

/-- The queue without its ring. -/
def UpdateQueue.bare (x : UpdateQueue) : UpdateQueue := { x with newest := none }

theorem UpdateQueue.eq_of_bare {x y : UpdateQueue} (bare : x.bare = y.bare)
    (newest : x.newest = y.newest) : x = y := by
  cases x
  cases y
  simp_all [UpdateQueue.bare]

/-- The update without its lane and its place in a ring. -/
def Update.bare (x : Update) : Update := { x with lane := ∅, next := none }

theorem Update.eq_of_bare {x y : Update} (bare : x.bare = y.bare) (lane : x.lane = y.lane)
    (next : x.next = y.next) : x = y := by
  cases x
  cases y
  simp_all [Update.bare]

/-- The boundary without what was put aside. -/
def Boundary.bare (x : Boundary) : Boundary := { x with parked := [] }

theorem Boundary.eq_of_bare {x y : Boundary} (bare : x.bare = y.bare)
    (parked : x.parked = y.parked) : x = y := by
  cases x
  cases y
  simp_all [Boundary.bare]

namespace Tree

/-- `t'` has what is in `t`, with other lanes, links and updates put aside perhaps. -/
structure SameCore (t t' : Tree) : Prop where
  shape : t.SameShape t'
  roots : t'.roots = t.roots
  queues : t'.queues.size = t.queues.size
  queue : ∀ q, (t'.queue q).bare = (t.queue q).bare
  updates : t'.updates.size = t.updates.size
  update : ∀ u, (t'.update u).bare = (t.update u).bare
  boundaries : t'.boundaries.size = t.boundaries.size
  boundary : ∀ b, (t'.boundary b).bare = (t.boundary b).bare

variable {t t' t'' : Tree}

theorem boundary_setBoundary (t : Tree) (b c : BoundaryId) (g : Boundary → Boundary) :
    (t.setBoundary b g).boundary c =
      if b = c ∧ t.boundaries.has c then g (t.boundary c) else t.boundary c :=
  Arena.get_modify ..

theorem lane_park (t : Tree) (b : BoundaryId) (u v : UpdateId) (lanes : LaneSet) :
    ((t.park b u lanes).update v).lane =
      if u = v ∧ t.updates.has v then lanes ∪ LaneSet.offscreenLane else (t.update v).lane := by
  have read := update_setUpdate t u v fun x => { x with lane := lanes ∪ LaneSet.offscreenLane }
  refine (congrArg Update.lane read).trans ?_
  split <;> rfl

theorem parked_park (t : Tree) (b c : BoundaryId) (u : UpdateId) (lanes : LaneSet) :
    ((t.park b u lanes).boundary c).parked =
      (t.boundary c).parked ++ if b = c ∧ t.boundaries.has c then [(lanes, u)] else [] := by
  have read := boundary_setBoundary t b c fun x => { x with parked := x.parked ++ [(lanes, u)] }
  refine (congrArg Boundary.parked read).trans ?_
  split
  · rfl
  · exact (List.append_nil _).symm

/-- Joining a ring leaves the lane of every update. -/
theorem lane_appendPending (t : Tree) (q : QueueId) (u v : UpdateId) :
    ((t.appendPending q u).update v).lane = (t.update v).lane := by
  have link (t : Tree) (w : UpdateId) (next : Option UpdateId) :
      ((t.setUpdate w fun x => { x with next }).update v).lane = (t.update v).lane := by
    rw [update_setUpdate]
    split <;> rfl
  unfold appendPending
  dsimp only
  split
  · exact link t _ _
  · exact (link _ _ _).trans (link t _ _)

/-- Joining a ring puts nothing aside. -/
theorem boundaries_appendPending (t : Tree) (q : QueueId) (u : UpdateId) :
    (t.appendPending q u).boundaries = t.boundaries := by
  unfold appendPending
  dsimp only
  split <;> rfl

namespace SameCore

theorem refl (t : Tree) : SameCore t t :=
  ⟨.refl t, rfl, rfl, fun _ => rfl, rfl, fun _ => rfl, rfl, fun _ => rfl⟩

theorem trans (h : SameCore t t') (h' : SameCore t' t'') : SameCore t t'' :=
  ⟨h.shape.trans h'.shape, h'.roots.trans h.roots, h'.queues.trans h.queues,
    fun q => (h'.queue q).trans (h.queue q), h'.updates.trans h.updates,
    fun u => (h'.update u).trans (h.update u), h'.boundaries.trans h.boundaries,
    fun b => (h'.boundary b).trans (h.boundary b)⟩

theorem symm (h : SameCore t t') : SameCore t' t :=
  ⟨⟨h.shape.size.symm, fun f => (h.shape.bare f).symm⟩, h.roots.symm, h.queues.symm,
    fun q => (h.queue q).symm, h.updates.symm, fun u => (h.update u).symm, h.boundaries.symm,
    fun b => (h.boundary b).symm⟩

theorem of_onlyFibers (shape : t.SameShape t') (only : OnlyFibers t t') : SameCore t t' := by
  obtain ⟨roots, queues, updates, boundaries⟩ := only
  refine ⟨shape, roots, by rw [queues], fun q => ?_, by rw [updates], fun u => ?_,
    by rw [boundaries], fun b => ?_⟩
  · simp only [Tree.queue, queues]
  · simp only [Tree.update, updates]
  · simp only [Tree.boundary, boundaries]

theorem setQueue {g : UpdateQueue → UpdateQueue} (hg : ∀ x, (g x).bare = x.bare) (t : Tree)
    (q : QueueId) : SameCore t (t.setQueue q g) := by
  refine ⟨.of_fibers_eq rfl, rfl, size_setQueue t q g, fun p => ?_, rfl, fun _ => rfl, rfl,
    fun _ => rfl⟩
  rw [queue_setQueue]
  split
  · exact hg _
  · rfl

theorem setUpdate {g : Update → Update} (hg : ∀ x, (g x).bare = x.bare) (t : Tree)
    (u : UpdateId) : SameCore t (t.setUpdate u g) := by
  refine ⟨.of_fibers_eq rfl, rfl, rfl, fun _ => rfl, size_setUpdate t u g, fun v => ?_, rfl,
    fun _ => rfl⟩
  rw [update_setUpdate]
  split
  · exact hg _
  · rfl

theorem park (t : Tree) (b : BoundaryId) (u : UpdateId) (lanes : LaneSet) :
    SameCore t (t.park b u lanes) := by
  have kept : SameCore t
      (t.setBoundary b fun x => { x with parked := x.parked ++ [(lanes, u)] }) := by
    refine ⟨.of_fibers_eq rfl, rfl, rfl, fun _ => rfl, rfl, fun _ => rfl, Arena.size_modify ..,
      fun c => ?_⟩
    rw [boundary_setBoundary]
    split <;> rfl
  exact kept.trans (setUpdate (fun _ => by rfl) _ u)

theorem appendPending (t : Tree) (q : QueueId) (u : UpdateId) :
    SameCore t (t.appendPending q u) := by
  unfold Tree.appendPending
  dsimp only
  split
  · exact (setUpdate (fun _ => by rfl) t u).trans (setQueue (fun _ => by rfl) _ q)
  · exact ((setUpdate (fun _ => by rfl) t u).trans (setUpdate (fun _ => by rfl) _ _)).trans
      (setQueue (fun _ => by rfl) _ q)

theorem raise (t : Tree) (source : FiberId) (lane : LaneSet) :
    SameCore t (t.raise source lane) :=
  of_onlyFibers (sameShape_raise t source lane) (onlyFibers_raise t source lane)

theorem hasQueue (h : SameCore t t') (q : QueueId) : t'.queues.has q = t.queues.has q := by
  simp only [Arena.has, h.queues]

theorem hasUpdate (h : SameCore t t') (u : UpdateId) : t'.updates.has u = t.updates.has u := by
  simp only [Arena.has, h.updates]

theorem hasBoundary (h : SameCore t t') (b : BoundaryId) :
    t'.boundaries.has b = t.boundaries.has b := by
  simp only [Arena.has, h.boundaries]

theorem visible (h : SameCore t t') (b : BoundaryId) :
    (t'.boundary b).visible = (t.boundary b).visible := by
  simpa only [Boundary.bare] using congrArg Boundary.visible (h.boundary b)

/-- Which boundary is hidden does not depend on lanes, links and updates put aside. -/
theorem hiddenAbove? (h : SameCore t t') (source : FiberId) :
    t'.hiddenAbove? source = t.hiddenAbove? source := by
  have same : t'.hiddenBoundaryOf? = t.hiddenBoundaryOf? := by
    funext f
    simp only [hiddenBoundaryOf?, boundaryOf?, h.shape.tag, h.shape.inst, h.visible]
  simp only [Tree.hiddenAbove?, h.shape.ancestors, same]

end SameCore

/-! ## Trees that are alike -/

/-- `t'` is `t`, but for the order in which boundaries put updates aside. -/
structure Alike (t t' : Tree) : Prop where
  fibers : t'.fibers = t.fibers
  roots : t'.roots = t.roots
  queues : t'.queues = t.queues
  updates : t'.updates = t.updates
  boundaries : t'.boundaries.size = t.boundaries.size
  visible : ∀ b, (t'.boundary b).visible = (t.boundary b).visible
  parked : ∀ b, (t'.boundary b).parked.Perm (t.boundary b).parked

theorem Alike.parkedOn (h : t.Alike t') (b : BoundaryId) (lanes : LaneSet) :
    ((t'.boundary b).parkedOn lanes).Perm ((t.boundary b).parkedOn lanes) :=
  ((h.parked b).filter _).map _

/-- Trees with the same core are alike if they have the same lanes and links. -/
theorem SameCore.alike (core : t.SameCore t') (lanes : ∀ f, (t'.fiber f).lanes = (t.fiber f).lanes)
    (childLanes : ∀ f, (t'.fiber f).childLanes = (t.fiber f).childLanes)
    (newest : ∀ q, (t'.queue q).newest = (t.queue q).newest)
    (lane : ∀ u, (t'.update u).lane = (t.update u).lane)
    (next : ∀ u, (t'.update u).next = (t.update u).next)
    (parked : ∀ b, (t'.boundary b).parked.Perm (t.boundary b).parked) : t.Alike t' where
  fibers := Arena.eq_of_get core.shape.size fun f =>
    Fiber.eq_of_bare (core.shape.bare f) (lanes f) (childLanes f)
  roots := core.roots
  queues := Arena.eq_of_get core.queues fun q =>
    UpdateQueue.eq_of_bare (core.queue q) (newest q)
  updates := Arena.eq_of_get core.updates fun u =>
    Update.eq_of_bare (core.update u) (lane u) (next u)
  boundaries := core.boundaries
  visible := core.visible
  parked := parked

end Tree

end ConcurrentRender
