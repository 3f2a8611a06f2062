import Mathlib.Data.List.Nodup
import Mathlib.Data.List.Perm.Subperm
import ConcurrentRender.Tree.Boundary
import ConcurrentRender.Tree.Ring

/-!
# What a change of a tree leaves alone

A tree has five arenas, and every operation changes few of them at few places. The lemmas
of the first part read an arena after a change. `Tree.Placewise R` says that a relation holds after
any change of the places of fibers, hence after all operations on links. `Tree.OnlyFibers t t'` says
that nothing but fibers differs, and is one such relation.
-/

namespace ConcurrentRender

/-- What is not there reads as the default entry. -/
theorem Arena.get_of_not_has {k : Kind} {α : Type} [Inhabited α] {a : Arena k α} {i : Id k}
    (h : a.has i = false) : a.get i = default := by
  have absent : a.items.size ≤ i.index := Nat.not_lt.mp (of_decide_eq_false h)
  simp [Arena.get, Arena.get?, absent]

theorem Arena.not_has_next {k : Kind} {α : Type} (a : Arena k α) : a.has a.next = false :=
  decide_eq_false (Nat.lt_irrefl _)

/-- An arena that grew has what it had. -/
theorem Arena.has_of_size_le {k : Kind} {α : Type} {a b : Arena k α} {i : Id k}
    (grows : a.size ≤ b.size) (there : a.has i) : b.has i :=
  decide_eq_true (Nat.lt_of_lt_of_le (of_decide_eq_true there) grows)

theorem Arena.has_add {k : Kind} {α : Type} {a : Arena k α} {x : α} {i : Id k} :
    (a.add x).has i ↔ i = a.next ∨ a.has i := by
  have named : i = a.next ↔ i.index = a.size := by
    cases i
    simp [next]
  simp only [has, size_add, decide_eq_true_eq, named]
  omega

/-- Every other entry reads the same after one was added. -/
theorem Arena.get_add {k : Kind} {α : Type} [Inhabited α] (a : Arena k α) (x : α) (i : Id k) :
    (a.add x).get i = if i = a.next then x else a.get i := by
  split
  next h => subst h; exact Arena.get_add_next ..
  next h =>
    by_cases present : a.has i
    · exact Arena.get_add_of_lt _ _ _ present
    · have absent : ¬ (a.add x).has i := fun there => present ((has_add.mp there).resolve_left h)
      rw [get_of_not_has (Bool.eq_false_iff.mpr absent),
        get_of_not_has (Bool.eq_false_iff.mpr present)]

/-- What a new entry has in common with the default one was read at its name before. -/
theorem Arena.read_add {k : Kind} {α β : Type} [Inhabited α] (read : α → β) (a : Arena k α)
    (x : α) (same : read x = read default) (i : Id k) :
    read ((a.add x).get i) = read (a.get i) := by
  rw [get_add]
  split
  next named => rw [named, get_of_not_has (not_has_next a), same]
  next => rfl

/-- Different names of entries are no more than there are entries. -/
theorem Arena.length_le_size {k : Kind} {α : Type} (a : Arena k α) {is : List (Id k)}
    (nodup : is.Nodup) (there : ∀ i ∈ is, a.has i) : is.length ≤ a.size := by
  have indices : (is.map Id.index).Nodup :=
    List.Nodup.map (fun a b h => by cases a; cases b; cases h; rfl) nodup
  have bound : is.map Id.index ⊆ List.range a.size := by
    intro n hn
    obtain ⟨i, hi, rfl⟩ := List.mem_map.mp hn
    exact List.mem_range.mpr (of_decide_eq_true (there i hi))
  simpa using (indices.subperm bound).length_le

/-- What of a fiber does not depend on its place in a tree, without its marks. -/
def Fiber.unplaced (x : Fiber) : Fiber :=
  { x with
    parent := none
    child := none
    sibling := none
    flags := {} }

namespace Tree

variable {t t' t'' : Tree}

/-! ## Reading after a change -/

theorem fiber_setFiber (t : Tree) (f h : FiberId) (g : Fiber → Fiber) :
    (t.setFiber f g).fiber h = if f = h ∧ t.fibers.has h then g (t.fiber h) else t.fiber h :=
  Arena.get_modify ..

theorem queue_setQueue (t : Tree) (q p : QueueId) (g : UpdateQueue → UpdateQueue) :
    (t.setQueue q g).queue p = if q = p ∧ t.queues.has p then g (t.queue p) else t.queue p :=
  Arena.get_modify ..

theorem update_setUpdate (t : Tree) (u v : UpdateId) (g : Update → Update) :
    (t.setUpdate u g).update v = if u = v ∧ t.updates.has v then g (t.update v) else t.update v :=
  Arena.get_modify ..

theorem root_setRoot (t : Tree) (r s : RootId) (g : Root → Root) :
    (t.setRoot r g).root s = if r = s ∧ t.roots.has s then g (t.root s) else t.root s :=
  Arena.get_modify ..

@[simp] theorem size_setFiber (t : Tree) (f : FiberId) (g : Fiber → Fiber) :
    (t.setFiber f g).fibers.size = t.fibers.size := Arena.size_modify ..

@[simp] theorem size_setUpdate (t : Tree) (u : UpdateId) (g : Update → Update) :
    (t.setUpdate u g).updates.size = t.updates.size := Arena.size_modify ..

@[simp] theorem size_setQueue (t : Tree) (q : QueueId) (g : UpdateQueue → UpdateQueue) :
    (t.setQueue q g).queues.size = t.queues.size := Arena.size_modify ..

@[simp] theorem size_setRoot (t : Tree) (r : RootId) (g : Root → Root) :
    (t.setRoot r g).roots.size = t.roots.size := Arena.size_modify ..

@[simp] theorem has_setFiber (t : Tree) (f h : FiberId) (g : Fiber → Fiber) :
    (t.setFiber f g).fibers.has h = t.fibers.has h := by
  simp only [Arena.has, size_setFiber]

@[simp] theorem has_setUpdate (t : Tree) (u v : UpdateId) (g : Update → Update) :
    (t.setUpdate u g).updates.has v = t.updates.has v := by
  simp only [Arena.has, size_setUpdate]

@[simp] theorem has_setQueue (t : Tree) (q p : QueueId) (g : UpdateQueue → UpdateQueue) :
    (t.setQueue q g).queues.has p = t.queues.has p := by
  simp only [Arena.has, size_setQueue]

@[simp] theorem has_setRoot (t : Tree) (r s : RootId) (g : Root → Root) :
    (t.setRoot r g).roots.has s = t.roots.has s := by
  simp only [Arena.has, size_setRoot]

/-- A fiber that is not there reads as one without links and lanes. -/
theorem fiber_of_not_has {f : FiberId} (h : t.fibers.has f = false) : t.fiber f = default :=
  Arena.get_of_not_has h

theorem queue_of_not_has {q : QueueId} (h : t.queues.has q = false) : t.queue q = default :=
  Arena.get_of_not_has h

/-- A fiber that is not the default one in every respect is there. -/
theorem has_of_ne_default {α : Type} (view : Fiber → α) {f : FiberId}
    (other : view (t.fiber f) ≠ view default) : t.fibers.has f := by
  by_contra absent
  exact other (congrArg view (fiber_of_not_has (Bool.eq_false_iff.mpr absent)))

theorem has_of_parent {f p : FiberId} (up : (t.fiber f).parent = some p) : t.fibers.has f :=
  has_of_ne_default (·.parent) (by rw [up]; nofun)

theorem has_of_twin {f w : FiberId} (twin : (t.fiber f).twin = some w) : t.fibers.has f :=
  has_of_ne_default (·.twin) (by rw [twin]; nofun)

theorem has_of_marked {f : FiberId} (marked : (t.fiber f).flags.detached = true) :
    t.fibers.has f :=
  has_of_ne_default (·.flags.detached) (by rw [marked]; nofun)

/-- Showing a boundary changes it and updates, but no fibers, roots and queues. -/
theorem frame_reveal (t : Tree) (b : BoundaryId) (lanes : LaneSet) :
    (t.reveal b lanes).2.fibers = t.fibers ∧ (t.reveal b lanes).2.roots = t.roots ∧
      (t.reveal b lanes).2.queues = t.queues := by
  have steps : ∀ (us : List UpdateId) (t : Tree),
      let t' := us.foldl
        (fun t u => t.setUpdate u fun y => { y with lane := y.lane \ LaneSet.offscreenLane }) t
      t'.fibers = t.fibers ∧ t'.roots = t.roots ∧ t'.queues = t.queues := by
    intro us
    induction us with
    | nil => exact fun _ => ⟨rfl, rfl, rfl⟩
    | cons u us ih => exact fun t => ih _
  exact steps _ _

/-- What a change of one fiber keeps, the same change of twins keeps. -/
theorem keeps_setTwins {R : Tree → Tree → Prop} (trans : ∀ {t t' t''}, R t t' → R t' t'' → R t t'')
    {g : Fiber → Fiber} (keeps : ∀ t f, R t (t.setFiber f g)) (t : Tree) (f : FiberId) :
    R t (t.setTwins f g) := by
  unfold setTwins
  cases (t.fiber f).twin with
  | none => exact keeps t f
  | some w => exact trans (keeps t f) (keeps _ w)

/-- Taking a child out of a list changes one link, if any. -/
theorem unlinkChild_cases (t : Tree) (p c : FiberId) :
    t.unlinkChild p c = t ∨
      (∃ f, t.unlinkChild p c = t.setFiber f fun x => { x with child := (t.fiber c).sibling }) ∨
      ∃ f, t.unlinkChild p c = t.setFiber f fun x => { x with sibling := (t.fiber c).sibling } := by
  unfold unlinkChild
  dsimp only
  split
  · exact .inr (.inl ⟨p, rfl⟩)
  · cases (t.children p).find? fun f => (t.fiber f).sibling == some c with
    | none => exact .inl rfl
    | some before => exact .inr (.inr ⟨before, rfl⟩)

/-! ## Changes of places -/

/-- The relation holds after any change of single fibers that leaves everything but their places and
marks alone. -/
structure Placewise (R : Tree → Tree → Prop) : Prop where
  refl : ∀ t, R t t
  trans : ∀ {t t' t''}, R t t' → R t' t'' → R t t''
  setFiber : ∀ {k : Fiber → Fiber}, (∀ x, (k x).unplaced = x.unplaced) → ∀ t f,
    R t (t.setFiber f k)

namespace Placewise

variable {R : Tree → Tree → Prop} (placewise : Placewise R)
include placewise

theorem appendChild (t : Tree) (p c : FiberId) : R t (t.appendChild p c) := by
  have linked : R t (t.setFiber c fun x => { x with parent := some p, sibling := none }) :=
    placewise.setFiber (fun _ => by rfl) t c
  unfold Tree.appendChild
  dsimp only
  split
  · exact placewise.trans linked (placewise.setFiber (fun _ => by rfl) _ p)
  · exact placewise.trans linked (placewise.setFiber (fun _ => by rfl) _ _)

theorem unlinkChild (t : Tree) (p c : FiberId) : R t (t.unlinkChild p c) := by
  rcases t.unlinkChild_cases p c with same | ⟨f, same⟩ | ⟨f, same⟩ <;> rw [same]
  · exact placewise.refl t
  · exact placewise.setFiber (fun _ => by rfl) t f
  · exact placewise.setFiber (fun _ => by rfl) t f

theorem detachOne (t : Tree) (f : FiberId) : R t (t.detachOne f) := by
  unfold Tree.detachOne
  cases (t.fiber f).parent with
  | none => exact placewise.setFiber (fun _ => by rfl) t f
  | some p =>
    exact placewise.trans (placewise.unlinkChild t p f)
      (placewise.setFiber (fun _ => by rfl) _ f)

theorem detach (t : Tree) (f : FiberId) : R t (t.detach f) := by
  unfold Tree.detach
  cases (t.fiber f).twin with
  | none => exact placewise.detachOne t f
  | some w => exact placewise.trans (placewise.detachOne t f) (placewise.detachOne _ w)

end Placewise

/-! ## Changes of fibers only -/

/-- `t'` differs from `t` in fibers only. -/
structure OnlyFibers (t t' : Tree) : Prop where
  roots : t'.roots = t.roots
  queues : t'.queues = t.queues
  updates : t'.updates = t.updates
  boundaries : t'.boundaries = t.boundaries

namespace OnlyFibers

theorem refl (t : Tree) : OnlyFibers t t := ⟨rfl, rfl, rfl, rfl⟩

theorem trans (h : OnlyFibers t t') (h' : OnlyFibers t' t'') : OnlyFibers t t'' :=
  ⟨h'.roots.trans h.roots, h'.queues.trans h.queues, h'.updates.trans h.updates,
    h'.boundaries.trans h.boundaries⟩

theorem setFiber (t : Tree) (f : FiberId) (g : Fiber → Fiber) : OnlyFibers t (t.setFiber f g) :=
  ⟨rfl, rfl, rfl, rfl⟩

theorem setTwins (t : Tree) (f : FiberId) (g : Fiber → Fiber) :
    OnlyFibers t (t.setTwins f g) :=
  keeps_setTwins (R := OnlyFibers) trans (fun t f => setFiber t f g) t f

theorem createFiber (t : Tree) (tag : Tag) (concurrent : Bool) :
    OnlyFibers t (t.createFiber tag concurrent).2 :=
  ⟨rfl, rfl, rfl, rfl⟩

theorem placewise : Placewise OnlyFibers := ⟨refl, trans, fun _ t f => setFiber t f _⟩

theorem appendChild (t : Tree) (p c : FiberId) : OnlyFibers t (t.appendChild p c) :=
  placewise.appendChild t p c

theorem createChild (t : Tree) (p : FiberId) (tag : Tag) :
    OnlyFibers t (t.createChild p tag).2 :=
  (createFiber t tag _).trans (appendChild _ p _)

theorem ensureTwin (t : Tree) (f : FiberId) : OnlyFibers t (t.ensureTwin f).2 := by
  unfold Tree.ensureTwin
  dsimp only
  split
  · exact refl t
  · exact (createFiber t _ _).trans ((setFiber _ _ _).trans (setFiber _ _ _))

theorem startTwin (t : Tree) (f : FiberId) (value : Option Value) :
    OnlyFibers t (t.startTwin f value).2 :=
  (ensureTwin t f).trans (setFiber _ _ _)

theorem detach (t : Tree) (f : FiberId) : OnlyFibers t (t.detach f) :=
  placewise.detach t f

end OnlyFibers

end Tree

end ConcurrentRender
