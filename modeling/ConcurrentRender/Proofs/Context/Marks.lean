import ConcurrentRender.Proofs.Context.Search
import ConcurrentRender.Proofs.Tree.Raise

/-!
# What a search writes

A search changes lanes, and parents on its way. The rest of a fiber is its `Fiber.stem`,
which stays as it is (`Tree.SameStem`).

A fiber that is looked at leaves marks, and where they go depends on the fibers above it. A
`Sight` is a fiber with those. `Tree.Marked s t vs t'` says that `t'` is `t` with the marks of
the sights `vs` and no others.

* The fiber read one of the contexts (`Tree.Reads`): it is raised with its twin.
* It is a dehydrated fragment (`Tree.Sealed`): its parent is raised in its place.

In both cases the fibers above get the lanes as child lanes, up to the start of the search.

Result: `marked_visit`, looking at one fiber leaves its marks.
-/

namespace ConcurrentRender

/-- A fiber and the fibers above it, nearest first, up to the start of a search. -/
structure Sight where
  fiber : FiberId
  line : List FiberId

/-- The fiber without what a search may change. -/
def Fiber.stem (x : Fiber) : Fiber :=
  { x with
    lanes := ∅
    childLanes := ∅
    parent := none
    dependencies := x.dependencies.map fun d => { d with lanes := ∅ } }

/-- The lanes on which a change of a context has arrived. -/
def Fiber.arrived (x : Fiber) : LaneSet := (x.dependencies.map Dependencies.lanes).getD ∅

theorem Fiber.readsAny?_stem (x : Fiber) (contexts : List ContextId) :
    x.stem.readsAny? contexts = x.readsAny? contexts := by
  simp only [readsAny?, stem, Option.map_map]
  rfl

theorem Fiber.stem_of_bare {x y : Fiber} (h : x.bare = y.bare) : x.stem = y.stem := by
  show x.bare.stem = y.bare.stem
  rw [h]

theorem Fiber.arrived_of_bare {x y : Fiber} (h : x.bare = y.bare) : x.arrived = y.arrived := by
  show x.bare.arrived = y.bare.arrived
  rw [h]

namespace Tree

variable {t t' t'' : Tree} {s : Search} {f g h p stop : FiberId} {rest : List FiberId}
  {lanes : LaneSet} {l : Lane} {contexts : List ContextId}

/-- The fiber read one of the contexts. -/
def Reads (t : Tree) (contexts : List ContextId) (f : FiberId) : Prop :=
  (t.fiber f).readsAny? contexts = some true

/-- The fiber is a dehydrated fragment that read nothing, so what is below it is unknown. -/
def Sealed (t : Tree) (f : FiberId) : Prop :=
  (t.fiber f).dependencies = none ∧ (t.fiber f).tag = .dehydratedFragment

instance (t : Tree) (contexts : List ContextId) (f : FiberId) : Decidable (t.Reads contexts f) :=
  inferInstanceAs (Decidable (_ = _))

instance (t : Tree) (f : FiberId) : Decidable (t.Sealed f) :=
  inferInstanceAs (Decidable (_ ∧ _))

theorem not_sealed_of_reads (reads : t.Reads contexts f) : ¬ t.Sealed f := by
  rintro ⟨nothing, -⟩
  simp [Reads, Fiber.readsAny?, nothing] at reads

theorem reads_iff : t.Reads contexts f ↔ ∃ k ∈ contexts, t.Reads [k] f := by
  unfold Reads Fiber.readsAny?
  cases (t.fiber f).dependencies <;> simp

/-- The search goes on below the fiber. -/
def Passes (t : Tree) (s : Search) (f : FiberId) : Prop :=
  ¬ t.Sealed f ∧ (s.forced = false → ¬ t.Reads s.contexts f)

instance (t : Tree) (s : Search) (f : FiberId) : Decidable (t.Passes s f) :=
  inferInstanceAs (Decidable (_ ∧ _))

/-! ## Trees that differ in lanes and parents -/

/-- `t'` has the fibers of `t`, with other lanes and parents perhaps. -/
structure SameStem (t t' : Tree) : Prop where
  size : t'.fibers.size = t.fibers.size
  stem : ∀ f, (t'.fiber f).stem = (t.fiber f).stem

namespace SameStem

theorem refl (t : Tree) : SameStem t t := ⟨rfl, fun _ => rfl⟩

theorem trans (same : SameStem t t') (same' : SameStem t' t'') : SameStem t t'' :=
  ⟨same'.size.trans same.size, fun f => (same'.stem f).trans (same.stem f)⟩

theorem of_sameShape (same : SameShape t t') : SameStem t t' :=
  ⟨same.size, fun f => Fiber.stem_of_bare (same.bare f)⟩

theorem setFiber {g : Fiber → Fiber} (hg : ∀ x, (g x).stem = x.stem) (t : Tree) (f : FiberId) :
    SameStem t (t.setFiber f g) := by
  refine ⟨size_setFiber t f g, fun h => ?_⟩
  rw [fiber_setFiber]
  split
  · exact hg _
  · rfl

theorem setParent (t : Tree) (f : FiberId) (parent : Option FiberId) :
    SameStem t (t.setParent f parent) :=
  setFiber (fun _ => by rfl) t f

variable (same : SameStem t t')
include same

theorem read {α : Type} (read : Fiber → α) (f : FiberId) :
    read (t'.fiber f).stem = read (t.fiber f).stem := by
  rw [same.stem]

theorem child (f : FiberId) : (t'.fiber f).child = (t.fiber f).child := same.read Fiber.child f

theorem sibling (f : FiberId) : (t'.fiber f).sibling = (t.fiber f).sibling :=
  same.read Fiber.sibling f

theorem twin (f : FiberId) : (t'.fiber f).twin = (t.fiber f).twin := same.read Fiber.twin f

theorem tag (f : FiberId) : (t'.fiber f).tag = (t.fiber f).tag := same.read Fiber.tag f

theorem flags (f : FiberId) : (t'.fiber f).flags = (t.fiber f).flags := same.read Fiber.flags f

theorem readsAny? (f : FiberId) (contexts : List ContextId) :
    (t'.fiber f).readsAny? contexts = (t.fiber f).readsAny? contexts := by
  rw [← Fiber.readsAny?_stem, same.stem, Fiber.readsAny?_stem]

theorem has (f : FiberId) : t'.fibers.has f = t.fibers.has f := by
  simp only [Arena.has, same.size]

theorem reads : t'.Reads contexts f ↔ t.Reads contexts f := by
  rw [Reads, same.readsAny?, Reads]

theorem sealed : t'.Sealed f ↔ t.Sealed f := by
  have nothing : (t'.fiber f).dependencies = none ↔ (t.fiber f).dependencies = none := by
    have equal := same.readsAny? f []
    unfold Fiber.readsAny? at equal
    rw [← Option.map_eq_none_iff, equal, Option.map_eq_none_iff]
  rw [Sealed, nothing, same.tag, Sealed]

theorem passes : t'.Passes s f ↔ t.Passes s f := by
  rw [Passes, same.sealed, same.reads, Passes]

theorem beside : t'.Beside f g ↔ t.Beside f g := by
  simp only [Beside, same.twin]

theorem spans {first : Option FiberId} {F : Forest} (spans : t.Spans first F) :
    t'.Spans first F :=
  spans.congr same.size same.child same.sibling

end SameStem

/-! ## The way up to the start -/

/-- The links to parents lead along the list, which ends at `stop` and nowhere before. -/
def Line (t : Tree) (stop : FiberId) : List FiberId → Prop
  | [] => False
  | [f] => f = stop
  | f :: p :: rest => f ≠ stop ∧ (t.fiber f).parent = some p ∧ t.Line stop (p :: rest)

theorem Line.congr {line : List FiberId}
    (parent : ∀ f ∈ line, (t'.fiber f).parent = (t.fiber f).parent) (lined : t.Line stop line) :
    t'.Line stop line := by
  induction line with
  | nil => exact lined
  | cons f line ih =>
    cases line with
    | nil => exact lined
    | cons p rest =>
      obtain ⟨ne, up, lined⟩ := lined
      exact ⟨ne, (parent f (.head _)).trans up, ih (fun g hg => parent g (.tail _ hg)) lined⟩

theorem Line.stop_mem {line : List FiberId} (lined : t.Line stop line) : stop ∈ line := by
  induction line with
  | nil => exact lined.elim
  | cons f line ih =>
    cases line with
    | nil =>
      obtain rfl : f = stop := lined
      exact .head _
    | cons p rest => exact .tail _ (ih lined.2.2)

theorem Line.upTo {n : Nat} (lined : t.Line stop (f :: rest)) (enough : rest.length ≤ n) :
    upTo stop (f :: t.climb n f) = f :: rest := by
  induction rest generalizing f n with
  | nil =>
    obtain rfl : f = stop := lined
    simp [ConcurrentRender.upTo]
  | cons p rest ih =>
    obtain ⟨ne, up, lined⟩ := lined
    obtain ⟨n, rfl⟩ : ∃ m, n = m + 1 := ⟨n - 1, by rw [List.length_cons] at enough; omega⟩
    rw [ConcurrentRender.upTo, if_neg ne, climb, up, ih lined (Nat.le_of_succ_le_succ enough)]

/-- Lanes go to each fiber of the line. -/
theorem Line.schedulePath (lined : t.Line stop (p :: rest)) (once : (p :: rest).Nodup)
    (there : ∀ g ∈ p :: rest, t.fibers.has g) :
    t.schedulePath (some p) lanes stop =
      (p :: rest).foldl (fun t f => t.addChildLanes f lanes) t := by
  have enough : rest.length ≤ t.fibers.size :=
    Nat.le_of_succ_le (t.fibers.length_le_size once there)
  rw [Tree.schedulePath, ancestors, lined.upTo enough]

/-! ## Marks -/

/-- The marks of a sight raise the lanes of `a`. -/
def Raises (t : Tree) (s : Search) (v : Sight) (a : FiberId) : Prop :=
  t.Reads s.contexts v.fiber ∧ v.fiber = a ∨ t.Sealed v.fiber ∧ v.line.head? = some a

/-- The marks of a sight raise the child lanes of `a`. -/
def Alerts (t : Tree) (s : Search) (v : Sight) (a : FiberId) : Prop :=
  (t.Reads s.contexts v.fiber ∨ t.Sealed v.fiber) ∧ a ∈ v.line

theorem SameStem.raises {v : Sight} {a : FiberId} (same : SameStem t t') :
    t'.Raises s v a ↔ t.Raises s v a := by
  rw [Raises, same.reads, same.sealed, Raises]

theorem SameStem.alerts {v : Sight} {a : FiberId} (same : SameStem t t') :
    t'.Alerts s v a ↔ t.Alerts s v a := by
  rw [Alerts, same.reads, same.sealed, Alerts]

/-- `t'` is `t` with the marks of the given sights, and with their parents set right. -/
structure Marked (s : Search) (t : Tree) (vs : List Sight) (t' : Tree) : Prop
    extends SameStem t t' where
  only : OnlyFibers t t'
  lanes : ∀ h l, l ∈ (t'.fiber h).lanes ↔ l ∈ (t.fiber h).lanes ∨
    l ∈ s.lanes ∧ t.fibers.has h ∧ ∃ v ∈ vs, ∃ a, t.Raises s v a ∧ t.Beside a h
  childLanes : ∀ h l, l ∈ (t'.fiber h).childLanes ↔ l ∈ (t.fiber h).childLanes ∨
    l ∈ s.lanes ∧ t.fibers.has h ∧ ∃ v ∈ vs, ∃ a, t.Alerts s v a ∧ t.Beside a h
  arrived : ∀ h l, l ∈ (t'.fiber h).arrived ↔ l ∈ (t.fiber h).arrived ∨
    l ∈ s.lanes ∧ t.fibers.has h ∧ ∃ v ∈ vs, t.Reads s.contexts v.fiber ∧ v.fiber = h
  parent : ∀ h, (∀ v ∈ vs, v.fiber ≠ h) → (t'.fiber h).parent = (t.fiber h).parent
  repaired : ∀ v ∈ vs, (t'.fiber v.fiber).parent = v.line.head?

namespace Marked

variable {vs ws : List Sight}

theorem refl (s : Search) (t : Tree) : Marked s t [] t where
  toSameStem := .refl t
  only := .refl t
  lanes := by simp
  childLanes := by simp
  arrived := by simp
  parent := fun _ _ => rfl
  repaired := by simp

/-- Marks add up, if no fiber is looked at again. -/
theorem trans (marked : Marked s t vs t') (marked' : Marked s t' ws t'')
    (apart : ∀ v ∈ vs, ∀ w ∈ ws, w.fiber ≠ v.fiber) : Marked s t (vs ++ ws) t'' := by
  have same := marked.toSameStem
  refine ⟨same.trans marked'.toSameStem, marked.only.trans marked'.only, ?_, ?_, ?_, ?_, ?_⟩
  · intro h l
    simp only [marked'.lanes, marked.lanes, same.raises, same.has, same.beside, List.mem_append,
      or_and_right, exists_or, and_or_left, or_assoc]
  · intro h l
    simp only [marked'.childLanes, marked.childLanes, same.alerts, same.has, same.beside,
      List.mem_append, or_and_right, exists_or, and_or_left, or_assoc]
  · intro h l
    simp only [marked'.arrived, marked.arrived, same.has, same.reads, List.mem_append,
      or_and_right, exists_or, and_or_left, or_assoc]
  · intro h new
    rw [marked'.parent h fun w mem => new w (List.mem_append_right _ mem),
      marked.parent h fun v mem => new v (List.mem_append_left _ mem)]
  · intro v mem
    rcases List.mem_append.mp mem with mem | mem
    · rw [marked'.parent _ (apart v mem), marked.repaired v mem]
    · exact marked'.repaired v mem

end Marked

/-! ## Looking at one fiber -/

/-- What looking at a fiber changes. -/
def mark (t : Tree) (s : Search) (f : FiberId) : Tree :=
  if t.Reads s.contexts f then t.scheduleReader f s.lanes s.start
  else if t.Sealed f then t.scheduleHolder f s.lanes s.start
  else t

theorem visit_eq (t : Tree) (s : Search) (f : FiberId) :
    t.visit s f = (if t.Passes s f then (t.fiber f).child else none, t.mark s f) := by
  unfold visit mark Passes
  dsimp only
  split
  next reads =>
    have reads : t.Reads s.contexts f := reads
    simp [reads, not_sealed_of_reads reads]
  next look =>
    have reads : ¬ t.Reads s.contexts f := by simp [Reads, look]
    have unsealed : ¬ t.Sealed f := by
      rintro ⟨nothing, -⟩
      simp [Fiber.readsAny?, nothing] at look
    simp [reads, unsealed]
  next look =>
    have reads : ¬ t.Reads s.contexts f := by simp [Reads, look]
    have nothing : (t.fiber f).dependencies = none := by
      simpa [Fiber.readsAny?] using look
    by_cases fragment : (t.fiber f).tag = .dehydratedFragment
    · simp [reads, Sealed, nothing, fragment]
    · simp [reads, Sealed, fragment]

/-- Notes that a change has arrived at a fiber. -/
def noteArrival (t : Tree) (f : FiberId) (lanes : LaneSet) : Tree :=
  t.setFiber f fun x =>
    { x with dependencies := x.dependencies.map fun d => { d with lanes := d.lanes ∪ lanes } }

theorem sameStem_noteArrival (t : Tree) (f : FiberId) (lanes : LaneSet) :
    SameStem t (t.noteArrival f lanes) :=
  .setFiber (fun x => by
    simp only [Fiber.stem, Option.map_map]
    rfl) t f

theorem read_noteArrival {α : Type} (read : Fiber → α)
    (hr : ∀ x d, read { x with dependencies := d } = read x) (t : Tree) (f h : FiberId)
    (lanes : LaneSet) : read ((t.noteArrival f lanes).fiber h) = read (t.fiber h) := by
  rw [noteArrival, fiber_setFiber]
  split
  · exact hr _ _
  · rfl

theorem mem_arrived_noteArrival (reads : t.Reads contexts f) :
    l ∈ ((t.noteArrival f lanes).fiber h).arrived ↔
      l ∈ (t.fiber h).arrived ∨ l ∈ lanes ∧ t.fibers.has h ∧ f = h := by
  rw [noteArrival, fiber_setFiber]
  split
  next here =>
    obtain ⟨rfl, there⟩ := here
    cases deps : (t.fiber f).dependencies with
    | none => simp [Reads, Fiber.readsAny?, deps] at reads
    | some d => simp [Fiber.arrived, deps, there]
  next away => tauto

theorem SameShape.arrived (same : SameShape t t') (f : FiberId) :
    (t'.fiber f).arrived = (t.fiber f).arrived :=
  Fiber.arrived_of_bare (same.bare f)

theorem read_setParent {α : Type} (read : Fiber → α)
    (hr : ∀ x d, read { x with parent := d } = read x) (t : Tree) (f h : FiberId)
    (parent : Option FiberId) : read ((t.setParent f parent).fiber h) = read (t.fiber h) := by
  rw [setParent, fiber_setFiber]
  split
  · exact hr _ _
  · rfl

theorem parent_setParent (t : Tree) (f h : FiberId) (parent : Option FiberId) :
    ((t.setParent f parent).fiber h).parent =
      if f = h ∧ t.fibers.has h then parent else (t.fiber h).parent := by
  rw [setParent, fiber_setFiber]
  split <;> rfl

theorem scheduleReader_eq (up : (t.fiber f).parent = some p) (lined : t.Line stop (p :: rest))
    (once : (p :: rest).Nodup) (there : ∀ g ∈ p :: rest, t.fibers.has g) :
    t.scheduleReader f lanes stop = (p :: rest).foldl (fun t f => t.addChildLanes f lanes)
      ((t.addLanes f lanes).noteArrival f lanes) := by
  have shape := sameShape_addLanes t f lanes
  have parent : ∀ g, (((t.addLanes f lanes).noteArrival f lanes).fiber g).parent =
      (t.fiber g).parent := fun g =>
    (read_noteArrival Fiber.parent (fun _ _ => rfl) _ f g lanes).trans (shape.parent g)
  have same := (SameStem.of_sameShape shape).trans (sameStem_noteArrival _ f lanes)
  show ((t.addLanes f lanes).noteArrival f lanes).schedulePath
    (((t.addLanes f lanes).noteArrival f lanes).fiber f).parent lanes stop = _
  rw [parent f, up]
  exact (lined.congr fun g _ => parent g).schedulePath once fun g hg =>
    (same.has g).trans (there g hg)

theorem scheduleHolder_eq (up : (t.fiber f).parent = some p) (lined : t.Line stop (p :: rest))
    (once : (p :: rest).Nodup) (there : ∀ g ∈ p :: rest, t.fibers.has g) :
    t.scheduleHolder f lanes stop =
      (p :: rest).foldl (fun t f => t.addChildLanes f lanes) (t.addLanes p lanes) := by
  have shape := sameShape_addLanes t p lanes
  rw [scheduleHolder, up]
  exact (lined.congr fun g _ => shape.parent g).schedulePath once fun g hg =>
    (shape.has g).trans (there g hg)

section Visit

variable (up : (t.fiber f).parent = some p) (lined : t.Line s.start (p :: rest))
  (once : (p :: rest).Nodup) (there : ∀ g ∈ p :: rest, t.fibers.has g)
include up lined once there

theorem marked_of_reads (reads : t.Reads s.contexts f) :
    Marked s t [⟨f, p :: rest⟩] (t.mark s f) := by
  have unsealed := not_sealed_of_reads reads
  have shape₁ := sameShape_addLanes t f s.lanes
  have same₂ := (SameStem.of_sameShape shape₁).trans (sameStem_noteArrival _ f s.lanes)
  have shape₃ := sameShape_foldl_addChildLanes (p :: rest) s.lanes
    ((t.addLanes f s.lanes).noteArrival f s.lanes)
  rw [mark, if_pos reads, scheduleReader_eq up lined once there]
  refine ⟨same₂.trans (.of_sameShape shape₃), ?_, fun h l => ?_, fun h l => ?_, fun h l => ?_,
    fun h _ => ?_, fun v mem => ?_⟩
  · exact (OnlyFibers.setTwins t f _).trans ((OnlyFibers.setFiber _ f _).trans
      (onlyFibers_foldl_addChildLanes _ _ _))
  · rw [lanes_foldl, read_noteArrival Fiber.lanes fun _ _ => rfl, mem_lanes_addLanes]
    simp [Raises, reads, unsealed, and_comm]
  · rw [mem_childLanes_foldl, read_noteArrival Fiber.childLanes fun _ _ => rfl,
      childLanes_addLanes]
    simp only [same₂.has, same₂.beside]
    simp [Alerts, reads]
  · rw [shape₃.arrived, mem_arrived_noteArrival ((SameStem.of_sameShape shape₁).reads.mpr reads),
      shape₁.arrived, shape₁.has]
    simp [reads]
  · rw [shape₃.parent, read_noteArrival Fiber.parent fun _ _ => rfl, shape₁.parent]
  · obtain rfl := List.mem_singleton.mp mem
    rw [shape₃.parent, read_noteArrival Fiber.parent fun _ _ => rfl, shape₁.parent, up]
    rfl

theorem marked_of_sealed (sealed : t.Sealed f) : Marked s t [⟨f, p :: rest⟩] (t.mark s f) := by
  have reads : ¬ t.Reads s.contexts f := fun reads => not_sealed_of_reads reads sealed
  have shape₁ := sameShape_addLanes t p s.lanes
  have shape₂ := sameShape_foldl_addChildLanes (p :: rest) s.lanes (t.addLanes p s.lanes)
  rw [mark, if_neg reads, if_pos sealed, scheduleHolder_eq up lined once there]
  refine ⟨.of_sameShape (shape₁.trans shape₂), ?_, fun h l => ?_, fun h l => ?_, fun h l => ?_,
    fun h _ => ?_, fun v mem => ?_⟩
  · exact (OnlyFibers.setTwins t p _).trans (onlyFibers_foldl_addChildLanes _ _ _)
  · rw [lanes_foldl, mem_lanes_addLanes]
    simp [Raises, reads, sealed, and_comm]
  · rw [mem_childLanes_foldl, childLanes_addLanes]
    simp only [shape₁.has, shape₁.beside]
    simp [Alerts, sealed]
  · rw [shape₂.arrived, shape₁.arrived]
    simp [reads]
  · rw [shape₂.parent, shape₁.parent]
  · obtain rfl := List.mem_singleton.mp mem
    rw [shape₂.parent, shape₁.parent, up]
    rfl

/-- Looking at a fiber leaves its marks. -/
theorem marked_mark : Marked s t [⟨f, p :: rest⟩] (t.mark s f) := by
  by_cases reads : t.Reads s.contexts f
  · exact marked_of_reads up lined once there reads
  · by_cases sealed : t.Sealed f
    · exact marked_of_sealed up lined once there sealed
    · rw [mark, if_neg reads, if_neg sealed]
      refine ⟨.refl t, .refl t, fun h l => ?_, fun h l => ?_, fun h l => ?_, fun _ _ => rfl,
        fun v mem => ?_⟩
      · simp [Raises, reads, sealed]
      · simp [Alerts, reads, sealed]
      · simp [reads]
      · obtain rfl := List.mem_singleton.mp mem
        exact up

end Visit

/-- Looking at a fiber leaves its marks, also if its parent is set right before. -/
theorem marked_visit (here : t.fibers.has f) (lined : t.Line s.start (p :: rest))
    (once : (f :: p :: rest).Nodup) (there : ∀ g ∈ p :: rest, t.fibers.has g) :
    Marked s t [⟨f, p :: rest⟩] ((t.setParent f (some p)).mark s f) := by
  let t₀ := t.setParent f (some p)
  have same : SameStem t t₀ := .setParent t f (some p)
  have away : ∀ g, f ≠ g → (t₀.fiber g).parent = (t.fiber g).parent := fun g ne => by
    rw [parent_setParent, if_neg fun e => ne e.1]
  obtain ⟨new, once⟩ := List.nodup_cons.mp once
  have marked : Marked s t₀ [⟨f, p :: rest⟩] (t₀.mark s f) := by
    refine marked_mark ?_ (lined.congr fun g hg => away g fun e => new (e ▸ hg)) once
      fun g hg => (same.has g).trans (there g hg)
    rw [parent_setParent, if_pos ⟨rfl, here⟩]
  refine ⟨same.trans marked.toSameStem, (OnlyFibers.setFiber t f _).trans marked.only,
    fun h l => ?_, fun h l => ?_, fun h l => ?_, fun h other => ?_, marked.repaired⟩
  · rw [marked.lanes, read_setParent Fiber.lanes fun _ _ => rfl]
    simp only [same.raises, same.beside, same.has]
  · rw [marked.childLanes, read_setParent Fiber.childLanes fun _ _ => rfl]
    simp only [same.alerts, same.beside, same.has]
  · rw [marked.arrived, read_setParent Fiber.arrived fun _ _ => rfl]
    simp only [same.reads, same.has]
  · rw [marked.parent h other, away h (by simpa using other)]

end Tree

end ConcurrentRender
