import ConcurrentRender.Proofs.Tree.Raise
import ConcurrentRender.Tree.Ring

/-!
# What operations do to parents, twins and lanes

Which lanes are known above a fiber depends on four things that its `Kin` keeps: its
parent, its twin, its lanes and its child lanes. Lists of children, marks and all the rest do
not matter. Most operations leave every `Kin` alone (`Tree.SameKin`). The others change that
of a fiber and perhaps its twin.

Results: `kin_appendChild`, `kin_detach` and `kin_clearLanes` say what they make of them.
`fiber_startTwin` says what fibers become when a twin is started, and `started_startTwin` what
follows for links between twins.
-/

namespace ConcurrentRender

/-- What of a fiber matters for lanes that are known above. -/
structure Kin where
  parent : Option FiberId
  twin : Option FiberId
  lanes : LaneSet
  childLanes : LaneSet

def Fiber.kin (x : Fiber) : Kin where
  parent := x.parent
  twin := x.twin
  lanes := x.lanes
  childLanes := x.childLanes

namespace Tree

def kin (t : Tree) (f : FiberId) : Kin := (t.fiber f).kin

/-- `t'` has the fibers of `t`, and perhaps more, with the same kin. A fiber that is not there
counts as one without links and lanes. -/
structure SameKin (t t' : Tree) : Prop where
  size : t.fibers.size ≤ t'.fibers.size
  kin : ∀ f, t'.kin f = t.kin f

variable {t t' t'' : Tree} {f p c : FiberId}

theorem kin_setFiber {g : Fiber → Fiber} {k : Kin → Kin} (hg : ∀ x, (g x).kin = k x.kin)
    (t : Tree) (f h : FiberId) :
    (t.setFiber f g).kin h = if f = h ∧ t.fibers.has h then k (t.kin h) else t.kin h := by
  unfold kin
  rw [fiber_setFiber]
  split
  · exact hg _
  · rfl

theorem kin_of_not_has (h : t.fibers.has f = false) : t.kin f = ⟨none, none, ∅, ∅⟩ := by
  rw [kin, fiber_of_not_has h]
  rfl

namespace SameKin

theorem refl (t : Tree) : SameKin t t := ⟨Nat.le_refl _, fun _ => rfl⟩

theorem trans (h : SameKin t t') (h' : SameKin t' t'') : SameKin t t'' :=
  ⟨Nat.le_trans h.size h'.size, fun f => (h'.kin f).trans (h.kin f)⟩

theorem has (h : SameKin t t') (there : t.fibers.has f) : t'.fibers.has f :=
  Arena.has_of_size_le h.size there

theorem of_fibers_eq (h : t'.fibers = t.fibers) : SameKin t t' := by
  refine ⟨by rw [h], fun f => ?_⟩
  simp only [Tree.kin, fiber, h]

theorem setFiber {g : Fiber → Fiber} (hg : ∀ x, (g x).kin = x.kin) (t : Tree) (f : FiberId) :
    SameKin t (t.setFiber f g) := by
  refine ⟨Nat.le_of_eq (size_setFiber t f g).symm, fun h => ?_⟩
  rw [kin_setFiber (k := id) hg]
  split <;> rfl

theorem setTwins {g : Fiber → Fiber} (hg : ∀ x, (g x).kin = x.kin) (t : Tree) (f : FiberId) :
    SameKin t (t.setTwins f g) :=
  keeps_setTwins (R := SameKin) trans (setFiber hg) t f

/-- A new fiber has no links and no lanes. -/
theorem createFiber (t : Tree) (tag : Tag) (concurrent : Bool) :
    SameKin t (t.createFiber tag concurrent).2 := by
  refine ⟨(Arena.size_add ..).symm ▸ Nat.le_succ _, fun f => ?_⟩
  exact Arena.read_add Fiber.kin t.fibers { tag, concurrent } rfl f

theorem createRoot (t : Tree) (concurrent : Bool) : SameKin t (t.createRoot concurrent).2 := by
  have inst := setFiber (g := fun x => { x with inst := some (.root t.roots.next) })
    (fun _ => by rfl) (t.createFiber .hostRoot concurrent).2 t.fibers.next
  exact ((createFiber t _ _).trans inst).trans (of_fibers_eq rfl)

theorem createQueue (t : Tree) (owner : FiberId) : SameKin t (t.createQueue owner).2 := by
  unfold Tree.createQueue
  have added : SameKin t { t with queues := t.queues.add { owner } } := of_fibers_eq rfl
  exact added.trans (setFiber (fun _ => by rfl) _ owner)

theorem createBoundary (t : Tree) (f : FiberId) (visible : Bool) :
    SameKin t (t.createBoundary f visible).2 := by
  unfold Tree.createBoundary
  have added : SameKin t { t with boundaries := t.boundaries.add { visible } } :=
    of_fibers_eq rfl
  exact added.trans (setTwins (fun _ => by rfl) _ f)

theorem reveal (t : Tree) (b : BoundaryId) (lanes : LaneSet) :
    SameKin t (t.reveal b lanes).2 :=
  of_fibers_eq (frame_reveal t b lanes).1

theorem unlinkChild (t : Tree) (p c : FiberId) : SameKin t (t.unlinkChild p c) := by
  rcases t.unlinkChild_cases p c with same | ⟨f, same⟩ | ⟨f, same⟩ <;> rw [same]
  · exact refl t
  · exact setFiber (fun _ => by rfl) t f
  · exact setFiber (fun _ => by rfl) t f

end SameKin

/-! ## The operations on links -/

theorem kin_appendChild (t : Tree) (p c h : FiberId) :
    (t.appendChild p c).kin h =
      if c = h ∧ t.fibers.has h then { t.kin h with parent := some p } else t.kin h := by
  have linked := kin_setFiber (g := fun x => { x with parent := some p, sibling := none })
    (k := fun x => { x with parent := some p }) (fun _ => by rfl) t c h
  rw [← linked]
  unfold appendChild
  dsimp only
  split
  · exact (SameKin.setFiber (fun _ => by rfl) _ _).kin h
  · exact (SameKin.setFiber (fun _ => by rfl) _ _).kin h

theorem kin_appendChild_of_ne (hf : f ≠ c) : (t.appendChild p c).kin f = t.kin f :=
  (kin_appendChild t p c f).trans (if_neg fun e => hf e.1.symm)

theorem parent_appendChild_of_ne (hf : f ≠ c) :
    ((t.appendChild p c).fiber f).parent = (t.fiber f).parent :=
  congrArg Kin.parent (kin_appendChild_of_ne hf)

/-- A way up that was not there before leads over the fiber that is appended. -/
theorem above_appendChild {q : FiberId} (above : (t.appendChild p c).Above f q) :
    f = c ∨ t.Above f q ∨ t.Above f c := by
  induction above with
  | @parent f q hf =>
    by_cases hc : f = c
    · exact .inl hc
    · exact .inr (.inl (.parent ((parent_appendChild_of_ne hc).symm.trans hf)))
  | @step f g q hf _ ih =>
    by_cases hc : f = c
    · exact .inl hc
    · have up : (t.fiber f).parent = some g := (parent_appendChild_of_ne hc).symm.trans hf
      rcases ih with rfl | above | above
      · exact .inr (.inr (.parent up))
      · exact .inr (.inl (.step up above))
      · exact .inr (.inr (.step up above))

theorem size_appendChild (t : Tree) (p c : FiberId) :
    (t.appendChild p c).fibers.size = t.fibers.size := by
  unfold appendChild
  dsimp only
  split <;> simp

theorem kin_clearLanes (t : Tree) (f h : FiberId) :
    (t.clearLanes f).kin h =
      if f = h ∧ t.fibers.has h then { t.kin h with lanes := ∅ } else t.kin h :=
  kin_setFiber (k := fun x => { x with lanes := ∅ }) (fun _ => by rfl) t f h

theorem size_unlinkChild (t : Tree) (p c : FiberId) :
    (t.unlinkChild p c).fibers.size = t.fibers.size := by
  rcases t.unlinkChild_cases p c with same | ⟨f, same⟩ | ⟨f, same⟩ <;> rw [same]
  all_goals exact size_setFiber t f _

theorem size_detachOne (t : Tree) (f : FiberId) :
    (t.detachOne f).fibers.size = t.fibers.size := by
  unfold detachOne
  refine (size_setFiber _ f _).trans ?_
  split
  · rfl
  · exact size_unlinkChild _ _ _

theorem kin_detachOne (t : Tree) (f h : FiberId) :
    (t.detachOne f).kin h =
      if f = h ∧ t.fibers.has h then { t.kin h with parent := none } else t.kin h := by
  unfold detachOne
  rw [kin_setFiber (k := fun x => { x with parent := none }) (fun _ => by rfl)]
  cases (t.fiber f).parent with
  | none => rfl
  | some p =>
    have kin := (SameKin.unlinkChild t p f).kin h
    have has : (t.unlinkChild p f).fibers.has h = t.fibers.has h := by
      simp only [Arena.has, size_unlinkChild]
    dsimp only
    rw [kin, has]

/-- A fiber that is removed and its twin lose their parents. -/
theorem kin_detach (t : Tree) (f h : FiberId) :
    (t.detach f).kin h =
      if t.Beside f h ∧ t.fibers.has h then { t.kin h with parent := none } else t.kin h := by
  unfold detach Beside
  dsimp only
  split
  next none => simp [none, kin_detachOne]
  next w some =>
    simp only [some, kin_detachOne, Arena.has, size_detachOne, Option.some.injEq]
    by_cases hf : f = h <;> by_cases hw : w = h <;> by_cases there : h.index < t.fibers.size <;>
      simp [hf, hw, there]

theorem parent_of_detach {g q : FiberId} (hq : ((t.detach g).fiber f).parent = some q) :
    (t.fiber f).parent = some q := by
  have own : ((t.detach g).kin f).parent = some q := hq
  rw [kin_detach] at own
  split at own
  · cases own
  · exact own

/-- Removing fibers makes no new way up. -/
theorem above_of_detach {g q : FiberId} (above : (t.detach g).Above f q) : t.Above f q := by
  induction above with
  | parent hf => exact .parent (parent_of_detach hf)
  | step hf _ ih => exact .step (parent_of_detach hf) ih

theorem size_detach (t : Tree) (f : FiberId) : (t.detach f).fibers.size = t.fibers.size := by
  unfold detach
  dsimp only
  split
  · exact size_detachOne t f
  · exact (size_detachOne _ _).trans (size_detachOne t f)

/-- `t'` is `t` with `w` started as the twin of `f`. It has the kin of `f`, and is the twin that
`f` had or a new fiber. -/
structure Started (t t' : Tree) (f w : FiberId) : Prop where
  status : (t.kin f).twin = some w ∨ (t.kin f).twin = none ∧ t.fibers.has w = false
  size : t.fibers.size ≤ t'.fibers.size
  kin : ∀ h, t'.kin h =
    if h = w then { t.kin f with twin := some f }
    else if h = f then { t.kin f with twin := some w }
    else t.kin h

/-- The twin of a fiber is the one that it had, or a new one of its tag and mode. -/
theorem fiber_ensureTwin (there : t.fibers.has f)
    (back : ∀ w, (t.fiber f).twin = some w → (t.fiber w).twin = some f) :
    ∃ w t', t.ensureTwin f = (w, t') ∧ t'.fibers.has w ∧ t.fibers.size ≤ t'.fibers.size ∧
      ((t.fiber f).twin = some w ∧ t'.fiber w = t.fiber w ∨
        (t.fiber f).twin = none ∧ t.fibers.has w = false ∧ t'.fiber w =
          { tag := (t.fiber f).tag, concurrent := (t.fiber f).concurrent, twin := some f }) ∧
      ∀ h, h ≠ w → t'.fiber h = if h = f then { t.fiber f with twin := some w } else t.fiber h := by
  unfold ensureTwin
  dsimp only
  cases twin : (t.fiber f).twin with
  | some w =>
    refine ⟨w, t, rfl, has_of_twin (back w twin), Nat.le_refl _, .inl ⟨rfl, rfl⟩, fun h _ => ?_⟩
    split
    next same => rw [same, ← twin]
    next => rfl
  | none =>
    -- A fiber is added, and then the two are linked, one after the other.
    let w := t.fibers.next
    let made := (t.createFiber (t.fiber f).tag (t.fiber f).concurrent).2
    have absent : t.fibers.has w = false := Arena.not_has_next _
    have differs : f ≠ w := fun same => by
      rw [same, absent] at there
      cases there
    have new : made.fibers.has w := Arena.has_add.mpr (.inl rfl)
    have old : made.fibers.has f := Arena.has_add.mpr (.inr there)
    have added (h : FiberId) : made.fiber h = if h = w then
        { tag := (t.fiber f).tag, concurrent := (t.fiber f).concurrent } else t.fiber h :=
      Arena.get_add t.fibers _ h
    let first := made.setFiber w fun y => { y with twin := some f }
    let t' := first.setFiber f fun y => { y with twin := some w }
    have second {h : FiberId} (other : h ≠ f) : t'.fiber h = first.fiber h := by
      rw [fiber_setFiber, if_neg fun same => other same.1.symm]
    have size : t.fibers.size ≤ t'.fibers.size := by
      rw [size_setFiber, size_setFiber]
      exact (Arena.size_add ..).symm ▸ Nat.le_succ _
    refine ⟨w, t', rfl, (has_setFiber ..).trans ((has_setFiber ..).trans new), size,
      .inr ⟨rfl, absent, ?_⟩, fun h other => ?_⟩
    · rw [second differs.symm, fiber_setFiber, if_pos ⟨rfl, new⟩, added, if_pos rfl]
    · have kept : first.fiber h = t.fiber h := by
        rw [fiber_setFiber, if_neg fun same => other same.1.symm, added, if_neg other]
      by_cases own : h = f
      · rw [fiber_setFiber, if_pos ⟨own.symm, own ▸ (has_setFiber ..).trans old⟩, kept, if_pos own,
          own]
      · rw [second own, kept, if_neg own]

/-- A twin that is started takes over everything but its tag, its mode and its marks, and provides
another value. A new one has the tag and the mode of its fiber. -/
theorem fiber_startTwin (there : t.fibers.has f)
    (back : ∀ w, (t.fiber f).twin = some w → (t.fiber w).twin = some f) (value : Option Value) :
    ∃ w t' origin, t.startTwin f value = (w, t') ∧ t'.fibers.has w ∧
      t.fibers.size ≤ t'.fibers.size ∧
      ((t.fiber f).twin = some w ∧ origin = t.fiber w ∨
        ((t.fiber f).twin = none ∧ t.fibers.has w = false) ∧ origin = t.fiber f) ∧
      ∀ h, t'.fiber h =
        if h = w then
          { t.fiber f with
            tag := origin.tag
            concurrent := origin.concurrent
            flags := {}
            twin := some f
            pendingValue := value }
        else if h = f then { t.fiber f with twin := some w }
        else t.fiber h := by
  obtain ⟨w, t', ensured, has, size, status, others⟩ := fiber_ensureTwin there back
  obtain ⟨origin, status, tag, mode, twin⟩ : ∃ origin : Fiber,
      ((t.fiber f).twin = some w ∧ origin = t.fiber w ∨
        ((t.fiber f).twin = none ∧ t.fibers.has w = false) ∧ origin = t.fiber f) ∧
      (t'.fiber w).tag = origin.tag ∧ (t'.fiber w).concurrent = origin.concurrent ∧
      (t'.fiber w).twin = some f := by
    rcases status with ⟨twin, same⟩ | ⟨none, absent, new⟩
    · exact ⟨_, .inl ⟨twin, rfl⟩, by rw [same], by rw [same], by rw [same]; exact back w twin⟩
    · exact ⟨_, .inr ⟨⟨none, absent⟩, rfl⟩, by rw [new], by rw [new], by rw [new]⟩
  unfold startTwin
  rw [ensured]
  refine ⟨w, _, origin, rfl, (has_setFiber ..).trans has, (size_setFiber ..).symm ▸ size, status,
    fun h => ?_⟩
  rw [fiber_setFiber]
  by_cases own : h = w
  · subst own
    rw [if_pos ⟨rfl, has⟩, if_pos rfl, tag, mode, twin]
  · rw [if_neg fun same => own same.1.symm, if_neg own, others h own]

theorem started_startTwin (there : t.fibers.has f)
    (back : ∀ w, (t.kin f).twin = some w → (t.kin w).twin = some f) (value : Option Value) :
    Started t (t.startTwin f value).2 f (t.startTwin f value).1 := by
  obtain ⟨w, t', origin, run, -, size, status, fiber⟩ := fiber_startTwin there back value
  rw [run]
  refine ⟨status.imp And.left And.left, size, fun h => ?_⟩
  unfold kin
  rw [fiber]
  split
  · rfl
  · split <;> rfl

namespace Started

variable {w h q v : FiberId}

theorem kin_new (s : Started t t' f w) : t'.kin w = { t.kin f with twin := some f } :=
  (s.kin w).trans (if_pos rfl)

theorem kin_source (s : Started t t' f w) (hf : f ≠ w) :
    t'.kin f = { t.kin f with twin := some w } :=
  (s.kin f).trans ((if_neg hf).trans (if_pos rfl))

theorem kin_other (s : Started t t' f w) (hw : h ≠ w) (hf : h ≠ f) : t'.kin h = t.kin h :=
  (s.kin h).trans ((if_neg hw).trans (if_neg hf))

theorem has (s : Started t t' f w) (there : t.fibers.has q) : t'.fibers.has q :=
  Arena.has_of_size_le s.size there

/-- A fiber that was there before is the twin that `f` had. -/
theorem twin_of_has (s : Started t t' f w) (there : t.fibers.has w) : (t.kin f).twin = some w := by
  rcases s.status with twin | ⟨_, absent⟩
  · exact twin
  · rw [there] at absent
    cases absent

theorem eq_of_twin (s : Started t t' f w) (twin : (t.kin f).twin = some q) : q = w := by
  rcases s.status with own | ⟨none, _⟩
  · exact Option.some.inj (twin.symm.trans own)
  · rw [none] at twin
    cases twin

theorem twin_new (s : Started t t' f w) : (t'.kin w).twin = some f := congrArg Kin.twin s.kin_new

theorem twin_source (s : Started t t' f w) : (t'.kin f).twin = some w := by
  rw [s.kin]
  split
  next same => exact congrArg some same
  next => rw [if_pos rfl]

/-- Twins afterwards are the two, or twins from before. -/
theorem twins (s : Started t t' f w)
    (back : ∀ g v, (t.kin g).twin = some v → (t.kin v).twin = some g)
    (hv : (t'.kin h).twin = some v) :
    h = w ∧ v = f ∨ h = f ∧ v = w ∨
      t'.kin h = t.kin h ∧ t'.kin v = t.kin v ∧ (t.kin h).twin = some v := by
  by_cases hw : h = w
  · subst hw
    exact .inl ⟨rfl, Option.some.inj (hv.symm.trans s.twin_new)⟩
  · by_cases hf : h = f
    · subst hf
      exact .inr (.inl ⟨rfl, Option.some.inj (hv.symm.trans s.twin_source)⟩)
    · rw [s.kin_other hw hf] at hv
      -- A twin of `h` from before is neither `w` nor `f`, as these are twins of each other.
      have other := back h v hv
      refine .inr (.inr ⟨s.kin_other hw hf, s.kin_other ?_ ?_, hv⟩)
      · rintro rfl
        have own := back f v (s.twin_of_has (has_of_twin other))
        exact hf (Option.some.inj (other.symm.trans own))
      · rintro rfl
        exact hw (s.eq_of_twin other)

/-- What twins agree on, they agree on afterwards if the new twin has it from its fiber. -/
theorem agree {α : Type} {read read' : FiberId → α} (s : Started t t' f w)
    (back : ∀ g v, (t.kin g).twin = some v → (t.kin v).twin = some g)
    (new : ∀ g, read' g = if g = w then read f else read g)
    (agree : ∀ g v, (t.kin g).twin = some v → read v = read g)
    (hv : (t'.kin h).twin = some v) : read' v = read' h := by
  rw [new v, new h]
  by_cases own : h = w
  · subst own
    obtain rfl := Option.some.inj (hv.symm.trans s.twin_new)
    rw [if_pos rfl]
    exact ite_self _
  · rcases s.twins back hv with ⟨e, -⟩ | ⟨rfl, rfl⟩ | ⟨-, same, twin⟩
    · exact absurd e own
    · rw [if_pos rfl, ite_self]
    · rw [if_neg own, agree h v twin]
      split
      next e =>
        -- Otherwise the twin of the new fiber would have been the old one.
        subst e
        have other := back h v twin
        rw [← same] at other
        rw [Option.some.inj (other.symm.trans s.twin_new)]
      next => rfl

/-- Twins are twins of each other afterwards if they were before. -/
theorem back (s : Started t t' f w)
    (back : ∀ g v, (t.kin g).twin = some v → (t.kin v).twin = some g)
    (hv : (t'.kin h).twin = some v) : (t'.kin v).twin = some h := by
  rcases s.twins back hv with ⟨rfl, rfl⟩ | ⟨rfl, rfl⟩ | ⟨_, same, twin⟩
  · exact s.twin_source
  · exact s.twin_new
  · rw [same]
    exact back h v twin

end Started

end Tree

end ConcurrentRender
