import ConcurrentRender.Proofs.Staging.Settle
import ConcurrentRender.Proofs.Tree.Kin

/-!
# Which lanes the fibers above know of

A render descends only to where there is work, so each lane of a fiber must be among the
child lanes of every fiber above, unless it is still staged there (`Covered`). That can hold
only together with what twins have in common (`Family`): the way up may lead over either of
two twins, and both must know the same.

Results: staging and settling changes keeps this (`Covered.stage`, `Covered.settleEach`), and
so do the operations on links, provided that a fiber that is appended has no work, and no
twin that the way up of others could lead over (`Covered.appendChild`).
-/

namespace ConcurrentRender

namespace Tree

/-- Parents are there, and twins are twins of each other with the same parent and the same
work below. -/
structure Family (t : Tree) : Prop where
  parents : t.ParentsThere
  twin_back : ∀ f w, (t.kin f).twin = some w → (t.kin w).twin = some f
  parent_eq : ∀ f w, (t.kin f).twin = some w → (t.kin w).parent = (t.kin f).parent
  childLanes_eq : ∀ f w, (t.kin f).twin = some w → (t.kin w).childLanes = (t.kin f).childLanes

variable {t t' : Tree} {f h p w : FiberId}

namespace Family

theorem beside_comm (k : t.Family) : t.Beside f h ↔ t.Beside h f := by
  constructor
  · exact fun b => b.imp Eq.symm (k.twin_back f h)
  · exact fun b => b.imp Eq.symm (k.twin_back h f)

/-- The same fibers are above two twins. -/
theorem above_of_beside (k : t.Family) (b : t.Beside f h) (above : t.Above f p) :
    t.Above h p := by
  rcases b with rfl | twin
  · exact above
  · have same : (t.fiber h).parent = (t.fiber f).parent := k.parent_eq f h twin
    cases above with
    | parent hf => exact .parent (same.trans hf)
    | step hf rest => exact .step (same.trans hf) rest

/-- Twins stand beside the same fibers. -/
theorem beside_trans (k : t.Family) (b : t.Beside f h) (b' : t.Beside f p) : t.Beside h p := by
  rcases b with rfl | twin
  · exact b'
  · rcases b' with rfl | twin'
    · exact .inr (k.twin_back f h twin)
    · exact .inl (Option.some.inj (twin.symm.trans twin'))

/-- A fiber stands beside both of two twins or beside none of them. -/
theorem beside_twin (k : t.Family) (twin : (t.kin f).twin = some w) :
    t.Beside h w ↔ t.Beside h f := by
  rw [k.beside_comm, k.beside_comm (f := h)]
  exact ⟨k.beside_trans (.inr (k.twin_back f w twin)), k.beside_trans (.inr twin)⟩

/-- Where links stay, it is enough that twins still know the same. -/
theorem of_sameShape (k : t.Family) (shape : t.SameShape t')
    (same : ∀ f w, (t.kin f).twin = some w → (t'.kin w).childLanes = (t'.kin f).childLanes) :
    t'.Family := by
  have parent : ∀ f, (t'.kin f).parent = (t.kin f).parent := shape.parent
  have twin : ∀ f, (t'.kin f).twin = (t.kin f).twin := shape.twin
  refine ⟨shape.parentsThere k.parents, ?_, ?_, ?_⟩
  · simpa only [twin] using k.twin_back
  · simpa only [twin, parent] using k.parent_eq
  · simpa only [twin] using same

theorem of_sameKin (k : t.Family) (same : t.SameKin t') : t'.Family where
  parents f p hp := same.has (k.parents f p ((congrArg Kin.parent (same.kin f)).symm.trans hp))
  twin_back f w := by
    simp only [same.kin]
    exact k.twin_back f w
  parent_eq f w := by
    simp only [same.kin]
    exact k.parent_eq f w
  childLanes_eq f w := by
    simp only [same.kin]
    exact k.childLanes_eq f w

end Family

end Tree

/-- Each lane of a fiber is known to all fibers above, unless it is staged on the fiber or
its twin. -/
structure Covered (t : Tree) (es : List StagedUpdate) : Prop where
  family : t.Family
  cover : ∀ f p, t.Above f p → ∀ l ∈ (t.kin f).lanes,
    (∀ e ∈ es, t.Beside f e.fiber → l ∉ e.lane) → l ∈ (t.kin p).childLanes

namespace Covered

variable {t t' : Tree} {es : List StagedUpdate} {f p c : FiberId}

/-- What leaves every kin alone leaves this alone. -/
theorem of_sameKin (k : Covered t es) (same : t.SameKin t') : Covered t' es := by
  refine ⟨k.family.of_sameKin same, fun f p above l hl free => ?_⟩
  have parent : ∀ f, (t'.fiber f).parent = (t.fiber f).parent :=
    fun f => congrArg Kin.parent (same.kin f)
  have twin : ∀ f, (t'.fiber f).twin = (t.fiber f).twin :=
    fun f => congrArg Kin.twin (same.kin f)
  simp only [same.kin, Tree.Beside, twin] at hl free ⊢
  exact k.cover f p ((Tree.Above.congr parent).mp above) l hl free

/-! ## Staging and settling -/

/-- A lane that is staged need not be known above. -/
theorem stage (k : Covered t es) (e : StagedUpdate) :
    Covered (t.addLanes e.fiber e.lane) (es ++ [e]) := by
  have shape := Tree.sameShape_addLanes t e.fiber e.lane
  have childLanes : ∀ f, ((t.addLanes e.fiber e.lane).kin f).childLanes = (t.kin f).childLanes :=
    fun f => Tree.childLanes_addLanes t e.fiber f e.lane
  refine ⟨k.family.of_sameShape shape fun f w twin => ?_, fun f p above l hl free => ?_⟩
  · rw [childLanes, childLanes]
    exact k.family.childLanes_eq f w twin
  · simp only [shape.beside] at free
    rw [childLanes]
    rcases Tree.mem_lanes_addLanes.mp hl with old | ⟨new, beside, _⟩
    · refine k.cover f p ((shape.above f p).mp above) l old fun d hd => ?_
      exact free d (List.mem_append_left _ hd)
    · -- The lane is new to `f`, so `e` is staged on `f` or its twin.
      have staged : e ∈ es ++ [e] := List.mem_append_right _ (List.mem_singleton_self e)
      exact absurd new (free e staged (k.family.beside_comm.mp beside))

/-- Settling makes the lanes known, whatever fails. -/
theorem settleEach (k : Covered t es) : Covered (Staging.settleEach t es) [] := by
  have shape := Staging.sameShape_settleEach es t
  refine ⟨k.family.of_sameShape shape fun f w twin => ?_, fun f p above l hl _ => ?_⟩
  · have back := k.family.twin_back f w twin
    have same : ∀ a, t.Beside a w ↔ t.Beside a f := fun _ => k.family.beside_twin twin
    have old : (t.fiber w).childLanes = (t.fiber f).childLanes := k.family.childLanes_eq f w twin
    refine LaneSet.ext_mem fun l => ?_
    refine Staging.mem_childLanes_settleEach.trans (.trans ?_
      Staging.mem_childLanes_settleEach.symm)
    simp only [old, same, Tree.has_of_twin back, Tree.has_of_twin twin]
  · have above := (shape.above f p).mp above
    have there := above.there k.family.parents
    refine Staging.mem_childLanes_settleEach.mpr ?_
    -- A lane that was staged beside `f` is raised now. Any other was known before.
    by_cases staged : ∃ e ∈ es, t.Beside f e.fiber ∧ l ∈ e.lane
    · obtain ⟨e, he, beside, hle⟩ := staged
      have above := k.family.above_of_beside beside above
      exact .inr ⟨e, he, hle, there, p, Tree.mem_ancestors_of_above k.family.parents above,
        .inl rfl⟩
    · refine .inl (k.cover f p above l ?_ fun e he beside hle => staged ⟨e, he, beside, hle⟩)
      rcases Staging.mem_lanes_settleEach.mp hl with old | ⟨e, he, hle, beside, _⟩
      · exact old
      · exact absurd ⟨e, he, k.family.beside_comm.mp beside, hle⟩ staged

/-! ## The operations on links -/

/-- A change that leaves twins and child lanes alone is harmless if each new way up starts
at a fiber whose lanes were known on an old one, or leads over one that knew of no work. -/
theorem of_ways (k : Covered t es) (parents : t'.ParentsThere)
    (twin : ∀ f, (t'.kin f).twin = (t.kin f).twin)
    (childLanes : ∀ f, (t'.kin f).childLanes = (t.kin f).childLanes)
    (parent_eq : ∀ f w, (t.kin f).twin = some w → (t'.kin w).parent = (t'.kin f).parent)
    (ways : ∀ f p, t'.Above f p → ∀ l ∈ (t'.kin f).lanes, l ∈ (t.kin f).lanes ∧
      (t.Above f p ∨ ∃ c, t.Above f c ∧ l ∉ (t.kin c).childLanes)) : Covered t' es := by
  refine ⟨⟨parents, ?_, ?_, ?_⟩, fun f p above l hl free => ?_⟩
  · simpa only [twin] using k.family.twin_back
  · simpa only [twin] using parent_eq
  · simpa only [twin, childLanes] using k.family.childLanes_eq
  · have beside : ∀ f h, t'.Beside f h ↔ t.Beside f h :=
      fun f h => or_congr Iff.rfl (iff_of_eq (congrArg (· = some h) (twin f)))
    simp only [beside] at free
    rw [childLanes]
    obtain ⟨old, above | ⟨c, above, unknown⟩⟩ := ways f p above l hl
    · exact k.cover f p above l old free
    · exact absurd (k.cover f c above l old free) unknown

/-- A fiber without a twin and without work is appended. What is below it has no work, or
the fiber would know. -/
theorem appendChild (k : Covered t es) (there : t.fibers.has p) (c : FiberId)
    (unlinked : (t.kin c).parent = none) (single : (t.kin c).twin = none)
    (idle : (t.kin c).lanes = ∅) (idleBelow : (t.kin c).childLanes = ∅) :
    Covered (t.appendChild p c) es := by
  have kin := Tree.kin_appendChild t p c
  refine k.of_ways (fun f q hq => ?_) (fun f => ?_) (fun f => ?_) (fun f w hw => ?_)
    fun f q above l hl => ?_
  · rw [Arena.has, Tree.size_appendChild]
    by_cases hc : f = c
    · subst hc
      have own : ((t.appendChild p f).kin f).parent = some q := hq
      rw [kin] at own
      split at own
      · cases own
        exact there
      · rw [unlinked] at own
        cases own
    · exact k.family.parents f q ((Tree.parent_appendChild_of_ne hc).symm.trans hq)
  · rw [kin]
    split <;> rfl
  · rw [kin]
    split <;> rfl
  · have hf : f ≠ c := by
      rintro rfl
      rw [single] at hw
      cases hw
    have hc : w ≠ c := by
      rintro rfl
      have back := k.family.twin_back f w hw
      rw [single] at back
      cases back
    rw [Tree.kin_appendChild_of_ne hf, Tree.kin_appendChild_of_ne hc]
    exact k.family.parent_eq f w hw
  · have old : l ∈ (t.kin f).lanes := by
      rw [kin] at hl
      split at hl <;> exact hl
    refine ⟨old, ?_⟩
    rcases Tree.above_appendChild above with rfl | above | above
    · simp [idle] at old
    · exact .inl above
    · exact .inr ⟨c, above, by simp [idleBelow]⟩

/-- A new child has no work. -/
theorem createChild (k : Covered t es) (there : t.fibers.has p) (tag : Tag) :
    Covered (t.createChild p tag).2 es := by
  have created := Tree.SameKin.createFiber t tag (t.fiber p).concurrent
  have none := (created.kin t.fibers.next).trans (Tree.kin_of_not_has (Arena.not_has_next _))
  refine (k.of_sameKin created).appendChild (created.has there) _ ?_ ?_ ?_ ?_ <;> rw [none]

/-- Fibers that are removed have nothing above them. -/
theorem detach (k : Covered t es) (g : FiberId) : Covered (t.detach g) es := by
  have kin := Tree.kin_detach t g
  refine k.of_ways (fun f q hq => ?_) (fun f => ?_) (fun f => ?_) (fun f w hw => ?_)
    fun f q above l hl => ⟨?_, .inl (Tree.above_of_detach above)⟩
  · rw [Arena.has, Tree.size_detach]
    exact k.family.parents f q (Tree.parent_of_detach hq)
  · rw [kin]
    split <;> rfl
  · rw [kin]
    split <;> rfl
  · have back := k.family.twin_back f w hw
    simp only [kin, k.family.beside_twin hw, Tree.has_of_twin back, Tree.has_of_twin hw, and_true]
    split
    · rfl
    · exact k.family.parent_eq f w hw
  · rw [kin] at hl
    split at hl <;> exact hl

theorem clearLanes (k : Covered t es) (g : FiberId) : Covered (t.clearLanes g) es := by
  have kin := Tree.kin_clearLanes t g
  have parent : ∀ f, ((t.clearLanes g).kin f).parent = (t.kin f).parent := by
    intro f
    rw [kin]
    split <;> rfl
  refine k.of_ways (fun f q hq => ?_) (fun f => ?_) (fun f => ?_) (fun f w hw => ?_)
    fun f q above l hl => ⟨?_, .inl ((Tree.Above.congr parent).mp above)⟩
  · exact (Tree.has_setFiber t g q _).trans (k.family.parents f q ((parent f).symm.trans hq))
  · rw [kin]
    split <;> rfl
  · rw [kin]
    split <;> rfl
  · rw [parent, parent]
    exact k.family.parent_eq f w hw
  · rw [kin] at hl
    split at hl
    · simp at hl
    · exact hl

end Covered

/-! ## Twins that are started -/

namespace Tree.Started

variable {t t' : Tree} {f w h q v : FiberId}

/-- The fiber whose parent and lanes `h` has after `w` was started as the twin of `f`. -/
def source (f w h : FiberId) : FiberId := if h = w then f else h

theorem read (s : Started t t' f w) (h : FiberId) :
    (t'.kin h).parent = (t.kin (source f w h)).parent ∧
      (t'.kin h).lanes = (t.kin (source f w h)).lanes ∧
      (t'.kin h).childLanes = (t.kin (source f w h)).childLanes := by
  by_cases hw : h = w
  · subst hw
    simp [source, s.kin_new]
  · by_cases hf : h = f
    · subst hf
      simp [source, hw, s.kin_source hw]
    · simp [source, hw, s.kin_other hw hf]

/-- What is above a fiber that was there is what was above its source. -/
theorem above_of_source (s : Started t t' f w) (k : t.Family) (there : t.fibers.has h)
    (above : t.Above (source f w h) q) : t.Above h q := by
  by_cases hw : h = w
  · subst hw
    simp only [source, if_pos] at above
    exact k.above_of_beside (.inr (s.twin_of_has there)) above
  · simpa [source, hw] using above

theorem source_above (s : Started t t' f w) (k : t.Family) (above : t'.Above h q) :
    t.Above (source f w h) q := by
  induction above with
  | parent hq => exact .parent ((s.read _).1.symm.trans hq)
  | @step h g q hg _ ih =>
    have up : (t.fiber (source f w h)).parent = some g := (s.read h).1.symm.trans hg
    exact .step up (s.above_of_source k (k.parents _ _ up) ih)

theorem childLanes (s : Started t t' f w) (k : t.Family) (there : t.fibers.has q) :
    (t'.kin q).childLanes = (t.kin q).childLanes := by
  rw [(s.read q).2.2]
  by_cases hw : q = w
  · subst hw
    simp [source, k.childLanes_eq f q (s.twin_of_has there)]
  · simp [source, hw]

theorem beside_of_source (s : Started t t' f w) (b : t.Beside (source f w h) q) :
    t'.Beside h q := by
  by_cases hw : h = w
  · subst hw
    simp only [source, if_pos] at b
    rcases b with rfl | twin
    · exact .inr s.twin_new
    · exact .inl (s.eq_of_twin twin).symm
  · simp only [source, if_neg hw] at b
    refine b.imp id fun twin => ?_
    by_cases hf : h = f
    · subst hf
      exact (congrArg Kin.twin (s.kin_source hw)).trans (congrArg some (s.eq_of_twin twin).symm)
    · exact (congrArg Kin.twin (s.kin_other hw hf)).trans twin

theorem family (s : Started t t' f w) (k : t.Family) : t'.Family := by
  refine ⟨fun h q hq => ?_, fun _ _ => s.back k.twin_back, fun h v hv => ?_, fun h v hv => ?_⟩
  · exact s.has (k.parents (source f w h) q ((s.read h).1.symm.trans hq))
  · rcases s.twins k.twin_back hv with ⟨rfl, rfl⟩ | ⟨rfl, rfl⟩ | ⟨same, same', twin⟩
    · simp [(s.read _).1, source]
    · simp [(s.read _).1, source]
    · rw [same, same']
      exact k.parent_eq h v twin
  · rcases s.twins k.twin_back hv with ⟨rfl, rfl⟩ | ⟨rfl, rfl⟩ | ⟨same, same', twin⟩
    · simp [(s.read _).2.2, source]
    · simp [(s.read _).2.2, source]
    · rw [same, same']
      exact k.childLanes_eq h v twin

end Tree.Started

/-- A twin that is started has the kin of its fiber, so nothing has to be known above it
that need not be known above the fiber. -/
theorem Covered.startTwin {t : Tree} {es : List StagedUpdate} (k : Covered t es) {f : FiberId}
    (there : t.fibers.has f) (value : Option Value) : Covered (t.startTwin f value).2 es := by
  have s := Tree.started_startTwin there (k.family.twin_back f) value
  generalize (t.startTwin f value).1 = w at s
  refine ⟨s.family k.family, fun h q above l hl free => ?_⟩
  have above := s.source_above k.family above
  rw [s.childLanes k.family (above.there k.family.parents)]
  rw [(s.read h).2.1] at hl
  exact k.cover _ q above l hl fun e he b => free e he (s.beside_of_source b)

end ConcurrentRender
