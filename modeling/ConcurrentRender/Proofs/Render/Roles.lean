import ConcurrentRender.Proofs.Render.Access
import ConcurrentRender.Proofs.Render.ChildLanes
import ConcurrentRender.Proofs.Context.WayUp

/-!
# What fibers are throughout

A fiber is created for one component and keeps its tag. Its twin is created for the same component,
and what one of them stands for, the other one stands for, too. No call changes that, wherever it
puts the fiber. A fiber that is marked as removed stays marked, unless it is started anew as the
twin of another one.

* `Fiber.kind x`: the tag of the fiber and what it stands for. `Fiber.role x`: its twin, too.
* `Tree.Paired t`: twins are twins of each other and of one kind, and roots have fibers.
* `Tree.KeepsRoles t t'`: the fibers of `t` have their roles in `t'` as well.
* `Tree.KeepsMarks t t'`: moreover, those that are marked as removed are marked in `t'`.
* `Tree.KeepsCuts t t'`: moreover, those without a parent have none in `t'`.

Results:
1. `KeepsCuts.edit`, `keepsCuts_next`: most changes of a tree keep roles, marks and cuts.
2. `KeepsMarks.spread`: a spread keeps roles and marks.
3. `paired_access`, `paired_through`: every access that is in order keeps twins in pairs.
-/

namespace ConcurrentRender

/-- What a fiber was created for, and what it stands for. -/
def Fiber.kind (x : Fiber) : Tag × Option Instance := (x.tag, x.inst)

/-- What a fiber is, wherever it stands. -/
structure Role where
  twin : Option FiberId
  kind : Tag × Option Instance

def Fiber.role (x : Fiber) : Role where
  twin := x.twin
  kind := x.kind

/-- The change keeps the role of a fiber, and its mark if it is removed. -/
def Fiber.Keeps (g : Fiber → Fiber) : Prop :=
  ∀ x, (g x).role = x.role ∧ (x.flags.detached = true → (g x).flags.detached = true)

theorem Fiber.keeps_of_stem {k : Fiber → Fiber} (hk : ∀ x, (k x).stem = x.stem) : Keeps k := by
  refine fun x => ⟨?_, fun marked => ?_⟩
  · show (k x).stem.role = x.stem.role
    rw [hk]
  · show (k x).stem.flags.detached = true
    rw [hk]
    exact marked

/-- The change gives a fiber that is there another place, or lets it stand for something else. -/
def TreeEdit.replaces : TreeEdit → Bool
  | appendChild .. => true
  | startTwin .. => true
  | createBoundary .. => true
  | _ => false

namespace Tree

/-- Twins are twins of each other and of one kind, and roots have their fibers. -/
structure Paired (t : Tree) : Prop where
  twins : t.TwinsMutual
  kind : ∀ f w, (t.fiber f).twin = some w → (t.fiber w).kind = (t.fiber f).kind
  tops : t.TopsThere

/-- The fibers of `t` have the same roles in `t'`, and others have no twins yet. -/
structure KeepsRoles (t t' : Tree) : Prop where
  size : t.fibers.size ≤ t'.fibers.size
  role : ∀ f, t.fibers.has f → (t'.fiber f).role = (t.fiber f).role
  new : ∀ f, t.fibers.has f = false → (t'.fiber f).twin = none
  tops : t.TopsThere → t'.TopsThere

/-- Moreover, the fibers that are marked as removed in `t` are marked in `t'`. -/
structure KeepsMarks (t t' : Tree) : Prop extends KeepsRoles t t' where
  marks : ∀ f, (t.fiber f).flags.detached = true → (t'.fiber f).flags.detached = true

/-- Moreover, the fibers of `t` without a parent have none in `t'`. -/
structure KeepsCuts (t t' : Tree) : Prop extends KeepsMarks t t' where
  loose : ∀ f, t.fibers.has f → (t.fiber f).parent = none → (t'.fiber f).parent = none

variable {t t' t'' : Tree} {f g h w : FiberId} {k : Fiber → Fiber}

/-- Which root a fiber stands for depends on its kind. -/
theorem rootOf?_of_kind (same : (t'.fiber h).kind = (t.fiber f).kind) :
    t'.rootOf? h = t.rootOf? f := by
  obtain ⟨tag, inst⟩ := Prod.mk.inj same
  unfold rootOf?
  rw [tag, inst]

namespace KeepsRoles

theorem refl (t : Tree) : KeepsRoles t t where
  size := Nat.le_refl _
  role _ _ := rfl
  new f absent := by rw [fiber_of_not_has absent]; rfl
  tops := id

theorem has (keeps : KeepsRoles t t') (there : t.fibers.has f) : t'.fibers.has f :=
  Arena.has_of_size_le keeps.size there

theorem twin (keeps : KeepsRoles t t') (there : t.fibers.has f) :
    (t'.fiber f).twin = (t.fiber f).twin := congrArg Role.twin (keeps.role f there)

theorem kind (keeps : KeepsRoles t t') (there : t.fibers.has f) :
    (t'.fiber f).kind = (t.fiber f).kind := congrArg Role.kind (keeps.role f there)

theorem trans (keeps : KeepsRoles t t') (keeps' : KeepsRoles t' t'') : KeepsRoles t t'' where
  size := Nat.le_trans keeps.size keeps'.size
  role f there := (keeps'.role f (keeps.has there)).trans (keeps.role f there)
  new f absent := by
    cases there : t'.fibers.has f with
    | true => exact (keeps'.twin there).trans (keeps.new f absent)
    | false => exact keeps'.new f there
  tops tops := keeps'.tops (keeps.tops tops)

theorem setFiber (hk : ∀ x, (k x).role = x.role) (t : Tree) (f : FiberId) :
    KeepsRoles t (t.setFiber f k) where
  size := Nat.le_of_eq (size_setFiber t f k).symm
  role h _ := by
    rw [fiber_setFiber]
    split
    · exact hk _
    · rfl
  new h absent := by
    rw [fiber_of_not_has (by rw [has_setFiber]; exact absent)]
    rfl
  tops tops := tops.of_same (Nat.le_of_eq (size_setFiber t f k).symm) rfl

theorem beside (keeps : KeepsRoles t t') (there : t.fibers.has f) :
    t'.Beside f h ↔ t.Beside f h :=
  or_congr Iff.rfl (by rw [keeps.twin there])

theorem rootOf? (keeps : KeepsRoles t t') (there : t.fibers.has f) :
    t'.rootOf? f = t.rootOf? f := rootOf?_of_kind (keeps.kind there)

end KeepsRoles

namespace KeepsMarks

theorem refl (t : Tree) : KeepsMarks t t := ⟨.refl t, fun _ => id⟩

theorem trans (keeps : KeepsMarks t t') (keeps' : KeepsMarks t' t'') : KeepsMarks t t'' where
  toKeepsRoles := keeps.toKeepsRoles.trans keeps'.toKeepsRoles
  marks f marked := keeps'.marks f (keeps.marks f marked)

theorem setFiber (hk : Fiber.Keeps k) (t : Tree) (f : FiberId) :
    KeepsMarks t (t.setFiber f k) where
  toKeepsRoles := .setFiber (fun x => (hk x).1) t f
  marks h marked := by
    rw [fiber_setFiber]
    split
    · exact (hk _).2 marked
    · exact marked

theorem of_setTwins (hk : Fiber.Keeps k) (t : Tree) (f : FiberId) :
    KeepsMarks t (t.setTwins f k) :=
  keeps_setTwins (R := KeepsMarks) trans (setFiber hk) t f

end KeepsMarks

namespace KeepsCuts

theorem refl (t : Tree) : KeepsCuts t t := ⟨.refl t, fun _ _ => id⟩

theorem trans (keeps : KeepsCuts t t') (keeps' : KeepsCuts t' t'') : KeepsCuts t t'' where
  toKeepsMarks := keeps.toKeepsMarks.trans keeps'.toKeepsMarks
  loose f there loose := keeps'.loose f (keeps.has there) (keeps.loose f there loose)

theorem of_fibers_eq (same : t'.fibers = t.fibers) (tops : t.TopsThere → t'.TopsThere) :
    KeepsCuts t t' := by
  have fiber (f : FiberId) : t'.fiber f = t.fiber f := by simp only [Tree.fiber, same]
  refine ⟨⟨⟨by rw [same], fun f _ => by rw [fiber], fun f absent => ?_, tops⟩, fun f => ?_⟩, ?_⟩
  · rw [fiber, fiber_of_not_has absent]
    rfl
  · rw [fiber]
    exact id
  · intro f _
    rw [fiber]
    exact id

theorem of_sameShape (shape : t.SameShape t') (roots : t'.roots = t.roots) : KeepsCuts t t' where
  size := Nat.le_of_eq shape.size.symm
  role f _ := show (t'.fiber f).bare.role = (t.fiber f).bare.role by rw [shape.bare]
  new f absent := by
    rw [shape.twin, fiber_of_not_has absent]
    rfl
  marks f marked := by rw [shape.flags]; exact marked
  tops tops := tops.of_same (Nat.le_of_eq shape.size.symm) roots
  loose f _ loose := (shape.parent f).trans loose

theorem setFiber (hk : Fiber.Keeps k) (loose : ∀ x, x.parent = none → (k x).parent = none)
    (t : Tree) (f : FiberId) : KeepsCuts t (t.setFiber f k) where
  toKeepsMarks := .setFiber hk t f
  loose h _ own := by
    rw [fiber_setFiber]
    split
    · exact loose _ own
    · exact own

/-- A fiber that is not in `t` may be given any place in `t'`. -/
theorem setNew (keeps : KeepsCuts t t') (absent : t.fibers.has f = false)
    (twin : ∀ x, (k x).twin = x.twin) : KeepsCuts t (t'.setFiber f k) := by
  have other {h : FiberId} (there : t.fibers.has h) : (t'.setFiber f k).fiber h = t'.fiber h := by
    rw [fiber_setFiber, if_neg]
    rintro ⟨rfl, -⟩
    rw [there] at absent
    cases absent
  have size := Nat.le_of_eq (size_setFiber t' f k).symm
  refine ⟨⟨⟨Nat.le_trans keeps.size size, fun h there => ?_, fun h gone => ?_,
    fun tops => (keeps.tops tops).of_same size rfl⟩, fun h marked => ?_⟩, fun h there loose => ?_⟩
  · rw [other there]
    exact keeps.role h there
  · rw [fiber_setFiber]
    split
    · exact (twin _).trans (keeps.new h gone)
    · exact keeps.new h gone
  · rw [other (has_of_marked marked)]
    exact keeps.marks h marked
  · rw [other there]
    exact keeps.loose h there loose

theorem createFiber (t : Tree) (tag : Tag) (concurrent : Bool) :
    KeepsCuts t (t.createFiber tag concurrent).2 := by
  have size : t.fibers.size ≤ (t.createFiber tag concurrent).2.fibers.size :=
    (Arena.size_add ..).symm ▸ Nat.le_succ _
  have old {f : FiberId} (there : t.fibers.has f) :
      (t.createFiber tag concurrent).2.fiber f = t.fiber f := Arena.get_add_of_lt _ _ _ there
  refine ⟨⟨⟨size, fun f there => by rw [old there], fun f absent => ?_,
    fun tops => tops.of_same size rfl⟩, fun f marked => ?_⟩,
    fun f there loose => by rw [old there]; exact loose⟩
  · refine (Arena.read_add Fiber.twin t.fibers { tag, concurrent } rfl f).trans ?_
    exact congrArg Fiber.twin (fiber_of_not_has absent)
  · rw [old (has_of_marked marked)]
    exact marked

theorem createRoot (t : Tree) (concurrent : Bool) :
    KeepsCuts t (t.createRoot concurrent).2 := by
  have created : KeepsCuts t ((t.createFiber .hostRoot concurrent).2.setFiber t.fibers.next
      fun x => { x with inst := some (.root t.roots.next) }) :=
    (createFiber t .hostRoot concurrent).setNew (Arena.not_has_next _) fun _ => rfl
  -- The new root is all that is different then.
  exact ⟨⟨⟨created.size, created.role, created.new, fun tops => tops.createRoot concurrent⟩,
    created.marks⟩, created.loose⟩

/-- Only the fiber that is appended is given a parent. -/
theorem appendChild_of_loose (t : Tree) (p c : FiberId) :
    KeepsCuts (t.setFiber c fun x => { x with parent := some p, sibling := none })
      (t.appendChild p c) := by
  unfold Tree.appendChild
  dsimp only
  split <;> exact setFiber (by exact fun _ => ⟨rfl, id⟩) (by exact fun _ => id) _ _

theorem createChild (t : Tree) (p : FiberId) (tag : Tag) :
    KeepsCuts t (t.createChild p tag).2 :=
  ((createFiber t tag _).setNew (Arena.not_has_next _) (by exact fun _ => rfl)).trans
    (appendChild_of_loose _ p _)

theorem unlinkChild (t : Tree) (p c : FiberId) : KeepsCuts t (t.unlinkChild p c) := by
  rcases t.unlinkChild_cases p c with same | ⟨f, same⟩ | ⟨f, same⟩ <;> rw [same]
  · exact refl t
  · exact setFiber (by exact fun _ => ⟨rfl, id⟩) (by exact fun _ => id) t f
  · exact setFiber (by exact fun _ => ⟨rfl, id⟩) (by exact fun _ => id) t f

theorem detachOne (t : Tree) (f : FiberId) : KeepsCuts t (t.detachOne f) := by
  unfold Tree.detachOne
  cases (t.fiber f).parent with
  | none => exact setFiber (by exact fun _ => ⟨rfl, fun _ => rfl⟩) (by exact fun _ _ => rfl) t f
  | some p =>
    exact (unlinkChild t p f).trans
      (setFiber (by exact fun _ => ⟨rfl, fun _ => rfl⟩) (by exact fun _ _ => rfl) _ f)

theorem detach (t : Tree) (f : FiberId) : KeepsCuts t (t.detach f) := by
  unfold Tree.detach
  cases (t.fiber f).twin with
  | none => exact detachOne t f
  | some w => exact (detachOne t f).trans (detachOne _ w)

theorem createQueue (t : Tree) (owner : FiberId) : KeepsCuts t (t.createQueue owner).2 := by
  unfold Tree.createQueue
  have added : KeepsCuts t { t with queues := t.queues.add { owner } } :=
    of_fibers_eq rfl fun tops => tops.of_same (Nat.le_refl _) rfl
  exact added.trans (setFiber (by exact fun _ => ⟨rfl, id⟩) (by exact fun _ => id) _ owner)

end KeepsCuts

theorem KeepsCuts.edit (t : Tree) {e : TreeEdit} (apart : e.replaces = false) :
    KeepsCuts t (e.apply t) := by
  cases e with
  | appendChild | startTwin | createBoundary => cases apart
  | createRoot concurrent => exact .createRoot t concurrent
  | createFiber tag concurrent => exact .createFiber t tag concurrent
  | createChild p tag => exact .createChild t p tag
  | detach f => exact .detach t f
  | clearLanes f =>
    exact .setFiber (by exact fun _ => ⟨rfl, id⟩) (by exact fun _ => id) t f
  | createQueue owner => exact .createQueue t owner
  | setVisible => exact .of_fibers_eq rfl fun tops => tops.of_same (Nat.le_refl _) rfl
  | reveal b lanes =>
    obtain ⟨fibers, roots, -⟩ := frame_reveal t b lanes
    exact .of_fibers_eq fibers fun tops =>
      tops.of_same (Nat.le_of_eq (congrArg Arena.size fibers).symm) roots

theorem KeepsMarks.appendChild (t : Tree) (p c : FiberId) : KeepsMarks t (t.appendChild p c) :=
  (KeepsMarks.setFiber (by exact fun _ => ⟨rfl, id⟩) t c).trans
    (KeepsCuts.appendChild_of_loose t p c).toKeepsMarks

/-- A spread may give fibers other parents, and nothing else that matters here. -/
theorem KeepsMarks.spread (t : Tree) (s : Search) : KeepsMarks t (t.spread s) :=
  Stemwise.spread ⟨.refl, .trans, fun hk t f => .setFiber (Fiber.keeps_of_stem hk) t f⟩ t s

theorem KeepsMarks.spreadFromAbove (t : Tree) (f : FiberId) (lanes : LaneSet) (forced : Bool) :
    KeepsMarks t (Tree.spreadFromAbove f lanes forced t).state := by
  cases above : t.changedAbove f with
  | error e =>
    rw [(spreadFromAbove_of_error above).2]
    exact refl t
  | ok contexts =>
    rw [(spreadFromAbove_of_ok above).2]
    split
    · exact setFiber (by exact fun _ => ⟨rfl, id⟩) t f
    · exact (spread t _).trans (setFiber (by exact fun _ => ⟨rfl, id⟩) _ f)

/-! ## Pairs of twins -/

namespace Paired

/-- A fiber stands beside both of two twins or beside none of them. -/
theorem beside_twin (paired : t.Paired) (twin : (t.fiber g).twin = some w) :
    t.Beside f w ↔ t.Beside f g := by
  have back := paired.twins g w twin
  constructor
  · rintro (rfl | other)
    · exact .inr back
    · exact .inl (Option.some.inj ((paired.twins f w other).symm.trans back))
  · rintro (rfl | other)
    · exact .inr twin
    · exact .inl (Option.some.inj ((paired.twins f g other).symm.trans twin))

theorem of_keepsRoles (paired : t.Paired) (keeps : KeepsRoles t t') : t'.Paired := by
  -- Fibers that have a twin in `t'` had the same one in `t`.
  have before {f w : FiberId} (twin : (t'.fiber f).twin = some w) :
      (t.fiber f).twin = some w ∧ t.fibers.has f ∧ t.fibers.has w := by
    have there : t.fibers.has f := by
      by_contra absent
      cases twin.symm.trans (keeps.new f (Bool.eq_false_iff.mpr absent))
    have own := (keeps.twin there).symm.trans twin
    exact ⟨own, there, has_of_twin (paired.twins f w own)⟩
  refine ⟨fun f w twin => ?_, fun f w twin => ?_, keeps.tops paired.tops⟩
  · obtain ⟨own, -, there⟩ := before twin
    exact (keeps.twin there).trans (paired.twins f w own)
  · obtain ⟨own, there, there'⟩ := before twin
    exact (keeps.kind there').trans ((paired.kind f w own).trans (keeps.kind there).symm)

end Paired

theorem fiber_createBoundary (t : Tree) (f h : FiberId) (visible : Bool) :
    (t.createBoundary f visible).2.fiber h =
      if t.Beside f h ∧ t.fibers.has h then
        { t.fiber h with inst := some (.boundary t.boundaries.next) }
      else t.fiber h :=
  fiber_setTwins (fun _ => by rfl) { t with boundaries := t.boundaries.add { visible } } f h

theorem twin_createBoundary (t : Tree) (f h : FiberId) (visible : Bool) :
    ((t.createBoundary f visible).2.fiber h).twin = (t.fiber h).twin := by
  rw [fiber_createBoundary]
  split <;> rfl

/-- Both of two twins stand for the new boundary, or none of them. -/
theorem Paired.createBoundary (paired : t.Paired) (f : FiberId) (visible : Bool) :
    (t.createBoundary f visible).2.Paired := by
  refine ⟨fun g w => ?_, fun g w => ?_, paired.tops.edit (.createBoundary f visible)⟩
  · rw [twin_createBoundary, twin_createBoundary]
    exact paired.twins g w
  · rw [twin_createBoundary, fiber_createBoundary, fiber_createBoundary]
    intro own
    have kind := paired.kind g w own
    simp only [paired.beside_twin own, has_of_twin own, has_of_twin (paired.twins g w own),
      and_true]
    split
    · exact congrArg₂ Prod.mk (congrArg Prod.fst kind) rfl
    · exact kind

/-- A twin that is started is of the kind of its fiber. All others are what they were. -/
theorem kind_startTwin (paired : t.Paired) (there : t.fibers.has f) (value : Option Value) :
    ∃ w t', t.startTwin f value = (w, t') ∧ t.Started t' f w ∧
      ∀ h, (t'.fiber h).kind = if h = w then (t.fiber f).kind else (t.fiber h).kind := by
  have started := started_startTwin there (paired.twins f) value
  obtain ⟨w, t', origin, run, -, -, status, fiber⟩ := fiber_startTwin there (paired.twins f) value
  have tag : origin.tag = (t.fiber f).tag := by
    rcases status with ⟨twin, rfl⟩ | ⟨-, rfl⟩
    · exact congrArg Prod.fst (paired.kind f w twin)
    · rfl
  rw [run] at started
  refine ⟨w, t', run, started, fun h => ?_⟩
  rw [fiber]
  split
  · exact congrArg₂ Prod.mk tag rfl
  · split
    next same => rw [same]; rfl
    next => rfl

theorem Paired.startTwin (paired : t.Paired) (there : t.fibers.has f) (value : Option Value) :
    (t.startTwin f value).2.Paired := by
  have tops := paired.tops.edit (.startTwin f value)
  obtain ⟨w, t', run, started, kind⟩ := kind_startTwin paired there value
  simp only [TreeEdit.apply, run] at tops ⊢
  exact ⟨fun g v twin => started.back paired.twins twin,
    fun g v twin => started.agree paired.twins kind paired.kind twin, tops⟩

/-- A twin is started for a fiber that is there. -/
theorem Paired.edit (paired : t.Paired) {e : TreeEdit}
    (there : ∀ c value, e = .startTwin c value → t.fibers.has c) : (e.apply t).Paired := by
  cases apart : e.replaces with
  | false => exact paired.of_keepsRoles (KeepsCuts.edit t apart).toKeepsRoles
  | true =>
    cases e with
    | appendChild p c => exact paired.of_keepsRoles (KeepsMarks.appendChild t p c).toKeepsRoles
    | startTwin c value => exact paired.startTwin (there c value rfl) value
    | createBoundary f visible => exact paired.createBoundary f visible
    | _ => cases apart

end Tree

/-! ## Moves -/

namespace Move

/-- The move is no change of the tree alone. A fiber that becomes the committed one is in `t`, and
what a fiber notes about contexts does not matter for its mark. -/
def Quiet (t : Tree) : Move → Prop
  | edit _ => False
  | current _ fiber => t.fibers.has fiber
  | notes _ g => ∀ x, (g x).2.detached = x.flags.detached
  | _ => True

variable {s : Staging} {m : Move} {ms : List Move}

theorem Quiet.mono {t t' : Tree} (quiet : m.Quiet t) (keeps : t.KeepsCuts t') : m.Quiet t' := by
  cases m with
  | current root fiber => exact keeps.has quiet
  | _ => exact quiet

theorem keepsCuts_stage (s : Staging) (e : StagedUpdate) :
    s.tree.KeepsCuts (s.stage e).tree :=
  .of_sameShape (Tree.sameShape_addLanes s.tree _ _) (Tree.OnlyFibers.setTwins s.tree _ _).roots

theorem keepsCuts_flush (s : Staging) : s.tree.KeepsCuts (Staging.flush s).state.tree := by
  rw [(Staging.flush_eq s).1]
  exact .of_sameShape (Staging.sameShape_settleEach _ _) (Staging.roots_settleEach _ _)

theorem keepsCuts_apply (quiet : m.Quiet s.tree) : s.tree.KeepsCuts (m.apply s).tree := by
  have tops {t : Tree} (fibers : t.fibers = s.tree.fibers) (roots : t.roots = s.tree.roots) :
      s.tree.TopsThere → t.TopsThere := fun tops => tops.of_same (by rw [fibers]) roots
  cases m with
  | edit e => exact quiet.elim
  | schedule fiber queue payload made lane =>
    have created : s.tree.KeepsCuts (s.tree.createUpdate made payload).2 :=
      .of_fibers_eq rfl (tops rfl rfl)
    exact created.trans (keepsCuts_stage (onTree s fun t => (t.createUpdate made payload).2) _)
  | force fiber lane => exact keepsCuts_stage s _
  | flush => exact keepsCuts_flush s
  | take queue => exact .of_fibers_eq rfl (tops rfl rfl)
  | ledger root g => exact .of_fibers_eq rfl fun tops => tops.setRoot root fun _ => id
  | entangle root queue lane =>
    simp only [apply]
    split
    · refine .of_fibers_eq rfl fun old => .setRoot ?_ root fun _ => id
      exact tops rfl rfl old
    · exact .refl _
  | current root fiber => exact .of_fibers_eq rfl fun tops => tops.setRoot root fun _ _ => quiet
  | pooled root g => exact .of_fibers_eq rfl fun tops => tops.setRoot root fun _ => id
  | notes fiber g =>
    have keeps : Fiber.Keeps fun x => { x with dependencies := (g x).1, flags := (g x).2 } :=
      fun x => ⟨rfl, fun marked => (quiet x).trans marked⟩
    exact .setFiber keeps (by exact fun _ => id) s.tree fiber
  | streak g => exact .refl _

theorem keepsCuts_applyAll (quiet : ∀ m ∈ ms, m.Quiet s.tree) :
    s.tree.KeepsCuts (applyAll s ms).tree := by
  induction ms generalizing s with
  | nil => exact .refl _
  | cons m ms ih =>
    obtain ⟨first, rest⟩ := List.forall_mem_cons.mp quiet
    have keeps := keepsCuts_apply first
    exact keeps.trans (ih fun m mem => (rest m mem).mono keeps)

end Move

/-! ## Accesses -/

namespace Renderer

variable {r : Renderer} {op : Operation} {a : Access} {as : List Access}

/-- A commit makes a twin the committed fiber. It is there, being the twin of a fiber. -/
theorem quiet_commit (paired : r.tree.Paired) (root : RootId) (remaining : LaneSet) :
    ∀ m ∈ r.moves (.commit root remaining), m.Quiet r.tree := by
  have switch : ∀ m ∈ r.switchMoves root, m.Quiet r.tree :=
    forall_switchMoves fun w twin => Tree.has_of_twin (paired.twins _ w twin)
  simp only [moves]
  refine List.forall_mem_append.mpr ⟨List.forall_mem_cons.mpr ⟨trivial, switch⟩, ?_⟩
  simp [Move.Quiet]

/-- The tree after the change that a call makes to links, if it makes one. -/
def rebuilt (r : Renderer) : Operation → Tree
  | .edit e => e.apply r.tree
  | .prepare root =>
    if (r.nextLanes root).isEmpty then r.tree
    else (r.tree.startTwin (r.tree.root root).current none).2
  | _ => r.tree

/-- Besides that change, a call keeps everything that decides where fibers belong. -/
theorem keepsCuts_next (paired : r.tree.Paired) (op : Operation) :
    (r.rebuilt op).KeepsCuts (r.next op).tree := by
  have quiet {op : Operation} (all : ∀ m ∈ r.moves op, m.Quiet r.tree) :
      r.tree.KeepsCuts (r.next op).tree := by
    have kept := Move.keepsCuts_applyAll (s := r.staging) all
    rw [← staging_next] at kept
    exact kept
  cases op with
  | edit e => exact .refl _
  | prepare root =>
    have staging := staging_next r (.prepare root)
    simp only [rebuilt, moves] at staging ⊢
    show Tree.KeepsCuts _ (r.next (.prepare root)).staging.tree
    rw [staging]
    split
    · exact .refl _
    · exact Move.keepsCuts_flush
        (Move.onTree r.staging fun t => (t.startTwin (t.root root).current none).2)
  | dispatch fiber queue payload =>
    refine quiet (List.forall_mem_cons.mpr ⟨trivial, forall_tellMoves trivial r fiber ?_⟩)
    simp [Move.Quiet]
  | dispatchQuietly fiber queue payload =>
    refine quiet (List.forall_mem_cons.mpr ⟨trivial, ?_⟩)
    split <;> simp [Move.Quiet]
  | forceUpdate fiber =>
    refine quiet (List.forall_mem_cons.mpr ⟨trivial, forall_tellMoves trivial r fiber ?_⟩)
    simp [Move.Quiet]
  | begin fiber =>
    refine quiet ?_
    simp only [moves]
    split <;> simp [Move.Quiet]
  | readContext context =>
    refine quiet ?_
    simp only [moves]
    split
    · exact List.forall_mem_nil _
    · refine List.forall_mem_singleton.mpr fun x => ?_
      unfold ContextView.noteRead
      split <;> rfl
  | commit root remaining => exact quiet (quiet_commit paired root remaining)
  | flush | takePending | suspended | pinged | starved =>
    exact quiet (List.forall_mem_singleton.mpr trivial)
  | enter | leave | entangle | settle | pushProvider | popProvider | rerender | complete =>
    exact quiet (List.forall_mem_nil _)

theorem keepsCuts_pooledCache (r : Renderer) : r.tree.KeepsCuts (pooledCache r).state.tree := by
  rw [state_pooledCache]
  cases r.renderRoot with
  | none => exact .refl r.tree
  | some root =>
    let pool : Pool := { root := r.tree.root root, host := r.host }
    show r.tree.KeepsCuts
      (r.tree.setRoot root fun _ => (Pool.request r.renderLanes pool).state.root)
    refine .of_fibers_eq rfl fun tops about there => ?_
    rw [Tree.has_setRoot] at there
    rw [Tree.root_setRoot]
    split
    next h =>
      obtain ⟨rfl, -⟩ := h
      rw [(frame_pool_request _ pool).1]
      exact tops root there
    next => exact tops about there

/-- What is written to a fiber does not change its role, and trees are changed in no other way. What
a call is about is there. -/
def Orderly (r : Renderer) : Access → Prop
  | .call (.edit (.startTwin current _)) => r.tree.fibers.has current
  | .call (.prepare root) => r.tree.roots.has root
  | .aside (.writeFiber _ g) => ∀ x, (g x).role = x.role
  | .tree g => r.tree.KeepsRoles (g r.tree)
  | _ => True

/-- Each access is orderly when it is made. -/
def AllOrderly (r : Renderer) : List Access → Prop
  | [] => True
  | a :: as => r.Orderly a ∧ (r.access a).AllOrderly as

/-- What is in order before a render is started is in order once its twin is there. -/
theorem paired_rebuilt (paired : r.tree.Paired) (orderly : r.Orderly (.call op)) :
    (r.rebuilt op).Paired := by
  cases op with
  | edit e =>
    refine paired.edit fun c value same => ?_
    subst same
    exact orderly
  | prepare root =>
    simp only [rebuilt]
    split
    · exact paired
    · exact paired.startTwin (paired.tops root orderly) none
  | _ => exact paired

theorem paired_aside (paired : r.tree.Paired) {c : SideCall} (orderly : r.Orderly (.aside c)) :
    (r.aside c).tree.Paired := by
  cases c with
  | requestLane | requestRetryLane | share => exact paired
  | createUpdate => exact ⟨paired.twins, paired.kind, paired.tops⟩
  | writeFiber fiber g => exact paired.of_keepsRoles (.setFiber orderly r.tree fiber)
  | bailOut fiber =>
    exact paired.of_keepsRoles (Tree.KeepsMarks.spreadFromAbove r.tree fiber _ false).toKeepsRoles
  | spreadDeferred fiber =>
    exact paired.of_keepsRoles (Tree.KeepsMarks.spreadFromAbove r.tree fiber _ true).toKeepsRoles
  | spreadCache boundary =>
    exact paired.of_keepsRoles (Tree.KeepsMarks.spread r.tree _).toKeepsRoles
  | pooledCache => exact paired.of_keepsRoles (keepsCuts_pooledCache r).toKeepsRoles

theorem paired_access (paired : r.tree.Paired) (orderly : r.Orderly a) :
    (r.access a).tree.Paired := by
  cases a with
  | call op =>
    exact (paired_rebuilt paired orderly).of_keepsRoles (keepsCuts_next paired op).toKeepsRoles
  | aside c => exact paired_aside paired orderly
  | tree g => exact paired.of_keepsRoles orderly
  | actions g => exact paired

theorem paired_through (paired : r.tree.Paired) (orderly : r.AllOrderly as) :
    (r.through as).tree.Paired := by
  induction as generalizing r with
  | nil => exact paired
  | cons a as ih => exact ih (paired_access paired orderly.1) orderly.2

theorem paired_start {settings : Settings} {registry : ContextRegistry}
    (begins : start settings registry = .ok r) : r.tree.Paired := by
  have none (f : FiberId) : (r.tree.fiber f).twin = none := by
    rw [eq_of_start begins]
    exact congrArg Fiber.twin (Tree.fiber_of_not_has (decide_eq_false (Nat.not_lt_zero _)))
  refine ⟨fun f w twin => ?_, fun f w twin => ?_, fun root there => ?_⟩
  · rw [none] at twin
    cases twin
  · rw [none] at twin
    cases twin
  · rw [eq_of_start begins] at there
    exact absurd (of_decide_eq_true there) (Nat.not_lt_zero _)

end Renderer

end ConcurrentRender
