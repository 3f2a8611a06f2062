import ConcurrentRender.Proofs.Render.Roles
import ConcurrentRender.Proofs.Staging.Unmounted

/-!
# A removed part of the tree stays apart

Once a fiber was removed, updates of it and of the fibers below do not reach the mounted tree any
more, whatever is done to a renderer. There are three ways back. The fiber or its twin is appended
again or started as the twin of the other one, which is how fibers come back. The mark is taken
from one of them, and then a mark of the way up does not know what it came to. Or a spread comes to
one of them from a list of children in which it was left, and gives it a parent.

* `Renderer.Spares r f a`: the access does nothing of that to `f`.

Results:
1. `removed_detach`: a fiber that stands for no root is cut off when it is removed.
2. `Removed.edit`, `removed_access`: it stays so in every access that spares it.
3. `undisturbed_by_removed`: what then becomes of late updates.
-/

namespace ConcurrentRender

namespace Tree

variable {t t' : Tree} {f h c : FiberId} {e : TreeEdit}

namespace Removed

theorem has (removed : t.Removed f) : t.fibers.has f := has_of_cut (removed.cut f (.inl rfl))

theorem of_keepsRoles (removed : t.Removed f) (keeps : KeepsRoles t t')
    (cut : ∀ h, t.Beside f h → (t'.fiber h).Cut) : t'.Removed f := by
  have beside {h : FiberId} : t'.Beside f h → t.Beside f h := (keeps.beside removed.has).mp
  refine ⟨fun h near => cut h (beside near), fun h near => ?_⟩
  have there := has_of_cut (removed.cut h (beside near))
  exact (keeps.rootOf? there).trans (removed.plain h (beside near))

theorem of_keepsMarks (removed : t.Removed f) (keeps : KeepsMarks t t')
    (loose : ∀ h, t.Beside f h → (t'.fiber h).parent = none) : t'.Removed f :=
  removed.of_keepsRoles keeps.toKeepsRoles fun h near =>
    ⟨loose h near, keeps.marks h (removed.cut h near).2⟩

theorem of_keepsCuts (removed : t.Removed f) (keeps : KeepsCuts t t') : t'.Removed f :=
  removed.of_keepsMarks keeps.toKeepsMarks fun h near =>
    keeps.loose h (has_of_cut (removed.cut h near)) (removed.cut h near).1

end Removed

/-- A fiber that was taken out of its parent's children is cut off. -/
theorem cut_detachOne (there : t.fibers.has h) : ((t.detachOne h).fiber h).Cut := by
  unfold detachOne
  cases (t.fiber h).parent with
  | none =>
    rw [fiber_setFiber, if_pos ⟨rfl, there⟩]
    exact ⟨rfl, rfl⟩
  | some p =>
    rw [fiber_setFiber, if_pos ⟨rfl, (KeepsCuts.unlinkChild t p h).has there⟩]
    exact ⟨rfl, rfl⟩

theorem KeepsCuts.cut (keeps : KeepsCuts t t') (cut : (t.fiber h).Cut) : (t'.fiber h).Cut :=
  ⟨keeps.loose h (has_of_cut cut) cut.1, keeps.marks h cut.2⟩

theorem cut_detach (paired : t.Paired) (there : t.fibers.has f) (near : t.Beside f h) :
    ((t.detach f).fiber h).Cut := by
  unfold detach
  dsimp only
  cases twin : (t.fiber f).twin with
  | none =>
    rcases near with rfl | other
    · exact cut_detachOne there
    · cases twin.symm.trans other
  | some w =>
    have first := KeepsCuts.detachOne t f
    rcases near with rfl | other
    · exact (KeepsCuts.detachOne (t.detachOne f) w).cut (cut_detachOne there)
    · obtain rfl := Option.some.inj (twin.symm.trans other)
      exact cut_detachOne (first.has (has_of_twin (paired.twins f w twin)))

/-- A fiber that stands for no root is cut off with its twin when it is removed. -/
theorem removed_detach (paired : t.Paired) (there : t.fibers.has f) (plain : t.rootOf? f = none) :
    (t.detach f).Removed f := by
  have keeps := KeepsCuts.detach t f
  have beside {h : FiberId} : (t.detach f).Beside f h → t.Beside f h := (keeps.beside there).mp
  refine ⟨fun h near => cut_detach paired there (beside near), fun h near => ?_⟩
  rcases beside near with rfl | twin
  · exact (keeps.rootOf? there).trans plain
  · have same := rootOf?_of_kind (paired.kind f h twin)
    exact (keeps.rootOf? (has_of_twin (paired.twins f h twin))).trans (same.trans plain)

namespace Removed

theorem appendChild (removed : t.Removed f) (apart : ¬ t.Beside f c) (p : FiberId) :
    (t.appendChild p c).Removed f := by
  refine removed.of_keepsMarks (.appendChild t p c) fun h near => ?_
  have other : h ≠ c := fun same => apart (same ▸ near)
  exact (parent_appendChild_of_ne other).trans (removed.cut h near).1

theorem createBoundary (removed : t.Removed f) (g : FiberId) (visible : Bool) :
    (t.createBoundary g visible).2.Removed f := by
  have beside {h : FiberId} : (t.createBoundary g visible).2.Beside f h → t.Beside f h := by
    simp only [Beside, twin_createBoundary]
    exact id
  refine ⟨fun h near => ?_, fun h near => ?_⟩
  · have cut := removed.cut h (beside near)
    rw [fiber_createBoundary]
    split <;> exact cut
  · have plain := removed.plain h (beside near)
    unfold rootOf? at plain ⊢
    rw [fiber_createBoundary]
    by_cases own : t.Beside g h ∧ t.fibers.has h
    · -- A fiber that stands for a boundary does not stand for a root.
      rw [if_pos own]
      cases (t.fiber h).tag <;> rfl
    · rw [if_neg own]
      exact plain

/-- Another fiber gets a twin, which is not one of the two either. -/
theorem startTwin (removed : t.Removed f) (paired : t.Paired) (there : t.fibers.has c)
    (apart : ¬ t.Beside f c) (value : Option Value) : (t.startTwin c value).2.Removed f := by
  obtain ⟨w, t', run, twinned, -, status⟩ := twinned_startTwin there (paired.twins c) value
  rw [run]
  have same {h : FiberId} (near : t.Beside f h) : t'.fiber h = t.fiber h := by
    refine twinned.fiber h ?_ fun e => apart (e ▸ near)
    rintro rfl
    rcases status with twin | ⟨-, absent⟩
    · exact apart ((paired.beside_twin twin).mp near)
    · rw [has_of_cut (removed.cut h near)] at absent
      cases absent
  have beside {h : FiberId} : t'.Beside f h → t.Beside f h := by
    unfold Beside
    rw [same (.inl rfl)]
    exact id
  refine ⟨fun h near => ?_, fun h near => ?_⟩
  · rw [same (beside near)]
    exact removed.cut h (beside near)
  · have kind := congrArg Fiber.kind (same (beside near))
    exact (rootOf?_of_kind kind).trans (removed.plain h (beside near))

/-- Changes of other fibers leave the two cut off. -/
theorem edit (removed : t.Removed f) (paired : t.Paired)
    (appends : ∀ p c, e = .appendChild p c → ¬ t.Beside f c)
    (starts : ∀ c value, e = .startTwin c value → t.fibers.has c ∧ ¬ t.Beside f c) :
    (e.apply t).Removed f := by
  cases apart : e.replaces with
  | false => exact removed.of_keepsCuts (.edit t apart)
  | true =>
    cases e with
    | appendChild p c => exact removed.appendChild (appends p c rfl) p
    | startTwin c value =>
      obtain ⟨there, other⟩ := starts c value rfl
      exact removed.startTwin paired there other value
    | createBoundary g visible => exact removed.createBoundary g visible
    | _ => cases apart

end Removed

end Tree

namespace Renderer

variable {r : Renderer} {f : FiberId} {a : Access} {as : List Access} {op : Operation}

/-- The access neither appends nor starts the fiber or its twin, does not take the mark from them,
and gives them no parent. -/
def Spares (r : Renderer) (f : FiberId) : Access → Prop
  | .call (.edit (.appendChild _ child)) => ¬ r.tree.Beside f child
  | .call (.edit (.startTwin current _)) => ¬ r.tree.Beside f current
  | .call (.prepare root) =>
    (r.nextLanes root).isEmpty = false → ¬ r.tree.Beside f (r.tree.root root).current
  | .aside (.writeFiber fiber g) => r.tree.Beside f fiber → ∀ x : Fiber, x.Cut → (g x).Cut
  | .aside (.bailOut fiber) =>
    ∀ h, r.tree.Beside f h → ((r.aside (.bailOut fiber)).tree.fiber h).parent = none
  | .aside (.spreadDeferred fiber) =>
    ∀ h, r.tree.Beside f h → ((r.aside (.spreadDeferred fiber)).tree.fiber h).parent = none
  | .aside (.spreadCache boundary) =>
    ∀ h, r.tree.Beside f h → ((r.aside (.spreadCache boundary)).tree.fiber h).parent = none
  | .tree g => ∀ h, r.tree.Beside f h → ((g r.tree).fiber h).Cut
  | _ => True

/-- Each access spares the fiber when it is made. -/
def AllSpare (r : Renderer) (f : FiberId) : List Access → Prop
  | [] => True
  | a :: as => r.Spares f a ∧ (r.access a).AllSpare f as

theorem removed_rebuilt (removed : r.tree.Removed f) (paired : r.tree.Paired)
    (orderly : r.Orderly (.call op)) (spares : r.Spares f (.call op)) :
    (r.rebuilt op).Removed f := by
  cases op with
  | edit e =>
    refine removed.edit paired (fun p c same => ?_) fun c value same => ?_
    · subst same
      exact spares
    · subst same
      exact ⟨orderly, spares⟩
  | prepare root =>
    simp only [rebuilt]
    split
    next => exact removed
    next busy =>
      exact removed.startTwin paired (paired.tops root orderly)
        (spares (Bool.eq_false_iff.mpr busy)) none
  | _ => exact removed

theorem removed_aside (removed : r.tree.Removed f) {c : SideCall} (orderly : r.Orderly (.aside c))
    (spares : r.Spares f (.aside c)) : (r.aside c).tree.Removed f := by
  cases c with
  | requestLane | requestRetryLane | share => exact removed
  | createUpdate => exact ⟨removed.cut, removed.plain⟩
  | writeFiber fiber g =>
    refine removed.of_keepsRoles (.setFiber orderly r.tree fiber) fun h near => ?_
    have cut := removed.cut h near
    show ((r.tree.setFiber fiber g).fiber h).Cut
    rw [Tree.fiber_setFiber]
    split
    next same =>
      obtain ⟨rfl, -⟩ := same
      exact spares near _ cut
    next => exact cut
  | bailOut fiber => exact removed.of_keepsMarks (.spreadFromAbove r.tree fiber _ false) spares
  | spreadDeferred fiber =>
    exact removed.of_keepsMarks (.spreadFromAbove r.tree fiber _ true) spares
  | spreadCache boundary => exact removed.of_keepsMarks (.spread r.tree _) spares
  | pooledCache => exact removed.of_keepsCuts (keepsCuts_pooledCache r)

theorem removed_access (removed : r.tree.Removed f) (paired : r.tree.Paired)
    (orderly : r.Orderly a) (spares : r.Spares f a) : (r.access a).tree.Removed f := by
  cases a with
  | call op =>
    exact (removed_rebuilt removed paired orderly spares).of_keepsCuts (keepsCuts_next paired op)
  | aside c => exact removed_aside removed orderly spares
  | tree g => exact removed.of_keepsRoles orderly spares
  | actions g => exact removed

theorem removed_through (removed : r.tree.Removed f) (paired : r.tree.Paired)
    (orderly : r.AllOrderly as) (spares : r.AllSpare f as) : (r.through as).tree.Removed f := by
  induction as generalizing r with
  | nil => exact removed
  | cons a as ih =>
    exact ih (removed_access removed paired orderly.1 spares.1) (paired_access paired orderly.1)
      orderly.2 spares.2

theorem removed_of_detach (paired : r.tree.Paired) (there : r.tree.fibers.has f)
    (plain : r.tree.rootOf? f = none) (orderly : r.AllOrderly (.call (.edit (.detach f)) :: as))
    (spares : (r.access (.call (.edit (.detach f)))).AllSpare f as) :
    (r.through (.call (.edit (.detach f)) :: as)).tree.Removed f := by
  have removed : (r.access (.call (.edit (.detach f)))).tree.Removed f :=
    Tree.removed_detach paired there plain
  rw [through_cons]
  exact removed_through removed (paired_access paired orderly.1) orderly.2 spares

theorem allOrderly_append {before : List Access} :
    r.AllOrderly (before ++ as) ↔ r.AllOrderly before ∧ (r.through before).AllOrderly as := by
  induction before generalizing r with
  | nil => exact ⟨fun orderly => ⟨trivial, orderly⟩, And.right⟩
  | cons a before ih => exact (and_congr Iff.rfl ih).trans and_assoc.symm

end Renderer

open Renderer in
/-- Once a fiber was removed that stands for no root, no root is found from the fibers below it and
its twin, whatever follows that spares the two. A mark of such a fiber succeeds, also one at once as
long as the streak goes on, and changes lanes there only. A flush does for other fibers what it does
if nothing is staged for those. If there is nothing else to settle, it succeeds, and changes nothing
outside. -/
theorem undisturbed_by_removed {settings : Settings} {registry : ContextRegistry} {r₀ : Renderer}
    (begins : start settings registry = .ok r₀) {f : FiberId} {before later : List Access}
    (orderly : r₀.AllOrderly (before ++ .call (.edit (.detach f)) :: later))
    (there : (r₀.through before).tree.fibers.has f)
    (plain : (r₀.through before).tree.rootOf? f = none)
    (spares : ((r₀.through before).access (.call (.edit (.detach f)))).AllSpare f later) :
    let t := (r₀.through (before ++ .call (.edit (.detach f)) :: later)).tree
    (∀ d, t.Unmounted f d ↔ t.Beside f (t.top d)) ∧
    (∀ d, t.Unmounted f d → t.findRoot? d = none ∧ ∀ update lane,
      (Tree.markPath d update lane t).result = .ok none ∧
        t.SameOutside f t (Tree.markPath d update lane t).state) ∧
    ∀ s : Staging, s.tree = t →
      (∀ d, t.Unmounted f d → s.buffer.streak.exhausted = false → ∀ lane,
        (Staging.markNow d lane s).result = .ok none ∧
          t.SameOutside f t (Staging.markNow d lane s).state.tree) ∧
      ((Staging.flush s).result = (Staging.flush (s.mounted f)).result ∧
        t.SameOutside f (Staging.flush (s.mounted f)).state.tree (Staging.flush s).state.tree) ∧
      ((∀ e ∈ s.buffer.staged, t.Unmounted f e.fiber) →
        (Staging.flush s).result = .ok () ∧
          t.SameOutside f t (Staging.flush s).state.tree) := by
  intro t
  have removed : t.Removed f := by
    obtain ⟨first, rest⟩ := allOrderly_append.mp orderly
    have paired := paired_through (paired_start begins) first
    have cut := removed_of_detach paired there plain rest spares
    rwa [← through_append] at cut
  refine ⟨fun d => removed.unmounted_iff, fun d unmounted =>
    ⟨removed.findRoot?_eq_none unmounted, fun update lane => ?_⟩, ?_⟩
  · obtain ⟨state, result⟩ := removed.run_markPath unmounted update lane
    rw [state]
    exact ⟨result, removed.sameOutside_raise unmounted lane⟩
  · intro s same
    clear_value t
    subst same
    exact ⟨fun d unmounted calm => Staging.markNow_unmounted removed unmounted calm,
      Staging.flush_mounted removed, Staging.flush_unmounted removed⟩

/-- Changes of a fiber below and of one next to it are staged before a fiber with a twin is removed,
and one below it is staged then, too. Of the root and its fiber a flush makes what it would make of
the one change that is left. -/
theorem flush_after_removal :
    let before : List Access := [.call (.edit (.createRoot true)),
      .call (.edit (.createChild ⟨0⟩ .functionComponent)),
      .call (.edit (.createChild ⟨1⟩ .functionComponent)),
      .call (.edit (.createChild ⟨0⟩ .hostText)), .call (.edit (.startTwin ⟨1⟩ none)),
      .call (.forceUpdate ⟨2⟩), .call (.forceUpdate ⟨3⟩)]
    let later : List Access := [.call (.forceUpdate ⟨2⟩), .call (.edit (.startTwin ⟨3⟩ none))]
    let r := (default : Renderer).through (before ++ .call (.edit (.detach ⟨1⟩)) :: later)
    r.staging.buffer.staged.length = 3 ∧ r.tree.Unmounted ⟨1⟩ ⟨2⟩ ∧ r.tree.findRoot? ⟨2⟩ = none ∧
      (Tree.markPath ⟨2⟩ none (.single 4) r.tree).result = .ok none ∧
      (Staging.flush r.staging).result = .ok () ∧
      ((Staging.flush r.staging).state.tree.fiber ⟨0⟩).childLanes = LaneSet.defaultLane := by
  intro before later r
  have begins : Renderer.start {} .start = .ok default := by rfl
  have orderly :
      (default : Renderer).AllOrderly (before ++ .call (.edit (.detach ⟨1⟩)) :: later) :=
    ⟨trivial, trivial, trivial, trivial, by show _ = true; decide +kernel, trivial, trivial,
      trivial, trivial, by show _ = true; decide +kernel, trivial⟩
  have spares : Renderer.AllSpare
      (((default : Renderer).through before).access (.call (.edit (.detach ⟨1⟩)))) ⟨1⟩ later :=
    ⟨trivial, by show ¬ Tree.Beside _ _ _; decide +kernel, trivial⟩
  obtain ⟨unmounted, marks, settles⟩ := undisturbed_by_removed begins orderly
    (by decide +kernel) (by decide +kernel) spares
  have below : r.tree.Unmounted ⟨1⟩ ⟨2⟩ := (unmounted ⟨2⟩).mpr (by decide +kernel)
  have clear : r.tree.ClearOf ⟨1⟩ ⟨0⟩ := by
    rintro p reaches (rfl | twin)
    · exact absurd ((unmounted ⟨0⟩).mp reaches) (by decide +kernel)
    · have pairs : r.tree.TwinsMutual := by decide +kernel
      have single : (r.tree.fiber ⟨0⟩).twin = none := by decide +kernel
      cases single.symm.trans (pairs p ⟨0⟩ twin)
  obtain ⟨-, ⟨result, outside⟩, -⟩ := settles r.staging rfl
  refine ⟨by decide +kernel, below, (marks ⟨2⟩ below).1, ((marks ⟨2⟩ below).2 none _).1, ?_, ?_⟩
  · exact result.trans (by decide +kernel)
  · rw [outside.fiber ⟨0⟩ clear]
    decide +kernel

/-- Three ways in which removed fibers may matter again. Once the mark is taken from the fiber,
marks of those below fail, and so does a flush. A mark at once fails while the streak is exhausted.
And a spread from a twin that was not told gives the fiber a parent. -/
theorem disturbed_by_removed :
    let t := (({} : Tree).createRoot true).2
    let t := ((t.createChild ⟨0⟩ .functionComponent).2.createChild ⟨1⟩ .hostText).2
    let removed := t.detach ⟨1⟩
    let unmarked := removed.setFiber ⟨1⟩ fun x =>
      { x with flags := x.flags.without { detached := true } }
    let late : StagedUpdate := { fiber := ⟨2⟩, queue := none, update := none, lane := .single 2 }
    let streak := [true, true, true, true].foldl (·.record ⟨0⟩ ·) { limit := 2 }
    let staging (t : Tree) : Staging := { buffer := { streak, diagnostics := false }, tree := t }
    let spread := ((t.startTwin ⟨0⟩ none).2.detach ⟨1⟩).spread
      { start := ⟨3⟩, contexts := [], lanes := .single 2, forced := false }
    (unmarked.Unmounted ⟨1⟩ ⟨2⟩ ∧
      (Tree.markPath ⟨2⟩ none (.single 2) unmarked).result = .error (.notAttachedToRoot ⟨2⟩ ⟨1⟩) ∧
      (Staging.flush ((staging unmarked).stage late)).result =
        .error (.notAttachedToRoot ⟨2⟩ ⟨1⟩)) ∧
    (removed.Unmounted ⟨1⟩ ⟨2⟩ ∧
      (Staging.markNow ⟨2⟩ (.single 2) (staging removed)).result =
        .error (.maximumUpdateDepth 2)) ∧
    spread.Unmounted ⟨1⟩ ⟨2⟩ ∧ spread.findRoot? ⟨2⟩ = some ⟨0⟩ := by
  intro t₁ t removed unmarked late streak staging spread
  have below {t : Tree} (up : (t.fiber ⟨2⟩).parent = some ⟨1⟩) : t.Unmounted ⟨1⟩ ⟨2⟩ :=
    ⟨⟨1⟩, .inl rfl, .inr (.parent up)⟩
  refine ⟨⟨below ?_, ?_, ?_⟩, ⟨below ?_, ?_⟩, below ?_, ?_⟩ <;> decide +kernel

end ConcurrentRender
