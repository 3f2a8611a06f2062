import Mathlib.Data.List.Induction
import ConcurrentRender.Proofs.Render.Roles
import ConcurrentRender.Proofs.Splits

/-!
# What twins have in common

Twins stand for one component. What belongs to the component and not to one attempt to render it is
noted on both of them: the tag, the mode, the queue and what they stand for. A boundary is noted on
both when it is created. A queue is noted on one of them only. So twins may differ in their queue,
until one of them is started anew and takes the queue of the other one over.

* `Fiber.share x`: the mode and the queue of a fiber.
* `Tree.edited t es`: the tree after several changes. `Tree.AllFit t es`: each of them is about
  things that are there.
* `Tree.Matched t`: twins are two fibers, of one kind and one mode.
* `TreeEdit.parts t f w e`: the change gives one of the twins its first queue.
* `TreeEdit.joins f w e`: the change starts one of them anew.
* `Tree.Joined t f w es`: whenever a change parts the twins, a later one joins them.

Results:
1. `Matched.fiber_startTwin`: what a twin that is started takes over.
2. `KeepsShares.edit`: most changes keep modes and queues.
3. `Matched.edit`, `Matched.edited`: every change that is in order keeps twins matched.
4. `queue_of_joins`, `queue_of_parts`, `queue_of_neither`: what a change does to the queues of
   twins.
5. `same_queue_iff`: hence when twins have the same queue, and that they agree in all the rest.
-/

namespace ConcurrentRender

/-- What a fiber shares with its twin besides its kind. -/
structure Share where
  concurrent : Bool
  queue : Option QueueId

def Fiber.share (x : Fiber) : Share where
  concurrent := x.concurrent
  queue := x.queue

/-- The change may give a queue to a fiber. -/
def TreeEdit.givesQueue : TreeEdit → Bool
  | startTwin .. => true
  | createQueue _ => true
  | _ => false

/-- The change gives one of the twins its first queue. -/
def TreeEdit.parts (t : Tree) (f w : FiberId) : TreeEdit → Prop
  | createQueue owner =>
    (t.fiber f).twin = some w ∧ (owner = f ∨ owner = w) ∧ (t.fiber owner).queue = none
  | _ => False

/-- The change starts one of the two anew, from the other one. -/
def TreeEdit.joins (f w : FiberId) : TreeEdit → Prop
  | startTwin current _ => current = f ∨ current = w
  | _ => False

namespace Tree

/-- The tree after several changes. -/
def edited (t : Tree) (es : List TreeEdit) : Tree := es.foldl (fun t e => e.apply t) t

/-- Each of the changes, made in order, is about things that are there. -/
def AllFit (t : Tree) : List TreeEdit → Prop
  | [] => True
  | e :: es => e.fits t ∧ (e.apply t).AllFit es

instance decidableAllFit : (t : Tree) → (es : List TreeEdit) → Decidable (t.AllFit es)
  | _, [] => inferInstanceAs (Decidable True)
  | t, e :: es =>
    have := decidableAllFit (e.apply t) es
    inferInstanceAs (Decidable (_ ∧ _))

/-- Twins are two fibers, of one kind and one mode, and the queues of fibers are there. -/
structure Matched (t : Tree) : Prop extends Paired t where
  apart : ∀ f w, (t.fiber f).twin = some w → w ≠ f
  mode : ∀ f w, (t.fiber f).twin = some w → (t.fiber w).concurrent = (t.fiber f).concurrent
  queue : ∀ f q, (t.fiber f).queue = some q → t.queues.has q

/-- Whenever one of the changes parts the twins, a later one joins them. -/
def Joined (t : Tree) (f w : FiberId) (es : List TreeEdit) : Prop :=
  ∀ before e later, es = before ++ e :: later → e.parts (t.edited before) f w →
    ∃ j ∈ later, j.joins f w

/-- The fibers of `t` have the same modes and queues in `t'`, and others have no queues yet. -/
structure KeepsShares (t t' : Tree) : Prop where
  size : t.fibers.size ≤ t'.fibers.size
  share : ∀ f, t.fibers.has f → (t'.fiber f).share = (t.fiber f).share
  new : ∀ f, t.fibers.has f = false → (t'.fiber f).queue = none
  queues : t'.queues = t.queues

variable {t t' t'' : Tree} {f g h w : FiberId} {k : Fiber → Fiber} {e : TreeEdit}
  {es : List TreeEdit}

@[simp] theorem edited_concat (t : Tree) (es : List TreeEdit) (e : TreeEdit) :
    t.edited (es ++ [e]) = e.apply (t.edited es) := by
  simp [edited]

theorem allFit_concat : t.AllFit (es ++ [e]) ↔ t.AllFit es ∧ e.fits (t.edited es) := by
  induction es generalizing t with
  | nil => simp [AllFit, edited]
  | cons first es ih =>
    simp only [List.cons_append, AllFit, ih, and_assoc]
    rfl

/-! ## Starting a twin -/

/-- A twin that is started takes over everything but the marks, and provides another value. -/
theorem Matched.fiber_startTwin (matched : t.Matched) (there : t.fibers.has f)
    (value : Option Value) :
    ∃ w t', t.startTwin f value = (w, t') ∧ t.Started t' f w ∧ w ≠ f ∧ t'.queues = t.queues ∧
      ∀ h, t'.fiber h =
        if h = w then { t.fiber f with flags := {}, twin := some f, pendingValue := value }
        else if h = f then { t.fiber f with twin := some w }
        else t.fiber h := by
  have started := started_startTwin there (matched.twins f) value
  have queues := (OnlyFibers.startTwin t f value).queues
  obtain ⟨w, t', origin, run, -, -, status, fiber⟩ :=
    Tree.fiber_startTwin there (matched.twins f) value
  rw [run] at started queues
  have same : origin.tag = (t.fiber f).tag ∧ origin.concurrent = (t.fiber f).concurrent := by
    rcases status with ⟨twin, rfl⟩ | ⟨-, rfl⟩
    · exact ⟨congrArg Prod.fst (matched.kind f w twin), matched.mode f w twin⟩
    · exact ⟨rfl, rfl⟩
  rw [same.1, same.2] at fiber
  refine ⟨w, t', run, started, fun own => ?_, queues, fiber⟩
  exact matched.apart f w (started.twin_of_has (own ▸ there)) own

/-! ## What keeps modes and queues -/

namespace KeepsShares

theorem of_eq (fibers : t'.fibers = t.fibers) (queues : t'.queues = t.queues) :
    KeepsShares t t' := by
  have fiber (f : FiberId) : t'.fiber f = t.fiber f := by simp only [Tree.fiber, fibers]
  refine ⟨by rw [fibers], fun f _ => by rw [fiber], fun f absent => ?_, queues⟩
  rw [fiber, fiber_of_not_has absent]
  rfl

theorem refl (t : Tree) : KeepsShares t t := of_eq rfl rfl

theorem has (keeps : KeepsShares t t') (there : t.fibers.has f) : t'.fibers.has f :=
  Arena.has_of_size_le keeps.size there

theorem concurrent (keeps : KeepsShares t t') (there : t.fibers.has f) :
    (t'.fiber f).concurrent = (t.fiber f).concurrent :=
  congrArg Share.concurrent (keeps.share f there)

theorem queue (keeps : KeepsShares t t') (f : FiberId) :
    (t'.fiber f).queue = (t.fiber f).queue := by
  cases there : t.fibers.has f with
  | true => exact congrArg Share.queue (keeps.share f there)
  | false =>
    rw [keeps.new f there, fiber_of_not_has there]
    rfl

theorem trans (keeps : KeepsShares t t') (keeps' : KeepsShares t' t'') : KeepsShares t t'' where
  size := Nat.le_trans keeps.size keeps'.size
  share f there := (keeps'.share f (keeps.has there)).trans (keeps.share f there)
  new f absent := (keeps'.queue f).trans (keeps.new f absent)
  queues := keeps'.queues.trans keeps.queues

theorem setFiber (hk : ∀ x, (k x).share = x.share) (t : Tree) (f : FiberId) :
    KeepsShares t (t.setFiber f k) where
  size := Nat.le_of_eq (size_setFiber t f k).symm
  share h _ := by
    rw [fiber_setFiber]
    split
    · exact hk _
    · rfl
  new h absent := by
    rw [fiber_of_not_has (by rw [has_setFiber]; exact absent)]
    rfl
  queues := rfl

theorem placewise : Placewise KeepsShares where
  refl := refl
  trans := trans
  setFiber {k} hk t f := by
    have kept := fun x => congrArg Fiber.share (hk x)
    exact setFiber (k := k) kept t f

theorem setTwins (hk : ∀ x, (k x).share = x.share) (t : Tree) (f : FiberId) :
    KeepsShares t (t.setTwins f k) :=
  keeps_setTwins (R := KeepsShares) trans (setFiber hk) t f

theorem createFiber (t : Tree) (tag : Tag) (concurrent : Bool) :
    KeepsShares t (t.createFiber tag concurrent).2 where
  size := (Arena.size_add ..).symm ▸ Nat.le_succ _
  share f there := congrArg Fiber.share (Arena.get_add_of_lt _ _ _ there)
  new f absent := by
    refine (Arena.read_add Fiber.queue t.fibers { tag, concurrent } rfl f).trans ?_
    exact congrArg Fiber.queue (fiber_of_not_has absent)
  queues := rfl

theorem edit (t : Tree) {e : TreeEdit} (apart : e.givesQueue = false) :
    KeepsShares t (e.apply t) := by
  cases e with
  | startTwin | createQueue => cases apart
  | createRoot concurrent =>
    have made : KeepsShares t ((t.createFiber .hostRoot concurrent).2.setFiber t.fibers.next
        fun x => { x with inst := some (.root t.roots.next) }) :=
      (createFiber t .hostRoot concurrent).trans (setFiber (fun _ => by rfl) _ _)
    exact made.trans (of_eq rfl rfl)
  | createFiber tag concurrent => exact createFiber t tag concurrent
  | createChild p tag => exact (createFiber t tag _).trans (placewise.appendChild _ p _)
  | appendChild p c => exact placewise.appendChild t p c
  | detach f => exact placewise.detach t f
  | clearLanes f => exact setFiber (fun _ => by rfl) t f
  | createBoundary f visible =>
    have added : KeepsShares t { t with boundaries := t.boundaries.add { visible } } :=
      of_eq rfl rfl
    exact added.trans (setTwins (fun _ => by rfl) _ f)
  | setVisible => exact of_eq rfl rfl
  | reveal b lanes =>
    obtain ⟨fibers, -, queues⟩ := frame_reveal t b lanes
    exact of_eq fibers queues

end KeepsShares

/-- Fibers get twins only when a twin is started. -/
theorem twin_edit (apart : ∀ c value, e ≠ .startTwin c value) (f : FiberId) :
    ((e.apply t).fiber f).twin = (t.fiber f).twin := by
  have of_keeps {t' : Tree} (keeps : KeepsRoles t t') : (t'.fiber f).twin = (t.fiber f).twin := by
    cases there : t.fibers.has f with
    | true => exact keeps.twin there
    | false =>
      rw [keeps.new f there, fiber_of_not_has there]
      rfl
  cases placed : e.replaces with
  | false => exact of_keeps (KeepsCuts.edit t placed).toKeepsRoles
  | true =>
    cases e with
    | appendChild p c => exact of_keeps (KeepsMarks.appendChild t p c).toKeepsRoles
    | createBoundary b visible => exact twin_createBoundary t b f visible
    | startTwin c value => exact absurd rfl (apart c value)
    | _ => cases placed

/-- The first queue of a fiber becomes its own, and that of no other one. -/
theorem fiber_createQueue (t : Tree) (owner h : FiberId) :
    (t.createQueue owner).2.fiber h =
      if owner = h ∧ t.fibers.has h then
        { t.fiber h with queue := (t.fiber h).queue.or (some t.queues.next) }
      else t.fiber h :=
  fiber_setFiber { t with queues := t.queues.add { owner } } owner h _

/-! ## Twins stay matched -/

namespace Matched

theorem start : Matched {} := by
  have bare (f : FiberId) : ({} : Tree).fiber f = default := fiber_of_not_has rfl
  have alone {f w : FiberId} (twin : (({} : Tree).fiber f).twin = some w) : False := by
    rw [bare] at twin
    cases twin
  refine ⟨⟨fun f w twin => (alone twin).elim, fun f w twin => (alone twin).elim,
    fun root there => ?_⟩, fun f w twin => (alone twin).elim, fun f w twin => (alone twin).elim,
    fun f q own => ?_⟩
  · exact absurd (of_decide_eq_true there) (Nat.not_lt_zero _)
  · rw [bare] at own
    cases own

theorem of_keepsShares (matched : t.Matched) (paired : t'.Paired) (keeps : KeepsShares t t')
    (twin : ∀ f, (t'.fiber f).twin = (t.fiber f).twin) : t'.Matched where
  toPaired := paired
  apart f w own := matched.apart f w ((twin f).symm.trans own)
  mode f w own := by
    have before := (twin f).symm.trans own
    rw [keeps.concurrent (has_of_twin (matched.twins f w before)),
      keeps.concurrent (has_of_twin before)]
    exact matched.mode f w before
  queue f q own := by
    rw [keeps.queues]
    exact matched.queue f q ((keeps.queue f).symm.trans own)

theorem createQueue (matched : t.Matched) (owner : FiberId) :
    (t.createQueue owner).2.Matched where
  toPaired := matched.toPaired.of_keepsRoles (KeepsCuts.createQueue t owner).toKeepsRoles
  apart f w := by
    rw [fiber_createQueue]
    split <;> exact matched.apart f w
  mode f w := by
    simp only [fiber_createQueue]
    split <;> split <;> exact matched.mode f w
  queue f q own := by
    rw [fiber_createQueue] at own
    refine Arena.has_add.mpr ?_
    split at own
    · cases first : (t.fiber f).queue with
      | none =>
        rw [first] at own
        exact .inl (Option.some.inj own).symm
      | some p =>
        rw [first] at own
        exact .inr (Option.some.inj own ▸ matched.queue f p first)
    · exact .inr (matched.queue f q own)

theorem startTwin (matched : t.Matched) (there : t.fibers.has f) (value : Option Value) :
    (t.startTwin f value).2.Matched := by
  have paired := matched.toPaired.startTwin there value
  obtain ⟨w, t', run, started, differs, queues, fiber⟩ := matched.fiber_startTwin there value
  simp only [run] at paired ⊢
  have mode (h : FiberId) : (t'.fiber h).concurrent =
      if h = w then (t.fiber f).concurrent else (t.fiber h).concurrent := by
    rw [fiber]
    split
    · rfl
    · split
      next same => rw [same]
      next => rfl
  refine ⟨paired, fun g v twin => ?_, fun g v twin => ?_, fun h q own => ?_⟩
  · rcases started.twins matched.twins twin with ⟨rfl, rfl⟩ | ⟨rfl, rfl⟩ | ⟨-, -, own⟩
    · exact differs.symm
    · exact differs
    · exact matched.apart g v own
  · exact started.agree matched.twins mode matched.mode twin
  · rw [queues]
    rw [fiber] at own
    split at own
    · exact matched.queue f q own
    · split at own
      · exact matched.queue f q own
      · exact matched.queue h q own

/-- A change that is in order keeps twins matched. -/
theorem edit (matched : t.Matched) (fits : e.fits t) : (e.apply t).Matched := by
  cases gives : e.givesQueue with
  | false =>
    have apart (c : FiberId) (value : Option Value) : e ≠ .startTwin c value := by
      rintro rfl
      cases gives
    have paired := matched.toPaired.edit fun c value same => absurd same (apart c value)
    exact matched.of_keepsShares paired (.edit t gives) (twin_edit apart)
  | true =>
    cases e with
    | startTwin c value => exact matched.startTwin fits value
    | createQueue owner => exact matched.createQueue owner
    | _ => cases gives

theorem edited (matched : t.Matched) (fit : t.AllFit es) : (t.edited es).Matched := by
  induction es generalizing t with
  | nil => exact matched
  | cons e es ih => exact ih (matched.edit fit.1) fit.2

end Matched

/-! ## What a change does to the queues of twins -/

/-- A twin that is started has the queue of its fiber. -/
theorem queue_startTwin (matched : t.Matched) (there : t.fibers.has f) {value : Option Value}
    (twin : ((t.startTwin f value).2.fiber f).twin = some w) :
    ((t.startTwin f value).2.fiber w).queue = ((t.startTwin f value).2.fiber f).queue := by
  obtain ⟨v, t', run, started, differs, -, fiber⟩ := matched.fiber_startTwin there value
  simp only [run] at twin ⊢
  obtain rfl := Option.some.inj (twin.symm.trans started.twin_source)
  rw [fiber, if_pos rfl, fiber, if_neg differs.symm, if_pos rfl]

/-- The twins agree after one of them was started anew. -/
theorem queue_of_joins (matched : t.Matched) (fits : e.fits t) (joins : e.joins f w)
    (twin : ((e.apply t).fiber f).twin = some w) :
    ((e.apply t).fiber w).queue = ((e.apply t).fiber f).queue := by
  have back := (matched.edit fits).twins f w twin
  cases e with
  | startTwin c value =>
    rcases joins with rfl | rfl
    · exact queue_startTwin matched fits twin
    · exact (queue_startTwin matched fits back).symm
  | _ => exact joins.elim

/-- A first queue is a new one, which no other fiber has. -/
theorem queue_createQueue_ne (matched : t.Matched) (there : t.fibers.has f)
    (none : (t.fiber f).queue = none) (other : w ≠ f) :
    ((t.createQueue f).2.fiber w).queue ≠ ((t.createQueue f).2.fiber f).queue := by
  rw [fiber_createQueue, if_neg fun same => other same.1.symm, fiber_createQueue,
    if_pos ⟨rfl, there⟩, none]
  intro same
  have old := matched.queue w _ same
  rw [Arena.not_has_next] at old
  cases old

/-- The twins differ after one of them got its first queue. -/
theorem queue_of_parts (matched : t.Matched) (parts : e.parts t f w) :
    ((e.apply t).fiber w).queue ≠ ((e.apply t).fiber f).queue := by
  cases e with
  | createQueue owner =>
    obtain ⟨twin, rfl | rfl, none⟩ := parts
    · exact queue_createQueue_ne matched (has_of_twin twin) none (matched.apart _ _ twin)
    · have back := matched.twins f _ twin
      exact (queue_createQueue_ne matched (has_of_twin back) none (matched.apart _ _ back)).symm
  | _ => exact parts.elim

/-- No other change gives one of them a queue. -/
theorem queue_of_neither (matched : t.Matched) (fits : e.fits t) (kept : ¬ e.parts t f w)
    (apart : ¬ e.joins f w) (twin : (t.fiber f).twin = some w) (h : FiberId) (own : h = f ∨ h = w) :
    ((e.apply t).fiber h).queue = (t.fiber h).queue := by
  cases gives : e.givesQueue with
  | false => exact (KeepsShares.edit t gives).queue h
  | true =>
    cases e with
    | createQueue owner =>
      show ((t.createQueue owner).2.fiber h).queue = _
      rw [fiber_createQueue]
      split
      next same =>
        obtain ⟨rfl, -⟩ := same
        obtain ⟨q, queue⟩ := Option.ne_none_iff_exists'.mp fun none => kept ⟨twin, own, none⟩
        rw [queue]
        rfl
      next => rfl
    | startTwin c value =>
      -- The twin of `c` is neither of the two, as they are twins of each other.
      obtain ⟨v, t', run, started, -, -, fiber⟩ := matched.fiber_startTwin fits value
      obtain ⟨u, partner, either⟩ : ∃ u, (t.fiber h).twin = some u ∧ (u = f ∨ u = w) := by
        rcases own with rfl | rfl
        · exact ⟨w, twin, .inr rfl⟩
        · exact ⟨f, matched.twins f _ twin, .inl rfl⟩
      have new : h ≠ v := by
        rintro rfl
        have source := matched.twins c h (started.twin_of_has (has_of_twin partner))
        obtain rfl := Option.some.inj (partner.symm.trans source)
        exact apart either
      have old : h ≠ c := by
        rintro rfl
        exact apart own
      show ((t.startTwin c value).2.fiber h).queue = _
      rw [run, fiber, if_neg new, if_neg old]
    | _ => cases gives

/-- Twins were twins before, or one of them was started. -/
theorem twin_or_joins (matched : t.Matched) (fits : e.fits t)
    (twin : ((e.apply t).fiber f).twin = some w) : (t.fiber f).twin = some w ∨ e.joins f w := by
  by_cases starts : ∃ c value, e = .startTwin c value
  · obtain ⟨c, value, rfl⟩ := starts
    obtain ⟨v, t', run, started, -⟩ := matched.fiber_startTwin fits value
    simp only [TreeEdit.apply, run] at twin
    rcases started.twins matched.twins twin with ⟨-, rfl⟩ | ⟨rfl, -⟩ | ⟨-, -, own⟩
    · exact .inr (.inr rfl)
    · exact .inr (.inl rfl)
    · exact .inl own
  · rw [twin_edit fun c value same => starts ⟨c, value, same⟩] at twin
    exact .inl twin

/-! ## When twins have the same queue -/

theorem joined_concat :
    t.Joined f w (es ++ [e]) ↔ e.joins f w ∨ ¬ e.parts (t.edited es) f w ∧ t.Joined f w es := by
  have apart : e.joins f w → ¬ e.parts (t.edited es) f w := by
    cases e <;> simp [TreeEdit.joins, TreeEdit.parts]
  unfold Joined
  rw [forall_concat_split]
  by_cases joins : e.joins f w
  · simp only [joins, true_or, iff_true]
    exact ⟨fun parts => absurd parts (apart joins), fun _ _ _ _ _ => ⟨e, by simp, joins⟩⟩
  · simp [joins, or_and_right, exists_or]

/-- Twins are two fibers of one kind and one mode, which stand for the same. They have the same
queue if and only if, whenever one of them got its first queue while they were twins, one of them
was started anew later. -/
theorem same_queue_iff (fit : ({} : Tree).AllFit es)
    (twin : ((({} : Tree).edited es).fiber f).twin = some w) :
    let t := ({} : Tree).edited es
    ((t.fiber w).twin = some f ∧ w ≠ f) ∧
    ((t.fiber w).tag = (t.fiber f).tag ∧ (t.fiber w).concurrent = (t.fiber f).concurrent ∧
      (t.fiber w).inst = (t.fiber f).inst) ∧
    ((t.fiber w).queue = (t.fiber f).queue ↔ ({} : Tree).Joined f w es) := by
  intro t
  have matched : t.Matched := Matched.start.edited fit
  obtain ⟨tag, inst⟩ := Prod.mk.inj (matched.kind f w twin)
  refine ⟨⟨matched.twins f w twin, matched.apart f w twin⟩,
    ⟨tag, matched.mode f w twin, inst⟩, ?_⟩
  clear tag inst matched
  induction es using List.reverseRecOn with
  | nil =>
    have none : (({} : Tree).fiber f).twin = none :=
      congrArg Fiber.twin (fiber_of_not_has (t := {}) rfl)
    cases none.symm.trans twin
  | append_singleton es e ih =>
    obtain ⟨fit, fits⟩ := allFit_concat.mp fit
    have matched : (({} : Tree).edited es).Matched := Matched.start.edited fit
    simp only [t, edited_concat] at twin ⊢
    rw [joined_concat]
    by_cases joins : e.joins f w
    · simp only [joins, true_or, iff_true]
      exact queue_of_joins matched fits joins twin
    by_cases parts : e.parts (({} : Tree).edited es) f w
    · simp only [joins, parts, not_true, false_and, or_false, iff_false]
      exact queue_of_parts matched parts
    · have before := (twin_or_joins matched fits twin).resolve_right joins
      have kept := queue_of_neither matched fits parts joins before
      rw [kept f (.inl rfl), kept w (.inr rfl)]
      simp only [joins, parts, not_false_eq_true, true_and, false_or]
      exact ih fit before

/-- A fiber gets its first queue when it has a twin already. The twin has none, until it is started
once more. -/
theorem not_same_queue_of_late_queue :
    let es : List TreeEdit :=
      [.createRoot true, .createChild ⟨0⟩ .functionComponent, .startTwin ⟨1⟩ none, .createQueue ⟨1⟩]
    let t := ({} : Tree).edited es
    let t' := ({} : Tree).edited (es ++ [.startTwin ⟨1⟩ none])
    (t.fiber ⟨1⟩).twin = some ⟨2⟩ ∧ (t.fiber ⟨1⟩).queue = some ⟨0⟩ ∧
      (t.fiber ⟨2⟩).queue ≠ (t.fiber ⟨1⟩).queue ∧
      (t'.fiber ⟨2⟩).queue = (t'.fiber ⟨1⟩).queue := by
  intro es t t'
  have twin : (t.fiber ⟨1⟩).twin = some ⟨2⟩ := by decide +kernel
  refine ⟨twin, by decide +kernel, fun same => ?_, ?_⟩
  · have joined := (same_queue_iff (by decide +kernel) twin).2.2.mp same
    obtain ⟨j, mem, -⟩ := joined (es.take 3) (.createQueue ⟨1⟩) [] rfl
      ⟨by decide +kernel, .inl rfl, by decide +kernel⟩
    cases mem
  · exact (same_queue_iff (by decide +kernel) (by decide +kernel)).2.2.mpr
      (joined_concat.mpr (.inl (.inl rfl)))

end Tree

end ConcurrentRender
