import ConcurrentRender.Proofs.Context.Marks
import ConcurrentRender.Proofs.StepLaws

/-!
# Changes above a fiber

`Tree.ChangedAt t p k` says that the provider `p` has another value of the context `k` than
before, and `Tree.ChangedFrom t f k` that a provider at `f` or above has. The walk that
collects such contexts may stop on its way up, at a fiber from where the changes were spread
before.

Results:
1. `changedAlong_split`: the walk collects the changes up to where it stops, and it stops only
   where no fiber up to there needs propagation.
2. `exists_changedAlong`: the walk does not fail if every provider has a twin.
3. `spreadFromAbove_of_ok`: what a spread of the collected changes is.
-/

namespace ConcurrentRender

/-- What of a fiber matters for the values that it provides. -/
structure Offer where
  tag : Tag
  twin : Option FiberId
  pendingValue : Option Value
  committedValue : Option Value
  state : Option Value

def Fiber.offer (x : Fiber) : Offer where
  tag := x.tag
  twin := x.twin
  pendingValue := x.pendingValue
  committedValue := x.committedValue
  state := x.state

theorem Tree.SameStem.offer {t t' : Tree} (same : SameStem t t') (f : FiberId) :
    (t'.fiber f).offer = (t.fiber f).offer := same.read Fiber.offer f

/-- Whether fibers of this kind provide a value of a context. -/
def Tag.provides : Tag → Bool
  | contextProvider _ => true
  | hostTransitionProvider => true
  | _ => false

namespace Tree

variable {t t' : Tree} {f g p : FiberId} {fs cs : List FiberId} {k : ContextId}
  {contexts : List ContextId} {passed : Bool}

/-- `p` provides another value of `k` than its twin did, or another form status. -/
def ChangedAt (t : Tree) (p : FiberId) (k : ContextId) : Prop :=
  ∃ c, (t.fiber p).twin = some c ∧
    ((t.fiber p).tag = .contextProvider k ∧
        (∃ before after, (t.fiber c).committedValue = some before ∧
          (t.fiber p).pendingValue = some after ∧ after ≠ before) ∨
      (t.fiber p).tag = .hostTransitionProvider ∧ k = hostTransitionContext ∧
        (t.fiber c).state ≠ (t.fiber p).state)

/-- `p` is `f` or a fiber above. -/
def OnWay (t : Tree) (f p : FiberId) : Prop := p = f ∨ t.Above f p

/-- A provider at `f` or above provides another value of `k` than before. -/
def ChangedFrom (t : Tree) (f : FiberId) (k : ContextId) : Prop :=
  ∃ p, t.OnWay f p ∧ t.ChangedAt p k

/-! ## Ways up -/

theorem Above.trans {q : FiberId} (lower : t.Above f g) (upper : t.Above g q) : t.Above f q := by
  induction lower with
  | parent hf => exact .step hf upper
  | step hf _ ih => exact .step hf (ih upper)

/-- Of two fibers above a third one, one is above the other. -/
theorem Above.linear (first : t.Above f p) (second : t.Above f g) :
    t.OnWay p g ∨ t.Above g p := by
  induction first with
  | parent hf => exact .inl ((Above.cases_parent hf).mp second)
  | @step f q p hf above ih =>
    rcases (Above.cases_parent hf).mp second with rfl | second
    · exact .inr above
    · exact ih second

theorem onWay_step (up : (t.fiber f).parent = some g) : t.OnWay f p ↔ p = f ∨ t.OnWay g p :=
  or_congr_right (Above.cases_parent up)

theorem onWay_iff_mem (valid : t.ParentsThere) : t.OnWay f p ↔ p ∈ f :: t.ancestors f := by
  rw [List.mem_cons, mem_ancestors_iff valid, OnWay]

theorem OnWay.above (way : t.OnWay f p) (upper : t.Above p g) : t.Above f g := by
  rcases way with rfl | lower
  · exact upper
  · exact lower.trans upper

theorem Above.onWay (lower : t.Above f p) (way : t.OnWay p g) : t.Above f g := by
  rcases way with rfl | upper
  · exact lower
  · exact lower.trans upper

theorem OnWay.trans (way : t.OnWay f p) (upper : t.OnWay p g) : t.OnWay f g := by
  rcases upper with rfl | upper
  · exact way
  · exact .inr (way.above upper)

theorem ChangedFrom.of_onWay (way : t.OnWay f g) (changed : t.ChangedFrom g k) :
    t.ChangedFrom f k := by
  obtain ⟨p, upper, changed⟩ := changed
  exact ⟨p, way.trans upper, changed⟩

theorem onWay_congr (parent : ∀ f, (t'.fiber f).parent = (t.fiber f).parent) :
    t'.OnWay f p ↔ t.OnWay f p :=
  or_congr_right (Above.congr parent)

theorem changedAt_congr (same : ∀ f, (t'.fiber f).offer = (t.fiber f).offer) :
    t'.ChangedAt p k ↔ t.ChangedAt p k := by
  have tag : ∀ f, (t'.fiber f).tag = (t.fiber f).tag := fun f => congrArg Offer.tag (same f)
  have twin : ∀ f, (t'.fiber f).twin = (t.fiber f).twin := fun f => congrArg Offer.twin (same f)
  have pending : ∀ f, (t'.fiber f).pendingValue = (t.fiber f).pendingValue :=
    fun f => congrArg Offer.pendingValue (same f)
  have committed : ∀ f, (t'.fiber f).committedValue = (t.fiber f).committedValue :=
    fun f => congrArg Offer.committedValue (same f)
  have state : ∀ f, (t'.fiber f).state = (t.fiber f).state :=
    fun f => congrArg Offer.state (same f)
  simp only [ChangedAt, tag, twin, pending, committed, state]

theorem changedFrom_congr (parent : ∀ f, (t'.fiber f).parent = (t.fiber f).parent)
    (same : ∀ f, (t'.fiber f).offer = (t.fiber f).offer) :
    t'.ChangedFrom f k ↔ t.ChangedFrom f k := by
  simp only [ChangedFrom, onWay_congr parent, changedAt_congr same]

/-! ## The walk -/

theorem changedAt_iff {c : FiberId} (twin : (t.fiber p).twin = some c) :
    t.ChangedAt p k ↔
      (t.fiber p).tag = .contextProvider k ∧
        (∃ before after, (t.fiber c).committedValue = some before ∧
          (t.fiber p).pendingValue = some after ∧ after ≠ before) ∨
      (t.fiber p).tag = .hostTransitionProvider ∧ k = hostTransitionContext ∧
        (t.fiber c).state ≠ (t.fiber p).state := by
  simp [ChangedAt, twin]

theorem changedAt_ok (ok : t.changedAt p = .ok contexts) : k ∈ contexts ↔ t.ChangedAt p k := by
  unfold changedAt at ok
  dsimp only at ok
  split at ok
  next context tag =>
    split at ok
    next => cases ok
    next c twin =>
      rw [changedAt_iff twin, tag]
      split at ok
      next before after committed pending =>
        cases ok
        rw [committed, pending]
        split
        next same => simp [same]
        next differ => simp [differ, eq_comm]
      next missing =>
        cases ok
        simp only [List.not_mem_nil, false_iff]
        rintro (⟨-, before, after, committed, pending, -⟩ | ⟨other, -⟩)
        · exact missing before after committed pending
        · cases other
  next tag =>
    split at ok
    next => cases ok
    next c twin =>
      cases ok
      rw [changedAt_iff twin, tag]
      split
      next same => simp [same]
      next differ => simp [differ]
  next provider transition =>
    cases ok
    simp only [List.not_mem_nil, false_iff]
    rintro ⟨c, -, ⟨tag, -⟩ | ⟨tag, -⟩⟩
    · exact provider k tag
    · exact transition tag

/-- Only a provider without a twin cannot tell whether its value changed. -/
theorem exists_changedAt (ready : (t.fiber p).tag.provides → (t.fiber p).twin ≠ none) :
    ∃ own, t.changedAt p = .ok own := by
  unfold changedAt
  dsimp only
  split
  next context tag =>
    split
    next none => exact absurd none (ready (by rw [tag]; rfl))
    next => split <;> exact ⟨_, rfl⟩
  next tag =>
    split
    next none => exact absurd none (ready (by rw [tag]; rfl))
    next => exact ⟨_, rfl⟩
  next => exact ⟨[], rfl⟩

theorem changedAlong_cons (t : Tree) (passed : Bool) (f : FiberId) (fs : List FiberId) :
    t.changedAlong passed (f :: fs) =
      if !passed && !(t.fiber f).flags.needsPropagation && (t.fiber f).flags.didPropagate then
        .ok []
      else do
        let here ← t.changedAt f
        let more ← t.changedAlong (passed || (t.fiber f).flags.needsPropagation) fs
        return here ++ more := rfl

/-- The walk collects the changes up to where it stops. If it stops before the end, it has
passed no fiber that needs propagation, and was at one from where changes were spread. -/
theorem changedAlong_split (ok : t.changedAlong passed fs = .ok contexts) :
    ∃ seen rest, fs = seen ++ rest ∧ (∀ k, k ∈ contexts ↔ ∃ p ∈ seen, t.ChangedAt p k) ∧
      ∀ g above, rest = g :: above → passed = false ∧
        (t.fiber g).flags.didPropagate ∧ (t.fiber g).flags.needsPropagation = false ∧
        ∀ y ∈ seen, (t.fiber y).flags.needsPropagation = false := by
  induction fs generalizing passed contexts with
  | nil =>
    cases ok
    exact ⟨[], [], rfl, by simp, by simp⟩
  | cons f fs ih =>
    rw [changedAlong_cons] at ok
    split at ok
    next stops =>
      cases ok
      simp only [Bool.and_eq_true, Bool.not_eq_true'] at stops
      refine ⟨[], f :: fs, rfl, by simp, fun g above split => ?_⟩
      obtain ⟨rfl, rfl⟩ := List.cons.inj split
      exact ⟨stops.1.1, stops.2, stops.1.2, by simp⟩
    next goesOn =>
      cases here : t.changedAt f with
      | error e => simp [here, bind, Except.bind] at ok
      | ok own =>
        cases more : t.changedAlong (passed || (t.fiber f).flags.needsPropagation) fs with
        | error e => simp [here, more, bind, Except.bind] at ok
        | ok others =>
          obtain rfl : own ++ others = contexts := by
            simpa [here, more, bind, Except.bind, pure, Except.pure] using ok
          obtain ⟨seen, rest, rfl, collected, stops⟩ := ih more
          refine ⟨f :: seen, rest, rfl, fun k => ?_, fun g above split => ?_⟩
          · simp only [List.mem_append, changedAt_ok here, collected, List.mem_cons,
              exists_eq_or_imp]
          · obtain ⟨none, did, needs, before⟩ := stops g above split
            simp only [Bool.or_eq_false_iff] at none
            exact ⟨none.1, did, needs, fun y mem => (List.mem_cons.mp mem).elim
              (fun e => e ▸ none.2) (before y)⟩

/-- What the walk collects has changed. -/
theorem changedFrom_of_mem (ok : t.changedAbove f = .ok contexts) (mem : k ∈ contexts) :
    t.ChangedFrom f k := by
  obtain ⟨seen, rest, split, collected, -⟩ := changedAlong_split ok
  obtain ⟨p, inSeen, changed⟩ := (collected k).mp mem
  have onLine : p ∈ f :: t.ancestors f := split ▸ List.mem_append_left rest inSeen
  exact ⟨p, (List.mem_cons.mp onLine).imp id above_of_mem_climb, changed⟩

/-- The walk does not fail if every provider has a twin. -/
theorem exists_changedAlong (t : Tree) (passed : Bool)
    (ready : ∀ p ∈ fs, (t.fiber p).tag.provides → (t.fiber p).twin ≠ none) :
    ∃ contexts, t.changedAlong passed fs = .ok contexts := by
  induction fs generalizing passed with
  | nil => exact ⟨[], rfl⟩
  | cons f fs ih =>
    obtain ⟨own, here⟩ := exists_changedAt (ready f (.head _))
    obtain ⟨others, more⟩ :=
      ih (passed || (t.fiber f).flags.needsPropagation) fun p mem => ready p (.tail _ mem)
    rw [changedAlong_cons]
    split
    · exact ⟨[], rfl⟩
    · exact ⟨own ++ others, by simp [here, more, bind, Except.bind, pure, Except.pure]⟩

/-! ## Spreading what was collected -/

/-- Notes that the changes above a fiber were spread from there. -/
def noteSpread (t : Tree) (f : FiberId) : Tree :=
  t.setFiber f fun x => { x with flags := { x.flags with didPropagate := true } }

theorem spreadFromAbove_of_ok {lanes : LaneSet} {forced : Bool}
    (ok : t.changedAbove f = .ok contexts) :
    (spreadFromAbove f lanes forced t).result = .ok () ∧
      (spreadFromAbove f lanes forced t).state =
        (if contexts.isEmpty then t
          else t.spread { start := f, contexts, lanes, forced }).noteSpread f := by
  have both := StepM.run_bind_of_ok (m := fun t => { state := t, result := t.changedAbove f })
    (f := fun contexts => StepM.change fun t =>
      (if contexts.isEmpty then t
        else t.spread { start := f, contexts, lanes, forced }).noteSpread f) (s := t) ok
  exact ⟨both.2, both.1⟩

theorem spreadFromAbove_of_error {lanes : LaneSet} {forced : Bool} {e : Fault}
    (stopped : t.changedAbove f = .error e) :
    (spreadFromAbove f lanes forced t).result = .error e ∧
      (spreadFromAbove f lanes forced t).state = t := by
  have both := StepM.run_bind_of_error (m := fun t => { state := t, result := t.changedAbove f })
    (f := fun contexts => StepM.change fun t =>
      (if contexts.isEmpty then t
        else t.spread { start := f, contexts, lanes, forced }).noteSpread f) (s := t) stopped
  exact ⟨both.2, both.1⟩

theorem ok_of_spreadFromAbove {lanes : LaneSet} {forced : Bool}
    (ok : (spreadFromAbove f lanes forced t).result = .ok ()) :
    ∃ contexts, t.changedAbove f = .ok contexts := by
  cases above : t.changedAbove f with
  | ok contexts => exact ⟨contexts, rfl⟩
  | error e =>
    rw [(spreadFromAbove_of_error above).1] at ok
    cases ok

end Tree

end ConcurrentRender
