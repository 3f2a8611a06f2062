import ConcurrentRender.Proofs.StepLaws
import ConcurrentRender.Context.Path

/-!
# What giving up a render restores

A provider that is entered keeps the value that was in force. Leaving all providers, innermost
first, therefore puts in force again what the outermost provider of each context kept. A pop
that fails takes a provider away without restoring anything. That does no harm as long as the
context has another provider further out: the value is then restored from there. But with the
last provider of a context the value from before is gone, and the one in force stays for good.

* `ContextView.beneath`: the value of a context beneath all its providers.
* `ContextView.losses`: the values that were in force whenever a pop failed and took the last
  provider of a context away.

Results:
1. `value?_unwind`: leaving all providers puts the values beneath them in force.
2. `beneath_call`: entering and leaving providers keeps those values, losses apart.
3. `restored_iff`: so a render that is given up restores all values if and only if the last
   loss of each context, if any, happened while its value from before was in force.
-/

namespace ConcurrentRender

/-! ## Reading a registry -/

theorem Context.value_install (x : Context) (slot : Slot) (v : Value) :
    (x.install slot v).value slot = v := by
  cases slot <;> rfl

namespace ContextRegistry

variable {r : ContextRegistry} {c d : ContextId} {slot : Slot}

/-- Only the value of the context itself is replaced, if there is such a context. -/
theorem value?_install (r : ContextRegistry) (d c : ContextId) (slot : Slot) (v : Value) :
    (r.install d slot v).value? c slot =
      if d = c then (r.value? c slot).map fun _ => v else r.value? c slot := by
  unfold value? install
  rw [Arena.get?_modify]
  split
  · cases r.contexts.get? c with
    | none => rfl
    | some x => exact congrArg some (x.value_install slot v)
  · rfl

theorem value?_valueOrUnit (r : ContextRegistry) (d c : ContextId) (slot : Slot) :
    (r.valueOrUnit d slot).2.value? c slot = r.value? c slot := by
  unfold valueOrUnit
  split <;> rfl

theorem valueOrUnit_of_value? {x : Value} (there : r.value? c slot = some x) :
    (r.valueOrUnit c slot).1 = x := by
  unfold valueOrUnit
  rw [there]

end ContextRegistry

/-- A provider is entered or left. -/
inductive ProviderCall where
  | push (owner : FiberId) (context : ContextId) (value : Value)
  | pop (fiber : FiberId) (context : ContextId)

namespace ContextView

variable {v : ContextView} {c : ContextId}

def call (v : ContextView) : ProviderCall → ContextView
  | .push owner context value => v.push owner context value
  | .pop fiber context => (pop fiber context v).state

def after (v : ContextView) (calls : List ProviderCall) : ContextView := calls.foldl call v

/-- The value of the context that is in force. -/
def value? (v : ContextView) (c : ContextId) : Option Value := v.registry.value? c v.path.slot

def provides (v : ContextView) (c : ContextId) : Bool :=
  v.path.providers.any fun frame => frame.context == c

/-- What is in force after a provider was left, if `x` was before. -/
def restore (c : ContextId) (x : Option Value) (frame : ProviderFrame) : Option Value :=
  if frame.context = c then x.map fun _ => frame.saved else x

/-- The value of the context beneath all its providers, which the outermost one keeps. -/
def beneath (v : ContextView) (c : ContextId) : Option Value :=
  v.path.providers.foldl (restore c) (v.value? c)

/-- The call is a pop that fails and takes the last provider of the context away. -/
def loses (v : ContextView) (c : ContextId) : ProviderCall → Bool
  | .push .. => false
  | .pop fiber context =>
    !(pop fiber context v).result.isOk && v.provides c && !(pop fiber context v).state.provides c

/-- The values of the context in force whenever a pop failed and took its last provider away. -/
def losses (v : ContextView) (c : ContextId) : List ProviderCall → List (Option Value)
  | [] => []
  | call :: calls =>
    let later := (v.call call).losses c calls
    if v.loses c call then v.value? c :: later else later

/-! ## Leaving all providers -/

theorem value?_unwind (v : ContextView) (c : ContextId) : v.unwind.value? c = v.beneath c := by
  have leave : ∀ (frames : List ProviderFrame) (r : ContextRegistry),
      (frames.foldl (fun r frame => r.install frame.context v.path.slot frame.saved) r).value? c
          v.path.slot =
        frames.foldl (restore c) (r.value? c v.path.slot) := by
    intro frames
    induction frames with
    | nil => exact fun _ => rfl
    | cons frame frames ih =>
      intro r
      rw [List.foldl_cons, ih, ContextRegistry.value?_install]
      rfl
  exact leave _ _

/-- A provider of the context further out decides what is beneath. -/
theorem foldl_restore_of_mem {frames : List ProviderFrame} {x y : Option Value}
    (there : x.isSome = y.isSome) (mem : ∃ frame ∈ frames, frame.context = c) :
    frames.foldl (restore c) x = frames.foldl (restore c) y := by
  induction frames generalizing x y with
  | nil => simp at mem
  | cons frame frames ih =>
    simp only [List.foldl_cons, restore]
    by_cases mine : frame.context = c
    · simp only [if_pos mine]
      cases x <;> cases y <;> first | rfl | cases there
    · simp only [if_neg mine]
      exact ih there (by simpa [mine] using mem)

theorem foldl_restore_of_not_mem {frames : List ProviderFrame} {x : Option Value}
    (none : ∀ frame ∈ frames, frame.context ≠ c) : frames.foldl (restore c) x = x := by
  induction frames generalizing x with
  | nil => rfl
  | cons frame frames ih =>
    obtain ⟨other, later⟩ := List.forall_mem_cons.mp none
    rw [List.foldl_cons, restore, if_neg other, ih later]

/-! ## One call -/

theorem beneath_push (v : ContextView) (owner : FiberId) (d : ContextId) (value : Value)
    (c : ContextId) : (v.push owner d value).beneath c = v.beneath c := by
  let r := (v.registry.valueOrUnit d v.path.slot).2
  let saved := (v.registry.valueOrUnit d v.path.slot).1
  show v.path.providers.foldl (restore c) (restore c ((r.install d v.path.slot value).value? c
    v.path.slot) { context := d, saved, owner }) = _
  congr 1
  rw [ContextRegistry.value?_install, ContextRegistry.value?_valueOrUnit]
  show restore c _ _ = v.registry.value? c v.path.slot
  unfold restore
  by_cases same : d = c
  · subst same
    simp only [if_true]
    cases there : v.registry.value? d v.path.slot with
    | none => rfl
    | some x => exact congrArg some (ContextRegistry.valueOrUnit_of_value? there)
  · simp only [if_neg same]

theorem pop_of_nil {fiber : FiberId} {context : ContextId} (outside : v.path.providers = []) :
    (pop fiber context v).state = v := by
  unfold pop
  rw [outside]

/-- A provider that is there is taken away. It is restored from if it is the right one, and
otherwise the pop fails. -/
theorem pop_of_cons {frame : ProviderFrame} {rest : List ProviderFrame} (fiber : FiberId)
    (context : ContextId) (inside : v.path.providers = frame :: rest) :
    let left := { v with path := { v.path with providers := rest } }
    let restored := { left with
      registry := v.registry.install frame.context v.path.slot frame.saved }
    (pop fiber context v).state = left ∧ (pop fiber context v).result.isOk = false ∨
      (pop fiber context v).state = restored ∧ (pop fiber context v).result.isOk = true := by
  unfold pop
  rw [inside]
  dsimp only
  split
  · exact .inl ⟨rfl, rfl⟩
  · split
    next => exact .inl ⟨rfl, rfl⟩
    next same =>
      have same := Decidable.not_not.mp same
      exact .inr ⟨by rw [same], rfl⟩

theorem loses_of_done {fiber : FiberId} {context : ContextId}
    (done : (pop fiber context v).result.isOk = true) : v.loses c (.pop fiber context) = false := by
  simp only [loses, done, Bool.not_true, Bool.false_and]

/-- A pop that fails loses the value of the context if the provider that it takes away is the
last one of the context. -/
theorem loses_of_failed {fiber : FiberId} {context : ContextId} {frame : ProviderFrame}
    {rest : List ProviderFrame} (inside : v.path.providers = frame :: rest)
    (left : (pop fiber context v).state.path.providers = rest)
    (failed : (pop fiber context v).result.isOk = false) :
    v.loses c (.pop fiber context) = true ↔
      frame.context = c ∧ ∀ further ∈ rest, further.context ≠ c := by
  simp only [loses, provides, inside, left, failed]
  by_cases mine : frame.context = c <;> simp [mine]

/-- Of the failing pops, only one that takes the last provider of the context away changes what
is beneath its providers: that is now what is in force. -/
theorem beneath_pop (v : ContextView) (fiber : FiberId) (context : ContextId) (c : ContextId) :
    (pop fiber context v).state.beneath c =
      if v.loses c (.pop fiber context) then v.value? c else v.beneath c := by
  cases inside : v.path.providers with
  | nil =>
    have kept : v.loses c (.pop fiber context) = false := by simp [loses, provides, inside]
    rw [kept, pop_of_nil inside]
    rfl
  | cons frame rest =>
    have before : v.beneath c = rest.foldl (restore c) (restore c (v.value? c) frame) := by
      rw [beneath, inside, List.foldl_cons]
    rcases pop_of_cons fiber context inside with ⟨left, failed⟩ | ⟨left, done⟩
    · have loses := loses_of_failed (c := c) inside (congrArg (·.path.providers) left) failed
      rw [left, before]
      show rest.foldl (restore c) (v.value? c) = _
      split
      next lost => exact foldl_restore_of_not_mem (loses.mp lost).2
      next kept =>
        by_cases mine : frame.context = c
        · have further : ∃ frame ∈ rest, frame.context = c := by
            simpa [mine] using mt loses.mpr kept
          refine foldl_restore_of_mem ?_ further
          unfold restore
          split <;> simp
        · rw [restore, if_neg mine]
    · rw [loses_of_done done, left, before]
      show rest.foldl (restore c) (ContextRegistry.value? _ c v.path.slot) = _
      rw [ContextRegistry.value?_install]
      rfl

theorem beneath_call (v : ContextView) (call : ProviderCall) (c : ContextId) :
    (v.call call).beneath c = if v.loses c call then v.value? c else v.beneath c := by
  cases call with
  | push owner context value => exact beneath_push v owner context value c
  | pop fiber context => exact beneath_pop v fiber context c

theorem slot_call (v : ContextView) (call : ProviderCall) :
    (v.call call).path.slot = v.path.slot := by
  cases call with
  | push => rfl
  | pop fiber context =>
    show (pop fiber context v).state.path.slot = _
    cases inside : v.path.providers with
    | nil => rw [pop_of_nil inside]
    | cons frame rest =>
      rcases pop_of_cons fiber context inside with ⟨left, _⟩ | ⟨left, _⟩ <;>
        rw [left]

/-! ## Several calls -/

theorem slot_after (v : ContextView) (calls : List ProviderCall) :
    (v.after calls).path.slot = v.path.slot := by
  induction calls generalizing v with
  | nil => rfl
  | cons call calls ih => exact (ih (v.call call)).trans (slot_call v call)

/-- What is beneath the providers of a context is what its last loss left there. -/
theorem beneath_after (v : ContextView) (calls : List ProviderCall) (c : ContextId) :
    (v.after calls).beneath c = (v.losses c calls).getLastD (v.beneath c) := by
  induction calls generalizing v with
  | nil => rfl
  | cons call calls ih =>
    show ((v.call call).after calls).beneath c = _
    rw [ih, beneath_call, losses.eq_2]
    split
    · exact (List.getLastD_cons ..).symm
    · rfl

/-- Whatever providers were entered and left, leaving all of them puts in force what the last
loss of each context left beneath. So the values from before are restored if and only if no
last loss left another value there. -/
theorem restored_iff {v : ContextView} (outside : v.path.providers = [])
    (calls : List ProviderCall) :
    let v' := (v.after calls).unwind
    v'.depth = 0 ∧ v'.path.slot = v.path.slot ∧
    (∀ c, v'.value? c = (v.losses c calls).getLastD (v.value? c)) ∧
    ((∀ c, v'.value? c = v.value? c) ↔
      ∀ c x, (v.losses c calls).getLast? = some x → x = v.value? c) := by
  intro v'
  have left : ∀ c, v'.value? c = (v.losses c calls).getLastD (v.value? c) := by
    intro c
    have bare : v.beneath c = v.value? c := by rw [beneath, outside, List.foldl_nil]
    rw [value?_unwind, beneath_after, bare]
  refine ⟨rfl, slot_after v calls, left, ?_⟩
  simp only [left, List.getLastD_eq_getLast?]
  refine forall_congr' fun c => ?_
  cases (v.losses c calls).getLast? with
  | none => simp
  | some x => simp

/-- A provider is entered, and a pop names another context. The provider's value stays in force
after the render was given up. -/
theorem not_restored_of_other_context :
    let v : ContextView := { registry := .start, path := { slot := .primary } }
    let calls : List ProviderCall :=
      [.push ⟨1⟩ cacheContext (.text "dark" "dark"), .pop ⟨1⟩ hostTransitionContext]
    ¬ ∀ c, (v.after calls).unwind.value? c = v.value? c := by
  intro v calls restored
  have kept := (restored_iff (v := v) rfl calls).2.2.2.mp restored cacheContext
    (some (.text "dark" "dark")) (by decide +kernel)
  exact absurd kept (by decide +kernel)

end ContextView

end ConcurrentRender
