import Mathlib.Order.Defs.Unbundled
import ConcurrentRender.Step

/-!
# How steps run

Most operations are written as a sequence of small steps that cannot stop. These laws run
such a sequence without opening `StepM.bind`: a first step that only looks at the state,
changes it or answers something is done away with, and the rest runs from where it led.

Results:
1. `run_look_bind`, `run_change_bind`, `run_take_bind`: a first step that cannot stop.
2. `focus_change`: a change of a part of the state is a change of the state.
3. `run_bind_of_ok`, `run_bind_of_error`, `run_bind_of_done`, `run_bind_pure`: any first step, by
   how it ended.
4. `Keeps.bind`: what every step of a sequence keeps.
-/

namespace ConcurrentRender

namespace StepM

variable {σ τ α β : Type}

@[simp] theorem run_look_bind (g : σ → α) (f : α → StepM σ β) (s : σ) :
    (look g >>= f) s = f (g s) s := rfl

@[simp] theorem run_change_bind (g : σ → σ) (f : Unit → StepM σ β) (s : σ) :
    (change g >>= f) s = f () (g s) := rfl

@[simp] theorem run_take_bind (g : σ → α × σ) (f : α → StepM σ β) (s : σ) :
    (take g >>= f) s = f (g s).1 (g s).2 := rfl

@[simp] theorem run_take (g : σ → α × σ) (s : σ) :
    take g s = { state := (g s).2, result := .ok (g s).1 } := rfl

theorem focus_change (view : σ → τ) (put : τ → σ → σ) (g : τ → τ) :
    focus view put (change g) = change fun s => put (g (view s)) s := rfl

/-- What follows a step that answered. -/
theorem run_bind_of_ok {m : StepM σ α} {f : α → StepM σ β} {s : σ} {a : α}
    (h : (m s).result = .ok a) :
    ((m >>= f) s).state = (f a (m s).state).state ∧
      ((m >>= f) s).result = (f a (m s).state).result := by
  change (StepM.bind m f s).state = _ ∧ (StepM.bind m f s).result = _
  cases hm : m s with
  | mk state result notices =>
    rw [hm] at h
    cases h
    simp only [StepM.bind, hm, and_self]

/-- Nothing follows a step that stopped. -/
theorem run_bind_of_error {m : StepM σ α} {f : α → StepM σ β} {s : σ} {e : Fault}
    (h : (m s).result = .error e) :
    ((m >>= f) s).state = (m s).state ∧ ((m >>= f) s).result = .error e := by
  change (StepM.bind m f s).state = _ ∧ (StepM.bind m f s).result = _
  cases hm : m s with
  | mk state result notices =>
    rw [hm] at h
    cases h
    simp only [StepM.bind, hm, and_self]

/-- After a step that answered and reported nothing, what follows is all that happens. -/
theorem run_bind_of_done {m : StepM σ α} {f : α → StepM σ β} {s s' : σ} {a : α}
    (done : m s = { state := s', result := .ok a }) : (m >>= f) s = f a s' := by
  change StepM.bind m f s = _
  simp only [StepM.bind, done, List.nil_append]

/-- A pure step after a step changes the answer only. -/
theorem run_bind_pure (m : StepM σ α) (g : α → β) (s : σ) :
    ((m >>= fun a => pure (g a)) s).state = (m s).state ∧
      ((m >>= fun a => pure (g a)) s).result = (m s).result.map g := by
  cases h : (m s).result with
  | ok a => exact run_bind_of_ok h
  | error e => exact run_bind_of_error h

/-- Wherever the step starts, the state after it is related to the one before it, also if the step
stops. -/
def Keeps (R : σ → σ → Prop) (m : StepM σ α) : Prop := ∀ s, R s (m s).state

namespace Keeps

variable {R : σ → σ → Prop} [IsPreorder σ R]

theorem pure (a : α) : Keeps R (Pure.pure a : StepM σ α) := fun s => refl s

theorem look (g : σ → α) : Keeps R (look g) := fun s => refl s

theorem fail (e : Fault) : Keeps R (fail e : StepM σ α) := fun s => refl s

/-- What both of two steps keep is kept by the one after the other. -/
theorem bind {m : StepM σ α} {f : α → StepM σ β} (first : Keeps R m)
    (rest : ∀ a, Keeps R (f a)) : Keeps R (m >>= f) := by
  intro s
  cases h : (m s).result with
  | ok a =>
    rw [(run_bind_of_ok h).1]
    exact IsTrans.trans _ _ _ (first s) (rest a _)
  | error e =>
    rw [(run_bind_of_error h).1]
    exact first s

end Keeps

theorem ok_of_isOk {x : Except Fault Unit} (h : x.isOk) : x = .ok () := by
  cases x with
  | ok => rfl
  | error => cases h

/-- A pure step after a step that only tells how it went does not hide a fault. -/
theorem ok_of_isOk_map {x : Except Fault Unit} {g : Unit → β} (h : (x.map g).isOk) :
    x = .ok () := by
  cases x with
  | ok => rfl
  | error => cases h

end StepM

end ConcurrentRender
