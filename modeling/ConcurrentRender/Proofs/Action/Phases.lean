import ConcurrentRender.Action.Scope
import ConcurrentRender.Proofs.Tree.Frame

/-!
# What is done to the scope of actions

A settlement has two phases. First the action is counted out, and the scope ends with the last
one. Then, if it ended, its listeners are told. Other calls may come in between. What concerns
the indicator leaves the scope and its listeners alone.

* `Actions.withdraw`: the first phase. The second one is `Actions.fulfil`.
* `Actions.Performs a a'`: what callbacks do may lead from `a` to `a'`.
* `Actions.fired`: what listeners did so far, in order.
* `Actions.SameScopes a a'`: nothing that concerns scopes differs.

Results:
1. `settle_eq`: a settlement is both phases, one after the other.
2. `performs_perform`: callbacks do one step after the other.
3. `fired_andThen`, `fired_fulfil`: who is told when.
4. `SameScopes.register`, `SameScopes.perform`: the indicator has no influence on scopes.
-/

namespace ConcurrentRender

def ActionEvent.firing? : ActionEvent → Option Firing
  | fired firing => some firing
  | _ => none

namespace Actions

variable {a a' a'' : Actions} {n : Id .action}

/-! ## How an action starts -/

theorem entangle_of_some {s : ActionScope} (goesOn : a.scope = some s) (lane : LaneSet) :
    entangle true lane a =
      { state :=
          { a with
            scope := some { s with pending := s.pending + 1 }
            started := a.started.add true }
        result := .ok (a.started.next, false) } := by
  simp [entangle, goesOn]

theorem entangle_of_none (none : a.scope = none) (lane : LaneSet) :
    entangle true lane a =
      { state :=
          { a.openScope lane with
            scope := some { lane, pending := 1, thenable := a.thenables.next }
            started := a.started.add true }
        result := .ok (a.started.next, true) } := by
  simp [entangle, none, openScope]

/-! ## The phases of a settlement -/

/-- Ends the scope. Its listeners are not told yet. -/
def close (a : Actions) : Actions :=
  let a := { a with scope := none, indicator := { a.indicator with needed := false } }
  if a.retained then a else a.stopIndicator

/-- Counts an action out of the scope. Answers the scope if it ended. -/
def countOut (a : Actions) : Option (Id .scope) × Actions :=
  match a.scope with
  | none => (none, a)
  | some s =>
    let left := s.pending - 1
    if left = 0 then (some s.thenable, a.close)
    else (none, { a with scope := some { s with pending := left } })

/-- An action settles, but the listeners of its scope are not told yet. -/
def withdraw (a : Actions) (n : Id .action) : Option (Id .scope) × Actions :=
  if a.isRunning n then { a with started := a.started.modify n fun _ => false }.countOut
  else (none, a)

/-- An action that is not the last one leaves the scope open. -/
theorem withdraw_of_running {s : ActionScope} (ran : a.isRunning n) (goesOn : a.scope = some s) :
    a.withdraw n =
      if s.pending - 1 = 0 then
        (some s.thenable, close { a with started := a.started.modify n fun _ => false })
      else
        (none,
          { a with
            started := a.started.modify n fun _ => false
            scope := some { s with pending := s.pending - 1 } }) := by
  rw [withdraw, if_pos ran]
  simp only [countOut, goesOn]

theorem withdraw_of_not_running (settled : ¬ a.isRunning n) : a.withdraw n = (none, a) :=
  if_neg settled

theorem countDown_eq (a : Actions) :
    a.countDown = a.countOut.1.elim a.countOut.2 a.countOut.2.fulfil := by
  unfold countDown countOut
  cases a.scope with
  | none => rfl
  | some s =>
    dsimp only
    split
    all_goals rfl

/-- The listeners of a scope that ended are told. -/
theorem settle_eq (a : Actions) (n : Id .action) :
    a.settle n = (a.withdraw n).1.elim (a.withdraw n).2 (a.withdraw n).2.fulfil := by
  unfold settle withdraw
  split
  next => exact countDown_eq _
  next => rfl

/-! ## What callbacks do -/

/-- What callbacks do leads from actions to others, step by step. A callback that shows the indicator
does so between the claim and the delivery of its cleanup. -/
inductive Performs : Actions → Actions → Prop
  | done (a : Actions) : Performs a a
  | register {a a' : Actions} (callback : String) :
      Performs (a.register callback []) a' → Performs a a'
  | release {a a' : Actions} (r : Id .retainer) : a.holds r → Performs (a.release r) a' →
      Performs a a'
  | handled {a a' : Actions} : Performs a.markHandled a' → Performs a a'
  | retain {a a' : Actions} : Performs a.retain.2 a' → Performs a a'
  | observe {a a' : Actions} : Performs (a.note [.observed a.isShowing]) a' → Performs a a'
  | call {a returned a' : Actions} {ticket : Ticket} {indicator : Indicator} :
      a.indicator.claim = some (ticket, indicator) →
      Performs (note { a with indicator } [.shown ticket]) returned →
      Performs (returned.deliver ticket) a' → Performs a a'

/-- One step after the other, if those that show the indicator are no exception. -/
theorem performs_of_start {depth : Nat}
    (start : ∀ {a rest}, (∀ a, Performs a (perform depth rest a)) →
      Performs a (perform depth (.start :: rest) a)) (steps : List CallbackStep) (a : Actions) :
    Performs a (a.perform depth steps) := by
  induction steps generalizing a with
  | nil =>
    rw [perform]
    exact .done a
  | cons step rest ih =>
    cases step with
    | register callback =>
      rw [perform]
      exact .register callback (ih _)
    | release r =>
      rw [perform]
      split
      next held => exact .release r held (ih _)
      next => exact ih a
    | handled =>
      rw [perform]
      exact .handled (ih _)
    | retain =>
      rw [perform]
      exact .retain (ih _)
    | observe =>
      rw [perform]
      exact .observe (ih _)
    | start => exact start ih

theorem performs_perform (depth : Nat) (steps : List CallbackStep) (a : Actions) :
    Performs a (a.perform depth steps) := by
  induction depth generalizing steps a with
  | zero =>
    refine performs_of_start (fun {a rest} ih => ?_) steps a
    rw [perform]
    exact ih a
  | succ depth called =>
    refine performs_of_start (fun {a rest} ih => ?_) steps a
    rw [perform]
    split
    next => exact ih a
    next claimed => exact .call claimed (called _ _) (ih _)

/-! ## What listeners did -/

def fired (a : Actions) : List Firing := a.log.filterMap ActionEvent.firing?

theorem fired_note (a : Actions) (events : List ActionEvent) :
    (a.note events).fired = a.fired ++ events.filterMap ActionEvent.firing? :=
  List.filterMap_append

theorem firings_map (firings : List Firing) :
    (firings.map ActionEvent.fired).filterMap ActionEvent.firing? = firings := by
  induction firings with
  | nil => rfl
  | cons f firings ih => exact congrArg (f :: ·) ih

theorem get_andThen (a : Actions) (i j : Id .scope) (l : Listener) :
    (a.andThen i l).thenables.get j =
      if i = j ∧ a.thenables.has j then ((a.thenables.get i).andThen l).2
      else a.thenables.get j :=
  Arena.get_modify ..

theorem get_fulfil (a : Actions) (i j : Id .scope) :
    (a.fulfil i).thenables.get j =
      if i = j ∧ a.thenables.has j then (a.thenables.get i).fulfil.2 else a.thenables.get j :=
  Arena.get_modify ..

/-- A listener that comes too late does what it does at once. -/
theorem fired_andThen (a : Actions) (i : Id .scope) (l : Listener) :
    (a.andThen i l).fired = a.fired ++ if (a.thenables.get i).fulfilled then l.fire else [] := by
  unfold andThen
  rw [fired_note, firings_map]
  unfold Thenable.andThen
  split
  all_goals rfl

/-- Those who wait are told in the order in which they came. -/
theorem fired_fulfil (a : Actions) (i : Id .scope) (waits : (a.thenables.get i).fulfilled = false) :
    (a.fulfil i).fired = a.fired ++ (a.thenables.get i).listeners.flatMap Listener.fire := by
  unfold fulfil
  rw [fired_note, firings_map]
  unfold Thenable.fulfil
  rw [waits]
  rfl

/-! ## What has no influence on scopes -/

/-- Nothing that concerns scopes differs. -/
structure SameScopes (a a' : Actions) : Prop where
  scope : a'.scope = a.scope
  started : a'.started = a.started
  thenables : a'.thenables = a.thenables
  fired : a'.fired = a.fired

namespace SameScopes

theorem refl (a : Actions) : SameScopes a a := ⟨rfl, rfl, rfl, rfl⟩

theorem trans (h : SameScopes a a') (h' : SameScopes a' a'') : SameScopes a a'' :=
  ⟨h'.scope.trans h.scope, h'.started.trans h.started, h'.thenables.trans h.thenables,
    h'.fired.trans h.fired⟩

/-- Other events are no firings. -/
theorem note (a : Actions) {events : List ActionEvent} (others : ∀ e ∈ events, e.firing? = none) :
    SameScopes a (a.note events) := by
  refine ⟨rfl, rfl, rfl, ?_⟩
  rw [fired_note, List.filterMap_eq_nil_iff.mpr others, List.append_nil]

theorem clean (a : Actions) (cleanup : Option Ticket) : SameScopes a (a.clean cleanup) := by
  refine note a fun e mem => ?_
  obtain ⟨ticket, -, rfl⟩ := List.mem_map.mp (by simpa using mem : e ∈ cleanup.toList.map _)
  rfl

/-- Only the indicator, the retainers and the callbacks differ. -/
theorem of_rest (scope : a'.scope = a.scope) (started : a'.started = a.started)
    (thenables : a'.thenables = a.thenables) (log : a'.log = a.log) : SameScopes a a' :=
  ⟨scope, started, thenables, congrArg (List.filterMap ActionEvent.firing?) log⟩

theorem indicator (a : Actions) (i : Indicator) : SameScopes a { a with indicator := i } :=
  of_rest rfl rfl rfl rfl

theorem stopIndicator (a : Actions) : SameScopes a a.stopIndicator :=
  (indicator a _).trans (clean _ _)

theorem register (a : Actions) (callback : String) (script : List CallbackStep) :
    SameScopes a (a.register callback script) := by
  unfold Actions.register
  split
  next => exact (indicator a _).trans (clean _ _)
  next =>
    have named : SameScopes a { a with callbacks := a.callbacks ++ [(callback, script)] } :=
      of_rest rfl rfl rfl rfl
    exact named.trans ((indicator _ _).trans (clean _ _))

theorem markHandled (a : Actions) : SameScopes a a.markHandled := indicator a _

theorem retain (a : Actions) : SameScopes a a.retain.2 := of_rest rfl rfl rfl rfl

theorem release (a : Actions) (r : Id .retainer) : SameScopes a (a.release r) := by
  have loose : SameScopes a { a with retainers := a.retainers.modify r fun _ => false } :=
    of_rest rfl rfl rfl rfl
  unfold Actions.release
  dsimp only
  split
  next => exact loose
  next => exact loose.trans (stopIndicator _)

theorem deliver (a : Actions) (cleanup : Ticket) : SameScopes a (a.deliver cleanup) :=
  (indicator a _).trans (clean _ _)

/-- Whatever callbacks do, the scope goes on. -/
theorem of_performs (performs : Performs a a') : SameScopes a a' := by
  induction performs with
  | done a => exact refl a
  | register callback _ ih => exact (register _ callback []).trans ih
  | release r _ _ ih => exact (release _ r).trans ih
  | handled _ ih => exact (markHandled _).trans ih
  | retain _ ih => exact (retain _).trans ih
  | observe _ ih => exact (note _ (by simp [ActionEvent.firing?])).trans ih
  | @call a _ _ ticket indicator _ _ _ within ih =>
    have shown : SameScopes a (Actions.note { a with indicator } [.shown ticket]) :=
      (SameScopes.indicator a indicator).trans (note _ (by simp [ActionEvent.firing?]))
    exact shown.trans (within.trans ((deliver _ ticket).trans ih))

theorem perform (depth : Nat) (steps : List CallbackStep) (a : Actions) :
    SameScopes a (a.perform depth steps) := of_performs (performs_perform depth steps a)

end SameScopes

/-- The scope ends, whatever becomes of the indicator. -/
theorem sameScopes_close (a : Actions) : SameScopes { a with scope := none } a.close := by
  unfold close
  dsimp only
  split
  next => exact .indicator _ _
  next => exact (SameScopes.indicator _ _).trans (.stopIndicator _)

end Actions

end ConcurrentRender
