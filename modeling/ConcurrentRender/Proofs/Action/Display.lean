import ConcurrentRender.Proofs.Action.Scopes

/-!
# Calls that hide the indicator, phase by phase

The indicator is shown by a callback, which returns a cleanup that hides it again. All of this
happens in phases, and other calls may come between them. A start claims the indicator, the callback
runs, and its cleanup is handed over. Who stops the indicator takes the cleanup, and runs it next.
While a callback runs, the indicator may be stopped, registered anew or even started again.

* `Actions.enroll`, `Actions.countedOut`, `Actions.letGo`, `Actions.handOver`: the phases that may
  take a cleanup, each up to the point where it is run.
* `Display`: the actions, with the callbacks that run and the cleanups that are about to be run.
* `DisplayCall`: what happens to them, one phase at a time.

Results:
1. `Actions.register_eq`, `Actions.withdraw_eq`, `Actions.release_eq`, `Actions.deliver_eq`: the
   phases make up the calls.
2. `Display.runs_call`: whatever is done to actions happens in such phases.
-/

namespace ConcurrentRender

/-- The cleanup that is kept while the indicator is shown. -/
def Indicator.stored (i : Indicator) : Option Ticket :=
  match i.showing with
  | .shown cleanup => some cleanup
  | _ => none

namespace Actions

variable {a : Actions}

/-! ## Phases -/

/-- The indicator stops, and its cleanup is taken. -/
def halt (a : Actions) : Option Ticket × Actions :=
  (a.indicator.stored, { a with indicator := { a.indicator with showing := .idle } })

/-- A callback is registered. Answers the cleanup that must be run. -/
def enroll (a : Actions) (callback : String) (script : List CallbackStep) :
    Option Ticket × Actions :=
  let a := match a.callbacks.lookup callback with
    | some _ => a
    | none => { a with callbacks := a.callbacks ++ [(callback, script)] }
  let (cleanup, indicator) := a.indicator.register callback
  (cleanup, { a with indicator })

/-- The scope ends. Answers the cleanup that must be run. -/
def shut (a : Actions) : Option Ticket × Actions :=
  let a := { a with scope := none, indicator := { a.indicator with needed := false } }
  if a.retained then (none, a) else a.halt

/-- One action less is under way. Answers the scope, if it ended, and the cleanup that must be
run. -/
def part (a : Actions) : Option (Id .scope) × Option Ticket × Actions :=
  match a.scope with
  | none => (none, none, a)
  | some s =>
    if s.pending - 1 = 0 then (some s.thenable, a.shut)
    else (none, none, { a with scope := some { s with pending := s.pending - 1 } })

/-- An action is counted out. -/
def countedOut (a : Actions) (n : Id .action) : Option (Id .scope) × Option Ticket × Actions :=
  if a.isRunning n then { a with started := a.started.modify n fun _ => false }.part
  else (none, none, a)

/-- A retainer is let go of. Answers the cleanup that must be run. -/
def letGo (a : Actions) (r : Id .retainer) : Option Ticket × Actions :=
  let a := { a with retainers := a.retainers.modify r fun _ => false }
  if a.retained || a.scope.isSome then (none, a) else a.halt

/-- The cleanup of a callback is handed over. It is answered if it comes too late. -/
def handOver (a : Actions) (cleanup : Ticket) : Option Ticket × Actions :=
  let (stale, indicator) := a.indicator.deliver cleanup
  (stale, { a with indicator })

theorem clean_none (a : Actions) : a.clean none = a := by
  simp [clean, note]

theorem register_eq (a : Actions) (callback : String) (script : List CallbackStep) :
    a.register callback script =
      (a.enroll callback script).2.clean (a.enroll callback script).1 := rfl

theorem deliver_eq (a : Actions) (cleanup : Ticket) :
    a.deliver cleanup = (a.handOver cleanup).2.clean (a.handOver cleanup).1 := rfl

theorem release_eq (a : Actions) (r : Id .retainer) :
    a.release r = (a.letGo r).2.clean (a.letGo r).1 := by
  unfold release letGo
  dsimp only
  split
  · exact (clean_none _).symm
  · rfl

theorem close_eq (a : Actions) : a.close = a.shut.2.clean a.shut.1 := by
  unfold close shut
  dsimp only
  split
  · exact (clean_none _).symm
  · rfl

theorem countOut_eq (a : Actions) :
    a.countOut = (a.part.1, a.part.2.2.clean a.part.2.1) := by
  unfold countOut part
  cases a.scope with
  | none => exact congrArg _ (clean_none a).symm
  | some s =>
    dsimp only
    split
    · exact congrArg _ (close_eq a)
    · exact congrArg _ (clean_none _).symm

/-- The first phase of a settlement ends when the cleanup was run. -/
theorem withdraw_eq (a : Actions) (n : Id .action) :
    a.withdraw n = ((a.countedOut n).1, (a.countedOut n).2.2.clean (a.countedOut n).2.1) := by
  unfold withdraw countedOut
  split
  · exact countOut_eq _
  · exact congrArg _ (clean_none a).symm

end Actions

/-- Actions, with what is under way outside of them. -/
structure Display where
  actions : Actions
  /-- The callbacks that run. -/
  calling : List Ticket := []
  /-- The cleanups that callbacks returned. -/
  delivered : List Ticket := []
  /-- The cleanups that were taken and are about to be run. -/
  taken : List Ticket := []

/-- One phase of what happens to actions and their indicator. -/
inductive DisplayCall where
  | entangle (runtime : Bool) (lane : LaneSet)
  /-- An action settles, and is counted out. -/
  | settle (action : Id .action)
  /-- The listeners of a scope are told. -/
  | tell (scope : Id .scope)
  | listen (scope : Id .scope) (listener : Listener)
  | register (callback : String) (script : List CallbackStep)
  | handled
  | retain
  /-- A retainer is dropped, which happens once. -/
  | drop (retainer : Id .retainer)
  | observe
  /-- The indicator is claimed, if it is needed, and the callback starts to run. -/
  | claim
  /-- The callback has run, and its cleanup is handed over. -/
  | deliver (ticket : Ticket)
  /-- A cleanup that was taken is run. -/
  | clean (ticket : Ticket)

namespace Display

variable {s : Display}

/-- The actions after a phase, with the cleanup that it takes. -/
def take (s : Display) (p : Option Ticket × Actions) : Display :=
  { s with actions := p.2, taken := p.1.toList ++ s.taken }

def call (s : Display) : DisplayCall → Display
  | .entangle runtime lane => { s with actions := (Actions.entangle runtime lane s.actions).state }
  | .settle n => s.take (s.actions.countedOut n).2
  | .tell i => { s with actions := s.actions.fulfil i }
  | .listen i l => { s with actions := s.actions.andThen i l }
  | .register callback script => s.take (s.actions.enroll callback script)
  | .handled => { s with actions := s.actions.markHandled }
  | .retain => { s with actions := s.actions.retain.2 }
  | .drop r => if s.actions.holds r then s.take (s.actions.letGo r) else s
  | .observe => { s with actions := s.actions.note [.observed s.actions.isShowing] }
  | .claim =>
    match s.actions.indicator.claim with
    | none => s
    | some (ticket, indicator) =>
      { s with
        actions := { s.actions with indicator }.note [.shown ticket]
        calling := ticket :: s.calling }
  | .deliver ticket =>
    if ticket ∈ s.calling then
      { s.take (s.actions.handOver ticket) with
        calling := s.calling.erase ticket
        delivered := ticket :: s.delivered }
    else s
  | .clean ticket =>
    if ticket ∈ s.taken then
      { s with actions := s.actions.note [.hidden ticket], taken := s.taken.erase ticket }
    else s

def after (s : Display) (calls : List DisplayCall) : Display := calls.foldl call s

@[simp] theorem after_nil (s : Display) : s.after [] = s := rfl

@[simp] theorem after_cons (s : Display) (c : DisplayCall) (calls : List DisplayCall) :
    s.after (c :: calls) = (s.call c).after calls := rfl

theorem after_append (s : Display) (calls calls' : List DisplayCall) :
    s.after (calls ++ calls') = (s.after calls).after calls' :=
  List.foldl_append

/-! ## Whole calls -/

/-- Some phases lead to `a`, after which no further callback runs and no further cleanup waits. -/
def Runs (s : Display) (a : Actions) : Prop :=
  ∃ calls, (s.after calls).actions = a ∧ (s.after calls).calling = s.calling ∧
    (s.after calls).taken = s.taken

namespace Runs

theorem refl (s : Display) : s.Runs s.actions := ⟨[], rfl, rfl, rfl⟩

theorem trans {a a' : Actions} (first : s.Runs a)
    (rest : ∀ s : Display, s.actions = a → s.Runs a') : s.Runs a' := by
  obtain ⟨calls, actions, calling, taken⟩ := first
  obtain ⟨calls', actions', calling', taken'⟩ := rest _ actions
  refine ⟨calls ++ calls', ?_⟩
  rw [after_append]
  exact ⟨actions', calling'.trans calling, taken'.trans taken⟩

/-- A phase that takes no cleanup. -/
theorem one (c : DisplayCall) (calling : (s.call c).calling = s.calling)
    (taken : (s.call c).taken = s.taken) : s.Runs (s.call c).actions :=
  ⟨[c], rfl, calling, taken⟩

/-- A phase that takes a cleanup, which is run next. -/
theorem exists_cleaned {p : Option Ticket × Actions} (c : DisplayCall)
    (actions : (s.call c).actions = p.2) (taken : (s.call c).taken = p.1.toList ++ s.taken) :
    ∃ calls, (s.after calls).actions = p.2.clean p.1 ∧
      (s.after calls).calling = (s.call c).calling ∧ (s.after calls).taken = s.taken := by
  obtain ⟨cleanup, a⟩ := p
  cases cleanup with
  | none => exact ⟨[c], actions.trans (Actions.clean_none a).symm, rfl, taken⟩
  | some ticket =>
    have waits : ticket ∈ (s.call c).taken := by
      rw [taken]
      exact List.mem_cons_self
    have runs : s.after [c, .clean ticket] =
        { s.call c with
          actions := (s.call c).actions.note [.hidden ticket]
          taken := (s.call c).taken.erase ticket } := if_pos waits
    refine ⟨[c, .clean ticket], ?_⟩
    rw [runs, actions, taken]
    exact ⟨rfl, rfl, List.erase_cons_head ..⟩

theorem cleaned {p : Option Ticket × Actions} (c : DisplayCall) (made : s.call c = s.take p) :
    s.Runs (p.2.clean p.1) := by
  obtain ⟨calls, actions, calling, taken⟩ :=
    exists_cleaned (p := p) c (by rw [made]; rfl) (by rw [made]; rfl)
  exact ⟨calls, actions, calling.trans (by rw [made]; rfl), taken⟩

theorem register (s : Display) (callback : String) (script : List CallbackStep) :
    s.Runs (s.actions.register callback script) := by
  rw [Actions.register_eq]
  exact cleaned (.register callback script) rfl

/-- Whatever callbacks do happens in phases, too. -/
theorem of_performs {a a' : Actions} (performs : a.Performs a') (same : s.actions = a) :
    s.Runs a' := by
  induction performs generalizing s with
  | done a => exact same ▸ refl s
  | register callback _ ih => exact (same ▸ register s callback []).trans fun _ => ih
  | release r held _ ih =>
    subst same
    refine trans ?_ fun _ => ih
    rw [Actions.release_eq]
    exact cleaned (.drop r) (if_pos held)
  | handled _ ih =>
    subst same
    exact (one .handled rfl rfl).trans fun _ => ih
  | retain _ ih =>
    subst same
    exact (one .retain rfl rfl).trans fun _ => ih
  | observe _ ih =>
    subst same
    exact (one .observe rfl rfl).trans fun _ => ih
  | @call _ _ _ ticket claimed found _ _ within ih =>
    subst same
    refine trans ?_ fun _ => ih
    -- The callback runs from the claim to the delivery, and does what it does meanwhile.
    let s₁ := s.call .claim
    have claims : s₁ =
        { s with
          actions := Actions.note { s.actions with indicator := claimed } [.shown ticket]
          calling := ticket :: s.calling } := by
      simp only [s₁, call, found]
    obtain ⟨calls, actions, calling, taken⟩ := within (s := s₁) (by rw [claims])
    let s₂ := s₁.after calls
    have runs : ticket ∈ s₂.calling := by
      rw [calling, claims]
      exact List.mem_cons_self
    have delivers : s₂.call (.deliver ticket) =
        { s₂.take (s₂.actions.handOver ticket) with
          calling := s₂.calling.erase ticket
          delivered := ticket :: s₂.delivered } := if_pos runs
    obtain ⟨rest, actions', calling', taken'⟩ := exists_cleaned (s := s₂)
      (p := s₂.actions.handOver ticket) (.deliver ticket) (by rw [delivers]; rfl)
      (by rw [delivers]; rfl)
    refine ⟨.claim :: calls ++ rest, ?_⟩
    show (s₁.after (calls ++ rest)).actions = _ ∧ (s₁.after (calls ++ rest)).calling = _ ∧
      (s₁.after (calls ++ rest)).taken = _
    rw [after_append]
    refine ⟨actions'.trans ?_, calling'.trans ?_, taken'.trans (taken.trans (by rw [claims]))⟩
    · rw [Actions.deliver_eq, actions]
    · rw [delivers]
      show s₂.calling.erase ticket = _
      rw [calling, claims]
      exact List.erase_cons_head ..

end Runs

/-- Whatever is done to actions happens in such phases. -/
theorem runs_call (s : Display) (r : Session) (same : s.actions = r.actions) (x : ActionCall) :
    s.Runs (r.call x).actions := by
  obtain ⟨actions, untold⟩ := r
  obtain rfl : s.actions = actions := same
  have counted : ∀ n, s.Runs (s.actions.withdraw n).2 := by
    intro n
    rw [Actions.withdraw_eq]
    exact .cleaned (.settle n) rfl
  cases x with
  | entangle runtime lane => exact .one (.entangle runtime lane) rfl rfl
  | settle n =>
    show s.Runs (s.actions.settle n)
    rw [Actions.settle_eq]
    cases (s.actions.withdraw n).1 with
    | none => exact counted n
    | some i => exact (counted n).trans fun s' ended => ended ▸ .one (.tell i) rfl rfl
  | withdraw n => exact counted n
  | tell i =>
    simp only [Session.call]
    split
    next => exact .one (.tell i) rfl rfl
    next => exact .refl s
  | listen i l => exact .one (.listen i l) rfl rfl
  | register callback script => exact .register s callback script
  | perform depth steps => exact .of_performs (Actions.performs_perform depth steps _) rfl

end Display

end ConcurrentRender
