import ConcurrentRender.Action.Indicator
import ConcurrentRender.Action.Thenable
import ConcurrentRender.Lane.Group
import ConcurrentRender.Step

/-!
# Scopes of async actions

An update made during an async action cannot be told from one made during another, so
actions that overlap are treated as one transaction. The first one opens a scope with a
lane of its own, and those started before the scope is complete join it. The scope is
complete when all its actions have settled, in whatever way.

* `Actions.entangle` joins or opens a scope, and `Actions.settle` counts one action as
  settled. The last one completes the scope: the indicator stops, and the listeners fire.
* `Actions.start` shows the default indicator if a scope was opened and nothing else took
  care of that. A retainer keeps it shown after the scope is complete.

Everything observable is recorded in `Actions.log`, in the order in which it happened.
-/

namespace ConcurrentRender

/-- What async actions let happen. -/
inductive ActionEvent where
  | fired (firing : Firing)
  /-- A callback was called to show the indicator. -/
  | shown (ticket : Ticket)
  /-- A cleanup was run to hide the indicator. -/
  | hidden (ticket : Ticket)
  /-- A callback saw whether the indicator is showing. -/
  | observed (showing : Bool)
deriving DecidableEq

def ActionEvent.text : ActionEvent → String
  | fired { label, value := none } => label
  | fired { label, value := some value } => label ++ "=" ++ value
  | shown ticket => "show:" ++ ticket.callback
  | hidden ticket => "hide:" ++ ticket.callback
  | observed showing => "showing:" ++ toString showing

/-- The actions under way. -/
structure ActionScope where
  lane : LaneSet
  pending : Nat
  thenable : Id .scope
deriving DecidableEq, Inhabited

/-- What a callback does besides showing the indicator. -/
inductive CallbackStep where
  | register (callback : String)
  /-- Lets go of a retainer, if it is still held. -/
  | release (retainer : Id .retainer)
  | start
  | handled
  | retain
  | observe
deriving DecidableEq

/-- The step that a line of a script stands for. A line that is none of the others observes. -/
def CallbackStep.ofText (line : String) : CallbackStep :=
  match line.splitOn ":" with
  | ["start"] => start
  | ["handled"] => handled
  | ["retain"] => retain
  | "register" :: first :: rest => register (":".intercalate (first :: rest))
  | ["release", n] =>
    if n.all Char.isDigit then n.toNat?.elim observe fun n => release ⟨n⟩ else observe
  | _ => observe

structure Actions where
  scope : Option ActionScope := none
  /-- For each action started so far, whether it has not settled. -/
  started : Arena .action Bool := {}
  /-- One for each scope opened so far. -/
  thenables : Arena .scope Thenable := {}
  indicator : Indicator := {}
  /-- Whether opening a scope calls for the indicator. -/
  usesIndicator : Bool := true
  /-- For each retainer taken so far, whether it is still held. -/
  retainers : Arena .retainer Bool := {}
  /-- What the callbacks do, by name. The first use of a name settles it. -/
  callbacks : List (String × List CallbackStep) := []
  log : List ActionEvent := []

namespace Actions

instance : Inhabited Actions := ⟨{}⟩

/-! ## What can be seen -/

def lane (a : Actions) : LaneSet := (a.scope.map (·.lane)).getD ∅

def pending (a : Actions) : Nat := (a.scope.map (·.pending)).getD 0

def thenable? (a : Actions) : Option (Id .scope) := a.scope.map (·.thenable)

def isShowing (a : Actions) : Bool := a.indicator.isShowing

def isRunning (a : Actions) (action : Id .action) : Bool := a.started.get action

def retained (a : Actions) : Bool := a.retainers.items.any id

def describe (a : Actions) : String :=
  let lane := match a.scope with
    | none => "None"
    | some s => "Some(" ++ s.lane.describe ++ ")"
  "ActionEntangler \x7b lane: " ++ lane ++ ", pending: " ++ toString a.pending
    ++ ", indicator_showing: " ++ toString a.isShowing ++ " \x7d"

/-! ## The scope -/

def note (a : Actions) (events : List ActionEvent) : Actions :=
  { a with log := a.log ++ events }

def clean (a : Actions) (cleanup : Option Ticket) : Actions :=
  a.note (cleanup.map ActionEvent.hidden).toList

def stopIndicator (a : Actions) : Actions :=
  let (cleanup, indicator) := a.indicator.stop
  { a with indicator }.clean cleanup

def andThen (a : Actions) (id : Id .scope) (l : Listener) : Actions :=
  let (firings, t) := (a.thenables.get id).andThen l
  { a with thenables := a.thenables.modify id fun _ => t }.note (firings.map .fired)

/-- The thenable's scope is complete: its listeners fire. -/
def fulfil (a : Actions) (id : Id .scope) : Actions :=
  let (firings, t) := (a.thenables.get id).fulfil
  { a with thenables := a.thenables.modify id fun _ => t }.note (firings.map .fired)

/-- Opens a scope on the given lane, without any action yet. -/
def openScope (a : Actions) (lane : LaneSet) : Actions :=
  { a with
    scope := some { lane, pending := 0, thenable := a.thenables.next }
    thenables := a.thenables.add {}
    indicator := { a.indicator with needed := a.indicator.needed || a.usesIndicator } }

/-- Starts an action. It joins the scope, or opens one on `lane`. Answers the action, and
whether the lane was used. Actions need a runtime to run on. -/
def entangle (runtime : Bool) (lane : LaneSet) : StepM Actions (Id .action × Bool) := fun a =>
  if runtime then
    let opens := a.scope.isNone
    let opened := if opens then a.openScope lane else a
    { state :=
        { opened with
          scope := opened.scope.map fun s => { s with pending := s.pending + 1 }
          started := a.started.add true }
      result := .ok (a.started.next, opens) }
  else { state := a, result := .error .noAsyncRuntime }

def complete (a : Actions) (s : ActionScope) : Actions :=
  let a := { a with scope := none, indicator := { a.indicator with needed := false } }
  let a := if a.retained then a else a.stopIndicator
  a.fulfil s.thenable

/-- One action less is under way. The last one of a scope completes it. -/
def countDown (a : Actions) : Actions :=
  match a.scope with
  | none => a
  | some s =>
    let left := s.pending - 1
    if left = 0 then a.complete s else { a with scope := some { s with pending := left } }

/-- An action settles, in whatever way. It does so once. -/
def settle (a : Actions) (action : Id .action) : Actions :=
  if a.isRunning action then
    { a with started := a.started.modify action fun _ => false }.countDown
  else a

/-! ## The indicator -/

def script (a : Actions) (callback : String) : List CallbackStep :=
  (a.callbacks.lookup callback).getD []

/-- Registers a callback. If its name is new, it does `script` when called. -/
def register (a : Actions) (callback : String) (script : List CallbackStep) : Actions :=
  let a := match a.callbacks.lookup callback with
    | some _ => a
    | none => { a with callbacks := a.callbacks ++ [(callback, script)] }
  let (cleanup, indicator) := a.indicator.register callback
  { a with indicator }.clean cleanup

/-- Something else shows that actions are under way. -/
def markHandled (a : Actions) : Actions :=
  { a with indicator := { a.indicator with needed := false } }

/-- Keeps the indicator shown until the retainer is released. -/
def retain (a : Actions) : Id .retainer × Actions :=
  (a.retainers.next, { a with retainers := a.retainers.add true })

def holds (a : Actions) (r : Id .retainer) : Bool := a.retainers.get r

/-- Lets go of a retainer that is held. When none is left and no scope is open, the
indicator stops. -/
def release (a : Actions) (r : Id .retainer) : Actions :=
  let a := { a with retainers := a.retainers.modify r fun _ => false }
  if a.retained || a.scope.isSome then a else a.stopIndicator

/-- The cleanup of a callback is there. It is run at once if it comes too late. -/
def deliver (a : Actions) (cleanup : Ticket) : Actions :=
  let (stale, indicator) := a.indicator.deliver cleanup
  { a with indicator }.clean stale

/-- Does what a callback does. A callback that starts the indicator finds it starting
already, so callbacks do not call each other. The depth bounds that in any case. -/
def perform : Nat → List CallbackStep → Actions → Actions
  | _, [], a => a
  | depth, .register callback :: rest, a => perform depth rest (a.register callback [])
  | depth, .release r :: rest, a => perform depth rest (if a.holds r then a.release r else a)
  | depth, .handled :: rest, a => perform depth rest a.markHandled
  | depth, .retain :: rest, a => perform depth rest a.retain.2
  | depth, .observe :: rest, a => perform depth rest (a.note [.observed a.isShowing])
  | 0, .start :: rest, a => perform 0 rest a
  | depth + 1, .start :: rest, a =>
    match a.indicator.claim with
    | none => perform (depth + 1) rest a
    | some (ticket, indicator) =>
      let called := { a with indicator }.note [.shown ticket]
      let returned := perform depth (a.script ticket.callback) called
      perform (depth + 1) rest (returned.deliver ticket)
termination_by depth steps => (depth, steps.length)

/-- Shows the indicator if it is needed and not showing. -/
def start (a : Actions) : Actions := perform 2 [.start] a

end Actions

end ConcurrentRender
