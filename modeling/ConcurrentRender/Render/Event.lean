import ConcurrentRender.Render.State

/-!
# Events and transitions

Updates get their lane from the circumstances in which they are made. Three kinds of
scopes set these circumstances: the handling of a host event, the start of a transition,
and an explicit priority. A scope is entered, some code runs, and the scope is left, also
when that code breaks off. Leaving it restores what entering it changed.

The transitions of one outermost event share a lane. Outside of host events each outermost
transition is an event of its own.
-/

namespace ConcurrentRender

inductive EventScope where
  | batched (priority : EventPriority)
  | transition
  | updatePriority (priority : EventPriority)
deriving DecidableEq

inductive SavedScope where
  | batched (wasBatched : Bool) (priority : EventPriority)
  | transition
  | updatePriority (previous : Option EventPriority)
deriving DecidableEq

namespace Renderer

/-- Forgets the lane that transitions share, unless an event or a transition is still
under way. -/
def endEvent (r : Renderer) : Renderer :=
  if r.transitionDepth = 0 && !r.execution.batched then { r with supply := r.supply.endEvent }
  else r

def enter (r : Renderer) : EventScope → SavedScope × Renderer
  | .batched priority =>
    (.batched r.execution.batched r.eventPriority,
      { r with eventPriority := priority, execution := { r.execution with batched := true } })
  | .transition => (.transition, { r with transitionDepth := r.transitionDepth + 1 })
  | .updatePriority priority =>
    (.updatePriority r.updatePriority, { r with updatePriority := some priority })

def restore (r : Renderer) : SavedScope → Renderer
  | .batched wasBatched priority =>
    { r with
      eventPriority := priority
      execution := { r.execution with batched := r.execution.batched && wasBatched } }
  | .transition => { r with transitionDepth := r.transitionDepth - 1 }
  | .updatePriority previous => { r with updatePriority := previous }

def leave (r : Renderer) (saved : SavedScope) : Renderer := (r.restore saved).endEvent

/-- Runs an operation inside a scope, which is left in any case. -/
def within {α : Type} (scope : EventScope) (m : StepM Renderer α) : StepM Renderer α := fun r =>
  let (saved, r) := r.enter scope
  let o := m r
  { o with state := o.state.leave saved }

/-- Starts an async action. The lane of a new scope is that of a transition started now.
Outside of events and transitions the action is an event of its own. -/
def entangle (runtime : Bool) : StepM Renderer (Id .action) := do
  let (lane, supply) ← StepM.look fun r => r.supply.eventLane ∅
  match ← StepM.attempt (onActions (Actions.entangle runtime lane)) with
  | .ok (action, opened) =>
    StepM.change fun r => if opened then { r with supply } else r
    StepM.change endEvent
    return action
  | .error e =>
    StepM.change endEvent
    StepM.fail e

def settle (r : Renderer) (action : Id .action) : Renderer :=
  { r with actions := r.actions.settle action }

end Renderer

end ConcurrentRender
