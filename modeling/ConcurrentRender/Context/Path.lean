import ConcurrentRender.Context.Registry
import ConcurrentRender.Step
import ConcurrentRender.Tree.Basic

/-!
# Contexts along the path of a render

A `ContextPath` follows one render: which providers it has entered and which fiber it is
rendering. Entering a provider puts its value in force and keeps the one before, and
leaving it puts that one in force again. A fiber that reads a context becomes dependent
on it.

* `ContextView.push` and `ContextView.pop` enter and leave providers.
* `ContextView.prepare`, `ContextView.read` and `ContextView.finish` render a fiber.
* `ContextView.unwind` leaves all providers at once, when a render is given up.

A pop that fails removes the provider without putting the earlier value in force.
-/

namespace ConcurrentRender

/-- A provider that was entered. -/
structure ProviderFrame where
  context : ContextId
  saved : Value
  owner : FiberId
deriving DecidableEq

structure ContextPath where
  slot : Slot
  providers : List ProviderFrame := []
  rendering : Option FiberId := none
  hasRead : Bool := false
deriving DecidableEq, Inhabited

/-- A path and the contexts that it is about. -/
structure ContextView where
  registry : ContextRegistry
  path : ContextPath

namespace ContextView

def depth (v : ContextView) : Nat := v.path.providers.length

def push (v : ContextView) (owner : FiberId) (context : ContextId) (value : Value) :
    ContextView :=
  let (saved, registry) := v.registry.valueOrUnit context v.path.slot
  { registry := registry.install context v.path.slot value
    path := { v.path with providers := { context, saved, owner } :: v.path.providers } }

/-- Leaves the innermost provider, which must be the one of this fiber and context. -/
def pop (fiber : FiberId) (context : ContextId) : StepM ContextView Unit := fun v =>
  match v.path.providers with
  | [] => { state := v, result := .error (.stackUnderflow fiber) }
  | frame :: rest =>
    let left := { v with path := { v.path with providers := rest } }
    if frame.owner ≠ fiber then
      { state := left
        result := .error (.stackMismatch frame.owner fiber)
        notices := [.unexpectedFiberPopped] }
    else if frame.context ≠ context then
      { state := left, result := .error (.providerMismatch context frame.context) }
    else
      { state := { left with registry := v.registry.install context v.path.slot frame.saved }
        result := .ok () }

def finish (v : ContextView) : ContextView :=
  { v with path := { v.path with rendering := none, hasRead := false } }

/-- Leaves all providers, innermost first, and stops rendering. -/
def unwind (v : ContextView) : ContextView where
  registry := v.path.providers.foldl
    (fun r frame => r.install frame.context v.path.slot frame.saved) v.registry
  path := { slot := v.path.slot }

/-- Whether a context that was read has another value now. -/
def changed (v : ContextView) (d : Dependencies) : Bool :=
  d.contexts.any fun r => v.registry.value? r.context v.path.slot != some r.seen

/-- Starts to render a fiber, whose dependencies will be found anew. Answers whether a
change of a context it read has arrived on one of `lanes`, so that it must be rendered
even if nothing else changed. -/
def prepare (v : ContextView) (t : Tree) (fiber : FiberId) (lanes : LaneSet) :
    Bool × ContextView × Tree :=
  let v := { v with path := { v.path with rendering := some fiber, hasRead := false } }
  match (t.fiber fiber).dependencies with
  | none => (false, v, t)
  | some d => (d.lanes.meets lanes, v, t.setFiber fiber fun x => { x with dependencies := some {} })

/-- The dependencies of a fiber after it read a context, for the first time in its
render or not. -/
def noteRead (first : Bool) (r : ContextRead) (x : Fiber) : Fiber :=
  if first then
    { x with
      dependencies := some { contexts := [r] }
      flags := { x.flags with needsPropagation := true } }
  else
    { x with
      dependencies := x.dependencies.map fun d => { d with contexts := d.contexts ++ [r] } }

def read (context : ContextId) : StepM (ContextView × Tree) Value := fun (v, t) =>
  match v.path.rendering with
  | none => { state := (v, t), result := .error .contextReadOutsideRender }
  | some fiber =>
    let (seen, registry) := v.registry.valueOrUnit context v.path.slot
    let t := t.setFiber fiber (noteRead (!v.path.hasRead) { context, seen })
    { state := ({ registry, path := { v.path with hasRead := true } }, t), result := .ok seen }

end ContextView

end ConcurrentRender
