import ConcurrentRender.Path.FrameStack

/-!
# The host context along a path

A host mounts what is rendered into containers, and inside a container it may distinguish
contexts, such as the namespaces of a markup document. `HostRules` says what context a
container starts with and what context a component passes down. `HostPath` follows a
render: which container and which context are in force.

A component that passes down the context it is in leaves no frame.
-/

namespace ConcurrentRender

structure HostRules (κ χ : Type) where
  rootContext : κ → χ
  /-- The context that a component of the given kind passes down. -/
  childContext : χ → String → χ

/-- The namespaces of a markup document. Containers whose name starts with svg hold
drawings, all others hold text. -/
def HostRules.namespaces : HostRules String String where
  rootContext container := if "svg".isPrefixOf container then "svg" else "html"
  childContext parent kind :=
    match parent, kind with
    | "html", "svg" => "svg"
    | "html", "math" => "math"
    | "svg", "foreignObject" => "html"
    | _, _ => parent

/-- The container and the context in force, and the fiber that put the context in
force. -/
structure HostPath (κ χ : Type) where
  container : FrameStack (Option κ) := { current := none }
  context : FrameStack (Option χ) := { current := none }
  provider : FrameStack (Option FiberId) := { current := none }

namespace HostPath

variable {κ χ : Type}

def pushContainer (rules : HostRules κ χ) (p : HostPath κ χ) (fiber : FiberId)
    (container : κ) : HostPath κ χ :=
  { container := p.container.push (some container) fiber
    context := p.context.push (some (rules.rootContext container)) fiber
    provider := p.provider.push (some fiber) fiber }

/-- Takes the context in force out of force. -/
def dropContext (fiber : FiberId) : StepM (HostPath κ χ) Unit := do
  let _ ← StepM.focus (·.context) (fun context p => { p with context }) (FrameStack.pop fiber)
  let _ ← StepM.focus (·.provider) (fun provider p => { p with provider })
    (FrameStack.pop fiber)

def popContainer (fiber : FiberId) : StepM (HostPath κ χ) Unit := do
  dropContext fiber
  let _ ← StepM.focus (·.container) (fun container p => { p with container })
    (FrameStack.pop fiber)

/-- Enters a component of the given kind, which must be inside a container. -/
def push [BEq χ] (rules : HostRules κ χ) (fiber : FiberId) (kind : String) :
    StepM (HostPath κ χ) Unit := do
  match ← StepM.look (·.context.current) with
  | none => StepM.fail (.stackUnderflow fiber)
  | some parent =>
    let next := rules.childContext parent kind
    if next == parent then pure ()
    else
      StepM.change fun p =>
        { p with
          context := p.context.push (some next) fiber
          provider := p.provider.push (some fiber) fiber }

/-- Leaves a component. Nothing is in force to leave unless the component put it there. -/
def pop (fiber : FiberId) : StepM (HostPath κ χ) Unit := do
  if (← StepM.look (·.provider.current)) = some fiber then dropContext fiber else pure ()

end HostPath

end ConcurrentRender
