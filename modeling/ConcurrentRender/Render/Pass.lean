import ConcurrentRender.Render.State

/-!
# Rendering

A render of a root starts with `Renderer.prepare`. For each fiber the work loop calls
`Renderer.begin`, lets the fiber read contexts, and calls `Renderer.complete`. Where a fiber
need not be rendered, `Renderer.bailOut` makes sure that the fibers below it still see
context changes from above.
-/

namespace ConcurrentRender

namespace Renderer

def nextLanes (r : Renderer) (root : RootId) : LaneSet :=
  (r.tree.root root).lanes.next (if r.renderRoot = some root then r.renderLanes else ∅)

def markStarved (root : RootId) (now : Nat) : StepM Renderer Unit := fun r =>
  let (g, stopped) := (r.tree.root root).lanes.markStarved now r.settings.expiration
  { state := r.setTree fun t => t.setRootLanes root fun _ => g
    result := match stopped with
      | none => .ok ()
      | some e => .error e }

/-- Starts to render the given lanes of a root: gives up any render under way, and makes
a twin for the fiber at the top. -/
def startRender (r : Renderer) (root : RootId) (lanes : LaneSet) : Renderer :=
  { r with
    contexts := r.contexts.unwind
    passes := r.passes.reset
    renderRoot := some root
    renderLanes := lanes }.setTree fun t => (t.startTwin (t.root root).current none).2

/-- Starts a render of the root, and puts everything staged into effect. Answers the lanes
being rendered. They are none, and nothing is started, if there is no work. -/
def prepare (root : RootId) : StepM Renderer LaneSet := do
  let next ← StepM.look fun r => r.nextLanes root
  if next.isEmpty then return ∅
  let lanes ← StepM.look fun r => (r.tree.root root).lanes.withPartners next
  StepM.change fun r => r.startRender root lanes
  onStaging Staging.flush
  return lanes

/-- Starts to render a fiber. Updates made until it is complete belong to the render.
Answers whether a change of a context that it read has arrived. -/
def begin (fiber : FiberId) : StepM Renderer Bool :=
  StepM.take fun r =>
    let (arrived, contexts, tree) := r.contexts.prepare r.tree fiber r.renderLanes
    (arrived,
      { r.setTree fun _ => tree with
        contexts, execution := { r.execution with rendering := true } })

/-- The fiber being rendered must be rendered once more. -/
def rerender : StepM Renderer Nat := onPasses PassCount.next

def complete (r : Renderer) : Renderer :=
  { r with
    execution := { r.execution with rendering := false }
    contexts := r.contexts.finish
    passes := r.passes.reset }

/-! ## Contexts -/

def createContext (name : String) (default : Value) : StepM Renderer ContextId :=
  onContexts (StepM.take fun v =>
    let (c, registry) := v.registry.create name default
    (c, { v with registry }))

def readContext (context : ContextId) : StepM Renderer Value :=
  StepM.focus (fun r => (r.contexts, r.tree))
    (fun p r => { r.setTree fun _ => p.2 with contexts := p.1 })
    (ContextView.read context)

def pushProvider (r : Renderer) (fiber : FiberId) (context : ContextId) (value : Value) :
    Renderer :=
  { r with contexts := r.contexts.push fiber context value }

def popProvider (fiber : FiberId) (context : ContextId) : StepM Renderer Unit :=
  onContexts (ContextView.pop fiber context)

/-- Whether a context that the fiber read has another value now. -/
def contextChanged (r : Renderer) (fiber : FiberId) : Bool :=
  match (r.tree.fiber fiber).dependencies with
  | none => false
  | some d => r.contexts.changed d

/-- The fiber is not rendered: spreads context changes below it. -/
def bailOut (fiber : FiberId) : StepM Renderer Unit := do
  let lanes ← StepM.look (·.renderLanes)
  onTree (Tree.spreadFromAbove fiber lanes false)

/-- Spreads context changes below a fiber whose rendering is put off, to all readers. -/
def spreadDeferred (fiber : FiberId) : StepM Renderer Unit := do
  let lanes ← StepM.look (·.renderLanes)
  onTree (Tree.spreadFromAbove fiber lanes true)

/-! ## Caches -/

def pooledCache : StepM Renderer (Option CacheId) := do
  match ← StepM.look fun r => (r.renderRoot, r.renderLanes) with
  | (none, _) => return none
  | (some root, lanes) => some <$> onPool root (Pool.request lanes)

def pushCache (r : Renderer) (fiber : FiberId) (cache : CacheId) : Renderer :=
  r.pushProvider fiber cacheContext (.cache cache)

def popCache (fiber : FiberId) : StepM Renderer Unit := popProvider fiber cacheContext

/-- Reads the nearest cache on behalf of the fiber being rendered. -/
def readCache : StepM Renderer (Option CacheId) := Value.cache? <$> readContext cacheContext

/-- A boundary has another cache: all readers below it are scheduled. -/
def spreadCache (r : Renderer) (boundary : FiberId) : Renderer :=
  r.setTree fun t => t.spreadOne boundary cacheContext r.renderLanes

def retainCache (cache : CacheId) : StepM Renderer Unit := onHost (CacheHost.retain cache)

def releaseCache (cache : CacheId) : StepM Renderer Unit := do
  let priority ← StepM.look (·.settings.cacheAbortPriority)
  onHost (CacheHost.release cache priority)

end Renderer

end ConcurrentRender
