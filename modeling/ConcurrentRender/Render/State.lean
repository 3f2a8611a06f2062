import ConcurrentRender.Action.Scope
import ConcurrentRender.Cache.Pool
import ConcurrentRender.Context.Path
import ConcurrentRender.Context.Spread
import ConcurrentRender.Lane.Supply
import ConcurrentRender.Staging.Buffer

/-!
# The state of a renderer

A `Renderer` brings together everything that decides what is rendered when: the tree and
the staged updates, the lanes to give out, the contexts along the path of the render, the
async actions, and the caches. It renders nothing itself. A work loop does, and calls it.

Events let updates be staged, a render starts with staged updates put into the tree, and a
commit ends it.
-/

namespace ConcurrentRender

/-- What the renderer is doing. -/
structure Execution where
  batched : Bool := false
  rendering : Bool := false
  committing : Bool := false
deriving DecidableEq, Inhabited

/-- What the renderer is doing as a number, one bit each. -/
def Execution.toNat (e : Execution) : Nat :=
  e.batched.toNat + 2 * e.rendering.toNat + 4 * e.committing.toNat

def Execution.describe (e : Execution) : String :=
  let names := (if e.batched then ["BATCHED"] else [])
    ++ (if e.rendering then ["RENDER"] else [])
    ++ (if e.committing then ["COMMIT"] else [])
  "ExecutionContext(" ++ (if names.isEmpty then "0x0" else String.intercalate " | " names) ++ ")"

structure Renderer where
  settings : Settings
  staging : Staging
  supply : LaneSupply := {}
  contexts : ContextView
  actions : Actions
  host : CacheHost := {}
  execution : Execution := {}
  /-- How many transitions are being started, one inside the other. -/
  transitionDepth : Nat := 0
  eventPriority : EventPriority := .default
  /-- A priority for updates that overrides the one of the event. -/
  updatePriority : Option EventPriority := none
  /-- The root being rendered, from the start of the render to its commit. -/
  renderRoot : Option RootId := none
  renderLanes : LaneSet := ∅
  passes : PassCount

namespace Renderer

/-- A renderer at the beginning, if its settings allow it to work. -/
def start (settings : Settings) (registry : ContextRegistry) : Except SettingsError Renderer :=
  settings.check.map fun _ =>
    { settings
      staging :=
        { buffer := .start settings.nestedUpdateLimit settings.diagnostics, tree := {} }
      contexts := { registry, path := { slot := settings.slot } }
      actions := { usesIndicator := settings.defaultTransitionIndicator }
      passes := { limit := settings.rerenderLimit } }

instance : Inhabited Renderer :=
  ⟨{ settings := {}
     staging := { buffer := .start 50 true, tree := {} }
     contexts := { registry := .start, path := { slot := .primary } }
     actions := {}
     passes := { limit := 25 } }⟩

def tree (r : Renderer) : Tree := r.staging.tree

def setTree (r : Renderer) (g : Tree → Tree) : Renderer :=
  { r with staging := { r.staging with tree := g r.staging.tree } }

/-- A render is under way from its start to its commit, also while it is paused. -/
def isRendering (r : Renderer) : Bool := r.renderRoot.isSome

variable {α : Type}

def onStaging (m : StepM Staging α) : StepM Renderer α :=
  StepM.focus (·.staging) (fun staging r => { r with staging }) m

def onTree (m : StepM Tree α) : StepM Renderer α := onStaging (Staging.onTree m)

def onContexts (m : StepM ContextView α) : StepM Renderer α :=
  StepM.focus (·.contexts) (fun contexts r => { r with contexts }) m

def onHost (m : StepM CacheHost α) : StepM Renderer α :=
  StepM.focus (·.host) (fun host r => { r with host }) m

def onActions (m : StepM Actions α) : StepM Renderer α :=
  StepM.focus (·.actions) (fun actions r => { r with actions }) m

def onPasses (m : StepM PassCount α) : StepM Renderer α :=
  StepM.focus (·.passes) (fun passes r => { r with passes }) m

def onPool (root : RootId) (m : StepM Pool α) : StepM Renderer α :=
  StepM.focus
    (fun r => { root := r.tree.root root, host := r.host })
    (fun p r => { r.setTree (fun t => t.setRoot root fun _ => p.root) with host := p.host }) m

end Renderer

end ConcurrentRender
