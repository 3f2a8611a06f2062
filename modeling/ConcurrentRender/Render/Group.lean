import ConcurrentRender.Render.State

/-!
# Renderers that share contexts

Renderers in one process share their contexts and their caches. A `RendererGroup` keeps
what is shared in one place, hands it to the renderer that runs an operation, and takes it
back afterwards.
-/

namespace ConcurrentRender

structure RendererGroup where
  registry : ContextRegistry := .start
  caches : Arena .cache Cache := {}
  renderers : Arena .renderer Renderer := {}

namespace RendererGroup

def add (g : RendererGroup) (settings : Settings) : Except SettingsError RendererGroup :=
  (Renderer.start settings g.registry).map fun r =>
    { g with renderers := g.renderers.add r }

/-- A group with one renderer for each settings value. The values are read and checked one
after the other, so the first one at fault gives the error. -/
def ofJson (settings : List Json) : Except SettingsError RendererGroup :=
  settings.foldlM (fun g json => (Settings.ofJson? json).elim (.error .malformed) g.add) {}

/-- A renderer together with what it shares. -/
def get (g : RendererGroup) (i : Id .renderer) : Renderer :=
  let r := g.renderers.get i
  { r with
    contexts := { r.contexts with registry := g.registry }
    host := { r.host with caches := g.caches } }

def put (g : RendererGroup) (i : Id .renderer) (r : Renderer) : RendererGroup where
  registry := r.contexts.registry
  caches := r.host.caches
  renderers := g.renderers.modify i fun _ => r

/-- Takes what the async actions of all renderers have let happen. -/
def takeEvents (g : RendererGroup) : List ActionEvent × RendererGroup :=
  let emptied (r : Renderer) : Renderer := { r with actions := { r.actions with log := [] } }
  (g.renderers.items.toList.flatMap (·.actions.log),
    { g with renderers := { items := g.renderers.items.map emptied } })

def on {α : Type} (i : Id .renderer) (m : StepM Renderer α) : StepM RendererGroup α :=
  StepM.focus (fun g => g.get i) (fun r g => g.put i r) m

end RendererGroup

end ConcurrentRender
