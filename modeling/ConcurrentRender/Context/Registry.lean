import ConcurrentRender.Context.Value
import ConcurrentRender.Settings.Basic

/-!
# Contexts

A context is a name for a value that providers hand down. Renderers that run in one
process share their contexts, so each context has two values in force, one for each slot,
and a renderer sees those of its own slot only.

Two contexts always exist: the status of the nearest form, and the nearest cache.
-/

namespace ConcurrentRender

structure Context where
  name : String
  /-- The value where no provider is above. -/
  default : Value
  primary : Value
  secondary : Value
deriving DecidableEq, Inhabited

namespace Context

def value (c : Context) : Slot → Value
  | .primary => c.primary
  | .secondary => c.secondary

def install (c : Context) (slot : Slot) (v : Value) : Context :=
  match slot with
  | .primary => { c with primary := v }
  | .secondary => { c with secondary := v }

end Context

structure ContextRegistry where
  contexts : Arena .context Context := {}
  /-- How many values that hold nothing were made. Each has a mark of its own. -/
  units : Nat := 0

def hostTransitionContext : ContextId := ⟨0⟩

def cacheContext : ContextId := ⟨1⟩

namespace ContextRegistry

/-- Makes a value that holds nothing and differs from all others. -/
def freshUnit (r : ContextRegistry) : Value × ContextRegistry :=
  (.unit r.units, { r with units := r.units + 1 })

def create (r : ContextRegistry) (name : String) (default : Value) : ContextId × ContextRegistry :=
  (r.contexts.next,
    { r with
      contexts := r.contexts.add { name, default, primary := default, secondary := default } })

/-- A registry with the contexts that always exist. -/
def start : ContextRegistry :=
  let (status, r) := freshUnit {}
  let (_, r) := r.create "HostTransition" status
  let (noCache, r) := r.freshUnit
  let (_, r) := r.create "Cache" noCache
  r

instance : Inhabited ContextRegistry := ⟨start⟩

def value? (r : ContextRegistry) (c : ContextId) (slot : Slot) : Option Value :=
  (r.contexts.get? c).map fun x => x.value slot

def install (r : ContextRegistry) (c : ContextId) (slot : Slot) (v : Value) : ContextRegistry :=
  { r with contexts := r.contexts.modify c fun x => x.install slot v }

/-- The value in force in a slot. Where there is no such context, a new value that holds
nothing stands in for it. -/
def valueOrUnit (r : ContextRegistry) (c : ContextId) (slot : Slot) : Value × ContextRegistry :=
  match r.value? c slot with
  | some v => (v, r)
  | none => r.freshUnit

end ContextRegistry

end ConcurrentRender
