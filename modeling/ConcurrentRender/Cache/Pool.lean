import ConcurrentRender.Cache.Basic

/-!
# The pooled cache of a root

Boundaries that are mounted by renders of one root share a cache until a commit. The root
retains this pooled cache for the lanes of the render that asked for it first, and
releases it when none of those lanes is left to do.
-/

namespace ConcurrentRender

structure Pool where
  root : Root
  host : CacheHost

namespace Pool

/-- The pooled cache. Without one, a new cache is pooled for the given lanes. -/
def request (lanes : LaneSet) : StepM Pool CacheId := do
  match ← StepM.look (·.root.pooledCache) with
  | some c => return c
  | none =>
    let c ← StepM.take fun p =>
      let (c, host) := p.host.create
      (c, { p with host })
    StepM.focus (·.host) (fun host p => { p with host }) (CacheHost.retain c)
    StepM.change fun p =>
      { p with
        root :=
          { p.root with
            pooledCache := some c
            pooledCacheLanes := p.root.pooledCacheLanes ∪ lanes } }
    return c

/-- Records that only `remaining` is left to do. -/
def release (remaining : LaneSet) (priority : TaskPriority) : StepM Pool Unit := do
  StepM.change fun p =>
    { p with
      root := { p.root with pooledCacheLanes := p.root.pooledCacheLanes ∩ remaining } }
  let root ← StepM.look (·.root)
  match root.pooledCacheLanes.isEmpty, root.pooledCache with
  | true, some c =>
    StepM.change fun p => { p with root := { p.root with pooledCache := none } }
    StepM.focus (·.host) (fun host p => { p with host }) (CacheHost.release c priority)
  | _, _ => pure ()

end Pool

end ConcurrentRender
