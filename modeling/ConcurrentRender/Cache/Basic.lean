import ConcurrentRender.Step
import ConcurrentRender.Task.Queue
import ConcurrentRender.Tree.Fiber

/-!
# Caches

A `Cache` remembers what was made for a part of the tree, and is used by whoever retains
it. When the last user releases it, a task is scheduled that aborts it: work still under
way for the cache can then be given up. There is at most one such task for a cache, and a
cache that was aborted stays so.

The users are counted in a machine word. Its count starts again from 0 after `2 ^ 32` users.

A `CacheHost` keeps the caches and the tasks that wait to abort some of them.
-/

namespace ConcurrentRender

/-- A switch that can be thrown once. -/
structure AbortController where
  aborted : Bool := false
deriving DecidableEq, Inhabited

/-- Throws the switch. Answers whether it was not thrown before. -/
def AbortController.abort (c : AbortController) : Bool × AbortController :=
  (!c.aborted, { aborted := true })

structure Cache where
  /-- How many users there are, as far as a word can tell. -/
  refs : UInt32 := 0
  /-- What was made, by the name of its constructor. -/
  entries : List (String × Payload) := []
  controller : AbortController := {}
  abortScheduled : Bool := false
deriving DecidableEq, Inhabited

namespace Cache

def aborted (c : Cache) : Bool := c.controller.aborted

/-- What the constructor of this name made, and whether it has to run now for that. Then
it makes `fresh`. -/
def resource (c : Cache) (constructor : String) (fresh : Payload) : Payload × Bool × Cache :=
  match c.entries.lookup constructor with
  | some made => (made, false, c)
  | none => (fresh, true, { c with entries := c.entries ++ [(constructor, fresh)] })

def describe (c : Cache) : String :=
  "Cache \x7b ref_count: " ++ toString c.refs ++ ", entries: " ++ toString c.entries.length
    ++ ", aborted: " ++ toString c.aborted ++ " \x7d"

end Cache

/-- What tells the work for a cache, or under a switch of its own, to give up. -/
inductive AbortSignal where
  | cache (cache : CacheId)
  | controller (controller : Id .controller)
deriving DecidableEq

structure CacheHost where
  caches : Arena .cache Cache := {}
  /-- The switches that belong to no cache. -/
  controllers : Arena .controller AbortController := {}
  tasks : TaskQueue CacheId := {}

namespace CacheHost

instance : Inhabited CacheHost := ⟨{}⟩

def cache (h : CacheHost) (c : CacheId) : Cache := h.caches.get c

def setCache (h : CacheHost) (c : CacheId) (g : Cache → Cache) : CacheHost :=
  { h with caches := h.caches.modify c g }

def create (h : CacheHost) : CacheId × CacheHost :=
  (h.caches.next, { h with caches := h.caches.add {} })

/-- One more user. The count of users wraps around. It is a misuse to start using an aborted
cache. -/
def retain (c : CacheId) : StepM CacheHost Unit := fun h =>
  { state := h.setCache c fun x => { x with refs := x.refs + 1 }
    result := .ok ()
    notices := if (h.cache c).aborted then [.retainedFreedCache] else [] }

/-- One user less. The last one has the abort of the cache scheduled, unless it was
scheduled before. It is a misuse to release what nothing retains. -/
def release (c : CacheId) (priority : TaskPriority) : StepM CacheHost Unit := fun h =>
  let x := h.cache c
  if x.refs = 0 then
    { state := h, result := .ok (), notices := [.overReleasedCache] }
  else
    let last := x.refs == 1
    let h := h.setCache c fun x =>
      { x with refs := x.refs - 1, abortScheduled := x.abortScheduled || last }
    let schedules := last && !x.abortScheduled
    { state := if schedules then { h with tasks := h.tasks.schedule priority c } else h
      result := .ok () }

def createController (h : CacheHost) : Id .controller × CacheHost :=
  (h.controllers.next, { h with controllers := h.controllers.add {} })

def throwController (h : CacheHost) (c : Id .controller) : Bool × CacheHost :=
  ((h.controllers.get c).abort.1,
    { h with controllers := h.controllers.modify c fun x => x.abort.2 })

def aborted (h : CacheHost) : AbortSignal → Bool
  | .cache c => (h.cache c).aborted
  | .controller c => (h.controllers.get c).aborted

def abort (h : CacheHost) (c : CacheId) : CacheHost :=
  h.setCache c fun x => { x with controller := x.controller.abort.2 }

/-- Runs the most urgent task. Answers whether there was one. -/
def runNext (h : CacheHost) : Bool × CacheHost :=
  match h.tasks.takeNext with
  | none => (false, h)
  | some (t, tasks) => (true, { h with tasks }.abort t.job)

/-- Runs all tasks, which lead to no further ones. Answers how many there were. -/
def runAll (h : CacheHost) : Nat × CacheHost :=
  (h.tasks.size, (List.range h.tasks.size).foldl (fun h _ => h.runNext.2) h)

end CacheHost

end ConcurrentRender
