import ConcurrentRender.Tree.Fiber

/-!
# The tree and its links

A `Tree` keeps all fibers, roots, queues, updates and boundaries of a renderer. Fibers
refer to each other by identifier: `child` and `sibling` lead down and along, `parent`
leads up, and `twin` leads to the other fiber of the same component.

* `Tree.ancestors` lists the fibers above one, and `Tree.children` those right below.
* `Tree.appendChild`, `Tree.startTwin` and `Tree.detach` change links.
-/

namespace ConcurrentRender

structure Tree where
  fibers : Arena .fiber Fiber := {}
  roots : Arena .root Root := {}
  queues : Arena .queue UpdateQueue := {}
  updates : Arena .update Update := {}
  boundaries : Arena .boundary Boundary := {}

namespace Tree

instance : Inhabited Tree := ⟨{}⟩

def fiber (t : Tree) (f : FiberId) : Fiber := t.fibers.get f

def root (t : Tree) (r : RootId) : Root := t.roots.get r

def queue (t : Tree) (q : QueueId) : UpdateQueue := t.queues.get q

def update (t : Tree) (u : UpdateId) : Update := t.updates.get u

def boundary (t : Tree) (b : BoundaryId) : Boundary := t.boundaries.get b

def setFiber (t : Tree) (f : FiberId) (g : Fiber → Fiber) : Tree :=
  { t with fibers := t.fibers.modify f g }

def setRoot (t : Tree) (r : RootId) (g : Root → Root) : Tree :=
  { t with roots := t.roots.modify r g }

def setQueue (t : Tree) (q : QueueId) (g : UpdateQueue → UpdateQueue) : Tree :=
  { t with queues := t.queues.modify q g }

def setUpdate (t : Tree) (u : UpdateId) (g : Update → Update) : Tree :=
  { t with updates := t.updates.modify u g }

def setBoundary (t : Tree) (b : BoundaryId) (g : Boundary → Boundary) : Tree :=
  { t with boundaries := t.boundaries.modify b g }

def setTwins (t : Tree) (f : FiberId) (g : Fiber → Fiber) : Tree :=
  let twin := (t.fiber f).twin
  let t := t.setFiber f g
  match twin with
  | none => t
  | some w => t.setFiber w g

/-- Changes what the tree records about the lanes of a root. -/
def setRootLanes (t : Tree) (r : RootId) (g : LaneLedger → LaneLedger) : Tree :=
  t.setRoot r fun x => { x with lanes := g x.lanes }

/-! ## Walking along links

A walk ends where a link is missing. In a tree of `n` fibers no chain of links without a
repetition is longer than `n`, so that many steps are enough. -/

/-- The fibers above `f`, nearest first, at most `fuel` of them. -/
def climb (t : Tree) : Nat → FiberId → List FiberId
  | 0, _ => []
  | fuel + 1, f =>
    match (t.fiber f).parent with
    | none => []
    | some p => p :: t.climb fuel p

def ancestors (t : Tree) (f : FiberId) : List FiberId := t.climb t.fibers.size f

/-- The last fiber on the way up from `f`, which is `f` itself if nothing is above. -/
def top (t : Tree) (f : FiberId) : FiberId := (t.ancestors f).getLastD f

/-- The siblings from the given one on, at most `fuel` of them. -/
def siblingsFrom (t : Tree) : Nat → Option FiberId → List FiberId
  | _, none => []
  | 0, some _ => []
  | fuel + 1, some f => f :: t.siblingsFrom fuel (t.fiber f).sibling

def children (t : Tree) (p : FiberId) : List FiberId :=
  t.siblingsFrom t.fibers.size (t.fiber p).child

/-! ## Building -/

def createFiber (t : Tree) (tag : Tag) (concurrent : Bool) : FiberId × Tree :=
  (t.fibers.next, { t with fibers := t.fibers.add { tag, concurrent } })

def createRoot (t : Tree) (concurrent : Bool) : (RootId × FiberId) × Tree :=
  let (f, t) := t.createFiber .hostRoot concurrent
  let r := t.roots.next
  let t := t.setFiber f fun x => { x with inst := some (.root r) }
  ((r, f), { t with roots := t.roots.add { current := f } })

/-- Links `child` below `parent`, after the children that are there. -/
def appendChild (t : Tree) (parent child : FiberId) : Tree :=
  let t := t.setFiber child fun x => { x with parent := some parent, sibling := none }
  match (t.children parent).getLast? with
  | none => t.setFiber parent fun x => { x with child := some child }
  | some last => t.setFiber last fun x => { x with sibling := some child }

/-- Adds a fiber as last child of `parent`. It is concurrent if the parent is. -/
def createChild (t : Tree) (parent : FiberId) (tag : Tag) : FiberId × Tree :=
  let (f, t) := t.createFiber tag (t.fiber parent).concurrent
  (f, t.appendChild parent f)

/-- The twin of `f`, added if there is none. -/
def ensureTwin (t : Tree) (f : FiberId) : FiberId × Tree :=
  let x := t.fiber f
  match x.twin with
  | some w => (w, t)
  | none =>
    let (w, t) := t.createFiber x.tag x.concurrent
    let t := t.setFiber w fun y => { y with twin := some f }
    (w, t.setFiber f fun y => { y with twin := some w })

/-- Starts to render `current` anew on its twin. The twin takes over everything but the
marks, and provides `pendingValue`, if anything. -/
def startTwin (t : Tree) (current : FiberId) (pendingValue : Option Value) : FiberId × Tree :=
  let source := t.fiber current
  let (w, t) := t.ensureTwin current
  let t := t.setFiber w fun y =>
    { y with
      flags := {}
      lanes := source.lanes
      childLanes := source.childLanes
      parent := source.parent
      child := source.child
      sibling := source.sibling
      dependencies := source.dependencies
      committedValue := source.committedValue
      state := source.state
      pendingValue
      queue := source.queue
      inst := source.inst }
  (w, t)

/-- Takes `child` out of the list of children of `parent`, if it is in it. -/
def unlinkChild (t : Tree) (parent child : FiberId) : Tree :=
  let next := (t.fiber child).sibling
  if (t.fiber parent).child = some child then
    t.setFiber parent fun x => { x with child := next }
  else
    match (t.children parent).find? fun f => (t.fiber f).sibling == some child with
    | none => t
    | some before => t.setFiber before fun x => { x with sibling := next }

/-- Takes one fiber out of its parent's children and marks it as removed. -/
def detachOne (t : Tree) (f : FiberId) : Tree :=
  let t := match (t.fiber f).parent with
    | none => t
    | some p => t.unlinkChild p f
  t.setFiber f fun x =>
    { x with parent := none, sibling := none, flags := { x.flags with detached := true } }

def detach (t : Tree) (f : FiberId) : Tree :=
  let twin := (t.fiber f).twin
  let t := t.detachOne f
  match twin with
  | none => t
  | some w => t.detachOne w

/-! ## Lanes, roots and boundaries of fibers -/

def addLanes (t : Tree) (f : FiberId) (lanes : LaneSet) : Tree :=
  t.setTwins f fun x => { x with lanes := x.lanes ∪ lanes }

/-- Adds lanes to the work below a fiber and its twin. -/
def addChildLanes (t : Tree) (f : FiberId) (lanes : LaneSet) : Tree :=
  t.setTwins f fun x => { x with childLanes := x.childLanes ∪ lanes }

/-- The updates of the fiber itself are done. -/
def clearLanes (t : Tree) (f : FiberId) : Tree := t.setFiber f fun x => { x with lanes := ∅ }

def rootOf? (t : Tree) (f : FiberId) : Option RootId :=
  match (t.fiber f).tag, (t.fiber f).inst with
  | .hostRoot, some (.root r) => some r
  | _, _ => none

def boundaryOf? (t : Tree) (f : FiberId) : Option BoundaryId :=
  match (t.fiber f).tag, (t.fiber f).inst with
  | .offscreen, some (.boundary b) => some b
  | _, _ => none

end Tree

end ConcurrentRender
