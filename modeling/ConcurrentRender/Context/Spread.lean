import ConcurrentRender.Context.Registry
import ConcurrentRender.Step
import ConcurrentRender.Tree.Basic

/-!
# Spreading context changes

When a provider has a new value, the fibers below it that read the context must be
rendered, even if nothing between them and the provider changed. `Tree.spread` finds these
readers and schedules them (`Tree.scheduleReader`). There are two ways.

* A lazy spread stops at the first reader on each way down. That reader will be rendered,
  and the change is found below it when the render gets there.
* A forced spread goes on below readers. It is for parts of the tree that a render may not
  reach soon.

Below a dehydrated fragment the readers are unknown, so the fiber that holds the fragment
is scheduled.

`Tree.spreadFromAbove` starts from a fiber that is not rendered itself. It collects the
changes on the way up (`Tree.changedAbove`), up to a fiber from where all changes were
spread already, and marks the fiber so that the next such walk can stop there.
-/

namespace ConcurrentRender

/-- The fibers of a path up to and including `stop`, or all of them without it. -/
def upTo (stop : FiberId) : List FiberId → List FiberId
  | [] => []
  | f :: rest => if f = stop then [f] else f :: upTo stop rest

namespace Tree

/-- Adds lanes to the child lanes of `parent` and the fibers above it, up to `stop`, on
both twins each. -/
def schedulePath (t : Tree) (parent : Option FiberId) (lanes : LaneSet) (stop : FiberId) : Tree :=
  match parent with
  | none => t
  | some p => (upTo stop (p :: t.ancestors p)).foldl (fun t f => t.addChildLanes f lanes) t

/-- Schedules a fiber that read a changed context. -/
def scheduleReader (t : Tree) (f : FiberId) (lanes : LaneSet) (stop : FiberId) : Tree :=
  let t := t.addLanes f lanes
  let t := t.setFiber f fun x =>
    { x with dependencies := x.dependencies.map fun d => { d with lanes := d.lanes ∪ lanes } }
  t.schedulePath (t.fiber f).parent lanes stop

/-- Schedules the fiber that holds a dehydrated fragment. -/
def scheduleHolder (t : Tree) (fragment : FiberId) (lanes : LaneSet) (stop : FiberId) : Tree :=
  match (t.fiber fragment).parent with
  | none => t
  | some holder => (t.addLanes holder lanes).schedulePath (some holder) lanes stop

structure Search where
  start : FiberId
  contexts : List ContextId
  lanes : LaneSet
  forced : Bool

/-- Looks at one fiber. Answers the child to look at next, if the search goes on below. -/
def visit (t : Tree) (s : Search) (f : FiberId) : Option FiberId × Tree :=
  let x := t.fiber f
  match x.readsAny? s.contexts with
  | some true =>
    (if s.forced then x.child else none, t.scheduleReader f s.lanes s.start)
  | some false => (x.child, t)
  | none =>
    if x.tag = .dehydratedFragment then (none, t.scheduleHolder f s.lanes s.start)
    else (x.child, t)

/-- Where the search goes on when everything below `f` is done: the nearest fiber on the
way up, before `stop`, that has a sibling, and that sibling. -/
def afterSubtree? (t : Tree) (f stop : FiberId) : Option (FiberId × FiberId) :=
  ((f :: t.ancestors f).takeWhile fun g => g != stop).findSome? fun g =>
    (t.fiber g).sibling.map fun s => (g, s)

/-- Makes `parent` the parent of `f`. The children of a fiber may still point to its
twin. -/
def setParent (t : Tree) (f : FiberId) (parent : Option FiberId) : Tree :=
  t.setFiber f fun x => { x with parent }

/-- Looks at `f`, at everything below, and at what follows, as far as `fuel` fibers. -/
def search (s : Search) : Nat → FiberId → Tree → Tree
  | 0, _, t => t
  | fuel + 1, f, t =>
    match t.visit s f with
    | (some child, t) => search s fuel child (t.setParent child (some f))
    | (none, t) =>
      match t.afterSubtree? f s.start with
      | none => t
      | some (g, sibling) => search s fuel sibling (t.setParent sibling (t.fiber g).parent)

/-- Schedules the readers of the contexts below a fiber. In a tree each fiber is looked at
once. The number of steps leaves room for fibers that can be reached in several ways. -/
def spread (t : Tree) (s : Search) : Tree :=
  match (t.fiber s.start).child with
  | none => t
  | some first => search s (Nat.pow 2 t.fibers.size) first (t.setParent first (some s.start))

/-! ## Changes above a fiber -/

/-- The context that has a new value at `f`, if `f` is a provider. -/
def changedAt (t : Tree) (f : FiberId) : Except Fault (List ContextId) :=
  let x := t.fiber f
  match x.tag with
  | .contextProvider context =>
    match x.twin with
    | none => .error (.missingCurrentFiber f)
    | some committed =>
      match (t.fiber committed).committedValue, x.pendingValue with
      | some before, some after => .ok (if after = before then [] else [context])
      | _, _ => .ok []
  | .hostTransitionProvider =>
    match x.twin with
    | none => .error (.missingCurrentFiber f)
    | some committed =>
      .ok (if (t.fiber committed).state = x.state then [] else [hostTransitionContext])
  | _ => .ok []

/-- The contexts with a new value at the fibers of a path. The walk ends at a fiber from
where all changes were spread, but not once it passed a fiber at which a lazy spread may
have stopped. -/
def changedAlong (t : Tree) : Bool → List FiberId → Except Fault (List ContextId)
  | _, [] => .ok []
  | passedReader, f :: rest =>
    let flags := (t.fiber f).flags
    if !passedReader && !flags.needsPropagation && flags.didPropagate then .ok []
    else do
      let here ← t.changedAt f
      let more ← t.changedAlong (passedReader || flags.needsPropagation) rest
      return here ++ more

/-- The contexts with a new value at `f` or above. -/
def changedAbove (t : Tree) (f : FiberId) : Except Fault (List ContextId) :=
  t.changedAlong false (f :: t.ancestors f)

/-- Spreads the changes at `f` and above to the readers below `f`. -/
def spreadFromAbove (f : FiberId) (lanes : LaneSet) (forced : Bool) : StepM Tree Unit := do
  let contexts ← fun t => { state := t, result := t.changedAbove f }
  StepM.change fun t =>
    let t := if contexts.isEmpty then t else t.spread { start := f, contexts, lanes, forced }
    t.setFiber f fun x => { x with flags := { x.flags with didPropagate := true } }

/-- Spreads the change of one context, and goes on below readers. -/
def spreadOne (t : Tree) (f : FiberId) (context : ContextId) (lanes : LaneSet) : Tree :=
  t.spread { start := f, contexts := [context], lanes, forced := true }

end Tree

end ConcurrentRender
