import ConcurrentRender.Staging.Guard
import ConcurrentRender.Tree.Boundary

/-!
# Making a lane known up to the root

A render descends only where a fiber says that there is work below. So a lane scheduled
on a fiber is added to the lanes of the fiber and to the child lanes of every fiber above
it, on both twins each (`Tree.raise`).

* `Tree.markPath` does so, finds out what is at the top, and puts the update aside if it
  was made below a hidden boundary.
* `Tree.findRoot?` finds the root without changing anything.
-/

namespace ConcurrentRender

/-- What is at the top of the way up from a fiber. -/
inductive Summit where
  | root (root : RootId)
  | detached (top : FiberId)
  /-- The top of a part that was never put into a tree. -/
  | loose (top : FiberId)
deriving DecidableEq

namespace Tree

def summit (t : Tree) (source : FiberId) : Summit :=
  let top := t.top source
  match t.rootOf? top with
  | some r => .root r
  | none => if (t.fiber top).flags.detached then .detached top else .loose top

def hiddenBoundaryOf? (t : Tree) (f : FiberId) : Option BoundaryId :=
  (t.boundaryOf? f).filter fun b => !(t.boundary b).visible

def hiddenAbove? (t : Tree) (source : FiberId) : Option BoundaryId :=
  (t.ancestors source).findSome? t.hiddenBoundaryOf?

/-- Adds the lane to `source` and to the child lanes of the fibers above, on both twins
each. -/
def raise (t : Tree) (source : FiberId) (lane : LaneSet) : Tree :=
  (t.ancestors source).foldl (fun t f => t.addChildLanes f lane) (t.addLanes source lane)

/-- Puts the update aside on the nearest hidden boundary above `source`, if there is an
update and such a boundary. -/
def parkBelow (t : Tree) (source : FiberId) (update : Option UpdateId) (lane : LaneSet) : Tree :=
  match t.hiddenAbove? source, update with
  | some b, some u => t.park b u lane
  | _, _ => t

/-- Makes a lane known up to the root, which is the answer. There is none for a fiber of
a removed part of the tree. -/
def markPath (source : FiberId) (update : Option UpdateId) (lane : LaneSet) :
    StepM Tree (Option RootId) := fun t =>
  let raised := t.raise source lane
  match t.summit source with
  | .root r => { state := raised.parkBelow source update lane, result := .ok (some r) }
  | .detached _ => { state := raised, result := .ok none, notices := [.laneDropped] }
  | .loose top => { state := raised, result := .error (.notAttachedToRoot source top) }

/-- The root above the fiber, if the way up leads to one. -/
def findRoot? (t : Tree) (source : FiberId) : Option RootId := t.rootOf? (t.top source)

/-- Whether an update of the fiber will not be rendered: the fiber is not committed yet,
or was removed. -/
def notMounted (t : Tree) (f : FiberId) : Bool :=
  let x := t.fiber f
  (x.twin.isNone && x.flags.placement) || x.flags.detached

/-- What is reported when an update of the fiber is scheduled. -/
def mountNotices (t : Tree) (f : FiberId) (diagnostics : Bool) : List Notice :=
  if diagnostics && t.notMounted f then [.updateNotMounted] else []

end Tree

end ConcurrentRender
