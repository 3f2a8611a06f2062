import ConcurrentRender.Tree.Basic

/-!
# Hidden parts of the tree

An update made below a hidden boundary is put aside there (`Tree.park`): it carries the
offscreen lane besides its own, so that renders skip it. When the boundary is revealed,
the updates made on the lanes being rendered get their own lanes back (`Tree.reveal`).
-/

namespace ConcurrentRender

namespace Tree

/-- Makes the fiber, and its twin, stand for a new boundary. -/
def createBoundary (t : Tree) (f : FiberId) (visible : Bool) : BoundaryId × Tree :=
  let b := t.boundaries.next
  let t := { t with boundaries := t.boundaries.add { visible } }
  (b, t.setTwins f fun x => { x with inst := some (.boundary b) })

/-- Shows or hides a boundary. What was put aside stays there. -/
def setVisible (t : Tree) (b : BoundaryId) (visible : Bool) : Tree :=
  t.setBoundary b fun x => { x with visible }

/-- Puts aside an update made on the given lanes. -/
def park (t : Tree) (b : BoundaryId) (u : UpdateId) (lanes : LaneSet) : Tree :=
  let t := t.setBoundary b fun x => { x with parked := x.parked ++ [(lanes, u)] }
  t.setUpdate u fun x => { x with lane := lanes ∪ LaneSet.offscreenLane }

/-- Whether an update made on `made` comes back when `lanes` are revealed: it was made on
one of them. -/
def comesBack (lanes made : LaneSet) : Bool :=
  lanes.members.any fun l => made == LaneSet.single l

/-- Shows a boundary, and answers the updates that come back: those made on one of the
lanes, most urgent lane first, and of one lane in the order of putting aside. -/
def reveal (t : Tree) (b : BoundaryId) (lanes : LaneSet) : List UpdateId × Tree :=
  let x := t.boundary b
  let back := lanes.members.flatMap fun l => x.parkedOn (LaneSet.single l)
  let t := t.setBoundary b fun x =>
    { x with visible := true, parked := x.parked.filter fun p => !comesBack lanes p.1 }
  let t := back.foldl
    (fun t u => t.setUpdate u fun y => { y with lane := y.lane \ LaneSet.offscreenLane }) t
  (back, t)

end Tree

end ConcurrentRender
