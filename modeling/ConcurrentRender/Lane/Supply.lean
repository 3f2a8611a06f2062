import ConcurrentRender.Lane.Group

/-!
# Choosing the lane of a new update

`LaneSupply.pick` chooses the lane of an update from the circumstances in which it is
requested (`Request`). The rules, the first that applies winning:

* a fiber outside a concurrent tree is always synchronous;
* a retry takes the next retry lane, in turn;
* an update made during a render joins that render;
* an update inside a transition takes the lane of the event's transitions;
* every other update takes the lane of its priority.

All transitions of one event share a lane. The first of them takes the lane of the
async actions in progress, or else the next transition lane in turn.
-/

namespace ConcurrentRender

/-- How pressing the host event is that led to an update. -/
inductive EventPriority where
  | discrete
  | continuous
  | default
  | idle
deriving DecidableEq, Inhabited

namespace EventPriority

def text : EventPriority → String
  | discrete => "discrete"
  | continuous => "continuous"
  | default => "default"
  | idle => "idle"

def ofText? (s : String) : Option EventPriority :=
  [discrete, continuous, default, idle].find? fun p => p.text == s

theorem ofText?_text (p : EventPriority) : ofText? p.text = some p := by
  cases p <;> rfl

def lane : EventPriority → LaneSet
  | discrete => LaneSet.syncLane
  | continuous => LaneSet.inputLane
  | default => LaneSet.defaultLane
  | idle => LaneSet.idleLane

/-- The priority that the most urgent lane of the set stands for. The empty set counts
as discrete. -/
def ofLanes (s : LaneSet) : EventPriority :=
  if s.first.toNat ≤ LaneSet.syncLane.toNat then discrete
  else if s.first.toNat ≤ LaneSet.inputLane.toNat then continuous
  else if s.first.meets LaneSet.nonIdle then default
  else idle

end EventPriority

/-- The circumstances of an update that needs a lane. -/
structure Request where
  concurrent : Bool := false
  /-- The lanes being rendered, if a render is in progress. -/
  renderLanes : Option LaneSet := none
  inTransition : Bool := false
  /-- The update retries a boundary that waits for data. -/
  retry : Bool := false
  /-- A priority set for this update alone. It overrides the event's. -/
  updatePriority : Option EventPriority := none
  eventPriority : EventPriority := .default
  /-- The lane of the async actions in progress, empty without any. -/
  actionLane : LaneSet := ∅

structure LaneSupply where
  nextTransition : LaneSet := LaneSet.firstTransition
  nextRetry : LaneSet := LaneSet.firstRetry
  /-- The lane that the transitions of the current event share, empty before the first. -/
  eventTransition : LaneSet := ∅
deriving DecidableEq, Inhabited

namespace LaneSupply

/-- The lane after `lane` in the group, which starts over at `start`. -/
def after (lane group start : LaneSet) : LaneSet :=
  let next := LaneSet.ofNat (lane.toNat * 2)
  if next.meets group then next else start

def takeTransition (p : LaneSupply) : LaneSet × LaneSupply :=
  (p.nextTransition,
    { p with nextTransition :=
        after p.nextTransition LaneSet.transitions LaneSet.firstTransition })

def takeRetry (p : LaneSupply) : LaneSet × LaneSupply :=
  (p.nextRetry, { p with nextRetry := after p.nextRetry LaneSet.retries LaneSet.firstRetry })

/-- The lane shared by the transitions of the current event. `actionLane` is the lane of
the async actions in progress. -/
def eventLane (p : LaneSupply) (actionLane : LaneSet) : LaneSet × LaneSupply :=
  if !p.eventTransition.isEmpty then (p.eventTransition, p)
  else if actionLane.isEmpty then
    let (lane, p) := p.takeTransition
    (lane, { p with eventTransition := lane })
  else (actionLane, { p with eventTransition := actionLane })

def pick (p : LaneSupply) (r : Request) : LaneSet × LaneSupply :=
  let rendering := r.renderLanes.getD ∅
  if !r.concurrent then (LaneSet.syncLane, p)
  else if r.retry then p.takeRetry
  else if !rendering.isEmpty then (rendering.first, p)
  else if r.inTransition then p.eventLane r.actionLane
  else ((r.updatePriority.getD r.eventPriority).lane, p)

/-- The event is over: its transitions no longer share a lane with later ones. -/
def endEvent (p : LaneSupply) : LaneSupply := { p with eventTransition := ∅ }

end LaneSupply

end ConcurrentRender
