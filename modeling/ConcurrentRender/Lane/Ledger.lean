import ConcurrentRender.Fault
import ConcurrentRender.Lane.Group

/-!
# The lanes of a root

A `LaneLedger` records, for one root, which lanes have work (`pending`), which of them
wait for data (`suspended`) and got it (`pinged`), which have waited too long
(`expired`), and which must be rendered together (`entangled` and `partners`).

* `LaneLedger.next` chooses the lanes to render. Work that is not idle goes first. In
  each of the two categories, lanes that do not wait go before lanes that were pinged.
* `LaneLedger.markStarved` gives each lane a deadline and expires the lanes past theirs.
* `LaneLedger.withPartners` adds to a set of lanes everything entangled with it.
-/

namespace ConcurrentRender

/-- How long, in milliseconds, a lane may wait. -/
structure Timeouts where
  /-- For the sync and the input lane. -/
  sync : Nat := 250
  /-- For the default lane and the transition lanes. -/
  transition : Nat := 5000
deriving DecidableEq, Inhabited

/-- The first number that is no point in time: the clock has 64 bits. -/
def clockEnd : Nat := UInt64.size

namespace Timeouts

/-- How long work on these lanes may wait. Retries, idle, offscreen and deferred work
waits without end. -/
def timeout? (t : Timeouts) (lanes : LaneSet) : Option Nat :=
  if lanes.meets (LaneSet.syncLane ∪ LaneSet.inputLane) then some t.sync
  else if lanes.meets (LaneSet.defaultLane ∪ LaneSet.transitions) then some t.transition
  else none

/-- When work scheduled now has waited too long. The clock must be able to show it. -/
def deadline? (t : Timeouts) (lanes : LaneSet) (now : Nat) : Except Fault (Option Nat) :=
  match t.timeout? lanes with
  | none => .ok none
  | some ms => if now + ms < clockEnd then .ok (some (now + ms)) else .error .clockOverflow

end Timeouts

/-- What a root knows about its lanes. -/
structure LaneLedger where
  pending : LaneSet := ∅
  suspended : LaneSet := ∅
  /-- The suspended lanes whose data arrived. -/
  pinged : LaneSet := ∅
  expired : LaneSet := ∅
  entangled : LaneSet := ∅
  /-- For each lane, the lanes to render whenever it is rendered. -/
  partners : Vector LaneSet 31 := Vector.replicate 31 ∅
  /-- For each lane, when it has waited too long. -/
  deadlines : Vector (Option Nat) 31 := Vector.replicate 31 none
deriving DecidableEq, Inhabited

namespace LaneLedger

/-- Records an update. Unless it is idle work, it may unblock what waits, so nothing
counts as waiting any more. -/
def markUpdated (g : LaneLedger) (lanes : LaneSet) : LaneLedger :=
  let g := { g with pending := g.pending ∪ lanes }
  if lanes == LaneSet.idleLane then g else { g with suspended := ∅, pinged := ∅ }

/-- The rows of a table with those of `lanes` set to `value`. -/
def fill {α : Type} (rows : Vector α 31) (lanes : LaneSet) (value : α) : Vector α 31 :=
  Vector.ofFn fun l => if lanes.contains l then value else rows.get l

/-- Records that the lanes wait for data. A waiting lane has no deadline. -/
def markSuspended (g : LaneLedger) (lanes : LaneSet) : LaneLedger :=
  { g with
    suspended := g.suspended ∪ lanes
    pinged := g.pinged \ lanes
    deadlines := fill g.deadlines lanes none }

/-- Records that data arrived. Only lanes that wait can be pinged. -/
def markPinged (g : LaneLedger) (lanes : LaneSet) : LaneLedger :=
  { g with pinged := g.pinged ∪ (g.suspended ∩ lanes) }

/-- Makes the lanes partners of each other and of everything entangled with one of
them. -/
def markEntangled (g : LaneLedger) (lanes : LaneSet) : LaneLedger :=
  let all := g.entangled ∪ lanes
  { g with
    entangled := all
    partners := Vector.ofFn fun l =>
      let row := g.partners.get l
      if all.contains l && (lanes.contains l || row.meets lanes) then row ∪ lanes else row }

def withPartners (g : LaneLedger) (lanes : LaneSet) : LaneSet :=
  (lanes ∩ g.entangled).members.foldl (fun s l => s ∪ g.partners.get l) lanes

/-- The lanes to render next, any render in progress aside. -/
def choose (g : LaneLedger) : LaneSet :=
  let urgent := g.pending ∩ LaneSet.nonIdle
  if g.pending.isEmpty then ∅
  else if !urgent.isEmpty then
    let unblocked := urgent \ g.suspended
    if unblocked.isEmpty then (urgent ∩ g.pinged).batch else unblocked.batch
  else
    let unblocked := g.pending \ g.suspended
    if unblocked.isEmpty then g.pinged.batch else unblocked.batch

/-- Whether a render on `lanes` goes on although `next` was chosen. It does unless it
waits for data or `next` is more urgent. Default work does not interrupt a transition. -/
def keeps (g : LaneLedger) (lanes next : LaneSet) : Bool :=
  !lanes.isEmpty && lanes != next && !lanes.meets g.suspended &&
    (decide (lanes.first.toNat ≤ next.first.toNat) ||
      (next.first == LaneSet.defaultLane && lanes.first.meets LaneSet.transitions))

/-- The lanes to render next while a render on `rendering` is in progress, which may be
no lanes. -/
def next (g : LaneLedger) (rendering : LaneSet) : LaneSet :=
  let chosen := g.choose
  if chosen.isEmpty then ∅ else if g.keeps rendering chosen then rendering else chosen

/-- One lane of the starvation check. A lane without deadline gets one unless it waits
for data, and a lane past its deadline expires. -/
def markStarvedLane (g : LaneLedger) (now : Nat) (t : Timeouts) (l : Lane) :
    Except Fault LaneLedger :=
  match g.deadlines.get l with
  | none =>
    if !g.suspended.contains l || g.pinged.contains l then
      (t.deadline? (LaneSet.single l) now).map fun d =>
        { g with deadlines := g.deadlines.set l d }
    else .ok g
  | some deadline =>
    if deadline ≤ now then .ok { g with expired := g.expired ∪ LaneSet.single l } else .ok g

/-- The check of several lanes in turn. It stops at a deadline that the clock cannot
show, and keeps what was done before. -/
def markStarvedLanes (now : Nat) (t : Timeouts) :
    List Lane → LaneLedger → LaneLedger × Option Fault
  | [], g => (g, none)
  | l :: rest, g =>
    match g.markStarvedLane now t l with
    | .ok g => markStarvedLanes now t rest g
    | .error e => (g, some e)

/-- Gives deadlines to pending lanes and expires those past theirs. Retries are never
starved. -/
def markStarved (g : LaneLedger) (now : Nat) (t : Timeouts) : LaneLedger × Option Fault :=
  markStarvedLanes now t (g.pending \ LaneSet.retries).members g

def includesExpired (g : LaneLedger) (lanes : LaneSet) : Bool := lanes.meets g.expired

def deadlineOf? (g : LaneLedger) (lanes : LaneSet) : Option Nat :=
  lanes.first?.bind fun l => g.deadlines.get l

/-- The lanes that are rendered together with others, each with all of these. -/
def partnersByLane (g : LaneLedger) : List (Lane × LaneSet) :=
  ((List.finRange 31).map fun l => (l, g.withPartners (LaneSet.single l))).filter
    fun p => p.2 != LaneSet.single p.1

def deadlinesByLane (g : LaneLedger) : List (Lane × Nat) :=
  (List.finRange 31).filterMap fun l => (g.deadlines.get l).map fun t => (l, t)

/-- The lanes that a commit finishes when it leaves `remaining`. -/
def finishedBy (g : LaneLedger) (remaining : LaneSet) : LaneSet := g.pending \ remaining

/-- Records a commit that leaves `remaining` to do. Finished lanes lose their partners
and deadlines. -/
def markFinished (g : LaneLedger) (remaining : LaneSet) : LaneLedger :=
  let done := g.finishedBy remaining
  { pending := remaining
    suspended := ∅
    pinged := ∅
    expired := g.expired ∩ remaining
    entangled := g.entangled ∩ remaining
    partners := fill g.partners done ∅
    deadlines := fill g.deadlines done none }

end LaneLedger

end ConcurrentRender
