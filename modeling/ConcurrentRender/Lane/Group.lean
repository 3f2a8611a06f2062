import ConcurrentRender.Lane.Set

/-!
# Named lanes and lane groups

The 31 lanes are laid out from urgent to idle work: synchronous, continuous input,
default, fourteen transition lanes, four retry lanes, idle, offscreen, deferred. The
seven lanes after those have no name and no meaning of their own.

`LaneSet.batch` says which lanes are worked on together: all transitions form one
batch, all retries form one batch, and every other lane stands alone.
-/

namespace ConcurrentRender

namespace LaneSet

def syncLane : LaneSet := single 0

def inputLane : LaneSet := single 1

def defaultLane : LaneSet := single 2

def firstTransition : LaneSet := single 3

/-- Lanes 3 to 16. Independent transitions take different ones. -/
def transitions : LaneSet := ofNat ((1 <<< 14 - 1) <<< 3)

def firstRetry : LaneSet := single 17

/-- Lanes 17 to 20. They retry a boundary that waits for data. -/
def retries : LaneSet := ofNat ((1 <<< 4 - 1) <<< 17)

def idleLane : LaneSet := single 21

/-- The mark of an update that waits on a hidden boundary. -/
def offscreenLane : LaneSet := single 22

def deferredLane : LaneSet := single 23

/-- The lanes that must not be cut into time slices: sync, input and default. -/
def blocking : LaneSet := syncLane ∪ inputLane ∪ defaultLane

def nonIdle : LaneSet := ofNat (1 <<< 21 - 1)

/-- The lanes of the set to work on together, chosen by its most urgent lane. Deferred
work belongs to other work and is never chosen on its own. -/
def batch (s : LaneSet) : LaneSet :=
  if s.first.meets transitions then s ∩ transitions
  else if s.first.meets retries then s ∩ retries
  else if s.first == deferredLane then ∅
  else s.first

theorem mem_of_mem_batch {l : Lane} {s : LaneSet} (h : l ∈ s.batch) : l ∈ s := by
  unfold batch at h
  split at h
  · exact (mem_inter.mp h).1
  · split at h
    · exact (mem_inter.mp h).1
    · split at h
      · exact absurd h (not_mem_empty l)
      · exact mem_of_mem_first h

def onlyRetries (s : LaneSet) : Bool := !s.isEmpty && (s \ retries).isEmpty

def onlyTransitions (s : LaneSet) : Bool := !s.isEmpty && (s \ transitions).isEmpty

/-- Without a blocking lane. The empty set counts. -/
def onlyNonUrgent (s : LaneSet) : Bool := !s.meets blocking

end LaneSet

/-! ## Texts -/

def Lane.names : List String :=
  ["Sync", "InputContinuous", "Default",
   "Transition1", "Transition2", "Transition3", "Transition4", "Transition5", "Transition6",
   "Transition7", "Transition8", "Transition9", "Transition10", "Transition11",
   "Transition12", "Transition13", "Transition14",
   "Retry1", "Retry2", "Retry3", "Retry4", "Idle", "Offscreen", "Deferred"]

def Lane.name? (l : Lane) : Option String := Lane.names[l.val]?

namespace LaneSet

/-- The name of the only lane. A set of no or several lanes has none. -/
def name? (s : LaneSet) : Option String :=
  match s.members with
  | [l] => l.name?
  | _ => none

def names (s : LaneSet) : List String := s.members.filterMap Lane.name?

def describe (s : LaneSet) : String :=
  if s.isEmpty then "Lanes(NoLanes)"
  else "Lanes(" ++ String.intercalate " | " s.names ++ ")"

/-- All 31 bits, the least urgent lane first. -/
def binary (s : LaneSet) : String :=
  "0b" ++ String.ofList ((List.finRange 31).reverse.map fun l => if s.contains l then '1' else '0')

end LaneSet

end ConcurrentRender
