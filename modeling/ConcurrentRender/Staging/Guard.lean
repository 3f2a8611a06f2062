import ConcurrentRender.Step

/-!
# Guards against endless work

A component that schedules an update in every commit, or a render that restarts itself
each time, would go on for ever. `CommitStreak` counts the commits of one root in a row
that left blocking work, and `PassCount` counts how often one component was rendered again.
Both make going past their limit a fault.
-/

namespace ConcurrentRender

structure CommitStreak where
  limit : Nat
  /-- How many commits of the root followed the first one of the streak. -/
  count : Nat := 0
  root : Option RootId := none
deriving DecidableEq, Inhabited

namespace CommitStreak

def reset (s : CommitStreak) : CommitStreak := { s with count := 0, root := none }

/-- Records a commit. It goes on with the streak, or starts one, if it left blocking work,
and ends the streak if not. -/
def record (s : CommitStreak) (root : RootId) (blocking : Bool) : CommitStreak :=
  if !blocking then s.reset
  else if s.root = some root then { s with count := s.count + 1 }
  else { s with count := 0, root := some root }

/-- Faults when the streak went past its limit, and then starts over. -/
def check : StepM CommitStreak Unit := fun s =>
  if s.count > s.limit then
    { state := s.reset, result := .error (.maximumUpdateDepth s.limit) }
  else { state := s, result := .ok () }

end CommitStreak

structure PassCount where
  limit : Nat
  count : Nat := 0
deriving DecidableEq, Inhabited

namespace PassCount

def next : StepM PassCount Nat := fun s =>
  if s.count ≥ s.limit then { state := s, result := .error (.tooManyRerenders s.limit) }
  else { state := { s with count := s.count + 1 }, result := .ok (s.count + 1) }

def reset (s : PassCount) : PassCount := { s with count := 0 }

end PassCount

end ConcurrentRender
