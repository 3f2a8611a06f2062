import ConcurrentRender.Staging.Ascent
import ConcurrentRender.Tree.Ring

/-!
# Staged updates

Events can arrive while a render is under way, which must not see lists of updates change.
So their updates are staged: the fiber gets the lane at once, and the rest waits in the
`StagingBuffer` until `Staging.flush` puts the updates into their queues and makes the
lanes known up to the root, in the order of staging.

A flush empties the buffer first. If one of the entries fails, those after it are gone.
-/

namespace ConcurrentRender

structure StagedUpdate where
  fiber : FiberId
  queue : Option QueueId := none
  update : Option UpdateId := none
  lane : LaneSet
deriving DecidableEq

structure StagingBuffer where
  staged : List StagedUpdate := []
  /-- The lanes staged since the last flush. -/
  lanes : LaneSet := ∅
  streak : CommitStreak
  diagnostics : Bool

/-- A buffer that allows `limit` commits in a row. -/
def StagingBuffer.start (limit : Nat) (diagnostics : Bool) : StagingBuffer where
  streak := { limit }
  diagnostics

structure Staging where
  buffer : StagingBuffer
  tree : Tree

namespace Staging

def onTree {α : Type} (m : StepM Tree α) : StepM Staging α :=
  StepM.focus (·.tree) (fun tree s => { s with tree }) m

def onStreak {α : Type} (m : StepM CommitStreak α) : StepM Staging α :=
  StepM.focus (·.buffer.streak)
    (fun streak s => { s with buffer := { s.buffer with streak } }) m

/-- Stages a change. The fiber gets its lane at once. -/
def stage (s : Staging) (entry : StagedUpdate) : Staging where
  buffer :=
    { s.buffer with
      staged := s.buffer.staged ++ [entry]
      lanes := s.buffer.lanes ∪ entry.lane }
  tree := s.tree.addLanes entry.fiber entry.lane

/-- The root above the fiber, after a check that its commits do not go on for ever. -/
def findRoot (fiber : FiberId) : StepM Staging (Option RootId) := do
  onStreak CommitStreak.check
  fun s =>
    { state := s
      result := .ok (s.tree.findRoot? fiber)
      notices := s.tree.mountNotices fiber s.buffer.diagnostics }

/-- Stages a change and answers the root above its fiber. -/
def enqueue (entry : StagedUpdate) : StepM Staging (Option RootId) := do
  StepM.change (·.stage entry)
  findRoot entry.fiber

def settle (entry : StagedUpdate) : StepM Tree Unit := do
  match entry.queue, entry.update with
  | some q, some u => StepM.change (·.appendPending q u)
  | _, _ => pure ()
  if entry.lane.isEmpty then pure ()
  else
    let _ ← Tree.markPath entry.fiber entry.update entry.lane

def settleAll : List StagedUpdate → StepM Tree Unit
  | [] => pure ()
  | entry :: rest => do
    settle entry
    settleAll rest

/-- Empties the buffer and puts everything staged into effect. -/
def flush : StepM Staging Unit := fun s =>
  let emptied := { s with buffer := { s.buffer with staged := [], lanes := ∅ } }
  onTree (settleAll s.buffer.staged) emptied

/-- Stages an update that needs no render of its own. While nothing is being rendered, it
may be long until the next flush, so one follows at once. -/
def enqueueQuietly (fiber : FiberId) (queue : QueueId) (update : UpdateId) (rendering : Bool) :
    StepM Staging Unit := do
  StepM.change (·.stage { fiber, queue, update, lane := ∅ })
  if rendering then pure () else flush

/-- Makes a lane known up to the root at once. Nothing may be reading the tree. -/
def markNow (fiber : FiberId) (lane : LaneSet) : StepM Staging (Option RootId) := do
  let root ← findRoot fiber
  let _ ← onTree (Tree.markPath fiber none lane)
  return root

end Staging

end ConcurrentRender
