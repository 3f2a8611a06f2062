import ConcurrentRender.Step

/-!
# Values along a path

A render goes down the tree and comes back up. On the way down a fiber may put a new
value in force (`FrameStack.push`), and on the way up the same fiber takes it out of force
again (`FrameStack.pop`), so the frames of the stack belong to the fibers on the path from
the root to where the render is.

A pop by the wrong fiber is a fault, but the frame is gone all the same.
-/

namespace ConcurrentRender

/-- What a push put aside, and which fiber pushed. -/
structure Frame (α : Type) where
  saved : α
  owner : FiberId
deriving DecidableEq

/-- The value in force and the frames below it, innermost first. -/
structure FrameStack (α : Type) where
  current : α
  frames : List (Frame α) := []
deriving DecidableEq

namespace FrameStack

variable {α : Type}

def depth (s : FrameStack α) : Nat := s.frames.length

def isEmpty (s : FrameStack α) : Bool := s.frames.isEmpty

def push (s : FrameStack α) (value : α) (fiber : FiberId) : FrameStack α :=
  { current := value, frames := { saved := s.current, owner := fiber } :: s.frames }

/-- Takes the value in force out of force on behalf of `fiber`, and answers it. -/
def pop (fiber : FiberId) : StepM (FrameStack α) α := fun s =>
  match s.frames with
  | [] => { state := s, result := .error (.stackUnderflow fiber) }
  | frame :: rest =>
    let restored := { current := frame.saved, frames := rest }
    if frame.owner = fiber then { state := restored, result := .ok s.current }
    else
      { state := restored
        result := .error (.stackMismatch frame.owner fiber)
        notices := [.unexpectedFiberPopped] }

def reset (value : α) : FrameStack α := { current := value }

end FrameStack

end ConcurrentRender
