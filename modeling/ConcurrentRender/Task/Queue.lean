/-!
# Deferred tasks

Work that is not urgent, such as tearing down a cache that nothing uses any more, is
put into a `TaskQueue` and runs later, when the host says so. A task is a value of a type
`τ` chosen by the user of the queue. What running it does is up to that user too, except
that it may put further tasks into the queue (`follow`).

* `TaskQueue.agenda` lists the waiting tasks in the order in which they would run: by
  priority, and tasks of one priority in the order in which they were scheduled.
* `TaskQueue.takeNext` takes the first task of the agenda out of the queue.
-/

namespace ConcurrentRender

/-- How urgent a task is, most urgent first. -/
inductive TaskPriority where
  | immediate
  | userBlocking
  | normal
  | low
  | idle
deriving DecidableEq, Inhabited

namespace TaskPriority

def all : List TaskPriority := [immediate, userBlocking, normal, low, idle]

def text : TaskPriority → String
  | immediate => "immediate"
  | userBlocking => "user_blocking"
  | normal => "normal"
  | low => "low"
  | idle => "idle"

def ofText? (s : String) : Option TaskPriority := all.find? fun p => p.text == s

theorem ofText?_text (p : TaskPriority) : ofText? p.text = some p := by
  cases p <;> rfl

/-- How many times a task of this priority gives way before it runs, on a host that
knows no priorities. -/
def yields : TaskPriority → Nat
  | immediate => 0
  | userBlocking => 1
  | normal => 2
  | low => 4
  | idle => 8

/-- The order in which a host without priorities runs tasks that start together. In each
round every task gives way once more or, having done so often enough, runs. -/
def rounds (started : List TaskPriority) : List TaskPriority :=
  (List.range 9).flatMap fun round => started.filter fun p => p.yields == round

end TaskPriority

structure WaitingTask (τ : Type) where
  priority : TaskPriority
  job : τ

/-- Waiting tasks, in the order in which they were scheduled. -/
structure TaskQueue (τ : Type) where
  waiting : List (WaitingTask τ) := []

namespace TaskQueue

variable {τ : Type}

instance : Inhabited (TaskQueue τ) := ⟨{}⟩

def size (q : TaskQueue τ) : Nat := q.waiting.length

/-- Adds a task. It does not run now. -/
def schedule (q : TaskQueue τ) (priority : TaskPriority) (job : τ) : TaskQueue τ :=
  { waiting := q.waiting ++ [{ priority, job }] }

/-- The waiting tasks in the order in which they would run. -/
def agenda (q : TaskQueue τ) : List (WaitingTask τ) :=
  TaskPriority.all.flatMap fun p => q.waiting.filter fun t => t.priority == p

def priorities (q : TaskQueue τ) : List TaskPriority := q.agenda.map (·.priority)

/-- The most urgent task and the queue without it. -/
def takeNext (q : TaskQueue τ) : Option (WaitingTask τ × TaskQueue τ) :=
  match q.agenda with
  | [] => none
  | t :: _ => some (t, { waiting := q.waiting.eraseP fun u => u.priority == t.priority })

def scheduleAll (q : TaskQueue τ) (tasks : List (WaitingTask τ)) : TaskQueue τ :=
  { waiting := q.waiting ++ tasks }

/-- Takes the most urgent task out and schedules what it leads to. -/
def runNext (follow : τ → List (WaitingTask τ)) (q : TaskQueue τ) :
    Option (WaitingTask τ × TaskQueue τ) :=
  q.takeNext.map fun (t, rest) => (t, rest.scheduleAll (follow t.job))

/-- Runs tasks until none waits. Answers how many ran, and which ones, in order. There is
no answer when tasks still wait after `fuel` of them ran. -/
def runAll (follow : τ → List (WaitingTask τ)) :
    Nat → TaskQueue τ → Option (Nat × List (WaitingTask τ) × TaskQueue τ)
  | 0, q => if q.waiting.isEmpty then some (0, [], q) else none
  | fuel + 1, q =>
    match q.runNext follow with
    | none => some (0, [], q)
    | some (t, rest) =>
      (runAll follow fuel rest).map fun (count, ran, rest) => (count + 1, t :: ran, rest)

/-- Runs tasks in the order in which they were scheduled, whatever their priority, as a
host does that keeps them in one line. -/
def runInLine (follow : τ → List (WaitingTask τ)) :
    Nat → List (WaitingTask τ) → Option (List (WaitingTask τ))
  | _, [] => some []
  | 0, _ :: _ => none
  | fuel + 1, t :: rest => (runInLine follow fuel (rest ++ follow t.job)).map (t :: ·)

end TaskQueue

end ConcurrentRender
