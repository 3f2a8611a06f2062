import ConcurrentRender.Fault

/-!
# Steps that change a state and may stop

Most operations of the library change some state, may stop with a fault, and may report
notices. A fault does not undo anything: the state is the one reached when it arose, and
the notices up to there stand.

`StepM σ α` is the type of such operations over states `σ`, and `Outcome σ α` is what one
of them leads to.
-/

namespace ConcurrentRender

structure Outcome (σ α : Type) where
  /-- The state afterwards, also after a fault. -/
  state : σ
  result : Except Fault α
  /-- The reports, in the order in which they arose. -/
  notices : List Notice := []

/-- An operation over states `σ` with answers in `α`. -/
def StepM (σ α : Type) : Type := σ → Outcome σ α

namespace StepM

variable {σ τ α β : Type}

def run (m : StepM σ α) (s : σ) : Outcome σ α := m s

protected def pure (a : α) : StepM σ α := fun s => { state := s, result := .ok a }

/-- Goes on with `f` where `m` ended, unless `m` stopped with a fault. -/
protected def bind (m : StepM σ α) (f : α → StepM σ β) : StepM σ β := fun s =>
  match m s with
  | { state, result := .ok a, notices } =>
    let o := f a state
    { o with notices := notices ++ o.notices }
  | { state, result := .error e, notices } => { state, result := .error e, notices }

instance : Monad (StepM σ) where
  pure := StepM.pure
  bind := StepM.bind

instance : Inhabited (StepM σ α) := ⟨fun s => { state := s, result := .error .brokeOff }⟩

def fail (e : Fault) : StepM σ α := fun s => { state := s, result := .error e }

/-- Answers what `f` sees in the state. -/
def look (f : σ → α) : StepM σ α := fun s => { state := s, result := .ok (f s) }

def change (f : σ → σ) : StepM σ Unit := fun s => { state := f s, result := .ok () }

/-- Answers the first component and goes on with the second one as state. -/
def take (f : σ → α × σ) : StepM σ α := fun s =>
  { state := (f s).2, result := .ok (f s).1 }

def report (n : Notice) : StepM σ Unit := fun s =>
  { state := s, result := .ok (), notices := [n] }

/-- Runs an operation on a part of the state. -/
def focus (view : σ → τ) (put : τ → σ → σ) (m : StepM τ α) : StepM σ α := fun s =>
  let o := m (view s)
  { state := put o.state s, result := o.result, notices := o.notices }

/-- Runs the operation and answers how it ended, so that a fault does not stop what
follows. -/
def attempt (m : StepM σ α) : StepM σ (Except Fault α) := fun s =>
  let o := m s
  { state := o.state, result := .ok o.result, notices := o.notices }

end StepM

end ConcurrentRender
