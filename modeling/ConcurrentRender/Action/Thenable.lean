import ConcurrentRender.Arena

/-!
# Waiting for a scope to complete

A `Thenable` stands for the completion of a scope of async actions. Listeners registered
before fire at the completion, in the order of registration. A listener registered after
the completion fires at once.
-/

namespace ConcurrentRender

/-- A listener that fired, with the value it was given, if any. -/
structure Firing where
  label : String
  value : Option String := none
deriving DecidableEq

/-- What to do at the completion. -/
structure Listener where
  label : String
  value : Option String := none
  /-- A further listener that this one registers on the same thenable when it fires. -/
  inner : Option String := none
deriving DecidableEq

/-- What happens when the listener fires. Its thenable is fulfilled by then, so a further
listener fires at once. -/
def Listener.fire (l : Listener) : List Firing :=
  { label := l.label, value := l.value } :: (l.inner.map fun label => { label }).toList

structure Thenable where
  fulfilled : Bool := false
  /-- The listeners that wait, in the order of registration. -/
  listeners : List Listener := []
deriving DecidableEq, Inhabited

namespace Thenable

def andThen (t : Thenable) (l : Listener) : List Firing × Thenable :=
  if t.fulfilled then (l.fire, t) else ([], { t with listeners := t.listeners ++ [l] })

def fulfil (t : Thenable) : List Firing × Thenable :=
  if t.fulfilled then ([], t)
  else (t.listeners.flatMap Listener.fire, { fulfilled := true, listeners := [] })

def describe (t : Thenable) : String :=
  "EntangledThenable \x7b status: " ++ (if t.fulfilled then "Fulfilled" else "Pending")
    ++ ", listeners: " ++ toString t.listeners.length ++ " \x7d"

end Thenable

/-- A value that is there once a scope is complete. -/
structure Chained where
  thenable : Id .scope
  value : String
deriving DecidableEq, Inhabited

/-- A listener that is handed the chained value. -/
def Chained.listener (c : Chained) (label : String) : Listener :=
  { label, value := some c.value }

end ConcurrentRender
