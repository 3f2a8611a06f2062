import ConcurrentRender.Arena

/-!
# The default indicator

A host may register one callback that shows a busy indicator while async actions are under
way. If two different callbacks are registered, none of them owns the indicator, and it is
not shown any more.

Showing it takes three phases. `Indicator.claim` hands out a ticket. Then the callback runs,
during which anything may happen. Its cleanup, which hides the indicator again, is handed
over with `Indicator.deliver`. A cleanup that comes too late, because the indicator was
stopped meanwhile, is handed back to be run at once.
-/

namespace ConcurrentRender

/-- One run of a callback, and the cleanup that it returns. -/
structure Ticket where
  serial : Nat
  callback : String
deriving DecidableEq

inductive Registration where
  | unset
  | unique (callback : String)
  | ambiguous
deriving DecidableEq, Inhabited

inductive Showing where
  | idle
  | starting
  /-- The indicator is shown until the cleanup is run. -/
  | shown (cleanup : Ticket)
deriving DecidableEq, Inhabited

structure Indicator where
  registration : Registration := .unset
  showing : Showing := .idle
  /-- A scope was opened, and nothing has taken care of showing that yet. -/
  needed : Bool := false
  tickets : Nat := 0
deriving DecidableEq, Inhabited

namespace Indicator

def isShowing (i : Indicator) : Bool := i.showing != .idle

/-- Stops showing. The cleanup, if there is one, must be run. -/
def stop (i : Indicator) : Option Ticket × Indicator :=
  (match i.showing with
    | .shown cleanup => some cleanup
    | _ => none,
    { i with showing := .idle })

/-- Registers a callback. If it is the second one, showing stops. -/
def register (i : Indicator) (callback : String) : Option Ticket × Indicator :=
  match i.registration with
  | .unset => (none, { i with registration := .unique callback })
  | .unique existing =>
    if existing = callback then (none, i) else stop { i with registration := .ambiguous }
  | .ambiguous => (none, i)

/-- Claims the right to show the indicator. The callback must run next. -/
def claim (i : Indicator) : Option (Ticket × Indicator) :=
  match i.needed, i.showing, i.registration with
  | true, .idle, .unique callback =>
    some ({ serial := i.tickets, callback },
      { i with showing := .starting, tickets := i.tickets + 1 })
  | _, _, _ => none

/-- The callback has run. Its cleanup is handed back if showing was stopped meanwhile. -/
def deliver (i : Indicator) (cleanup : Ticket) : Option Ticket × Indicator :=
  match i.showing with
  | .starting => (none, { i with showing := .shown cleanup })
  | _ => (some cleanup, i)

end Indicator

end ConcurrentRender
