import ConcurrentRender.Arena

/-!
# Faults and notices

A `Fault` is the reason for which an operation stops. A `Notice` reports a misuse that
does not stop it. Both have a fixed wording, given by `Fault.message` and
`Notice.message`.
-/

namespace ConcurrentRender

inductive Fault where
  /-- `fiber` popped from an empty stack. -/
  | stackUnderflow (fiber : FiberId)
  /-- The frame pushed by `expected` was popped by `actual`. -/
  | stackMismatch (expected actual : FiberId)
  /-- The frame on top provides `found`, not the context `expected` to be popped. -/
  | providerMismatch (expected found : ContextId)
  /-- The way up from `source` ends at `top`, which is no root. -/
  | notAttachedToRoot (source top : FiberId)
  | maximumUpdateDepth (limit : Nat)
  | tooManyRerenders (limit : Nat)
  | contextReadOutsideRender
  /-- A provider that is being rendered has no committed twin to compare with. -/
  | missingCurrentFiber (fiber : FiberId)
  | noAsyncRuntime
  /-- A point in time does not fit into 64 bits. -/
  | clockOverflow
  /-- The code running inside a scope broke off. -/
  | brokeOff
deriving DecidableEq

namespace Fault

def name : Fault → String
  | stackUnderflow _ => "StackUnderflow"
  | stackMismatch _ _ => "StackMismatch"
  | providerMismatch _ _ => "ProviderMismatch"
  | notAttachedToRoot _ _ => "NotAttachedToRoot"
  | maximumUpdateDepth _ => "MaximumUpdateDepthExceeded"
  | tooManyRerenders _ => "TooManyReRenders"
  | contextReadOutsideRender => "ContextReadOutsideRender"
  | missingCurrentFiber _ => "MissingCurrentFiber"
  | noAsyncRuntime => "NoAsyncRuntime"
  | clockOverflow => "ClockOverflow"
  | brokeOff => "BrokeOff"

def message : Fault → String
  | stackUnderflow fiber =>
    "Unexpected pop: cursor stack is empty (popped by fiber " ++ fiber.text ++ ")"
  | stackMismatch expected actual =>
    "Unexpected fiber popped: expected " ++ expected.text ++ ", got " ++ actual.text
  | providerMismatch expected found =>
    "Context provider mismatch: expected " ++ expected.text ++ ", found "
      ++ found.text
  | notAttachedToRoot source top =>
    "Fiber " ++ top.text ++ " has no parent but is not a host root (walked from "
      ++ source.text ++ ")"
  | maximumUpdateDepth limit =>
    "Maximum update depth exceeded (" ++ toString limit ++ " nested updates). This can happen "
      ++ "when a component repeatedly schedules an update while committing"
  | tooManyRerenders limit =>
    "Too many re-renders (" ++ toString limit ++ "). Render-phase updates are looping"
  | contextReadOutsideRender => "Context can only be read while a component is rendering"
  | missingCurrentFiber fiber =>
    "Provider fiber " ++ fiber.text ++ " should have a current fiber"
  | noAsyncRuntime => "Async actions require a running tokio runtime"
  | clockOverflow => "The clock ran past its last representable time"
  | brokeOff => "The code of a scope broke off"

end Fault

/-- A misuse that is reported and otherwise ignored. -/
inductive Notice where
  | retainedFreedCache
  | overReleasedCache
  | unexpectedFiberPopped
  | laneDropped
  | updateNotMounted
deriving DecidableEq

namespace Notice

def message : Notice → String
  | retainedFreedCache => "a cache instance was retained after it was already freed"
  | overReleasedCache => "a cache instance was released more times than it was retained"
  | unexpectedFiberPopped => "unexpected fiber popped"
  | laneDropped => "lane scheduled on an unmounted fiber was dropped"
  | updateNotMounted => "update scheduled on a fiber that is not mounted; it will not render"

end Notice

end ConcurrentRender
