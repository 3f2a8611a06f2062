import ConcurrentRender.Arena

/-!
# Context values

What a provider hands down to the fibers below it. Two values are the same only if they
are one value handed around, whatever they hold: two texts with the same characters may
differ. The mark of a value tells such values apart, so that being the same is equality.
-/

namespace ConcurrentRender

inductive Value where
  | unit (mark : Nat)
  | text (mark content : String)
  /-- A cache. It is the same value wherever it is provided. -/
  | cache (cache : CacheId)
deriving DecidableEq, Inhabited

namespace Value

def cache? : Value → Option CacheId
  | cache c => some c
  | _ => none

/-- Whether a value that may be missing differs from the one before. -/
def changed (before after : Option Value) : Bool := before != after

end Value

end ConcurrentRender
