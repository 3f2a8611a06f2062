import ConcurrentRender.Context.Value
import ConcurrentRender.Lane.Ledger

/-!
# What a tree is made of

A `Fiber` is one component in one attempt to render it. A mounted component has up to two
fibers, twins of each other: one shows what is committed, the other what is being rendered.
A `Root` is the top of a mounted tree, an `Update` is a state change waiting in an
`UpdateQueue`, and a `Boundary` can hide the fibers below it.
-/

namespace ConcurrentRender

/-- What kind of component a fiber stands for. -/
inductive Tag where
  | hostRoot
  | functionComponent
  | classComponent
  | hostComponent
  | hostText
  | fragment
  /-- Provides a value of the context to the fibers below. -/
  | contextProvider (context : ContextId)
  /-- A host component whose form status is provided as a context. -/
  | hostTransitionProvider
  /-- A boundary with a cache of its own. -/
  | cacheComponent
  | suspenseComponent
  /-- A part of the tree that the server rendered and nothing has taken over yet. -/
  | dehydratedFragment
  | offscreen
deriving DecidableEq, Inhabited

def Tag.text : Tag → String
  | hostRoot => "HostRoot"
  | functionComponent => "FunctionComponent"
  | classComponent => "ClassComponent"
  | hostComponent => "HostComponent"
  | hostText => "HostText"
  | fragment => "Fragment"
  | contextProvider context => "ContextProvider(" ++ context.text ++ ")"
  | hostTransitionProvider => "HostTransitionProvider"
  | cacheComponent => "CacheComponent"
  | suspenseComponent => "SuspenseComponent"
  | dehydratedFragment => "DehydratedFragment"
  | offscreen => "Offscreen"

/-- The tag of this name. A provider is one of the given context. -/
def Tag.ofName? (name : String) (context : Option ContextId) : Option Tag :=
  match name, context with
  | "HostRoot", _ => some hostRoot
  | "FunctionComponent", _ => some functionComponent
  | "ClassComponent", _ => some classComponent
  | "HostComponent", _ => some hostComponent
  | "HostText", _ => some hostText
  | "Fragment", _ => some fragment
  | "ContextProvider", some context => some (contextProvider context)
  | "HostTransitionProvider", _ => some hostTransitionProvider
  | "CacheComponent", _ => some cacheComponent
  | "SuspenseComponent", _ => some suspenseComponent
  | "DehydratedFragment", _ => some dehydratedFragment
  | "Offscreen", _ => some offscreen
  | _, _ => none

structure Flags where
  /-- Inserted by the render in progress and not committed yet. -/
  placement : Bool := false
  /-- Context changes from above were pushed down from here. -/
  didPropagate : Bool := false
  /-- Read a context in its last render, so what was pushed down from above may have
  stopped here. -/
  needsPropagation : Bool := false
  detached : Bool := false
deriving DecidableEq, Inhabited

namespace Flags

def union (a b : Flags) : Flags where
  placement := a.placement || b.placement
  didPropagate := a.didPropagate || b.didPropagate
  needsPropagation := a.needsPropagation || b.needsPropagation
  detached := a.detached || b.detached

def without (a b : Flags) : Flags where
  placement := a.placement && !b.placement
  didPropagate := a.didPropagate && !b.didPropagate
  needsPropagation := a.needsPropagation && !b.needsPropagation
  detached := a.detached && !b.detached

/-- The marks as a number, one bit each. -/
def toNat (f : Flags) : Nat :=
  f.placement.toNat + 2 * f.didPropagate.toNat + 4 * f.needsPropagation.toNat
    + 8 * f.detached.toNat

/-- The marks whose bits are set. Further bits mean nothing. -/
def ofNat (n : Nat) : Flags where
  placement := n.testBit 0
  didPropagate := n.testBit 1
  needsPropagation := n.testBit 2
  detached := n.testBit 3

theorem ofNat_toNat (f : Flags) : ofNat f.toNat = f := by
  rcases f with ⟨_ | _, _ | _, _ | _, _ | _⟩ <;> rfl

end Flags

/-- One reading of a context: what was read, and the value seen. -/
structure ContextRead where
  context : ContextId
  seen : Value
deriving DecidableEq

structure Dependencies where
  /-- The lanes on which a change of one of them has arrived and was not rendered yet. -/
  lanes : LaneSet := ∅
  contexts : List ContextRead := []
deriving DecidableEq, Inhabited

def Dependencies.reads (d : Dependencies) (context : ContextId) : Bool :=
  d.contexts.any fun r => r.context == context

/-- What twins share besides their queue. -/
inductive Instance where
  | root (root : RootId)
  | boundary (boundary : BoundaryId)
deriving DecidableEq

structure Fiber where
  tag : Tag
  /-- Updates are scheduled by priority and not synchronously. -/
  concurrent : Bool
  flags : Flags := {}
  /-- The lanes of updates of the fiber itself. -/
  lanes : LaneSet := ∅
  /-- The lanes of work anywhere below. -/
  childLanes : LaneSet := ∅
  parent : Option FiberId := none
  child : Option FiberId := none
  sibling : Option FiberId := none
  twin : Option FiberId := none
  dependencies : Option Dependencies := none
  /-- The value that a provider provides in the render in progress. -/
  pendingValue : Option Value := none
  /-- The value that a provider provided in its last render. -/
  committedValue : Option Value := none
  /-- The form status of a host transition provider. -/
  state : Option Value := none
  queue : Option QueueId := none
  inst : Option Instance := none
deriving DecidableEq

instance : Inhabited Fiber := ⟨{ tag := .hostRoot, concurrent := false }⟩

/-- Whether the fiber read one of the contexts, if it read any at all. -/
def Fiber.readsAny? (x : Fiber) (contexts : List ContextId) : Option Bool :=
  x.dependencies.map fun d => contexts.any d.reads

structure Root where
  current : FiberId
  lanes : LaneLedger := {}
  /-- The cache shared by renders that are not committed yet. -/
  pooledCache : Option CacheId := none
  /-- The lanes of the renders that share it. -/
  pooledCacheLanes : LaneSet := ∅
deriving DecidableEq, Inhabited

/-- What an update carries. It means nothing to the library. -/
inductive Payload where
  | unit
  | number (n : Int)
  | text (s : String)
deriving DecidableEq, Inhabited

structure Update where
  lane : LaneSet
  payload : Payload := .unit
  /-- The next update of the ring, none before the update is put into one. -/
  next : Option UpdateId := none
deriving DecidableEq

instance : Inhabited Update := ⟨{ lane := ∅ }⟩

def Update.describe (u : Update) : String :=
  let next := match u.next with
    | none => "None"
    | some id => "Some(" ++ id.text ++ ")"
  "Update \x7b lane: " ++ u.lane.describe ++ ", next: " ++ next ++ ", .. \x7d"

/-- The waiting updates of one piece of state. They form a ring, entered at the newest
one, whose successor is the oldest one. -/
structure UpdateQueue where
  owner : FiberId
  newest : Option UpdateId := none
  /-- The lanes of the transitions among its updates that may still be pending. -/
  lanes : LaneSet := ∅
deriving DecidableEq, Inhabited

/-- A part of the tree that can be hidden, with the updates put aside while it was. -/
structure Boundary where
  visible : Bool
  /-- Each update with the lanes it was made on, in the order of putting aside. -/
  parked : List (LaneSet × UpdateId) := []
deriving DecidableEq, Inhabited

/-- The updates that were made on the given lanes exactly. -/
def Boundary.parkedOn (b : Boundary) (lanes : LaneSet) : List UpdateId :=
  (b.parked.filter fun p => p.1 == lanes).map (·.2)

/-- The single lanes that updates were made on, each with those updates. -/
def Boundary.parkedByLane (b : Boundary) : List (LaneSet × List UpdateId) :=
  ((List.finRange 31).map fun l => (LaneSet.single l, b.parkedOn (LaneSet.single l))).filter
    fun p => !p.2.isEmpty

end ConcurrentRender
