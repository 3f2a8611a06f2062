import ConcurrentRender.Proofs.Context.Changes
import ConcurrentRender.Proofs.Render.Ledgers

/-!
# Calls besides the operations of a run

A work loop also calls a renderer in ways that no operation stands for: it asks for lanes, spreads
context changes, uses caches, and writes to fibers. Other renderers use the same contexts and
caches meanwhile. Whatever else such a call does, no root is told about lanes, and no queue
remembers others than before.

* `SideCall`: one of these calls, and `Renderer.aside r c` is the renderer after it.

Results:
1. `Stemwise.spread`: what holds after a spread, wherever it goes. `OnlyFibers.spread` is one case:
   everything but fibers is left alone.
2. `sameLedgers_aside`: the calls leave the lanes of all roots and queues alone.
-/

namespace ConcurrentRender

/-- A call to a renderer that is none of its operations. -/
inductive SideCall where
  | requestLane (fiber : FiberId)
  | requestRetryLane (fiber : FiberId)
  | createUpdate (lane : LaneSet) (payload : Payload)
  | writeFiber (fiber : FiberId) (g : Fiber → Fiber)
  | bailOut (fiber : FiberId)
  | spreadDeferred (fiber : FiberId)
  | spreadCache (boundary : FiberId)
  | pooledCache
  /-- Contexts and caches were used, here or by another renderer. -/
  | share (registry : ContextRegistry) (host : CacheHost)

namespace Tree

variable {t : Tree} {k : Fiber → Fiber}

/-- The relation holds after any changes of single fibers that leave their stems alone. -/
structure Stemwise (R : Tree → Tree → Prop) : Prop where
  refl : ∀ t, R t t
  trans : ∀ {t t' t''}, R t t' → R t' t'' → R t t''
  setFiber : ∀ {k : Fiber → Fiber}, (∀ x, (k x).stem = x.stem) → ∀ t f, R t (t.setFiber f k)

namespace Stemwise

variable {R : Tree → Tree → Prop} (stemwise : Stemwise R)
include stemwise

theorem setTwins (hk : ∀ x, (k x).stem = x.stem) (t : Tree) (f : FiberId) :
    R t (t.setTwins f k) :=
  keeps_setTwins (R := R) stemwise.trans (stemwise.setFiber hk) t f

theorem raiseAll (fs : List FiberId) (lanes : LaneSet) (t : Tree) :
    R t (fs.foldl (fun t f => t.addChildLanes f lanes) t) := by
  induction fs generalizing t with
  | nil => exact stemwise.refl t
  | cons f fs ih => exact stemwise.trans (stemwise.setTwins (fun _ => by rfl) t f) (ih _)

theorem schedulePath (t : Tree) (parent : Option FiberId) (lanes : LaneSet) (stop : FiberId) :
    R t (t.schedulePath parent lanes stop) := by
  cases parent with
  | none => exact stemwise.refl t
  | some p => exact stemwise.raiseAll _ _ _

theorem scheduleReader (t : Tree) (f : FiberId) (lanes : LaneSet) (stop : FiberId) :
    R t (t.scheduleReader f lanes stop) := by
  have noted : ∀ x : Fiber,
      Fiber.stem { x with
        dependencies := x.dependencies.map fun d => { d with lanes := d.lanes ∪ lanes } } =
      x.stem := by
    intro x
    simp only [Fiber.stem, Option.map_map]
    rfl
  have raised := stemwise.setTwins (k := fun x => { x with lanes := x.lanes ∪ lanes })
    (fun _ => by rfl) t f
  exact stemwise.trans raised
    (stemwise.trans (stemwise.setFiber noted _ f) (stemwise.schedulePath _ _ _ _))

theorem scheduleHolder (t : Tree) (fragment : FiberId) (lanes : LaneSet) (stop : FiberId) :
    R t (t.scheduleHolder fragment lanes stop) := by
  unfold Tree.scheduleHolder
  split
  · exact stemwise.refl t
  · exact stemwise.trans (stemwise.setTwins (fun _ => by rfl) t _) (stemwise.schedulePath _ _ _ _)

theorem visit (t : Tree) (s : Search) (f : FiberId) : R t (t.visit s f).2 := by
  unfold Tree.visit
  dsimp only
  split
  · exact stemwise.scheduleReader t f _ _
  · exact stemwise.refl t
  · split
    · exact stemwise.scheduleHolder t f _ _
    · exact stemwise.refl t

theorem search (s : Search) (fuel : Nat) (f : FiberId) (t : Tree) : R t (search s fuel f t) := by
  have linked (t : Tree) (f : FiberId) (parent : Option FiberId) : R t (t.setParent f parent) :=
    stemwise.setFiber (fun _ => by rfl) t f
  induction fuel generalizing f t with
  | zero => exact stemwise.refl t
  | succ fuel ih =>
    have looked := stemwise.visit t s f
    unfold Tree.search
    split
    next down =>
      rw [down] at looked
      exact stemwise.trans looked (stemwise.trans (linked _ _ _) (ih _ _))
    next turn =>
      rw [turn] at looked
      split
      · exact looked
      · exact stemwise.trans looked (stemwise.trans (linked _ _ _) (ih _ _))

theorem spread (t : Tree) (s : Search) : R t (t.spread s) := by
  unfold Tree.spread
  split
  · exact stemwise.refl t
  · exact stemwise.trans (stemwise.setFiber (fun _ => by rfl) t _) (stemwise.search s _ _ _)

end Stemwise

namespace OnlyFibers

theorem spread (t : Tree) (s : Search) : OnlyFibers t (t.spread s) :=
  Stemwise.spread ⟨refl, trans, fun _ t f => setFiber t f _⟩ t s

theorem spreadFromAbove (t : Tree) (f : FiberId) (lanes : LaneSet) (forced : Bool) :
    OnlyFibers t (spreadFromAbove f lanes forced t).state := by
  cases above : t.changedAbove f with
  | error e =>
    rw [(spreadFromAbove_of_error above).2]
    exact refl t
  | ok contexts =>
    rw [(spreadFromAbove_of_ok above).2]
    split
    · exact setFiber t f _
    · exact (spread t _).trans (setFiber _ f _)

end OnlyFibers

end Tree

namespace Renderer

/-- The renderer after a side call. -/
def aside (r : Renderer) : SideCall → Renderer
  | .requestLane fiber => (requestLane fiber r).state
  | .requestRetryLane fiber => (requestRetryLane fiber r).state
  | .createUpdate lane payload => (createUpdate lane payload r).state
  | .writeFiber fiber g => r.setTree (·.setFiber fiber g)
  | .bailOut fiber => (bailOut fiber r).state
  | .spreadDeferred fiber => (spreadDeferred fiber r).state
  | .spreadCache boundary => r.spreadCache boundary
  | .pooledCache => (pooledCache r).state
  | .share registry host => { r with contexts := { r.contexts with registry }, host }

/-- A pool is part of a root, and the rest of the root stays as it is. -/
theorem frame_pool_request (lanes : LaneSet) (p : Pool) :
    (Pool.request lanes p).state.root.current = p.root.current ∧
      (Pool.request lanes p).state.root.lanes = p.root.lanes := by
  unfold Pool.request
  rw [StepM.run_look_bind]
  cases p.root.pooledCache <;> exact ⟨rfl, rfl⟩

/-- A request for the cache of the pool that is rendered from, if there is one. -/
theorem state_pooledCache (r : Renderer) :
    (pooledCache r).state =
      r.renderRoot.elim r fun root => (onPool root (Pool.request r.renderLanes) r).state := by
  unfold pooledCache
  rw [StepM.run_look_bind]
  cases r.renderRoot with
  | none => rfl
  | some root => exact (StepM.run_bind_pure (onPool root (Pool.request r.renderLanes)) some r).1

theorem sameLedgers_pooledCache (r : Renderer) :
    r.tree.SameLedgers (pooledCache r).state.tree := by
  rw [state_pooledCache]
  cases r.renderRoot with
  | none => exact .refl r.tree
  | some root =>
    let pool : Pool := { root := r.tree.root root, host := r.host }
    show r.tree.SameLedgers
      (r.tree.setRoot root fun _ => (Pool.request r.renderLanes pool).state.root)
    refine ⟨fun about => ?_, fun _ => rfl⟩
    rw [Tree.root_setRoot]
    split
    next h => exact h.1 ▸ (frame_pool_request _ pool).2
    next => rfl

/-- No side call tells a root about lanes, or lets a queue remember others. -/
theorem sameLedgers_aside (r : Renderer) (c : SideCall) :
    r.tree.SameLedgers (r.aside c).tree := by
  cases c with
  | requestLane | requestRetryLane | share => exact .refl r.tree
  | createUpdate => exact .of_eq rfl rfl
  | writeFiber fiber g => exact .of_onlyFibers (.setFiber r.tree fiber g)
  | bailOut fiber => exact .of_onlyFibers (.spreadFromAbove r.tree fiber _ false)
  | spreadDeferred fiber => exact .of_onlyFibers (.spreadFromAbove r.tree fiber _ true)
  | spreadCache boundary => exact .of_onlyFibers (.spread r.tree _)
  | pooledCache => exact sameLedgers_pooledCache r

end Renderer

end ConcurrentRender
