import ConcurrentRender.Proofs.Render.Operation
import ConcurrentRender.Proofs.Tree.Raise

/-!
# Moves on the tree and the staged updates

A call to a renderer does many things, but to the tree and the staged updates it does only a
few. A `Move` is one of them, as data: an update that is staged, a flush, a root that is told
about lanes. A property of the tree and the staged updates holds in every run if every `Move`
keeps it.

Moves that neither stage, flush nor take are idle. They always fit (`fits_of_idle`), and they
leave what is staged alone (`buffer_of_idle`).
-/

namespace ConcurrentRender

/-- The only change of the tree alone that touches roots is the one that adds a root. -/
theorem TreeEdit.roots_apply {e : TreeEdit} (h : ∀ concurrent, e ≠ .createRoot concurrent)
    (t : Tree) : (e.apply t).roots = t.roots := by
  cases e with
  | createRoot concurrent => exact absurd rfl (h concurrent)
  | createChild p tag => exact (Tree.OnlyFibers.createChild t p tag).roots
  | appendChild p c => exact (Tree.OnlyFibers.appendChild t p c).roots
  | startTwin f value => exact (Tree.OnlyFibers.startTwin t f value).roots
  | detach f => exact (Tree.OnlyFibers.detach t f).roots
  | createBoundary f visible =>
    exact (Tree.OnlyFibers.setTwins { t with boundaries := t.boundaries.add { visible } } f _).roots
  | reveal b lanes => exact (Tree.frame_reveal t b lanes).2.1
  | createFiber | clearLanes | createQueue | setVisible => rfl

/-- A change of the tree and the staged updates. -/
inductive Move where
  | edit (e : TreeEdit)
  /-- An update made on `made` is added, and staged with `lane`. -/
  | schedule (fiber : FiberId) (queue : QueueId) (payload : Payload) (made lane : LaneSet)
  /-- A change without any update is staged. -/
  | force (fiber : FiberId) (lane : LaneSet)
  | flush
  | take (queue : QueueId)
  /-- The lanes of a root are changed. -/
  | ledger (root : RootId) (g : LaneLedger → LaneLedger)
  /-- A lane is entangled with those of the queue that are pending on the root. -/
  | entangle (root : RootId) (queue : QueueId) (lane : LaneSet)
  /-- Another fiber at the top of the root becomes the committed one. -/
  | current (root : RootId) (fiber : FiberId)
  /-- The pooled cache of a root and its lanes are changed. -/
  | pooled (root : RootId) (g : Root → Option CacheId × LaneSet)
  /-- What a fiber records about the contexts that it reads is changed. -/
  | notes (fiber : FiberId) (g : Fiber → Option Dependencies × Flags)
  | streak (g : CommitStreak → CommitStreak)

namespace Move

/-- Changes the tree. -/
def onTree (s : Staging) (g : Tree → Tree) : Staging := { s with tree := g s.tree }

def apply (s : Staging) : Move → Staging
  | edit e => onTree s e.apply
  | schedule fiber queue payload made lane =>
    (onTree s fun t => (t.createUpdate made payload).2).stage
      { fiber, queue, update := s.tree.updates.next, lane }
  | force fiber lane => s.stage { fiber, lane }
  | flush => (Staging.flush s).state
  | take queue => onTree s fun t => (t.takePending queue).2
  | ledger root g => onTree s fun t => t.setRootLanes root g
  | entangle root queue lane =>
    if lane.meets LaneSet.transitions then
      let pending := (s.tree.root root).lanes.pending
      let lanes := ((s.tree.queue queue).lanes ∩ pending) ∪ lane
      onTree s fun t =>
        (t.setQueue queue fun x => { x with lanes }).setRootLanes root
          fun g => g.markEntangled lanes
    else s
  | current root fiber => onTree s fun t => t.setRoot root fun x => { x with current := fiber }
  | pooled root g => onTree s fun t =>
      t.setRoot root fun x => { x with pooledCache := (g x).1, pooledCacheLanes := (g x).2 }
  | notes fiber g => onTree s fun t =>
      t.setFiber fiber fun x => { x with dependencies := (g x).1, flags := (g x).2 }
  | streak g => { s with buffer := { s.buffer with streak := g s.buffer.streak } }

/-- Makes moves in order. -/
def applyAll (s : Staging) (ms : List Move) : Staging := ms.foldl apply s

@[simp] theorem applyAll_nil (s : Staging) : applyAll s [] = s := rfl

@[simp] theorem applyAll_cons (s : Staging) (m : Move) (ms : List Move) :
    applyAll s (m :: ms) = applyAll (m.apply s) ms := rfl

theorem applyAll_append (s : Staging) (ms ms' : List Move) :
    applyAll s (ms ++ ms') = applyAll (applyAll s ms) ms' :=
  List.foldl_append

/-- An update is scheduled for a queue that is there, and a flush succeeds. -/
def Fits (s : Staging) : Move → Prop
  | schedule _ queue _ _ _ => s.tree.queues.has queue
  | flush => (Staging.flush s).result = .ok ()
  | _ => True

/-- Moves of which each one fits when it is made. -/
def AllFit (s : Staging) : List Move → Prop
  | [] => True
  | m :: ms => m.Fits s ∧ AllFit (m.apply s) ms

/-- The move stages nothing, flushes nothing and takes nothing out of a queue. -/
def idle : Move → Bool
  | schedule .. => false
  | force .. => false
  | flush => false
  | take _ => false
  | _ => true

theorem fits_of_idle {s : Staging} {m : Move} (h : m.idle) : m.Fits s := by
  cases m <;> trivial

theorem allFit_of_idle {s : Staging} {ms : List Move} (h : ∀ m ∈ ms, m.idle) : AllFit s ms := by
  induction ms generalizing s with
  | nil => trivial
  | cons m ms ih => exact ⟨fits_of_idle (h m (.head _)), ih fun m' hm => h m' (.tail _ hm)⟩

/-- An idle move leaves what is staged alone. -/
theorem buffer_of_idle {s : Staging} {m : Move} (h : m.idle) :
    (m.apply s).buffer.staged = s.buffer.staged ∧ (m.apply s).buffer.lanes = s.buffer.lanes := by
  cases m with
  | schedule | force | flush | take => cases h
  | entangle root queue lane =>
    simp only [apply]
    split <;> exact ⟨rfl, rfl⟩
  | edit | ledger | current | pooled | notes | streak => exact ⟨rfl, rfl⟩

end Move

end ConcurrentRender
