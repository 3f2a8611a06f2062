import ConcurrentRender.Tree.Basic

/-!
# Queues of updates

The updates waiting in a queue form a ring inside the arena of updates. The queue points
to the newest one, and each update to the next newer one, the newest to the oldest.
`Tree.pending` lists them, oldest first.
-/

namespace ConcurrentRender

namespace Tree

/-- Adds a queue. The first queue of a fiber becomes its own. -/
def createQueue (t : Tree) (owner : FiberId) : QueueId × Tree :=
  let q := t.queues.next
  let t := { t with queues := t.queues.add { owner } }
  (q, t.setFiber owner fun x => { x with queue := x.queue.or (some q) })

def createUpdate (t : Tree) (lane : LaneSet) (payload : Payload) : UpdateId × Tree :=
  (t.updates.next, { t with updates := t.updates.add { lane, payload } })

/-- Puts an update into the ring of the queue, as its newest one. -/
def appendPending (t : Tree) (q : QueueId) (u : UpdateId) : Tree :=
  let t := match (t.queue q).newest with
    | none => t.setUpdate u fun x => { x with next := some u }
    | some newest =>
      let oldest := (t.update newest).next
      let t := t.setUpdate u fun x => { x with next := oldest }
      t.setUpdate newest fun x => { x with next := some u }
  t.setQueue q fun x => { x with newest := some u }

/-- The updates from the given one up to `last`, at most `fuel` of them. -/
def ringFrom (t : Tree) (last : UpdateId) : Nat → Option UpdateId → List UpdateId
  | _, none => []
  | 0, some _ => []
  | fuel + 1, some u =>
    if u = last then [u] else u :: t.ringFrom last fuel (t.update u).next

/-- The updates waiting in the queue, oldest first. A ring has at most as many updates as
there are. -/
def pending (t : Tree) (q : QueueId) : List UpdateId :=
  match (t.queue q).newest with
  | none => []
  | some last => t.ringFrom last t.updates.size (t.update last).next

def takePending (t : Tree) (q : QueueId) : List UpdateId × Tree :=
  (t.pending q, t.setQueue q fun x => { x with newest := none })

end Tree

end ConcurrentRender
