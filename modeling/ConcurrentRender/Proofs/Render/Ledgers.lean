import ConcurrentRender.Proofs.Lane.Calls
import ConcurrentRender.Proofs.Render.Calls
import ConcurrentRender.Proofs.Staging.Settle

/-!
# The ledgers of roots along a run

What a root knows about its lanes changes only when the root is told about them, and what a
queue remembers only when a transition is made for it.

* `Tree.SameLedgers t t'`: all roots and all queues have the same lanes in `t` and `t'`.
* `Renderer.told? r fiber`: the root that is told about an update of the fiber.
* `Renderer.ledgerCalls r root op`: what the ledger of the root is told in the call.
* `Renderer.queueLanes r queue op`: the lanes of the queue after the call.

Results:
1. `Move.sameLedgers_of_spares`: all moves but two kinds leave ledgers and queues alone.
2. `ledgers_next`: a call makes the ledger calls of each root, and gives each queue its lanes.
-/

namespace ConcurrentRender

namespace Tree

variable {t t' t'' : Tree}

/-- Roots have the same ledgers, and queues the same lanes. -/
structure SameLedgers (t t' : Tree) : Prop where
  root : ∀ r, (t'.root r).lanes = (t.root r).lanes
  queue : ∀ q, (t'.queue q).lanes = (t.queue q).lanes

namespace SameLedgers

theorem refl (t : Tree) : SameLedgers t t := ⟨fun _ => rfl, fun _ => rfl⟩

theorem trans (h : SameLedgers t t') (h' : SameLedgers t' t'') : SameLedgers t t'' :=
  ⟨fun r => (h'.root r).trans (h.root r), fun q => (h'.queue q).trans (h.queue q)⟩

theorem of_eq (roots : t'.roots = t.roots) (queues : t'.queues = t.queues) :
    SameLedgers t t' := by
  refine ⟨fun r => ?_, fun q => ?_⟩
  · simp only [Tree.root, roots]
  · simp only [Tree.queue, queues]

theorem of_onlyFibers (h : OnlyFibers t t') : SameLedgers t t' := of_eq h.roots h.queues

theorem setRoot {g : Root → Root} (hg : ∀ x, (g x).lanes = x.lanes) (t : Tree) (r : RootId) :
    SameLedgers t (t.setRoot r g) := by
  refine ⟨fun s => ?_, fun _ => rfl⟩
  rw [root_setRoot]
  split
  · exact hg _
  · rfl

theorem setQueue {g : UpdateQueue → UpdateQueue} (hg : ∀ x, (g x).lanes = x.lanes) (t : Tree)
    (q : QueueId) : SameLedgers t (t.setQueue q g) := by
  refine ⟨fun _ => rfl, fun p => ?_⟩
  rw [queue_setQueue]
  split
  · exact hg _
  · rfl

/-- A new root has nothing to do. -/
theorem createRoot (t : Tree) (concurrent : Bool) :
    SameLedgers t (t.createRoot concurrent).2 :=
  ⟨Arena.read_add Root.lanes t.roots { current := _ } rfl, fun _ => rfl⟩

/-- A new queue remembers nothing. -/
theorem createQueue (t : Tree) (owner : FiberId) : SameLedgers t (t.createQueue owner).2 :=
  ⟨fun _ => rfl, Arena.read_add UpdateQueue.lanes t.queues { owner } rfl⟩

theorem appendPending (t : Tree) (q : QueueId) (u : UpdateId) :
    SameLedgers t (t.appendPending q u) := by
  have linked : ∀ t' : Tree, t'.roots = t.roots → t'.queues = t.queues →
      SameLedgers t (t'.setQueue q fun x => { x with newest := some u }) :=
    fun t' roots queues => (of_eq roots queues).trans (setQueue (fun _ => by rfl) t' q)
  unfold Tree.appendPending
  dsimp only
  split <;> exact linked _ rfl rfl

theorem markPath (t : Tree) (source : FiberId) (update : Option UpdateId) (lane : LaneSet) :
    SameLedgers t (markPath source update lane t).state := by
  have raised : SameLedgers t (t.raise source lane) := of_onlyFibers (onlyFibers_raise _ _ _)
  unfold Tree.markPath
  dsimp only
  split
  · unfold parkBelow
    split
    · exact raised.trans (of_eq rfl rfl)
    · exact raised
  · exact raised
  · exact raised

end SameLedgers

theorem lanes_setRootLanes (t : Tree) (r s : RootId) (g : LaneLedger → LaneLedger) :
    ((t.setRootLanes r g).root s).lanes =
      if r = s ∧ t.roots.has s then g (t.root s).lanes else (t.root s).lanes := by
  unfold setRootLanes
  rw [root_setRoot]
  split <;> rfl

end Tree

theorem Staging.sameLedgers_settle (e : StagedUpdate) (t : Tree) :
    t.SameLedgers (settle e t).state := by
  have queued : t.SameLedgers (queued t e) := by
    unfold Staging.queued
    split
    · exact .appendPending _ _ _
    · exact .refl t
  rw [(settle_eq e t).1]
  split
  · exact queued
  · exact queued.trans (.markPath _ _ _ _)

theorem Staging.sameLedgers_settleEach (es : List StagedUpdate) (t : Tree) :
    t.SameLedgers (settleEach t es) := by
  induction es generalizing t with
  | nil => exact .refl t
  | cons e es ih => exact (sameLedgers_settle e t).trans (ih _)

/-! ## Moves -/

namespace Move

/-- The move tells no root about lanes. -/
def spares : Move → Bool
  | ledger .. => false
  | entangle .. => false
  | _ => true

theorem sameLedgers_edit (e : TreeEdit) (t : Tree) : t.SameLedgers (e.apply t) := by
  cases e with
  | createRoot => exact .createRoot t _
  | createQueue => exact .createQueue t _
  | createChild => exact .of_onlyFibers (.createChild t _ _)
  | appendChild => exact .of_onlyFibers (.appendChild t _ _)
  | startTwin => exact .of_onlyFibers (.startTwin t _ _)
  | detach => exact .of_onlyFibers (.detach t _)
  | createBoundary f visible =>
    have added : t.SameLedgers { t with boundaries := t.boundaries.add { visible } } :=
      .of_eq rfl rfl
    exact added.trans (.of_onlyFibers (.setTwins _ f _))
  | reveal b lanes => exact .of_eq (t.frame_reveal b lanes).2.1 (t.frame_reveal b lanes).2.2
  | createFiber | clearLanes | setVisible => exact .of_eq rfl rfl

theorem sameLedgers_of_spares {s : Staging} {m : Move} (spares : m.spares) :
    s.tree.SameLedgers (m.apply s).tree := by
  cases m with
  | ledger | entangle => cases spares
  | edit e => exact sameLedgers_edit e s.tree
  | schedule fiber queue payload made lane =>
    have created : s.tree.SameLedgers (s.tree.createUpdate made payload).2 := .of_eq rfl rfl
    exact created.trans (.of_onlyFibers (.setTwins _ fiber _))
  | force fiber lane => exact .of_onlyFibers (.setTwins s.tree fiber _)
  | flush =>
    show s.tree.SameLedgers (Staging.flush s).state.tree
    rw [(Staging.flush_eq s).1]
    exact Staging.sameLedgers_settleEach _ _
  | take queue => exact .setQueue (fun _ => by rfl) s.tree queue
  | current root | pooled root => exact .setRoot (fun _ => by rfl) s.tree root
  | notes | streak => exact .of_eq rfl rfl

theorem sameLedgers_applyAll {s : Staging} {ms : List Move} (spare : ∀ m ∈ ms, m.spares) :
    s.tree.SameLedgers (applyAll s ms).tree := by
  induction ms generalizing s with
  | nil => exact .refl _
  | cons m ms ih =>
    exact (sameLedgers_of_spares (spare m (.head _))).trans (ih fun m' hm => spare m' (.tail _ hm))

/-- A transition is entangled with those that the queue remembers and that are pending, and the
queue remembers all of them. -/
theorem lanes_entangle (s : Staging) (root : RootId) (queue : QueueId) (lane : LaneSet) :
    let bond := ((s.tree.queue queue).lanes ∩ (s.tree.root root).lanes.pending) ∪ lane
    let t := (Move.apply s (.entangle root queue lane)).tree
    (∀ r, (t.root r).lanes =
      if lane.meets LaneSet.transitions ∧ root = r ∧ s.tree.roots.has r then
        (s.tree.root r).lanes.markEntangled bond
      else (s.tree.root r).lanes) ∧
    ∀ q, (t.queue q).lanes =
      if lane.meets LaneSet.transitions ∧ queue = q ∧ s.tree.queues.has q then bond
      else (s.tree.queue q).lanes := by
  intro bond t
  by_cases transition : lane.meets LaneSet.transitions
  · let remembered := s.tree.setQueue queue fun x => { x with lanes := bond }
    have made : t = remembered.setRootLanes root (·.markEntangled bond) :=
      congrArg Staging.tree (if_pos transition)
    simp only [made, transition, true_and]
    refine ⟨fun r => Tree.lanes_setRootLanes _ _ _ _, fun q => ?_⟩
    refine (congrArg UpdateQueue.lanes (Tree.queue_setQueue s.tree queue q _)).trans ?_
    split <;> rfl
  · have idle : t = s.tree := congrArg Staging.tree (if_neg transition)
    simp [idle, transition]

end Move

namespace Renderer

variable {r : Renderer} {fiber : FiberId} {queue : QueueId} {op : Operation}

/-- The root that is told about an update of the fiber. None is told if its commits go on for
ever. -/
def told? (r : Renderer) (fiber : FiberId) : Option RootId :=
  if r.staging.buffer.streak.exhausted then none else r.tree.findRoot? fiber

/-- The lanes of transitions on the queue once there is another one: those that are pending. -/
def bond (r : Renderer) (root : RootId) (queue : QueueId) (lane : LaneSet) : LaneSet :=
  ((r.tree.queue queue).lanes ∩ (r.tree.root root).lanes.pending) ∪ lane

theorem bond_subset (r : Renderer) (root : RootId) (queue : QueueId) (lane : LaneSet) :
    r.bond root queue lane ⊆ ((r.tree.root root).lanes.markUpdated lane).pending := by
  intro l mem
  refine LaneLedger.mem_pending_markUpdated.mpr ?_
  rcases LaneSet.mem_union.mp mem with old | new
  · exact .inl (LaneSet.mem_inter.mp old).2
  · exact .inr new

/-- What a root that is there is told in the call. -/
def tells (r : Renderer) (root : RootId) : Operation → List LedgerCall
  | .dispatch fiber queue _ =>
    let lane := r.laneFor fiber
    if r.told? fiber = some root then
      .updated lane ::
        if lane.meets LaneSet.transitions then [.entangled (r.bond root queue lane)] else []
    else []
  | .forceUpdate fiber =>
    if r.told? fiber = some root then [.updated (r.laneFor fiber)] else []
  | .suspended about lanes => if about = root then [.suspended lanes] else []
  | .pinged about lanes => if about = root then [.pinged lanes] else []
  | .starved about now =>
    if about = root then [.starved now r.settings.expiration] else []
  | .commit about remaining =>
    if about = root then [.finished (remaining ∪ r.staging.buffer.lanes)] else []
  | _ => []

def ledgerCalls (r : Renderer) (root : RootId) (op : Operation) : List LedgerCall :=
  if r.tree.roots.has root then r.tells root op else []

/-- The lanes of a queue after the call. -/
def queueLanes (r : Renderer) (queue : QueueId) : Operation → LaneSet
  | .dispatch fiber q _ =>
    let lane := r.laneFor fiber
    match r.told? fiber with
    | none => (r.tree.queue queue).lanes
    | some root =>
      if lane.meets LaneSet.transitions ∧ q = queue ∧ r.tree.queues.has queue then
        r.bond root queue lane
      else (r.tree.queue queue).lanes
  | _ => (r.tree.queue queue).lanes

/-! ## The calls -/

/-- All that the call does to ledgers and to the lanes of queues is what roots are told in it, and
what queues have after it. -/
def Accounted (r : Renderer) (op : Operation) : Prop :=
  (∀ root, ((r.next op).tree.root root).lanes =
    (r.tree.root root).lanes.after (r.ledgerCalls root op)) ∧
  ∀ queue, ((r.next op).tree.queue queue).lanes = r.queueLanes queue op

theorem tellMoves_eq (r : Renderer) (fiber : FiberId) (told : RootId → List Move) :
    r.tellMoves fiber told = .streak (·.checked) :: (r.told? fiber).elim [] told := by
  unfold tellMoves told?
  split
  · rfl
  · cases r.tree.findRoot? fiber <;> rfl

/-- Staging an update leaves roots and queues alone. -/
theorem frame_stage (s : Staging) (entry : StagedUpdate) (g : CommitStreak → CommitStreak) :
    let t := (Move.apply (s.stage entry) (.streak g)).tree
    t.roots = s.tree.roots ∧ t.queues = s.tree.queues :=
  have added := Tree.OnlyFibers.setTwins s.tree entry.fiber _
  ⟨added.roots, added.queues⟩

theorem ledgers_dispatch {payload : Payload} {about : RootId}
    (told : r.told? fiber = some about) : r.Accounted (.dispatch fiber queue payload) := by
  let lane := r.laneFor fiber
  let entry : StagedUpdate := { fiber, queue, update := r.tree.updates.next, lane }
  let s := Move.apply ((Move.onTree r.staging fun t => (t.createUpdate lane payload).2).stage entry)
    (.streak (·.checked))
  obtain ⟨roots, queues⟩ : s.tree.roots = r.tree.roots ∧ s.tree.queues = r.tree.queues :=
    frame_stage _ entry _
  let updated := Move.apply s (.ledger about (·.markUpdated lane))
  have ends : (r.next (.dispatch fiber queue payload)).tree =
      (Move.apply updated (.entangle about queue lane)).tree := by
    show (r.next (.dispatch fiber queue payload)).staging.tree = _
    rw [staging_next]
    simp only [moves, tellMoves_eq, told]
    rfl
  have ledger : ∀ root, (updated.tree.root root).lanes =
      if about = root ∧ r.tree.roots.has root then (r.tree.root root).lanes.markUpdated lane
      else (r.tree.root root).lanes := by
    intro root
    refine (Tree.lanes_setRootLanes s.tree about root _).trans ?_
    simp only [Tree.root, roots]
  have hasRoot : ∀ root, updated.tree.roots.has root = r.tree.roots.has root := by
    intro root
    exact (Tree.has_setRoot _ _ _ _).trans (congrArg (Arena.has · root) roots)
  have remembered : ∀ q, (updated.tree.queue q).lanes = (r.tree.queue q).lanes := by
    intro q
    exact congrArg (fun qs => (Arena.get qs q).lanes) queues
  have hasQueue : ∀ q, updated.tree.queues.has q = r.tree.queues.has q :=
    fun q => congrArg (Arena.has · q) queues
  -- That the root was told of the lane just now makes no difference, as the lane is in any case.
  have bond : ((updated.tree.queue queue).lanes ∩ (updated.tree.root about).lanes.pending) ∪ lane =
      r.bond about queue lane := by
    refine LaneSet.ext_mem fun l => ?_
    rw [remembered, ledger]
    split
    · simp only [Renderer.bond, LaneSet.mem_union, LaneSet.mem_inter,
        LaneLedger.mem_pending_markUpdated]
      by_cases mine : l ∈ lane <;> simp [mine]
    · rfl
  obtain ⟨atRoots, atQueues⟩ := Move.lanes_entangle updated about queue lane
  simp only [bond] at atRoots atQueues
  refine ⟨fun root => ?_, fun q => ?_⟩
  · rw [ends, atRoots, ledger, hasRoot]
    unfold ledgerCalls tells
    by_cases there : r.tree.roots.has root
    · by_cases mine : about = root
      · subst mine
        simp only [there, and_self, and_true, if_true, told]
        split <;> rfl
      · simp [mine, told]
    · simp [there]
  · rw [ends, atQueues, remembered, hasQueue]
    simp only [queueLanes, told]
    split
    next h =>
      obtain ⟨_, rfl, _⟩ := h
      rfl
    next => rfl

/-- Calls that tell no root about lanes. -/
theorem ledgers_of_spares (spare : ∀ m ∈ r.moves op, m.spares)
    (tells : ∀ root, r.tells root op = [])
    (remembers : ∀ queue, r.queueLanes queue op = (r.tree.queue queue).lanes) : r.Accounted op := by
  have same : r.tree.SameLedgers (r.next op).tree := by
    show r.tree.SameLedgers (r.next op).staging.tree
    rw [staging_next]
    exact Move.sameLedgers_applyAll spare
  refine ⟨fun root => ?_, fun queue => (same.queue queue).trans (remembers queue).symm⟩
  simp [same.root, ledgerCalls, tells]

/-- Calls that tell one root one thing, possibly after a change that leaves all roots. -/
theorem ledgers_of_ledger (before : List Move) {rest : List Move} {about : RootId} (c : LedgerCall)
    (made : r.moves op = before ++ .ledger about (·.call c) :: rest)
    (spare : ∀ m ∈ before, m.spares) (spare' : ∀ m ∈ rest, m.spares)
    (roots : (Move.applyAll r.staging before).tree.roots = r.tree.roots)
    (tells : ∀ root, r.tells root op = if about = root then [c] else [])
    (remembers : ∀ queue, r.queueLanes queue op = (r.tree.queue queue).lanes) : r.Accounted op := by
  let s := Move.applyAll r.staging before
  have first : r.tree.SameLedgers s.tree := Move.sameLedgers_applyAll spare
  have last : (s.tree.setRootLanes about (·.call c)).SameLedgers (r.next op).tree := by
    show Tree.SameLedgers _ (r.next op).staging.tree
    rw [staging_next, made, Move.applyAll_append]
    exact Move.sameLedgers_applyAll (s := Move.apply s (.ledger about (·.call c))) spare'
  refine ⟨fun root => ?_, fun queue => ?_⟩
  · rw [last.root, Tree.lanes_setRootLanes, first.root, roots, ledgerCalls, tells]
    by_cases there : r.tree.roots.has root
    · by_cases mine : about = root <;> simp [there, mine]
    · simp [there]
  · exact (last.queue queue).trans ((first.queue queue).trans (remembers queue).symm)

theorem spares_tellMoves (h : r.told? fiber = none) (told : RootId → List Move) :
    ∀ m ∈ r.tellMoves fiber told, m.spares := by
  rw [tellMoves_eq, h]
  exact List.forall_mem_singleton.mpr rfl

theorem spares_switchMoves (r : Renderer) (root : RootId) :
    ∀ m ∈ r.switchMoves root, m.spares :=
  forall_switchMoves (Q := (Move.spares · = true)) fun _ _ => rfl

/-- The ledger of a root after a call is the one after its ledger calls. -/
theorem ledgers_next (r : Renderer) (op : Operation) : r.Accounted op := by
  cases op with
  | dispatch fiber queue payload =>
    cases told : r.told? fiber with
    | some about => exact ledgers_dispatch told
    | none =>
      refine ledgers_of_spares (List.forall_mem_cons.mpr ⟨rfl, spares_tellMoves told _⟩) ?_ ?_
      · simp [tells, told]
      · simp [queueLanes, told]
  | forceUpdate fiber =>
    cases told : r.told? fiber with
    | some about =>
      let staged : List Move := [.force fiber (r.laneFor fiber), .streak (·.checked)]
      have made : r.moves (.forceUpdate fiber) =
          staged ++ [.ledger about (·.call (.updated (r.laneFor fiber)))] := by
        simp only [moves, tellMoves_eq, told]
        rfl
      refine ledgers_of_ledger staged _ made ?_ ?_ ?_ ?_ fun _ => rfl
      · simp [staged, Move.spares]
      · exact List.forall_mem_nil _
      · exact (frame_stage r.staging _ _).1
      · simp [tells, told]
    | none =>
      refine ledgers_of_spares (List.forall_mem_cons.mpr ⟨rfl, spares_tellMoves told _⟩) ?_ ?_
      · simp [tells, told]
      · exact fun _ => rfl
  | suspended about lanes =>
    exact ledgers_of_ledger [] (.suspended lanes) rfl (List.forall_mem_nil _)
      (List.forall_mem_nil _) rfl (fun _ => rfl) fun _ => rfl
  | pinged about lanes =>
    exact ledgers_of_ledger [] (.pinged lanes) rfl (List.forall_mem_nil _)
      (List.forall_mem_nil _) rfl (fun _ => rfl) fun _ => rfl
  | starved about now =>
    exact ledgers_of_ledger [] (.starved now r.settings.expiration) rfl (List.forall_mem_nil _)
      (List.forall_mem_nil _) rfl (fun _ => rfl) fun _ => rfl
  | commit about remaining =>
    refine ledgers_of_ledger [] (.finished (remaining ∪ r.staging.buffer.lanes)) rfl
      (List.forall_mem_nil _) ?_ rfl (fun _ => rfl) fun _ => rfl
    refine List.forall_mem_append.mpr ⟨spares_switchMoves r about, ?_⟩
    simp [Move.spares]
  | dispatchQuietly fiber queue payload =>
    refine ledgers_of_spares (List.forall_mem_cons.mpr ⟨rfl, ?_⟩) (fun _ => rfl) fun _ => rfl
    split <;> simp [Move.spares]
  | prepare about =>
    refine ledgers_of_spares ?_ (fun _ => rfl) fun _ => rfl
    simp only [moves]
    split <;> simp [Move.spares]
  | begin fiber =>
    refine ledgers_of_spares ?_ (fun _ => rfl) fun _ => rfl
    simp only [moves]
    split <;> simp [Move.spares]
  | readContext context =>
    refine ledgers_of_spares ?_ (fun _ => rfl) fun _ => rfl
    simp only [moves]
    split <;> simp [Move.spares]
  | edit | flush | takePending =>
    exact ledgers_of_spares (List.forall_mem_singleton.mpr rfl) (fun _ => rfl) fun _ => rfl
  | enter | leave | entangle | settle | pushProvider | popProvider | rerender | complete =>
    exact ledgers_of_spares (List.forall_mem_nil _) (fun _ => rfl) fun _ => rfl

end Renderer

end ConcurrentRender
