import ConcurrentRender.Proofs.Render.Moves
import ConcurrentRender.Proofs.StepLaws

/-!
# The moves that calls make

`Renderer.moves` lists for each call the moves that it makes on the tree and the staged
updates: what was staged, when a flush was made, which root was told about which lanes.

Results:
1. `staging_next`: a call does to the tree and the staged updates what its moves do.
2. `fit_moves`: a call with things that are there, and whose flush succeeds, makes moves that
   fit.
-/

namespace ConcurrentRender

/-- A change that reads the entry beforehand may read it while changing it. -/
theorem Arena.modify_get {k : Kind} {α : Type} [Inhabited α] (a : Arena k α) (i : Id k)
    (f : α → α → α) : a.modify i (f (a.get i)) = a.modify i fun x => f x x := by
  have same : a.items.modify i.index (f (a.get i)) = a.items.modify i.index fun x => f x x := by
    refine Array.ext (by simp) fun n hn _ => ?_
    rw [Array.getElem_modify, Array.getElem_modify]
    split
    next e =>
      have there : i.index < a.items.size := by simpa [e] using hn
      simp [Arena.get, Arena.get?, ← e, there]
    next => rfl
  simp only [Arena.modify, same]

namespace CommitStreak

/-- The streak went past its limit. -/
def exhausted (s : CommitStreak) : Bool := s.count > s.limit

/-- A streak that went past its limit starts over. -/
def checked (s : CommitStreak) : CommitStreak := if s.exhausted then s.reset else s

theorem check_eq (s : CommitStreak) :
    check s =
      { state := s.checked
        result := if s.exhausted then .error (.maximumUpdateDepth s.limit) else .ok () } := by
  unfold check checked exhausted
  by_cases h : s.count > s.limit <;> simp [h]

end CommitStreak

/-- What is left of the pooled cache of a root when only `remaining` is left to do. -/
def Pool.kept (remaining : LaneSet) (x : Root) : Option CacheId × LaneSet :=
  let lanes := x.pooledCacheLanes ∩ remaining
  (if lanes.isEmpty then none else x.pooledCache, lanes)

theorem Pool.run_release (remaining : LaneSet) (priority : TaskPriority) (p : Pool) :
    (release remaining priority p).result = .ok () ∧
      (release remaining priority p).state.root =
        { p.root with
          pooledCache := (kept remaining p.root).1
          pooledCacheLanes := (kept remaining p.root).2 } := by
  unfold release kept
  simp only [StepM.run_change_bind, StepM.run_look_bind]
  cases (p.root.pooledCacheLanes ∩ remaining).isEmpty <;> cases p.root.pooledCache
  · exact ⟨rfl, rfl⟩
  · exact ⟨rfl, rfl⟩
  · exact ⟨rfl, rfl⟩
  next c =>
    refine ⟨?_, rfl⟩
    simp only [StepM.run_change_bind, StepM.focus, CacheHost.release]
    split <;> rfl

namespace Renderer

/-- The lane that an update of the fiber gets. -/
def laneFor (r : Renderer) (fiber : FiberId) : LaneSet := (r.pickLane (r.request fiber)).1

/-- What follows when a change of the fiber was staged: the root above it is told, unless
its commits go on for ever. -/
def tellMoves (r : Renderer) (fiber : FiberId) (told : RootId → List Move) : List Move :=
  .streak (·.checked) ::
    if r.staging.buffer.streak.exhausted then []
    else match r.tree.findRoot? fiber with
      | none => []
      | some root => told root

/-- The twin at the top of a root that was being rendered becomes the committed one. -/
def switchMoves (r : Renderer) (root : RootId) : List Move :=
  if r.renderRoot = some root then
    match (r.tree.fiber (r.tree.root root).current).twin with
    | none => []
    | some twin => [.current root twin]
  else []

/-- What a call does to the tree and the staged updates. -/
def moves (r : Renderer) : Operation → List Move
  | .edit e => [.edit e]
  | .dispatch fiber queue payload =>
    let lane := r.laneFor fiber
    .schedule fiber queue payload lane lane ::
      r.tellMoves fiber fun root => [.ledger root (·.markUpdated lane), .entangle root queue lane]
  | .dispatchQuietly fiber queue payload =>
    .schedule fiber queue payload (r.laneFor fiber) ∅ ::
      if r.isRendering then [] else [.flush]
  | .forceUpdate fiber =>
    let lane := r.laneFor fiber
    .force fiber lane :: r.tellMoves fiber fun root => [.ledger root (·.markUpdated lane)]
  | .flush => [.flush]
  | .takePending queue => [.take queue]
  | .suspended root lanes => [.ledger root (·.markSuspended lanes)]
  | .pinged root lanes => [.ledger root (·.markPinged lanes)]
  | .starved root now => [.ledger root fun g => (g.markStarved now r.settings.expiration).1]
  | .prepare root =>
    if (r.nextLanes root).isEmpty then []
    else [.edit (.startTwin (r.tree.root root).current none), .flush]
  | .begin fiber =>
    match (r.tree.fiber fiber).dependencies with
    | none => []
    | some _ => [.notes fiber fun x => (some {}, x.flags)]
  | .readContext context =>
    match r.contexts.path.rendering with
    | none => []
    | some fiber =>
      let seen := (r.contexts.registry.valueOrUnit context r.contexts.path.slot).1
      let noted := ContextView.noteRead (!r.contexts.path.hasRead) { context, seen }
      [.notes fiber fun x => ((noted x).dependencies, (noted x).flags)]
  | .commit root remaining =>
    let left := remaining ∪ r.staging.buffer.lanes
    .ledger root (·.markFinished left) ::
      r.switchMoves root ++
      [.pooled root (Pool.kept left), .streak (·.record root (left.meets LaneSet.blocking)),
        .streak (·.checked)]
  | _ => []

/-! ## The moves of each call -/

theorem run_check (s : Staging) :
    Staging.onStreak CommitStreak.check s =
      { state := Move.apply s (.streak (·.checked))
        result := if s.buffer.streak.exhausted then
            .error (.maximumUpdateDepth s.buffer.streak.limit) else .ok () } := by
  unfold Staging.onStreak StepM.focus
  rw [CommitStreak.check_eq]
  rfl

/-- Staging a change leaves what is above alone. -/
theorem findRoot?_stage (s : Staging) (entry : StagedUpdate) (f : FiberId) :
    (s.stage entry).tree.findRoot? f = s.tree.findRoot? f :=
  (Tree.sameShape_addLanes s.tree entry.fiber entry.lane).findRoot? f

theorem run_enqueue (entry : StagedUpdate) (s : Staging) :
    (Staging.enqueue entry s).state = Move.apply (s.stage entry) (.streak (·.checked)) ∧
      (Staging.enqueue entry s).result =
        if s.buffer.streak.exhausted then .error (.maximumUpdateDepth s.buffer.streak.limit)
        else .ok (s.tree.findRoot? entry.fiber) := by
  unfold Staging.enqueue Staging.findRoot
  simp only [StepM.run_change_bind, ← findRoot?_stage s entry]
  have check := run_check (s.stage entry)
  by_cases exhausted : s.buffer.streak.exhausted
  · have stops : (Staging.onStreak CommitStreak.check (s.stage entry)).result =
        .error (.maximumUpdateDepth s.buffer.streak.limit) := by
      rw [check]
      exact if_pos exhausted
    refine ⟨(StepM.run_bind_of_error stops).1.trans ?_, (StepM.run_bind_of_error stops).2.trans ?_⟩
    · rw [check]
    · rw [if_pos exhausted]
  · have goes : (Staging.onStreak CommitStreak.check (s.stage entry)).result = .ok () := by
      rw [check]
      exact if_neg exhausted
    refine ⟨(StepM.run_bind_of_ok goes).1.trans ?_, (StepM.run_bind_of_ok goes).2.trans ?_⟩
    · rw [check]
    · rw [if_neg exhausted, check]
      rfl

theorem tellMoves_congr {r r' : Renderer} (fibers : r'.tree.fibers = r.tree.fibers)
    (streak : r'.staging.buffer.streak = r.staging.buffer.streak) (fiber : FiberId)
    (told : RootId → List Move) : r'.tellMoves fiber told = r.tellMoves fiber told := by
  unfold tellMoves
  rw [streak, (Tree.SameShape.of_fibers_eq fibers).findRoot?]

/-- What follows when a change was staged is reached unless commits go on for ever. -/
theorem run_bind_enqueue {α : Type} (r : Renderer) (entry : StagedUpdate)
    (rest : Option RootId → StepM Renderer α) :
    let staged := (onStaging (Staging.enqueue entry) r).state
    let o := (onStaging (Staging.enqueue entry) >>= rest) r
    let reached := rest (r.tree.findRoot? entry.fiber) staged
    if r.staging.buffer.streak.exhausted then
      o.state = staged ∧ o.result = .error (.maximumUpdateDepth r.staging.buffer.streak.limit)
    else o.state = reached.state ∧ o.result = reached.result := by
  intro staged o reached
  have result := (run_enqueue entry r.staging).2
  split
  next exhausted =>
    rw [if_pos exhausted] at result
    have stops : (onStaging (Staging.enqueue entry) r).result = .error _ := result
    exact StepM.run_bind_of_error stops
  next going =>
    rw [if_neg going] at result
    have goes : (onStaging (Staging.enqueue entry) r).result = .ok _ := result
    exact StepM.run_bind_of_ok goes

/-- What follows when a change was staged: `told` is what the root is told. -/
theorem staging_enqueue {r : Renderer} {entry : StagedUpdate} {α : Type}
    {rest : Option RootId → StepM Renderer α} (told : RootId → List Move)
    (none : ∀ r : Renderer, (rest none r).state.staging = r.staging)
    (some : ∀ (r : Renderer) root,
      (rest (some root) r).state.staging = Move.applyAll r.staging (told root)) :
    ((onStaging (Staging.enqueue entry) >>= rest) r).state.staging =
      Move.applyAll (r.staging.stage entry) (r.tellMoves entry.fiber told) := by
  have staged : (onStaging (Staging.enqueue entry) r).state.staging = _ :=
    (run_enqueue entry r.staging).1
  have run := run_bind_enqueue r entry rest
  unfold tellMoves
  rw [Move.applyAll_cons, ← staged]
  split at run
  next exhausted => rw [run.1, if_pos exhausted, Move.applyAll_nil]
  next going =>
    rw [run.1, if_neg going]
    cases r.tree.findRoot? entry.fiber with
    | none => exact none _
    | some root => exact some _ root

theorem run_createUpdate (lane : LaneSet) (payload : Payload) {α : Type}
    (f : UpdateId → StepM Renderer α) (r : Renderer) :
    (createUpdate lane payload >>= f) r =
      f r.tree.updates.next (r.setTree fun t => (t.createUpdate lane payload).2) := rfl

theorem staging_entangleOnQueue (r : Renderer) (root : RootId) (queue : QueueId)
    (lane : LaneSet) :
    (r.entangleOnQueue root queue lane).staging =
      Move.apply r.staging (.entangle root queue lane) := by
  unfold entangleOnQueue
  simp only [Move.apply]
  split <;> rfl

theorem staging_dispatch (r : Renderer) (fiber : FiberId) (queue : QueueId) (payload : Payload) :
    (dispatch fiber queue payload r).state.staging =
      Move.applyAll r.staging (r.moves (.dispatch fiber queue payload)) := by
  unfold dispatch requestLane
  rw [StepM.run_take_bind, run_createUpdate]
  let lane := r.laneFor fiber
  refine (staging_enqueue
    (fun root => [.ledger root (·.markUpdated lane), .entangle root queue lane])
    (fun _ => rfl) fun r' root => ?_).trans
      (congrArg (Move.applyAll _) (tellMoves_congr (by rfl) (by rfl) _ _))
  exact staging_entangleOnQueue (r'.scheduleOnRoot root lane) root queue lane

theorem staging_forceUpdate (r : Renderer) (fiber : FiberId) :
    (forceUpdate fiber r).state.staging =
      Move.applyAll r.staging (r.moves (.forceUpdate fiber)) := by
  unfold forceUpdate requestLane
  rw [StepM.run_take_bind]
  let lane := r.laneFor fiber
  exact (staging_enqueue (fun root => [.ledger root (·.markUpdated lane)]) (fun _ => rfl)
    fun _ _ => rfl).trans (congrArg (Move.applyAll _) (tellMoves_congr (by rfl) (by rfl) _ _))

/-- A quiet update is staged without a lane, and flushed unless a render is under way. -/
theorem run_dispatchQuietly (r : Renderer) (fiber : FiberId) (queue : QueueId)
    (payload : Payload) :
    let staged := Move.apply r.staging (.schedule fiber queue payload (r.laneFor fiber) ∅)
    (dispatchQuietly fiber queue payload r).state.staging =
        (if r.isRendering then staged else (Staging.flush staged).state) ∧
      (dispatchQuietly fiber queue payload r).result =
        (if r.isRendering then .ok () else (Staging.flush staged).result).map
          fun _ => r.tree.updates.next := by
  have same : ((r.pickLane (r.request fiber)).2.setTree fun t =>
    (t.createUpdate (r.pickLane (r.request fiber)).1 payload).2).isRendering = r.isRendering := rfl
  unfold dispatchQuietly requestLane
  rw [StepM.run_take_bind, run_createUpdate, StepM.run_look_bind, (StepM.run_bind_pure _ _ _).1,
    (StepM.run_bind_pure _ _ _).2, same]
  unfold Staging.enqueueQuietly
  cases r.isRendering <;> exact ⟨rfl, rfl⟩

theorem staging_dispatchQuietly (r : Renderer) (fiber : FiberId) (queue : QueueId)
    (payload : Payload) :
    (dispatchQuietly fiber queue payload r).state.staging =
      Move.applyAll r.staging (r.moves (.dispatchQuietly fiber queue payload)) := by
  refine (run_dispatchQuietly r fiber queue payload).1.trans ?_
  simp only [moves, Move.applyAll_cons]
  cases r.isRendering <;> rfl

theorem staging_prepare (r : Renderer) (root : RootId) :
    (prepare root r).state.staging = Move.applyAll r.staging (r.moves (.prepare root)) := by
  unfold prepare
  simp only [moves]
  rw [StepM.run_look_bind]
  by_cases idle : (r.nextLanes root).isEmpty
  · rw [if_pos idle, if_pos idle]
    rfl
  · rw [if_neg idle, if_neg idle, StepM.run_look_bind, StepM.run_change_bind,
      (StepM.run_bind_pure _ _ _).1]
    rfl

theorem current_setRootLanes (t : Tree) (root r : RootId) (g : LaneLedger → LaneLedger) :
    ((t.setRootLanes root g).root r).current = (t.root r).current := by
  unfold Tree.setRootLanes
  rw [Tree.root_setRoot]
  split <;> rfl

theorem staging_switchTop (r : Renderer) (root : RootId) :
    (r.switchTop root).staging = Move.applyAll r.staging (r.switchMoves root) := by
  unfold switchTop switchMoves
  split
  · cases (r.tree.fiber (r.tree.root root).current).twin <;> rfl
  · rfl

theorem run_onPool_release (r : Renderer) (root : RootId) (remaining : LaneSet)
    (priority : TaskPriority) :
    (onPool root (Pool.release remaining priority) r).result = .ok () ∧
      (onPool root (Pool.release remaining priority) r).state.staging =
        Move.apply r.staging (.pooled root (Pool.kept remaining)) := by
  obtain ⟨result, released⟩ :=
    Pool.run_release remaining priority { root := r.tree.root root, host := r.host }
  refine ⟨result, ?_⟩
  show Staging.mk r.staging.buffer (r.tree.setRoot root fun _ => _) = _
  rw [released]
  exact congrArg (fun roots => Staging.mk r.staging.buffer { r.tree with roots })
    (Arena.modify_get r.tree.roots root fun x _ =>
      { x with
        pooledCache := (Pool.kept remaining x).1
        pooledCacheLanes := (Pool.kept remaining x).2 })

theorem switchMoves_setRootLanes (r : Renderer) (root : RootId) (g : LaneLedger → LaneLedger) :
    (r.setTree fun t => t.setRootLanes root g).switchMoves root = r.switchMoves root := by
  have current := current_setRootLanes r.tree root root g
  unfold switchMoves
  rw [show ((r.setTree fun t => t.setRootLanes root g).tree.root root).current = _ from current]
  rfl

/-- The rest of the commit. -/
theorem staging_endCommit (r : Renderer) (root : RootId) (left : LaneSet)
    (priority : TaskPriority) (finished : LaneSet) :
    ((do
      onPool root (Pool.release left priority)
      onStaging (Staging.onStreak
        (StepM.change fun s => s.record root (left.meets LaneSet.blocking)))
      StepM.change endRender
      onStaging (Staging.onStreak CommitStreak.check)
      return finished : StepM Renderer LaneSet) r).state.staging =
      Move.applyAll r.staging
        [.pooled root (Pool.kept left), .streak (·.record root (left.meets LaneSet.blocking)),
          .streak (·.checked)] := by
  obtain ⟨result, released⟩ := run_onPool_release r root left priority
  rw [(StepM.run_bind_of_ok result).1]
  generalize (onPool root (Pool.release left priority) r).state = r' at released ⊢
  unfold onStaging Staging.onStreak
  rw [StepM.focus_change, StepM.focus_change, StepM.run_change_bind, StepM.run_change_bind,
    (StepM.run_bind_pure _ _ _).1]
  show (Staging.onStreak CommitStreak.check _).state = _
  rw [run_check, Move.applyAll_cons, ← released]
  rfl

theorem staging_commit (r : Renderer) (root : RootId) (remaining : LaneSet) :
    (commit root remaining r).state.staging =
      Move.applyAll r.staging (r.moves (.commit root remaining)) := by
  simp only [moves]
  unfold commit
  rw [StepM.run_change_bind, StepM.run_look_bind, StepM.run_look_bind, StepM.run_change_bind,
    StepM.run_change_bind, StepM.run_look_bind]
  refine (staging_endCommit _ root _ _ _).trans ?_
  -- Which fiber becomes the committed one does not depend on the lanes of the root, which have
  -- changed by then.
  rw [staging_switchTop, ← Move.applyAll_append, List.cons_append, Move.applyAll_cons]
  rw [switchMoves_setRootLanes]
  rfl

theorem staging_begin (r : Renderer) (fiber : FiberId) :
    (begin fiber r).state.staging = Move.applyAll r.staging (r.moves (.begin fiber)) := by
  unfold begin ContextView.prepare
  simp only [moves, StepM.run_take]
  cases deps : (r.tree.fiber fiber).dependencies <;> rfl

theorem staging_readContext (r : Renderer) (context : ContextId) :
    (readContext context r).state.staging =
      Move.applyAll r.staging (r.moves (.readContext context)) := by
  unfold readContext StepM.focus ContextView.read
  simp only [moves]
  cases r.contexts.path.rendering with
  | none => rfl
  | some fiber =>
    refine congrArg (fun g => Staging.mk r.staging.buffer (r.tree.setFiber fiber g)) ?_
    funext x
    unfold ContextView.noteRead
    cases r.contexts.path.hasRead <;> rfl

theorem staging_endEvent (r : Renderer) : r.endEvent.staging = r.staging := by
  unfold endEvent
  split <;> rfl

theorem staging_leave (r : Renderer) (saved : SavedScope) :
    (r.leave saved).staging = r.staging :=
  (staging_endEvent (r.restore saved)).trans (by cases saved <;> rfl)

theorem staging_entangle (r : Renderer) (runtime : Bool) :
    (entangle runtime r).state.staging = r.staging := by
  unfold entangle
  rw [StepM.run_look_bind]
  dsimp only
  rw [(StepM.run_bind_of_ok (a := (onActions _ r).result) rfl).1]
  cases (onActions (Actions.entangle runtime (r.supply.eventLane ∅).1) r).result with
  | ok p =>
    refine (staging_endEvent _).trans ?_
    cases p.2 <;> rfl
  | error e => exact staging_endEvent _

theorem staging_starved (r : Renderer) (root : RootId) (now : Nat) :
    (markStarved root now r).state.staging =
      Move.applyAll r.staging (r.moves (.starved root now)) :=
  congrArg (fun roots => Staging.mk r.staging.buffer { r.tree with roots })
    (Arena.modify_get r.tree.roots root fun y x =>
      { x with lanes := (y.lanes.markStarved now r.settings.expiration).1 })

/-- A call does to the tree and the staged updates what its moves do. -/
theorem staging_next (r : Renderer) (op : Operation) :
    (r.next op).staging = Move.applyAll r.staging (r.moves op) := by
  cases op with
  | dispatch fiber queue payload => exact staging_dispatch r fiber queue payload
  | dispatchQuietly fiber queue payload => exact staging_dispatchQuietly r fiber queue payload
  | forceUpdate fiber => exact staging_forceUpdate r fiber
  | prepare root => exact staging_prepare r root
  | commit root remaining => exact staging_commit r root remaining
  | begin fiber => exact staging_begin r fiber
  | readContext context => exact staging_readContext r context
  | entangle runtime => exact staging_entangle r runtime
  | enter scope => cases scope <;> rfl
  | leave saved => exact staging_leave r saved
  | starved root now => exact staging_starved r root now
  | edit | settle | flush | takePending | suspended | pinged | pushProvider | popProvider
  | rerender | complete => rfl

/-! ## Which moves there are -/

/-- The streak is looked at, and then a root may be told. -/
theorem forall_tellMoves {Q : Move → Prop} (checked : Q (.streak (·.checked))) (r : Renderer)
    (fiber : FiberId) {told : RootId → List Move} (h : ∀ root, ∀ m ∈ told root, Q m) :
    ∀ m ∈ r.tellMoves fiber told, Q m := by
  unfold tellMoves
  refine List.forall_mem_cons.mpr ⟨checked, ?_⟩
  split
  · exact List.forall_mem_nil _
  · split
    · exact List.forall_mem_nil _
    · exact h _

/-- If anything, the twin of the committed fiber becomes the committed one. -/
theorem forall_switchMoves {Q : Move → Prop} {r : Renderer} {root : RootId}
    (h : ∀ w, (r.tree.fiber (r.tree.root root).current).twin = some w → Q (.current root w)) :
    ∀ m ∈ r.switchMoves root, Q m := by
  unfold switchMoves
  split
  · cases twin : (r.tree.fiber (r.tree.root root).current).twin with
    | none => exact List.forall_mem_nil _
    | some w => exact List.forall_mem_singleton.mpr (h w twin)
  · exact List.forall_mem_nil _

theorem idle_tellMoves (r : Renderer) (fiber : FiberId) {told : RootId → List Move}
    (h : ∀ root, ∀ m ∈ told root, m.idle) : ∀ m ∈ r.tellMoves fiber told, m.idle :=
  forall_tellMoves (Q := (Move.idle · = true)) rfl r fiber h

theorem idle_switchMoves (r : Renderer) (root : RootId) :
    ∀ m ∈ r.switchMoves root, m.idle :=
  forall_switchMoves (Q := (Move.idle · = true)) fun _ _ => rfl

/-- A commit makes idle moves only. -/
theorem idle_commit (r : Renderer) (root : RootId) (remaining : LaneSet) :
    ∀ m ∈ r.moves (.commit root remaining), m.idle := by
  simp only [moves]
  refine List.forall_mem_append.mpr ⟨List.forall_mem_cons.mpr ⟨rfl, r.idle_switchMoves root⟩, ?_⟩
  simp [Move.idle]

theorem idle_begin (r : Renderer) (fiber : FiberId) : ∀ m ∈ r.moves (.begin fiber), m.idle := by
  simp only [moves]
  split <;> simp [Move.idle]

theorem idle_readContext (r : Renderer) (context : ContextId) :
    ∀ m ∈ r.moves (.readContext context), m.idle := by
  simp only [moves]
  split <;> simp [Move.idle]

/-- The flush of a render that is started succeeds if the start does. -/
theorem flush_of_prepare {r : Renderer} {root : RootId} (busy : ¬ (r.nextLanes root).isEmpty)
    (ok : (prepare root r).result.isOk) :
    (Staging.flush
      (Move.apply r.staging (.edit (.startTwin (r.tree.root root).current none)))).result =
        .ok () := by
  unfold prepare at ok
  rw [StepM.run_look_bind, if_neg busy, StepM.run_look_bind, StepM.run_change_bind,
    (StepM.run_bind_pure _ _ _).2] at ok
  exact StepM.ok_of_isOk_map ok

/-- The flush of a quiet update succeeds if the call does. -/
theorem flush_of_dispatchQuietly {r : Renderer} {fiber : FiberId} {queue : QueueId}
    {payload : Payload} (resting : ¬ r.isRendering)
    (ok : (dispatchQuietly fiber queue payload r).result.isOk) :
    (Staging.flush
      (Move.apply r.staging (.schedule fiber queue payload (r.laneFor fiber) ∅))).result =
        .ok () := by
  rw [(run_dispatchQuietly r fiber queue payload).2, if_neg resting] at ok
  exact StepM.ok_of_isOk_map ok

/-- A call with things that are there, and whose flush succeeds, makes moves that fit. -/
theorem fit_moves {r : Renderer} {op : Operation} (fits : r.fits op) (flushes : r.flushes op) :
    Move.AllFit r.staging (r.moves op) := by
  cases op with
  | dispatch fiber queue payload =>
    refine ⟨(Bool.and_eq_true_iff.mp fits).2, Move.allFit_of_idle (idle_tellMoves r fiber ?_)⟩
    simp [Move.idle]
  | dispatchQuietly fiber queue payload =>
    refine ⟨(Bool.and_eq_true_iff.mp fits).2, ?_⟩
    split
    next => trivial
    next resting => exact ⟨flush_of_dispatchQuietly resting flushes, trivial⟩
  | forceUpdate fiber =>
    refine ⟨trivial, Move.allFit_of_idle (idle_tellMoves r fiber ?_)⟩
    simp [Move.idle]
  | flush => exact ⟨StepM.ok_of_isOk flushes, trivial⟩
  | prepare root =>
    simp only [moves]
    split
    next => trivial
    next busy => exact ⟨trivial, flush_of_prepare busy flushes, trivial⟩
  | begin fiber => exact Move.allFit_of_idle (idle_begin r fiber)
  | readContext context => exact Move.allFit_of_idle (idle_readContext r context)
  | commit root remaining => exact Move.allFit_of_idle (idle_commit r root remaining)
  | edit | takePending | suspended | pinged | starved => exact ⟨trivial, trivial⟩
  | enter | leave | entangle | settle | pushProvider | popProvider | rerender | complete =>
    exact trivial

end Renderer

end ConcurrentRender
