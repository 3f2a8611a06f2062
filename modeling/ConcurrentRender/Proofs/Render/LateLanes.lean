import ConcurrentRender.Proofs.Render.Calls
import ConcurrentRender.Proofs.Staging.Settle

/-!
# Lanes of updates made during a render

A commit leaves pending what the caller says, and what was staged while the render was under
way. The buffer remembers the latter as one set, which each flush empties. So a lane on
which an update was made during the render stays pending if no flush comes between the
update and the commit. After a flush, it stays pending only if the caller says so.

Results:
1. `pending_commit`: what a commit leaves pending.
2. `lanes_after`: what the buffer remembers after a run of calls within one render.
3. `pending_of_late_lanes`: hence what a commit leaves pending of the lanes on which updates
   were made since the render was started.
-/

namespace ConcurrentRender

theorem LaneSet.union_empty (x : LaneSet) : x ∪ ∅ = x := ext_mem fun l => by simp

/-- The call may be made while a render is under way, between its start and its commit. -/
def Operation.duringRender : Operation → Bool
  | .prepare _ => false
  | .commit .. => false
  | .dispatchQuietly .. => false
  | _ => true

/-- The fiber that the call makes an update of. -/
def Operation.fiber? : Operation → Option FiberId
  | .dispatch fiber _ _ => some fiber
  | .forceUpdate fiber => some fiber
  | _ => none

def Operation.isFlush : Operation → Bool
  | .flush => true
  | _ => false

/-! ## What the buffer remembers -/

namespace Move

/-- The lane that the move stages. -/
def stagedLane : Move → LaneSet
  | schedule _ _ _ _ lane => lane
  | force _ lane => lane
  | _ => ∅

def isFlush : Move → Bool
  | flush => true
  | _ => false

variable {s : Staging} {m : Move} {ms : List Move}

theorem lanes_apply (s : Staging) (m : Move) :
    (m.apply s).buffer.lanes =
      if m.isFlush then ∅ else s.buffer.lanes ∪ m.stagedLane := by
  cases m with
  | schedule | force => rfl
  | flush =>
    show (Staging.flush s).state.buffer.lanes = ∅
    rw [(Staging.flush_eq s).1]
  | take => exact (LaneSet.union_empty _).symm
  | edit | ledger | entangle | current | pooled | notes | streak =>
    exact (buffer_of_idle rfl).2.trans (LaneSet.union_empty _).symm

theorem lanes_of_idle (h : ∀ m ∈ ms, m.idle) :
    (applyAll s ms).buffer.lanes = s.buffer.lanes := by
  induction ms generalizing s with
  | nil => rfl
  | cons m ms ih =>
    rw [applyAll_cons, ih fun m' hm => h m' (.tail _ hm), (buffer_of_idle (h m (.head _))).2]

end Move

namespace Renderer

/-- The lane on which the call makes an update. -/
def laneOf (r : Renderer) : Operation → LaneSet
  | .dispatch fiber _ _ => r.laneFor fiber
  | .forceUpdate fiber => r.laneFor fiber
  | _ => ∅

/-- The lanes on which the calls make updates after which there is no flush. -/
def unflushedLanes (r : Renderer) : List Operation → LaneSet
  | [] => ∅
  | op :: ops =>
    if ops.any Operation.isFlush then (r.next op).unflushedLanes ops
    else r.laneOf op ∪ (r.next op).unflushedLanes ops

variable {r : Renderer} {root : RootId} {op : Operation} {ops : List Operation}

/-- A call within a render adds its lane to those that the buffer remembers, and a flush
forgets them. -/
theorem lanes_next (during : op.duringRender) :
    (r.next op).staging.buffer.lanes =
      if op.isFlush then ∅ else r.staging.buffer.lanes ∪ r.laneOf op := by
  rw [staging_next]
  cases op with
  | prepare | commit | dispatchQuietly => cases during
  | dispatch fiber queue payload =>
    refine (Move.lanes_of_idle (idle_tellMoves r fiber ?_)).trans (Move.lanes_apply _ _)
    simp [Move.idle]
  | forceUpdate fiber =>
    refine (Move.lanes_of_idle (idle_tellMoves r fiber ?_)).trans (Move.lanes_apply _ _)
    simp [Move.idle]
  | flush => exact Move.lanes_apply _ .flush
  | begin fiber =>
    exact (Move.lanes_of_idle (idle_begin r fiber)).trans (LaneSet.union_empty _).symm
  | readContext context =>
    exact (Move.lanes_of_idle (idle_readContext r context)).trans (LaneSet.union_empty _).symm
  | edit | takePending | suspended | pinged | starved | enter | leave | entangle | settle
  | pushProvider | popProvider | rerender | complete => exact (LaneSet.union_empty _).symm

theorem lanes_after (during : ∀ op ∈ ops, op.duringRender) :
    (r.after ops).staging.buffer.lanes =
      (if ops.any Operation.isFlush then ∅ else r.staging.buffer.lanes) ∪
        r.unflushedLanes ops := by
  induction ops generalizing r with
  | nil => exact LaneSet.ext_mem fun l => by simp [unflushedLanes]
  | cons op ops ih =>
    rw [after_cons, ih fun op hop => during op (.tail _ hop), lanes_next (during op (.head _))]
    refine LaneSet.ext_mem fun l => ?_
    -- What the first call adds, or forgets, only shows if no flush comes later.
    by_cases later : ops.any Operation.isFlush
    · simp [unflushedLanes, later]
    · by_cases now : op.isFlush
      · have none : r.laneOf op = ∅ := by cases op <;> first | rfl | cases now
        simp [unflushedLanes, later, now, none]
      · simp [unflushedLanes, later, now, or_assoc]

/-- The start of a render makes a flush, so the buffer remembers nothing. -/
theorem lanes_prepare (starts : ¬ (r.nextLanes root).isEmpty) :
    (r.next (.prepare root)).staging.buffer.lanes = ∅ := by
  rw [staging_next]
  simp only [moves, if_neg starts]
  exact Move.lanes_apply _ .flush

/-! ## What a commit leaves pending -/

/-- The moves of a commit that come after the root was told leave its lanes alone. -/
theorem lanes_setRoot {t : Tree} {root : RootId} {g : Root → Root}
    (h : ∀ x, (g x).lanes = x.lanes) :
    ((t.setRoot root g).root root).lanes = (t.root root).lanes := by
  rw [Tree.root_setRoot]
  split
  · exact h _
  · rfl

theorem lanes_switchMoves (r : Renderer) (s : Staging) (root : RootId) :
    ((Move.applyAll s (r.switchMoves root)).tree.root root).lanes = (s.tree.root root).lanes := by
  unfold switchMoves
  split
  · cases (r.tree.fiber (r.tree.root root).current).twin with
    | none => rfl
    | some twin => exact lanes_setRoot (t := s.tree) fun _ => rfl
  · rfl

theorem lanes_release (s : Staging) (root : RootId) (left : LaneSet)
    (f g : CommitStreak → CommitStreak) :
    ((Move.applyAll s [.pooled root (Pool.kept left), .streak f, .streak g]).tree.root
      root).lanes = (s.tree.root root).lanes :=
  lanes_setRoot (t := s.tree) fun _ => rfl

/-- A commit leaves pending what it is told to, and what the buffer remembers. -/
theorem pending_commit (there : r.tree.roots.has root) (remaining : LaneSet) :
    ((r.next (.commit root remaining)).tree.root root).lanes.pending =
      remaining ∪ r.staging.buffer.lanes := by
  let told := r.tree.setRootLanes root (·.markFinished (remaining ∪ r.staging.buffer.lanes))
  have finished : (told.root root).lanes =
      (r.tree.root root).lanes.markFinished (remaining ∪ r.staging.buffer.lanes) :=
    congrArg Root.lanes ((Tree.root_setRoot r.tree root root _).trans (if_pos ⟨rfl, there⟩))
  show ((r.next (.commit root remaining)).staging.tree.root root).lanes.pending = _
  rw [staging_next]
  simp only [moves]
  rw [Move.applyAll_append, lanes_release, Move.applyAll_cons, lanes_switchMoves]
  exact congrArg LaneLedger.pending finished

theorem size_roots_apply (s : Staging) (m : Move) :
    s.tree.roots.size ≤ (m.apply s).tree.roots.size := by
  cases m with
  | edit e =>
    by_cases adds : ∃ concurrent, e = .createRoot concurrent
    · obtain ⟨concurrent, rfl⟩ := adds
      exact (Arena.size_add ..).symm ▸ Nat.le_succ _
    · exact Nat.le_of_eq (congrArg Arena.size
        (TreeEdit.roots_apply (fun c hc => adds ⟨c, hc⟩) s.tree).symm)
  | schedule fiber queue payload made lane =>
    exact Nat.le_of_eq (congrArg Arena.size (Tree.OnlyFibers.setTwins
      (s.tree.createUpdate made payload).2 fiber _).roots.symm)
  | force fiber lane =>
    exact Nat.le_of_eq (congrArg Arena.size (Tree.OnlyFibers.setTwins s.tree fiber _).roots.symm)
  | flush =>
    show _ ≤ (Staging.flush s).state.tree.roots.size
    rw [(Staging.flush_eq s).1, Staging.roots_settleEach]
  | entangle root queue lane =>
    simp only [Move.apply]
    split
    · exact Nat.le_of_eq (Tree.size_setRoot _ root _).symm
    · exact Nat.le_refl _
  | ledger root | current root | pooled root =>
    exact Nat.le_of_eq (Tree.size_setRoot _ root _).symm
  | take | notes | streak => exact Nat.le_refl _

/-- Roots are never removed. -/
theorem has_root_next (there : r.tree.roots.has root) (op : Operation) :
    (r.next op).tree.roots.has root := by
  have grows : ∀ (ms : List Move) (s : Staging),
      s.tree.roots.size ≤ (Move.applyAll s ms).tree.roots.size := by
    intro ms
    induction ms with
    | nil => exact fun _ => Nat.le_refl _
    | cons m ms ih => exact fun s => Nat.le_trans (size_roots_apply s m) (ih _)
  have size := grows (r.moves op) r.staging
  rw [← staging_next] at size
  exact Arena.has_of_size_le size there

theorem has_root_after (there : r.tree.roots.has root) (ops : List Operation) :
    (r.after ops).tree.roots.has root := by
  induction ops generalizing r with
  | nil => exact there
  | cons op ops ih => exact ih (has_root_next there op)

/-- The lanes on which the calls make updates of fibers below the root. -/
def lateLanes (r : Renderer) (root : RootId) : List Operation → LaneSet
  | [] => ∅
  | op :: ops =>
    (if op.fiber?.bind r.tree.findRoot? = some root then r.laneOf op else ∅) ∪
      (r.next op).lateLanes root ops

end Renderer

/-- After the start of a render of the root and some calls within it, a commit leaves pending
what it is told to, and the lanes of the updates after which there was no flush. So the lanes
of all updates below the root stay pending, whatever the commit is told, exactly if each of
them is the lane of an update after which there was no flush. -/
theorem pending_of_late_lanes {r : Renderer} {root : RootId} (there : r.tree.roots.has root)
    (starts : ¬ (r.nextLanes root).isEmpty) (ops : List Operation)
    (during : ∀ op ∈ ops, op.duringRender) :
    let started := r.next (.prepare root)
    let pending := fun remaining =>
      (((started.after ops).next (.commit root remaining)).tree.root root).lanes.pending
    (∀ remaining, pending remaining = remaining ∪ started.unflushedLanes ops) ∧
    ((∀ remaining, started.lateLanes root ops ⊆ pending remaining) ↔
      started.lateLanes root ops ⊆ started.unflushedLanes ops) := by
  intro started pending
  have left : ∀ remaining, pending remaining = remaining ∪ started.unflushedLanes ops := by
    intro remaining
    refine (Renderer.pending_commit
      (Renderer.has_root_after (Renderer.has_root_next there _) ops) remaining).trans ?_
    rw [Renderer.lanes_after during, Renderer.lanes_prepare starts]
    refine LaneSet.ext_mem fun l => ?_
    split <;> simp [started]
  refine ⟨left, fun all l late => ?_, fun kept remaining l late => ?_⟩
  · have pends := all ∅ l late
    rw [left] at pends
    simpa using pends
  · rw [left, LaneSet.mem_union]
    exact .inr (kept l late)

/-- During a render, an update is made in a transition and flushed. Its lane is lost if the
commit is told that nothing is left. -/
theorem not_pending_of_flushed_transition :
    let started := (default : Renderer).after
      [.edit (.createRoot true), .edit (.createChild ⟨0⟩ .functionComponent),
        .edit (.createQueue ⟨1⟩), .dispatch ⟨1⟩ ⟨0⟩ .unit, .prepare ⟨0⟩]
    let ops : List Operation :=
      [.enter .transition, .dispatch ⟨1⟩ ⟨0⟩ .unit, .leave .transition, .flush]
    ¬ ∀ remaining, started.lateLanes ⟨0⟩ ops ⊆
      (((started.after ops).next (.commit ⟨0⟩ remaining)).tree.root ⟨0⟩).lanes.pending := by
  intro started ops pends
  let r := (default : Renderer).after
    [.edit (.createRoot true), .edit (.createChild ⟨0⟩ .functionComponent),
      .edit (.createQueue ⟨1⟩), .dispatch ⟨1⟩ ⟨0⟩ .unit]
  have kept := (pending_of_late_lanes (r := r) (by decide +kernel) (by decide +kernel) ops
    (by decide +kernel)).2.mp pends
  have late : (3 : Lane) ∈ started.lateLanes ⟨0⟩ ops := by decide +kernel
  exact absurd (kept 3 late) (by decide +kernel)

end ConcurrentRender
