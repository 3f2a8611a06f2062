import ConcurrentRender.Proofs.Render.Access
import ConcurrentRender.Proofs.Staging.Settle

/-!
# Commits that go on for ever

An update that is made in every commit keeps the renderer busy for ever. What shows it is a streak:
commits of one root in a row, each of which leaves blocking work, staged lanes included. A streak
may be longer than the limit by one. The commit that makes it longer still is refused, and then
another streak may begin.

The renderer only keeps a count and one root. The specification reads the streak off the commits
that were made:

* `CommitNote`: a commit as the streak sees it, and `Renderer.commitNotes r as` are those of a run,
  the last one first.
* `streakOf root notes`: how many of the last commits are the streak of the root.

Results:
1. `CommitStreak.Counts.commit`, `CommitStreak.Counts.exhausted_iff`: the count keeps to the streak,
   and which commit goes past the limit.
2. `streak_next`, `streak_aside`, `counts_through`: nothing but commits changes the count.
3. `commit_refused_iff`: which commits are refused, and that no update ever is.
-/

namespace ConcurrentRender

/-- The fault is that commits go on for ever. -/
def Fault.isEndless : Fault → Bool
  | maximumUpdateDepth _ => true
  | _ => false

/-- The step was stopped because commits go on for ever. -/
def refused {α : Type} : Except Fault α → Bool
  | .ok _ => false
  | .error e => e.isEndless

structure CommitNote where
  root : RootId
  /-- Blocking work was left. -/
  blocking : Bool
  refused : Bool
deriving DecidableEq

/-- The streak of the root goes on with this commit. -/
def CommitNote.extends (root : RootId) (n : CommitNote) : Bool :=
  n.root == root && n.blocking && !n.refused

/-- How many of the last commits are the streak of the root. The last commit comes first. -/
def streakOf (root : RootId) (notes : List CommitNote) : Nat :=
  (notes.takeWhile (·.extends root)).length

@[simp] theorem streakOf_nil (root : RootId) : streakOf root [] = 0 := rfl

theorem streakOf_cons (root : RootId) (n : CommitNote) (notes : List CommitNote) :
    streakOf root (n :: notes) = if n.extends root then streakOf root notes + 1 else 0 := by
  unfold streakOf
  rw [List.takeWhile_cons]
  split <;> rfl

/-! ## The count -/

namespace CommitStreak

variable {s : CommitStreak} {notes : List CommitNote} {root : RootId} {blocking : Bool}

/-- The count stands for the streak of the commits that were made. -/
structure Counts (s : CommitStreak) (notes : List CommitNote) : Prop where
  within : s.count ≤ s.limit
  counted : ∀ root, streakOf root notes = if s.root = some root then s.count + 1 else 0

theorem limit_record (s : CommitStreak) (root : RootId) (blocking : Bool) :
    (s.record root blocking).limit = s.limit := by
  unfold record reset
  split
  · rfl
  · split <;> rfl

theorem limit_checked (s : CommitStreak) : s.checked.limit = s.limit := by
  unfold checked reset
  split <;> rfl

namespace Counts

theorem calm (counts : s.Counts notes) : s.exhausted = false :=
  decide_eq_false (Nat.not_lt.mpr counts.within)

theorem checked_eq (counts : s.Counts notes) : s.checked = s := by
  rw [checked, counts.calm, if_neg Bool.false_ne_true]

/-- The commit that goes past the limit is the one that makes the streak longer than the limit by
two. -/
theorem exhausted_iff (counts : s.Counts notes) :
    (s.record root blocking).exhausted ↔ blocking ∧ streakOf root notes + 1 = s.limit + 2 := by
  have within := counts.within
  rw [counts.counted root]
  cases blocking with
  | false => simp [record, reset, exhausted]
  | true =>
    by_cases same : s.root = some root
    · simp [record, exhausted, same]
      omega
    · simp [record, exhausted, same]

/-- A commit is recorded, and if it goes past the limit, the count starts over. -/
theorem commit (counts : s.Counts notes) (root : RootId) (blocking : Bool) :
    (s.record root blocking).checked.Counts
      ({ root, blocking, refused := (s.record root blocking).exhausted } :: notes) := by
  have within := counts.within
  cases exhausted : (s.record root blocking).exhausted with
  | true =>
    rw [checked, exhausted, if_pos rfl]
    exact ⟨Nat.zero_le _, fun about => by simp [streakOf_cons, CommitNote.extends, reset]⟩
  | false =>
    have below := of_decide_eq_false exhausted
    rw [checked, exhausted, if_neg Bool.false_ne_true]
    refine ⟨Nat.not_lt.mp below, fun about => ?_⟩
    rw [streakOf_cons, counts.counted about]
    cases blocking with
    | false => simp [CommitNote.extends, record, reset]
    | true =>
      -- Either the streak of this root goes on, or a new one begins. Other roots have none then.
      by_cases same : s.root = some root
      · by_cases other : root = about <;> simp [CommitNote.extends, record, same, other]
      · by_cases other : root = about
        · subst other
          simp [CommitNote.extends, record, same]
        · simp [CommitNote.extends, record, same, other]

end Counts

end CommitStreak

/-! ## What changes the count -/

namespace Move

/-- The move leaves the count of commits alone. -/
def uncounted : Move → Bool
  | streak _ => false
  | _ => true

theorem streak_apply {m : Move} (uncounted : m.uncounted) (s : Staging) :
    (m.apply s).buffer.streak = s.buffer.streak := by
  cases m with
  | streak => cases uncounted
  | entangle root queue lane =>
    simp only [apply]
    split <;> rfl
  | edit | schedule | force | flush | take | ledger | current | pooled | notes => rfl

theorem streak_applyAll {ms : List Move} (uncounted : ∀ m ∈ ms, m.uncounted) (s : Staging) :
    (applyAll s ms).buffer.streak = s.buffer.streak := by
  induction ms generalizing s with
  | nil => rfl
  | cons m ms ih =>
    rw [applyAll_cons, ih fun m' mem => uncounted m' (.tail _ mem),
      streak_apply (uncounted m (.head _))]

end Move

namespace Renderer

variable {r : Renderer} {notes : List CommitNote}

def streak (r : Renderer) : CommitStreak := r.staging.buffer.streak

/-- The commit leaves blocking work. -/
def leavesBlocking (r : Renderer) (remaining : LaneSet) : Bool :=
  (remaining ∪ r.staging.buffer.lanes).meets LaneSet.blocking

/-- When an update was staged, the root above it is told, after a check of the count. -/
theorem streak_tellMoves (fiber : FiberId) {told : RootId → List Move}
    (uncounted : ∀ root, ∀ m ∈ told root, m.uncounted) (s : Staging) :
    (Move.applyAll s (r.tellMoves fiber told)).buffer.streak = s.buffer.streak.checked := by
  unfold tellMoves
  rw [Move.applyAll_cons]
  refine Move.streak_applyAll (fun m mem => ?_) _
  split at mem
  · cases mem
  · split at mem
    · cases mem
    · exact uncounted _ m mem

theorem streak_committed (r : Renderer) (root : RootId) (left : LaneSet) :
    (r.committed root left).streak = r.streak.record root (left.meets LaneSet.blocking) := by
  let noted := { r with execution := { r.execution with committing := true } }
  let finished := noted.setTree fun t => t.setRootLanes root fun g => g.markFinished left
  have switched : (finished.switchTop root).streak = r.streak := by
    unfold switchTop
    split
    · split <;> rfl
    · rfl
  show (onPool root _ (finished.switchTop root)).state.streak.record root _ = _
  rw [streak, (run_onPool_release _ root _ _).2]
  exact congrArg (fun s : CommitStreak => s.record root _) switched

/-- A commit is recorded and checked, and refused if it goes past the limit. -/
theorem streak_commit (r : Renderer) (root : RootId) (remaining : LaneSet) :
    let recorded := r.streak.record root (r.leavesBlocking remaining)
    (commit root remaining r).state.streak = recorded.checked ∧
      (commit root remaining r).result =
        if recorded.exhausted then .error (.maximumUpdateDepth r.streak.limit)
        else .ok ((r.tree.root root).lanes.finishedBy (remaining ∪ r.staging.buffer.lanes)) := by
  intro recorded
  let left := remaining ∪ r.staging.buffer.lanes
  have recorded_eq : (r.committed root left).streak = recorded := streak_committed r root left
  have limit : recorded.limit = r.streak.limit := CommitStreak.limit_record _ _ _
  obtain ⟨state, result⟩ := run_commit r root remaining
  rw [state, result]
  unfold onStaging StepM.focus
  rw [run_check]
  refine ⟨congrArg CommitStreak.checked recorded_eq, ?_⟩
  show Except.map _ (if (r.committed root left).streak.exhausted then
    .error (Fault.maximumUpdateDepth (r.committed root left).streak.limit) else .ok ()) = _
  rw [recorded_eq, limit]
  split <;> rfl

theorem streak_aside (r : Renderer) (c : SideCall) : (r.aside c).streak = r.streak := by
  cases c with
  | pooledCache =>
    show (pooledCache r).state.streak = r.streak
    rw [state_pooledCache]
    cases r.renderRoot <;> rfl
  | requestLane | requestRetryLane | createUpdate | writeFiber | bailOut | spreadDeferred
  | spreadCache | share => rfl

/-- A call that is no commit checks the count at most. -/
theorem streak_next {op : Operation} (calm : r.streak.checked = r.streak)
    (other : ∀ root remaining, op ≠ .commit root remaining) : (r.next op).streak = r.streak := by
  have told (fiber : FiberId) {first : Move} (uncounted : first.uncounted)
      {told : RootId → List Move} (rest : ∀ root, ∀ m ∈ told root, m.uncounted) :
      (Move.applyAll r.staging (first :: r.tellMoves fiber told)).buffer.streak = r.streak := by
    rw [Move.applyAll_cons, streak_tellMoves fiber rest, Move.streak_apply uncounted]
    exact calm
  have moved (uncounted : ∀ m ∈ r.moves op, m.uncounted) :
      (Move.applyAll r.staging (r.moves op)).buffer.streak = r.streak :=
    Move.streak_applyAll uncounted _
  show (r.next op).staging.buffer.streak = _
  rw [staging_next]
  cases op with
  | commit root remaining => exact absurd rfl (other root remaining)
  | dispatch fiber => exact told fiber rfl (by simp [Move.uncounted])
  | forceUpdate fiber => exact told fiber rfl (by simp [Move.uncounted])
  | dispatchQuietly | prepare | begin | readContext =>
    refine moved ?_
    simp only [moves]
    split <;> simp [Move.uncounted]
  | edit | enter | leave | entangle | settle | flush | takePending | suspended | pinged | starved
  | pushProvider | popProvider | rerender | complete =>
    exact moved (by simp [moves, Move.uncounted])

/-! ## The commits of a run -/

/-- The commit as the streak sees it. -/
def commitNote? (r : Renderer) : Access → Option CommitNote
  | .call (.commit root remaining) =>
    some
      { root
        blocking := r.leavesBlocking remaining
        refused := refused (commit root remaining r).result }
  | _ => none

/-- The commits of a run, the last one first. -/
def commitNotes (r : Renderer) : List Access → List CommitNote
  | [] => []
  | a :: as => (r.access a).commitNotes as ++ (r.commitNote? a).toList

theorem counts_start {settings : Settings} {registry : ContextRegistry}
    (begins : start settings registry = .ok r) :
    r.streak.limit = settings.nestedUpdateLimit ∧ r.streak.Counts [] := by
  rw [eq_of_start begins]
  exact ⟨rfl, Nat.zero_le _, fun _ => rfl⟩

theorem counts_commit (counts : r.streak.Counts notes) (root : RootId) (remaining : LaneSet) :
    (commit root remaining r).state.streak.limit = r.streak.limit ∧
      (commit root remaining r).state.streak.Counts
        ({ root
           blocking := r.leavesBlocking remaining
           refused := refused (commit root remaining r).result } :: notes) := by
  obtain ⟨streak, result⟩ := streak_commit r root remaining
  have refusal : refused (commit root remaining r).result =
      (r.streak.record root (r.leavesBlocking remaining)).exhausted := by
    rw [result]
    cases (r.streak.record root (r.leavesBlocking remaining)).exhausted <;> rfl
  rw [streak, refusal, CommitStreak.limit_checked, CommitStreak.limit_record]
  exact ⟨rfl, counts.commit root _⟩

/-- Commits are counted, and everything else leaves the count alone. -/
theorem counts_access (counts : r.streak.Counts notes) (a : Access) :
    (r.access a).streak.limit = r.streak.limit ∧
      (r.access a).streak.Counts ((r.commitNote? a).toList ++ notes) := by
  have same {r' : Renderer} (same : r'.streak = r.streak) :
      r'.streak.limit = r.streak.limit ∧ r'.streak.Counts notes := by
    rw [same]
    exact ⟨rfl, counts⟩
  cases a with
  | tree | actions => exact same rfl
  | aside c => exact same (streak_aside r c)
  | call op =>
    cases op with
    | commit root remaining => exact counts_commit counts root remaining
    | _ => exact same (streak_next counts.checked_eq nofun)

theorem counts_through (counts : r.streak.Counts notes) (as : List Access) :
    (r.through as).streak.limit = r.streak.limit ∧
      (r.through as).streak.Counts (r.commitNotes as ++ notes) := by
  induction as generalizing r notes with
  | nil => exact ⟨rfl, counts⟩
  | cons a as ih =>
    obtain ⟨limit, counts⟩ := counts_access counts a
    obtain ⟨limits, counts⟩ := ih counts
    rw [through_cons, commitNotes, List.append_assoc]
    exact ⟨limits.trans limit, counts⟩

/-! ## Updates -/

/-- If commits do not go on for ever, what follows once a change was staged is reached. -/
theorem result_enqueue {α : Type} {entry : StagedUpdate} {rest : Option RootId → StepM Renderer α}
    (answer : Option RootId → α) (calm : r.streak.exhausted = false)
    (goes : ∀ root s, (rest root s).result = .ok (answer root)) :
    ((onStaging (Staging.enqueue entry) >>= rest) r).result =
      .ok (answer (r.tree.findRoot? entry.fiber)) := by
  have run := run_bind_enqueue r entry rest
  split at run
  next exhausted => cases calm.symm.trans exhausted
  next going => exact run.2.trans (goes _ _)

theorem result_dispatch (calm : r.streak.exhausted = false) (fiber : FiberId) (queue : QueueId)
    (payload : Payload) :
    (dispatch fiber queue payload r).result =
      .ok
        { update := r.tree.updates.next
          lane := r.laneFor fiber
          root := r.tree.findRoot? fiber } := by
  unfold dispatch requestLane
  rw [StepM.run_take_bind, run_createUpdate]
  let made := (r.pickLane (r.request fiber)).2.setTree fun t =>
    (t.createUpdate (r.laneFor fiber) payload).2
  have above : made.tree.findRoot? fiber = r.tree.findRoot? fiber :=
    (Tree.SameShape.of_fibers_eq (by rfl)).findRoot? fiber
  let answer (root : Option RootId) : Dispatched :=
    { update := r.tree.updates.next, lane := r.laneFor fiber, root }
  rw [← above]
  exact result_enqueue (r := made) answer calm fun root s => by cases root <;> rfl

theorem result_forceUpdate (calm : r.streak.exhausted = false) (fiber : FiberId) :
    (forceUpdate fiber r).result = .ok (r.tree.findRoot? fiber) := by
  unfold forceUpdate requestLane
  rw [StepM.run_take_bind]
  exact result_enqueue id calm fun root s => by cases root <;> rfl

/-- A flush is refused by fibers that are in no tree, and for nothing else. -/
theorem not_refused_verdict (t : Tree) (es : List StagedUpdate) :
    refused (Staging.verdict t es) = false := by
  induction es with
  | nil => rfl
  | cons e es ih =>
    unfold Staging.verdict
    split
    · rfl
    · exact ih

theorem not_refused_dispatchQuietly (r : Renderer) (fiber : FiberId) (queue : QueueId)
    (payload : Payload) : refused (dispatchQuietly fiber queue payload r).result = false := by
  let staged := Move.apply r.staging (.schedule fiber queue payload (r.laneFor fiber) ∅)
  have flushed : refused (Staging.flush staged).result = false := by
    rw [(Staging.flush_eq staged).2]
    exact not_refused_verdict _ _
  rw [(run_dispatchQuietly r fiber queue payload).2]
  cases r.isRendering with
  | true => rfl
  | false =>
    show refused ((Staging.flush staged).result.map _) = false
    cases result : (Staging.flush staged).result with
    | ok => rfl
    | error e =>
      rw [result] at flushed
      exact flushed

end Renderer

open Renderer in
/-- In every run, a commit is refused if and only if it leaves blocking work and makes the streak of
its root longer than the limit by two. Every other commit answers the lanes that are done. Updates
are never refused, as between calls the count is within the limit. -/
theorem commit_refused_iff {settings : Settings} {registry : ContextRegistry} {r₀ : Renderer}
    (begins : start settings registry = .ok r₀) (as : List Access) :
    let r := r₀.through as
    let notes := r₀.commitNotes as
    (∀ root remaining, (commit root remaining r).result =
      if r.leavesBlocking remaining ∧
          streakOf root notes + 1 = settings.nestedUpdateLimit + 2 then
        .error (.maximumUpdateDepth settings.nestedUpdateLimit)
      else .ok ((r.tree.root root).lanes.finishedBy (remaining ∪ r.staging.buffer.lanes))) ∧
    (∀ fiber queue payload,
      (dispatch fiber queue payload r).result =
        .ok
          { update := r.tree.updates.next
            lane := r.laneFor fiber
            root := r.tree.findRoot? fiber } ∧
      refused (dispatchQuietly fiber queue payload r).result = false) ∧
    (∀ fiber, (forceUpdate fiber r).result = .ok (r.tree.findRoot? fiber)) ∧
    r.streak.count ≤ settings.nestedUpdateLimit := by
  intro r notes
  obtain ⟨limit₀, counts₀⟩ := counts_start begins
  obtain ⟨limits, counts⟩ := counts_through counts₀ as
  rw [List.append_nil] at counts
  have limit : r.streak.limit = settings.nestedUpdateLimit := limits.trans limit₀
  refine ⟨fun root remaining => ?_, fun fiber queue payload => ⟨?_, ?_⟩, fun fiber => ?_, ?_⟩
  · rw [(streak_commit r root remaining).2, limit, ← limit]
    exact if_congr counts.exhausted_iff rfl rfl
  · exact result_dispatch counts.calm fiber queue payload
  · exact not_refused_dispatchQuietly r fiber queue payload
  · exact result_forceUpdate counts.calm fiber
  · exact limit ▸ counts.within

/-- One commit in a row is allowed. The third commit of a streak is refused, the commit of another
root begins a new streak, and so does the commit after the refused one. -/
theorem refused_of_third_commit :
    let settings : Settings := { nestedUpdateLimit := 1 }
    let commit (root : Nat) : Access := .call (.commit ⟨root⟩ LaneSet.syncLane)
    let before : List Access := [.call (.edit (.createRoot true)), .call (.edit (.createRoot true)),
      commit 0, commit 1, commit 0, commit 0]
    let r₀ : Renderer :=
      { (default : Renderer) with
        settings, staging := { buffer := .start 1 settings.diagnostics, tree := {} } }
    let result (as : List Access) (root : RootId) :=
      (Renderer.commit root LaneSet.syncLane (r₀.through as)).result
    Renderer.start settings .start = .ok r₀ ∧
      result before ⟨0⟩ = .error (.maximumUpdateDepth 1) ∧ result before ⟨1⟩ = .ok ∅ ∧
      result (before ++ [commit 0]) ⟨0⟩ = .ok ∅ := by
  intro settings commit before r₀ result
  have begins : Renderer.start settings .start = .ok r₀ := by rfl
  have now := commit_refused_iff begins before
  have later := commit_refused_iff begins (before ++ [commit 0])
  exact ⟨begins, (now.1 ⟨0⟩ LaneSet.syncLane).trans (by decide +kernel),
    (now.1 ⟨1⟩ LaneSet.syncLane).trans (by decide +kernel),
    (later.1 ⟨0⟩ LaneSet.syncLane).trans (by decide +kernel)⟩

end ConcurrentRender
