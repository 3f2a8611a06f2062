import ConcurrentRender.Proofs.Render.LateLanes

/-!
# Lanes of other roots

All roots of a renderer share one buffer of staged updates, and a commit leaves pending what
the buffer remembers. That is the lanes of everything staged, whichever root it is for: a
commit of one root makes it pending on lanes of another one, and on lanes of fibers that no
root is above. The root then has lanes to render for which it has no work.

* `Renderer.Leads r s`: calls lead from `r` to `s`, in any order, with whatever else leaves
  the staged updates alone.

Results:
1. `mem_lanes_of_leads`: the buffer remembers the lanes of what is staged, and no others.
2. `own_lanes_iff`: hence a commit leaves a root pending on its own lanes only, if and only if
   every update that is staged for no fiber of the root adds nothing to them.
-/

namespace ConcurrentRender

/-- The buffer remembers the lanes of what is staged, and no others. -/
def StagingBuffer.SumsUp (b : StagingBuffer) : Prop :=
  ∀ l, l ∈ b.lanes ↔ ∃ e ∈ b.staged, l ∈ e.lane

theorem Staging.sumsUp_stage {s : Staging} (sums : s.buffer.SumsUp) (e : StagedUpdate) :
    (s.stage e).buffer.SumsUp := by
  intro l
  simp [stage, sums l, or_and_right, exists_or]

namespace Move

variable {s : Staging}

theorem sumsUp_apply (sums : s.buffer.SumsUp) (m : Move) : (m.apply s).buffer.SumsUp := by
  cases m with
  | schedule fiber queue payload made lane => exact Staging.sumsUp_stage sums _
  | force fiber lane => exact Staging.sumsUp_stage sums _
  | flush =>
    intro l
    simp [apply, (Staging.flush_eq s).1]
  | take queue => exact sums
  | edit | ledger | entangle | current | pooled | notes | streak =>
    intro l
    rw [(buffer_of_idle rfl).1, (buffer_of_idle rfl).2]
    exact sums l

theorem sumsUp_applyAll (sums : s.buffer.SumsUp) (ms : List Move) :
    (applyAll s ms).buffer.SumsUp := by
  induction ms generalizing s with
  | nil => exact sums
  | cons m ms ih => exact ih (sumsUp_apply sums m)

theorem staged_of_idle {ms : List Move} (h : ∀ m ∈ ms, m.idle) :
    (applyAll s ms).buffer.staged = s.buffer.staged := by
  induction ms generalizing s with
  | nil => rfl
  | cons m ms ih =>
    rw [applyAll_cons, ih fun m' hm => h m' (.tail _ hm), (buffer_of_idle (h m (.head _))).1]

end Move

namespace Renderer

variable {r s : Renderer} {root : RootId}

/-- Calls lead from `r` to `s`. Between them anything may happen that leaves the staged updates
alone: trees are changed by hand, context changes are spread, caches are used. -/
inductive Leads (r : Renderer) : Renderer → Prop
  | start : Leads r r
  | call {s : Renderer} (op : Operation) : Leads r s → Leads r (s.next op)
  | aside {s s' : Renderer} : Leads r s → s'.staging.buffer.staged = s.staging.buffer.staged →
      s'.staging.buffer.lanes = s.staging.buffer.lanes → Leads r s'

theorem Leads.after (leads : r.Leads s) (ops : List Operation) : r.Leads (s.after ops) := by
  induction ops generalizing s with
  | nil => exact leads
  | cons op ops ih => exact ih (leads.call op)

theorem mem_lanes_of_leads {settings : Settings} {registry : ContextRegistry}
    (begins : start settings registry = .ok r) (leads : r.Leads s) : s.staging.buffer.SumsUp := by
  induction leads with
  | start =>
    rw [staging_start begins]
    intro l
    simp [StagingBuffer.start]
  | call op _ ih =>
    rw [staging_next]
    exact Move.sumsUp_applyAll ih _
  | aside _ staged lanes ih =>
    intro l
    rw [staged, lanes]
    exact ih l

/-! ## What a commit leaves alone -/

theorem staged_commit (r : Renderer) (root : RootId) (remaining : LaneSet) :
    (r.next (.commit root remaining)).staging.buffer.staged = r.staging.buffer.staged := by
  rw [staging_next]
  exact Move.staged_of_idle (idle_commit r root remaining)

theorem fibers_commit (r : Renderer) (root : RootId) (remaining : LaneSet) :
    (r.next (.commit root remaining)).tree.fibers = r.tree.fibers := by
  show (r.next (.commit root remaining)).staging.tree.fibers = _
  rw [staging_next]
  simp only [moves, switchMoves]
  split
  · cases (r.tree.fiber (r.tree.root root).current).twin <;> rfl
  · rfl

end Renderer

open Renderer in
/-- A commit leaves pending what it is told to and the lanes of everything that is staged. So
every lane that it leaves pending is one that it is told to leave, or one of an update that is
staged for a fiber of the root, exactly if that holds of all lanes of all staged updates. -/
theorem own_lanes_iff {settings : Settings} {registry : ContextRegistry} {r₀ r : Renderer}
    (begins : start settings registry = .ok r₀) (leads : r₀.Leads r) {root : RootId}
    (there : r.tree.roots.has root) (remaining : LaneSet) :
    let r' := r.next (.commit root remaining)
    let staged := r.staging.buffer.staged
    let justified := fun l => l ∈ remaining ∨
      ∃ e ∈ r'.staging.buffer.staged, r'.tree.findRoot? e.fiber = some root ∧ l ∈ e.lane
    (∀ l, l ∈ (r'.tree.root root).lanes.pending ↔ l ∈ remaining ∨ ∃ e ∈ staged, l ∈ e.lane) ∧
    ((∀ l ∈ (r'.tree.root root).lanes.pending, justified l) ↔
      ∀ e ∈ staged, r.tree.findRoot? e.fiber ≠ some root → ∀ l ∈ e.lane,
        l ∈ remaining ∨ ∃ e' ∈ staged, r.tree.findRoot? e'.fiber = some root ∧ l ∈ e'.lane) := by
  intro r' staged justified
  have left : ∀ l, l ∈ (r'.tree.root root).lanes.pending ↔
      l ∈ remaining ∨ ∃ e ∈ staged, l ∈ e.lane := by
    intro l
    rw [pending_commit there, LaneSet.mem_union, mem_lanes_of_leads begins leads l]
  have roots : ∀ f, r'.tree.findRoot? f = r.tree.findRoot? f :=
    (Tree.SameShape.of_fibers_eq (fibers_commit r root remaining)).findRoot?
  have own : ∀ l, justified l ↔ l ∈ remaining ∨
      ∃ e ∈ staged, r.tree.findRoot? e.fiber = some root ∧ l ∈ e.lane := by
    intro l
    simp only [justified, roots, staged]
    rw [show r'.staging.buffer.staged = r.staging.buffer.staged from staged_commit r root remaining]
  refine ⟨left, fun isolated e mem _ l hl => ?_, fun covered l pends => ?_⟩
  · exact (own l).mp (isolated l ((left l).mpr (.inr ⟨e, mem, hl⟩)))
  · refine (own l).mpr ?_
    rcases (left l).mp pends with kept | ⟨e, mem, hl⟩
    · exact .inl kept
    · by_cases mine : r.tree.findRoot? e.fiber = some root
      · exact .inr ⟨e, mem, mine, hl⟩
      · exact covered e mem mine l hl

/-- A fiber of one root is updated, and another root is committed and told that nothing is
left. It is left pending on the lane of the update. -/
theorem not_own_lanes_of_two_roots :
    let r := (default : Renderer).after
      [.edit (.createRoot true), .edit (.createRoot true),
        .edit (.createChild ⟨1⟩ .functionComponent), .forceUpdate ⟨2⟩]
    let r' := r.next (.commit ⟨0⟩ ∅)
    Renderer.start {} .start = .ok default ∧ Renderer.Leads default r ∧ r.tree.roots.has ⟨0⟩ ∧
      ¬ ∀ l ∈ (r'.tree.root ⟨0⟩).lanes.pending, l ∈ (∅ : LaneSet) ∨
        ∃ e ∈ r'.staging.buffer.staged, r'.tree.findRoot? e.fiber = some ⟨0⟩ ∧ l ∈ e.lane := by
  intro r r'
  have begins : Renderer.start {} .start = .ok default := by rfl
  have leads : Renderer.Leads default r := Renderer.Leads.start.after _
  have there : r.tree.roots.has ⟨0⟩ := by decide +kernel
  refine ⟨begins, leads, there, fun isolated => ?_⟩
  have covered := (own_lanes_iff begins leads there ∅).2.mp isolated
    { fiber := ⟨2⟩, lane := .single 2 } (by decide +kernel) (by decide +kernel) 2
    (by decide +kernel)
  exact absurd covered (by decide +kernel)

end ConcurrentRender
