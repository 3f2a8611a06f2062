import ConcurrentRender.Proofs.Render.Waiting

/-!
# What a failing flush loses

A flush empties the buffer before it starts, and stops at the first staged change whose
fiber was never put into a tree. Of that change and of those before it nothing is lost: the
updates are in their queues, and the lanes are known to all fibers above. Of the changes
after it nothing is left. They are in the buffer no more, and nothing of them is in the tree,
except for lanes that were known there anyway.

Result: `flush_keeps_iff` says exactly when a flush keeps all staged work.
-/

namespace ConcurrentRender

namespace Tree

/-- Every fiber above `f` knows that there is work on the lanes below it. -/
def KnownAbove (t : Tree) (f : FiberId) (lanes : LaneSet) : Prop :=
  ∀ p, t.Above f p → ∀ l ∈ lanes, l ∈ (t.fiber p).childLanes

end Tree

namespace Staging

/-- `s'` has all the work that is staged in `s`: each update waits in its queue or is
staged, and so is each lane of a fiber below a root, or all fibers above know of it. -/
structure Keeps (s s' : Staging) : Prop where
  update : ∀ q u, (q, u) ∈ pairs s.buffer.staged →
    u ∈ s'.tree.pending q ∨ (q, u) ∈ pairs s'.buffer.staged
  lane : ∀ e ∈ s.buffer.staged, (s.tree.findRoot? e.fiber).isSome →
    s'.tree.KnownAbove e.fiber e.lane ∨ e ∈ s'.buffer.staged

variable {s : Staging} {rings : QueueId → List UpdateId}

/-- After a flush, the updates that were reached wait in their queues after those that
waited before. The others wait nowhere. -/
theorem sound_flush (sound : Sound s.tree rings s.buffer.staged) :
    Sound (flush s).state.tree
      (fun q => rings q ++ updatesFor q (pairs (reached s.tree s.buffer.staged)))
      (unreached s.tree s.buffer.staged) := by
  rw [(flush_eq s).1]
  exact Sound.settleEach (by rwa [reached_append_unreached])

theorem sameShape_flush (s : Staging) : s.tree.SameShape (flush s).state.tree := by
  rw [(flush_eq s).1]
  exact sameShape_settleEach _ _

/-- After a flush, a fiber above knows of a lane if it knew of it before, or if the lane
was raised by a change that was reached. -/
theorem mem_childLanes_flush (valid : s.tree.ParentsThere) {f p : FiberId} {l : Lane}
    (above : s.tree.Above f p) :
    l ∈ ((flush s).state.tree.fiber p).childLanes ↔
      l ∈ (s.tree.fiber p).childLanes ∨
        ∃ d ∈ reached s.tree s.buffer.staged, l ∈ d.lane ∧
          ∃ a, s.tree.Above d.fiber a ∧ s.tree.Beside a p := by
  rw [(flush_eq s).1]
  simp only [mem_childLanes_settleEach, above.there valid, true_and, Tree.mem_ancestors_iff valid]

theorem knownAbove_of_reached (valid : s.tree.ParentsThere) {e : StagedUpdate}
    (he : e ∈ reached s.tree s.buffer.staged) :
    (flush s).state.tree.KnownAbove e.fiber e.lane := by
  intro p above l hl
  have above := ((sameShape_flush s).above _ _).mp above
  exact (mem_childLanes_flush valid above).mpr (.inr ⟨e, he, hl, p, above, .inl rfl⟩)

/-- What has to be known of the changes that a flush does not come to, if it is to lose
nothing: they carry no updates, and the lanes of those below a root were known to all
fibers above or are raised along the same way by changes that it comes to. -/
def NothingBehind (t : Tree) (es : List StagedUpdate) : Prop :=
  pairs (unreached t es) = [] ∧
    ∀ e ∈ unreached t es, (t.findRoot? e.fiber).isSome → ∀ p, t.Above e.fiber p → ∀ l ∈ e.lane,
      l ∈ (t.fiber p).childLanes ∨
        ∃ d ∈ reached t es, l ∈ d.lane ∧ ∃ a, t.Above d.fiber a ∧ t.Beside a p

theorem staged_flush (s : Staging) : (flush s).state.buffer.staged = [] := by
  rw [(flush_eq s).1]

theorem pending_flush (sound : Sound s.tree rings s.buffer.staged) (q : QueueId) :
    (flush s).state.tree.pending q =
      rings q ++ updatesFor q (pairs (reached s.tree s.buffer.staged)) :=
  ((sound_flush sound).held.holds q).pending_eq

theorem waits_of_reached (sound : Sound s.tree rings s.buffer.staged) {q : QueueId}
    {u : UpdateId} (m : (q, u) ∈ pairs (reached s.tree s.buffer.staged)) :
    u ∈ (flush s).state.tree.pending q := by
  rw [pending_flush sound]
  exact List.mem_append_right _ (mem_updatesFor.mpr m)

theorem keeps_of_nothingBehind (sound : Sound s.tree rings s.buffer.staged)
    (valid : s.tree.ParentsThere) (h : NothingBehind s.tree s.buffer.staged) :
    Keeps s (flush s).state := by
  obtain ⟨none, known⟩ := h
  have split := reached_append_unreached s.tree s.buffer.staged
  refine ⟨fun q u staged => .inl (waits_of_reached sound ?_), fun e staged root => .inl ?_⟩
  · rw [← split, pairs_append, none, List.append_nil] at staged
    exact staged
  · rw [← split] at staged
    rcases List.mem_append.mp staged with he | he
    · exact knownAbove_of_reached valid he
    · intro p above l hl
      have above := ((sameShape_flush s).above _ _).mp above
      exact (mem_childLanes_flush valid above).mpr (known e he root p above l hl)

theorem nothingBehind_of_keeps (sound : Sound s.tree rings s.buffer.staged)
    (valid : s.tree.ParentsThere) (keeps : Keeps s (flush s).state) :
    NothingBehind s.tree s.buffer.staged := by
  have split := reached_append_unreached s.tree s.buffer.staged
  refine ⟨List.eq_nil_iff_forall_not_mem.mpr fun ⟨q, u⟩ lost => ?_, ?_⟩
  · have staged : (q, u) ∈ pairs s.buffer.staged := by
      rw [← split, pairs_append]
      exact List.mem_append_right _ lost
    rcases keeps.update q u staged with waits | staged
    -- What was not reached is still new to all rings.
    · exact (sound_flush sound).fresh q u lost q (pending_flush sound q ▸ waits)
    · rw [staged_flush] at staged
      cases staged
  · intro e he root p above l hl
    have staged : e ∈ s.buffer.staged := split ▸ List.mem_append_right _ he
    rcases keeps.lane e staged root with known | staged
    · refine (mem_childLanes_flush valid above).mp (known p ?_ l hl)
      exact ((sameShape_flush s).above _ _).mpr above
    · rw [staged_flush] at staged
      cases staged

/-- A flush succeeds exactly if no staged change blocks. What it comes to is never lost. It
keeps all staged work exactly if there is nothing behind the first change that blocks. -/
theorem flush_keeps_iff (sound : Sound s.tree rings s.buffer.staged)
    (valid : s.tree.ParentsThere) :
    ((flush s).result = .ok () ↔ ∀ e ∈ s.buffer.staged, blocks s.tree e = false) ∧
    (∀ q u, (q, u) ∈ pairs (reached s.tree s.buffer.staged) →
      u ∈ (flush s).state.tree.pending q) ∧
    (∀ e ∈ reached s.tree s.buffer.staged,
      (flush s).state.tree.KnownAbove e.fiber e.lane) ∧
    (Keeps s (flush s).state ↔ NothingBehind s.tree s.buffer.staged) := by
  refine ⟨?_, fun _ _ => waits_of_reached sound, fun _ => knownAbove_of_reached valid,
    nothingBehind_of_keeps sound valid, keeps_of_nothingBehind sound valid⟩
  rw [(flush_eq s).2, verdict_ok_iff]

/-- A fiber that is in no tree is staged before an update of another fiber, which is lost. -/
theorem not_keeps_of_loose_fiber :
    let s := ((default : Renderer).after
      [.edit (.createRoot true), .edit (.createChild ⟨0⟩ .functionComponent),
        .edit (.createQueue ⟨1⟩), .edit (.createFiber .functionComponent true),
        .forceUpdate ⟨2⟩, .dispatch ⟨1⟩ ⟨0⟩ .unit]).staging
    ¬ Keeps s (flush s).state := by
  intro s keeps
  have start := Delivered.start (show Renderer.start {} .start = .ok default from rfl)
  have sound : Sound s.tree _ s.buffer.staged := (start.after (by decide +kernel)).sound
  have behind := (flush_keeps_iff sound (by decide +kernel)).2.2.2.mp keeps
  exact absurd behind.1 (by decide +kernel)

end Staging

end ConcurrentRender
