import ConcurrentRender.Proofs.Render.Calls
import ConcurrentRender.Proofs.Staging.LanesAbove

/-!
# Work is known up to the root

A render skips a part of the tree if the fiber at its top has no lanes and no child lanes. So
a lane of a fiber that no fiber above knows of would not be rendered. In every run, each lane
of a fiber that is not staged any more is among the child lanes of every fiber above and of
their twins, as long as no fiber that has a twin is appended.

The twin of an appended fiber stays where it was. An update of it is raised along the way up
of the twin, and not along that of the fiber that was appended (`not_known_above_of_twin`).

Result: `known_above_of_run`.
-/

namespace ConcurrentRender

/-- The committed fiber of each root is there. -/
def Tree.TopsThere (t : Tree) : Prop :=
  ∀ r, t.roots.has r → t.fibers.has (t.root r).current

/-- The fiber that a call appends. -/
def Operation.appended? : Operation → Option FiberId
  | .edit (.appendChild _ child) => some child
  | _ => none

/-- Each fiber that is appended in the run is as `ok` says when it is. -/
def Renderer.Appends (ok : Tree → FiberId → Bool) (r : Renderer) : List Operation → Prop
  | [] => True
  | op :: ops => (∀ c ∈ op.appended?, ok r.tree c) ∧ (r.next op).Appends ok ops

instance Renderer.decidableAppends (ok : Tree → FiberId → Bool) :
    (r : Renderer) → (ops : List Operation) → Decidable (r.Appends ok ops)
  | _, [] => inferInstanceAs (Decidable True)
  | r, op :: ops =>
    have := decidableAppends ok (r.next op) ops
    inferInstanceAs (Decidable (_ ∧ _))

namespace Tree

/-- The fiber has no work, and nothing below it has. -/
def isIdle (t : Tree) (f : FiberId) : Bool :=
  (t.fiber f).lanes.isEmpty && (t.fiber f).childLanes.isEmpty

def isSingle (t : Tree) (f : FiberId) : Bool := (t.fiber f).twin.isNone

variable {t t' : Tree}

namespace TopsThere

theorem of_same (h : t.TopsThere) (size : t.fibers.size ≤ t'.fibers.size)
    (roots : t'.roots = t.roots) : t'.TopsThere := by
  intro r there
  rw [root, roots]
  rw [roots] at there
  exact Arena.has_of_size_le size (h r there)

theorem setRoot (h : t.TopsThere) (r : RootId) {g : Root → Root}
    (hg : ∀ x, t.fibers.has x.current → t.fibers.has (g x).current) :
    (t.setRoot r g).TopsThere := by
  intro s there
  rw [has_setRoot] at there
  rw [root_setRoot]
  split
  · exact hg _ (h s there)
  · exact h s there

theorem createRoot (h : t.TopsThere) (concurrent : Bool) :
    (t.createRoot concurrent).2.TopsThere := by
  intro r there
  -- The fiber at the top of the new root is created with it.
  have created : ∀ f, f = t.fibers.next ∨ t.fibers.has f →
      (t.createRoot concurrent).2.fibers.has f := fun f hf =>
    (has_setFiber _ _ f _).trans (Arena.has_add.mpr hf)
  have read : (t.createRoot concurrent).2.root r =
      if r = t.roots.next then { current := t.fibers.next } else t.root r := Arena.get_add ..
  refine created _ ?_
  rw [read]
  split
  next => exact .inl rfl
  next old => exact .inr (h r ((Arena.has_add.mp there).resolve_left old))

end TopsThere

theorem size_startTwin (t : Tree) (f : FiberId) (value : Option Value) :
    t.fibers.size ≤ (t.startTwin f value).2.fibers.size := by
  have ensured : t.fibers.size ≤ (t.ensureTwin f).2.fibers.size := by
    unfold ensureTwin
    dsimp only
    split
    · exact Nat.le_refl _
    · simp [createFiber]
  exact (size_setFiber (t.ensureTwin f).2 _ _).symm ▸ ensured

theorem size_edit (t : Tree) (e : TreeEdit) : t.fibers.size ≤ (e.apply t).fibers.size := by
  cases e with
  | createRoot concurrent => exact (SameKin.createRoot t concurrent).size
  | createFiber tag concurrent => exact (SameKin.createFiber t tag concurrent).size
  | createChild p tag =>
    exact (size_appendChild _ p _).symm ▸ (SameKin.createFiber t tag _).size
  | appendChild p c => exact Nat.le_of_eq (size_appendChild t p c).symm
  | startTwin f value => exact size_startTwin t f value
  | detach f => exact Nat.le_of_eq (size_detach t f).symm
  | clearLanes f => exact Nat.le_of_eq (size_setFiber t f _).symm
  | createQueue owner => exact (SameKin.createQueue t owner).size
  | createBoundary f visible => exact (SameKin.createBoundary t f visible).size
  | setVisible => exact Nat.le_refl _
  | reveal b lanes => exact (SameKin.reveal t b lanes).size

theorem TopsThere.edit (h : t.TopsThere) (e : TreeEdit) : (e.apply t).TopsThere := by
  by_cases adds : ∃ concurrent, e = .createRoot concurrent
  · obtain ⟨concurrent, rfl⟩ := adds
    exact h.createRoot concurrent
  · exact h.of_same (size_edit t e) (TreeEdit.roots_apply (fun c hc => adds ⟨c, hc⟩) t)

end Tree

theorem Covered.edit {t : Tree} {es : List StagedUpdate} (k : Covered t es) {e : TreeEdit}
    (fits : e.fits t) (ok : ∀ p c, e = .appendChild p c → t.isIdle c ∧ t.isSingle c) :
    Covered (e.apply t) es := by
  cases e with
  | createRoot => exact k.of_sameKin (.createRoot t _)
  | createFiber => exact k.of_sameKin (.createFiber t _ _)
  | createChild p tag => exact k.createChild fits tag
  | appendChild p c =>
    obtain ⟨idle, single⟩ := ok p c rfl
    simp only [TreeEdit.fits, Bool.and_eq_true, Option.isNone_iff_eq_none] at fits
    simp only [Tree.isIdle, Bool.and_eq_true, LaneSet.isEmpty, beq_iff_eq] at idle
    obtain ⟨⟨⟨⟨there, _⟩, unlinked⟩, _⟩, _⟩ := fits
    exact k.appendChild there c unlinked (Option.isNone_iff_eq_none.mp single) idle.1 idle.2
  | startTwin f value => exact k.startTwin fits value
  | detach f => exact k.detach f
  | clearLanes f => exact k.clearLanes f
  | createQueue => exact k.of_sameKin (.createQueue t _)
  | createBoundary => exact k.of_sameKin (.createBoundary t _ _)
  | setVisible => exact k.of_sameKin (.of_fibers_eq rfl)
  | reveal => exact k.of_sameKin (.reveal t _ _)

/-! ## Moves -/

namespace Move

/-- The fibers of the move are there, and one that is appended has no work and no twin. -/
def Grounded (s : Staging) : Move → Prop
  | edit e => e.fits s.tree ∧ ∀ p c, e = .appendChild p c → s.tree.isIdle c ∧ s.tree.isSingle c
  | current _ fiber => s.tree.fibers.has fiber
  | _ => True

def AllGrounded (s : Staging) : List Move → Prop
  | [] => True
  | m :: ms => m.Grounded s ∧ AllGrounded (m.apply s) ms

end Move

/-- Lanes that are not staged are known above, and roots have their fibers. -/
structure Known (s : Staging) : Prop where
  covered : Covered s.tree s.buffer.staged
  tops : s.tree.TopsThere

namespace Known

variable {s : Staging} {m : Move}

theorem flush (k : Known s) (ok : (Staging.flush s).result = .ok ()) :
    Known (Staging.flush s).state := by
  rw [Staging.flush_of_ok ok]
  refine ⟨k.covered.settleEach, k.tops.of_same ?_ (Staging.roots_settleEach _ _)⟩
  exact Nat.le_of_eq (Staging.sameShape_settleEach _ _).size.symm

theorem stage (k : Known s) (e : StagedUpdate) : Known (s.stage e) := by
  refine ⟨k.covered.stage e, k.tops.of_same ?_ (Tree.OnlyFibers.setTwins s.tree _ _).roots⟩
  exact Nat.le_of_eq (Tree.sameShape_addLanes s.tree _ _).size.symm

/-- Changes that leave every kin, and the committed fibers of roots, alone. -/
theorem of_sameKin (k : Known s) {t : Tree} (same : s.tree.SameKin t) (tops : t.TopsThere) :
    Known { s with tree := t } :=
  ⟨k.covered.of_sameKin same, tops⟩

theorem apply (k : Known s) (fits : m.Fits s) (grounded : m.Grounded s) : Known (m.apply s) := by
  cases m with
  | edit e => exact ⟨k.covered.edit grounded.1 grounded.2, k.tops.edit e⟩
  | schedule fiber queue payload made lane =>
    have created : Known (Move.onTree s fun t => (t.createUpdate made payload).2) :=
      k.of_sameKin (.of_fibers_eq rfl) (k.tops.of_same (Nat.le_refl _) rfl)
    exact created.stage _
  | force fiber lane => exact k.stage _
  | flush => exact k.flush fits
  | take queue => exact k.of_sameKin (.of_fibers_eq rfl) (k.tops.of_same (Nat.le_refl _) rfl)
  | ledger root g => exact k.of_sameKin (.of_fibers_eq rfl) (k.tops.setRoot root fun _ h => h)
  | entangle root queue lane =>
    simp only [Move.apply]
    split
    · refine k.of_sameKin (.of_fibers_eq rfl) (.setRoot ?_ root fun _ h => h)
      exact k.tops.of_same (Nat.le_refl _) rfl
    · exact k
  | current root fiber =>
    exact k.of_sameKin (.of_fibers_eq rfl) (k.tops.setRoot root fun _ _ => grounded)
  | pooled root g => exact k.of_sameKin (.of_fibers_eq rfl) (k.tops.setRoot root fun _ h => h)
  | notes fiber g =>
    refine k.of_sameKin (.setFiber (fun _ => by rfl) s.tree fiber) (k.tops.of_same ?_ rfl)
    exact Nat.le_of_eq (Tree.size_setFiber s.tree fiber _).symm
  | streak => exact ⟨k.covered, k.tops⟩

theorem applyAll {ms : List Move} (k : Known s) (fit : Move.AllFit s ms)
    (grounded : Move.AllGrounded s ms) : Known (Move.applyAll s ms) := by
  induction ms generalizing s with
  | nil => exact k
  | cons m ms ih => exact ih (k.apply fit.1 grounded.1) fit.2 grounded.2

end Known

/-! ## Runs -/

namespace Renderer

variable {r : Renderer} {op : Operation} {ops : List Operation}

theorem grounded_tellMoves (s : Staging) (r : Renderer) (fiber : FiberId)
    {told : RootId → List Move} (h : ∀ s root, Move.AllGrounded s (told root)) :
    Move.AllGrounded s (r.tellMoves fiber told) := by
  unfold tellMoves
  refine ⟨trivial, ?_⟩
  split
  · trivial
  · split
    · trivial
    · exact h _ _

/-- A commit makes a twin the committed fiber. It is there, being the twin of a fiber. -/
theorem grounded_commit (k : Known r.staging) (root : RootId) (remaining : LaneSet) :
    Move.AllGrounded r.staging (r.moves (.commit root remaining)) := by
  have rest : ∀ s left, Move.AllGrounded s
      [.pooled root (Pool.kept left), .streak (·.record root (left.meets LaneSet.blocking)),
        .streak (·.checked)] := fun _ _ => ⟨trivial, trivial, trivial, trivial⟩
  simp only [moves]
  unfold switchMoves
  refine ⟨trivial, ?_⟩
  split
  · cases twin : (r.tree.fiber (r.tree.root root).current).twin with
    | none => exact rest _ _
    | some w =>
      -- Only fibers that are there have a twin, and `w` has one, namely the fiber itself.
      have back := k.covered.family.twin_back _ w twin
      exact ⟨Tree.has_of_twin back, rest _ _⟩
  · exact rest _ _

theorem grounded_moves (k : Known r.staging) (fits : r.fits op)
    (idle : ∀ c ∈ op.appended?, r.tree.isIdle c) (single : ∀ c ∈ op.appended?, r.tree.isSingle c) :
    Move.AllGrounded r.staging (r.moves op) := by
  cases op with
  | edit e =>
    refine ⟨⟨fits, ?_⟩, trivial⟩
    rintro p c rfl
    exact ⟨idle c rfl, single c rfl⟩
  | dispatch fiber queue payload =>
    exact ⟨trivial, grounded_tellMoves _ r fiber fun _ _ => ⟨trivial, trivial, trivial⟩⟩
  | dispatchQuietly fiber queue payload =>
    refine ⟨trivial, ?_⟩
    split
    · trivial
    · exact ⟨trivial, trivial⟩
  | forceUpdate fiber =>
    exact ⟨trivial, grounded_tellMoves _ r fiber fun _ _ => ⟨trivial, trivial⟩⟩
  | prepare root =>
    simp only [moves]
    split
    · trivial
    · exact ⟨⟨k.tops root fits, fun _ _ appends => by cases appends⟩, trivial, trivial⟩
  | begin fiber =>
    simp only [moves]
    split
    · trivial
    · exact ⟨trivial, trivial⟩
  | readContext context =>
    simp only [moves]
    split
    · trivial
    · exact ⟨trivial, trivial⟩
  | commit root remaining => exact grounded_commit k root remaining
  | flush | takePending | suspended | pinged | starved => exact ⟨trivial, trivial⟩
  | enter | leave | entangle | settle | pushProvider | popProvider | rerender | complete =>
    exact trivial

end Renderer

namespace Known

variable {r : Renderer} {op : Operation} {ops : List Operation}

theorem next (k : Known r.staging) (fits : r.fits op) (flushes : r.flushes op)
    (idle : ∀ c ∈ op.appended?, r.tree.isIdle c)
    (single : ∀ c ∈ op.appended?, r.tree.isSingle c) : Known (r.next op).staging := by
  rw [Renderer.staging_next]
  exact k.applyAll (Renderer.fit_moves fits flushes) (Renderer.grounded_moves k fits idle single)

theorem after (k : Known r.staging) (smooth : r.Smooth ops) (idle : r.Appends Tree.isIdle ops)
    (single : r.Appends Tree.isSingle ops) : Known (r.after ops).staging := by
  induction ops generalizing r with
  | nil => exact k
  | cons op ops ih =>
    obtain ⟨fits, flushes, smooth⟩ := smooth
    exact ih (k.next fits flushes idle.1 single.1) smooth idle.2 single.2

theorem start {settings : Settings} {registry : ContextRegistry}
    (start : Renderer.start settings registry = .ok r) : Known r.staging := by
  rw [Renderer.staging_start start]
  refine ⟨⟨⟨nofun, nofun, nofun, nofun⟩, ?_⟩, nofun⟩
  intro f p above
  exact absurd above (Tree.Above.not_of_no_parent rfl)

end Known

/-- In every run without a failing flush in which no fiber with a twin is appended, all lanes
of fibers are known above, but for those that are staged. -/
theorem known_above_of_run {settings : Settings} {registry : ContextRegistry} {r : Renderer}
    (start : Renderer.start settings registry = .ok r) (ops : List Operation)
    (smooth : r.Smooth ops) (idle : r.Appends Tree.isIdle ops)
    (single : r.Appends Tree.isSingle ops) :
    let s := (r.after ops).staging
    ∀ f p, s.tree.Above f p → ∀ l ∈ (s.tree.fiber f).lanes,
      (∀ e ∈ s.buffer.staged, s.tree.Beside f e.fiber → l ∉ e.lane) →
        l ∈ (s.tree.fiber p).childLanes ∧
          ∀ w, (s.tree.fiber p).twin = some w → l ∈ (s.tree.fiber w).childLanes := by
  intro s f p above l hl free
  have k : Known s := (Known.start start).after smooth idle single
  have known : l ∈ (s.tree.kin p).childLanes := k.covered.cover f p above l hl free
  refine ⟨known, fun w twin => ?_⟩
  rw [← k.covered.family.childLanes_eq p w twin] at known
  exact known

/-- A child and a child of it are updated, rendered and committed, and then updated again. -/
theorem known_above_of_grandchild :
    (2 : Lane) ∈ (((default : Renderer).after
      [.edit (.createRoot true), .edit (.createChild ⟨0⟩ .functionComponent),
        .edit (.createChild ⟨1⟩ .functionComponent), .forceUpdate ⟨2⟩, .prepare ⟨0⟩,
        .edit (.startTwin ⟨1⟩ none), .commit ⟨0⟩ ∅, .forceUpdate ⟨2⟩,
        .flush]).staging.tree.fiber ⟨0⟩).childLanes := by
  refine (known_above_of_run (show Renderer.start {} .start = .ok default from rfl) _ ?_ ?_ ?_
    ⟨2⟩ ⟨0⟩ ?_ 2 ?_ ?_).1
  · decide +kernel
  · decide +kernel
  · decide +kernel
  · exact .step (g := ⟨1⟩) (by decide +kernel) (.parent (by decide +kernel))
  · decide +kernel
  · decide +kernel

/-- A fiber with a twin is removed, its twin is appended in its place, and the fiber itself
is updated. The lane of the update is a lane of both. It is not known above the twin. -/
theorem not_known_above_of_twin :
    let ops : List Operation :=
      [.edit (.createRoot true), .edit (.createChild ⟨0⟩ .functionComponent),
        .edit (.startTwin ⟨1⟩ none), .edit (.detach ⟨1⟩), .edit (.appendChild ⟨0⟩ ⟨2⟩),
        .forceUpdate ⟨1⟩, .flush]
    let s := ((default : Renderer).after ops).staging
    Renderer.start {} .start = .ok default ∧ (default : Renderer).Smooth ops ∧
      (default : Renderer).Appends Tree.isIdle ops ∧ s.buffer.staged = [] ∧
      s.tree.Above ⟨2⟩ ⟨0⟩ ∧ (2 : Lane) ∈ (s.tree.fiber ⟨2⟩).lanes ∧
      (2 : Lane) ∉ (s.tree.fiber ⟨0⟩).childLanes := by
  refine ⟨rfl, ?_, ?_, ?_, .parent ?_, ?_, ?_⟩ <;> decide +kernel

end ConcurrentRender
