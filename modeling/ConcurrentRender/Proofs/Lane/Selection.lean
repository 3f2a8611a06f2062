import Mathlib.Data.List.FinRange
import ConcurrentRender.Proofs.Lane.Coherent

/-!
# Whether ready work is chosen

The choice of lanes looks at one category of work, in it at the lanes that do not wait before those
whose data arrived, and then at the most urgent lane it found and its batch. The deferred lane has
no batch. So where it is the most urgent lane found, nothing is chosen, also if other lanes of the
category are ready: less urgent ones, and lanes whose data arrived.

* `LaneLedger.category g`, `LaneLedger.ready g`: the work that goes first, and the lanes of it that
  can be rendered.
* `LaneLedger.candidates g`: the lanes of which a batch is chosen.
* `LaneLedger.Served g lanes`: the lanes are ready, and the most urgent ready lane is among them.
* `LaneLedger.Shadowed g`: the deferred lane is the most urgent candidate.

Results:
1. `batch_eq`: the batch of a set, by its most urgent lane.
2. `choose_eq`: the choice is a batch of the candidates, if only pending lanes wait.
3. `Orderly.call`: only pending lanes wait, as long as no others are suspended.
4. `served_iff`: hence ready work is served, unless the deferred lane shadows it.
-/

namespace ConcurrentRender

namespace LaneSet

variable {s : LaneSet} {f l : Lane}

/-- The deferred lane by its number. -/
def deferred : Lane := ⟨23, by decide⟩

theorem mem_deferredLane : l ∈ deferredLane ↔ l = deferred := mem_single

theorem ne_empty_of_mem (mem : l ∈ s) : s ≠ ∅ := by
  rintro rfl
  exact not_mem_empty l mem

theorem exists_mem (some : s ≠ ∅) : ∃ l, l ∈ s := by
  by_contra none
  exact some (ext_mem fun l => iff_of_false (fun mem => none ⟨l, mem⟩) (not_mem_empty l))

/-! ## The most urgent lane -/

theorem first?_eq_some : s.first? = some f ↔ f ∈ s ∧ ∀ l ∈ s, f ≤ l := by
  have sorted : s.members.Pairwise (· < ·) := (List.pairwise_lt_finRange 31).filter _
  have mem (l : Lane) : l ∈ s.members ↔ l ∈ s := mem_members
  unfold first?
  cases shape : s.members with
  | nil =>
    rw [shape] at mem
    simp [← mem]
  | cons m ms =>
    rw [shape] at mem sorted
    obtain ⟨least, -⟩ := List.pairwise_cons.mp sorted
    simp only [List.head?_cons, Option.some.injEq, ← mem, List.mem_cons]
    constructor
    · rintro rfl
      refine ⟨.inl rfl, ?_⟩
      rintro l (rfl | later)
      · exact Nat.le_refl _
      · exact Nat.le_of_lt (least l later)
    · rintro ⟨rfl | later, first⟩
      · rfl
      · exact absurd (least f later) (Nat.not_lt.mpr (first m (.inl rfl)))

/-- The most urgent lanes of two sets are the same if each is in the other set. -/
theorem first?_eq_first? {s' : LaneSet} {f' : Lane} (urgent : s.first? = some f)
    (urgent' : s'.first? = some f') (mem : f ∈ s') (mem' : f' ∈ s) : f = f' :=
  Fin.le_antisymm ((first?_eq_some.mp urgent).2 f' mem') ((first?_eq_some.mp urgent').2 f mem)

theorem first?_eq_none : s.first? = none ↔ s = ∅ := by
  rw [first?, List.head?_eq_none_iff, List.eq_nil_iff_forall_not_mem]
  simp only [mem_members]
  exact ⟨fun none => ext_mem fun l => by simp [none l], fun none l => none ▸ not_mem_empty l⟩

theorem exists_first? (some : s ≠ ∅) : ∃ f, s.first? = .some f :=
  Option.ne_none_iff_exists'.mp (mt first?_eq_none.mp some)

theorem first_eq (urgent : s.first? = some f) : s.first = single f := by
  unfold first
  rw [urgent]

/-- The lanes to work on together depend on the most urgent one. -/
theorem batch_eq (urgent : s.first? = some f) :
    s.batch = if f ∈ transitions then s ∩ transitions else if f ∈ retries then s ∩ retries
      else if f = deferred then ∅ else single f := by
  have alone : (single f == deferredLane) = true ↔ f = deferred := by
    rw [beq_iff_eq]
    refine ⟨fun same => ?_, fun same => by rw [same]; rfl⟩
    exact mem_deferredLane.mp (same ▸ mem_single.mpr rfl)
  unfold batch
  simp only [first_eq urgent, single_meets, alone]

theorem batch_empty : (∅ : LaneSet).batch = ∅ := by
  refine ext_mem fun l => iff_of_false (fun mem => ?_) (not_mem_empty l)
  exact not_mem_empty l (mem_of_mem_batch mem)

theorem batch_deferred (urgent : s.first? = some deferred) : s.batch = ∅ := by
  rw [batch_eq urgent, if_neg (by decide), if_neg (by decide), if_pos rfl]

theorem mem_batch (urgent : s.first? = some f) (own : f ≠ deferred) : f ∈ s.batch := by
  have mem := (first?_eq_some.mp urgent).1
  rw [batch_eq urgent]
  split
  next transition => exact mem_inter.mpr ⟨mem, transition⟩
  next =>
    split
    next retry => exact mem_inter.mpr ⟨mem, retry⟩
    next => exact mem_single.mpr rfl

/-- The batch of a set starts with the most urgent lane of the set. -/
theorem first?_batch (urgent : s.first? = some f) (own : f ≠ deferred) :
    s.batch.first? = some f :=
  first?_eq_some.mpr ⟨mem_batch urgent own,
    fun l mem => (first?_eq_some.mp urgent).2 l (mem_of_mem_batch mem)⟩

theorem deferred_not_mem_batch : deferred ∉ s.batch := by
  cases urgent : s.first? with
  | none =>
    rw [first?_eq_none.mp urgent, batch_empty]
    exact not_mem_empty _
  | some f =>
    rw [batch_eq urgent]
    split
    · exact fun mem => absurd (mem_inter.mp mem).2 (by decide)
    · split
      · exact fun mem => absurd (mem_inter.mp mem).2 (by decide)
      · split
        · exact not_mem_empty _
        next own => exact fun mem => own (mem_single.mp mem).symm

end LaneSet

namespace LaneLedger

open LaneSet (nonIdle deferredLane deferred)

variable {g : LaneLedger} {c : LedgerCall} {calls : List LedgerCall} {l f : Lane} {lanes : LaneSet}

/-! ## The choice -/

/-- The pending lanes that go first: those that are not idle, if there are any. -/
def category (g : LaneLedger) : LaneSet :=
  if (g.pending ∩ nonIdle).isEmpty then g.pending else g.pending ∩ nonIdle

/-- The lanes of the category that can be rendered. Deferred work belongs to other work. -/
def ready (g : LaneLedger) : LaneSet := (g.category \ deferredLane) \ (g.suspended \ g.pinged)

/-- The lanes of which a batch is chosen. -/
def candidates (g : LaneLedger) : LaneSet :=
  if (g.category \ g.suspended).isEmpty then g.category ∩ g.pinged else g.category \ g.suspended

/-- The lanes are ready. The most urgent one that does not wait is among them or, if all wait,
the most urgent one whose data arrived. -/
structure Served (g : LaneLedger) (lanes : LaneSet) : Prop where
  busy : lanes ≠ ∅
  ready : lanes ⊆ g.ready
  unblocked : ∀ f, (g.ready \ g.suspended).first? = some f → f ∈ lanes
  pinged : g.ready \ g.suspended = ∅ → ∀ f, (g.ready ∩ g.pinged).first? = some f → f ∈ lanes

/-- The deferred lane is the most urgent candidate. -/
def Shadowed (g : LaneLedger) : Prop := g.candidates.first? = some deferred

instance (g : LaneLedger) : Decidable g.Shadowed :=
  inferInstanceAs (Decidable (g.candidates.first? = some deferred))

/-- Besides what holds of every ledger, only pending lanes wait for data. -/
structure Orderly (g : LaneLedger) : Prop extends Coherent g where
  suspended : g.suspended ⊆ g.pending

theorem Orderly.start : ({} : LaneLedger).Orderly := ⟨.start, LaneSet.forall_mem_empty⟩

theorem Orderly.pending_of_pinged (orderly : g.Orderly) : g.pinged ⊆ g.pending :=
  fun l mem => orderly.suspended l (orderly.pinged l mem)

/-- A ledger stays orderly as long as only pending lanes are suspended. -/
theorem Orderly.call (orderly : g.Orderly)
    (aimed : ∀ lanes, c = .suspended lanes → lanes ⊆ g.pending) : (g.call c).Orderly := by
  refine ⟨orderly.toCoherent.call c, fun l mem => ?_⟩
  cases c with
  | updated lanes =>
    refine mem_pending_markUpdated.mpr (.inl (orderly.suspended l ?_))
    have mem : l ∈ (g.markUpdated lanes).suspended := mem
    unfold markUpdated at mem
    dsimp only at mem
    split at mem
    · exact mem
    · exact absurd mem (LaneSet.not_mem_empty l)
  | suspended lanes =>
    exact (LaneSet.mem_union.mp mem).elim (orderly.suspended l) (aimed lanes rfl l)
  | pinged | entangled => exact orderly.suspended l mem
  | starved now t =>
    have same := sameWork_markStarved g now t
    exact same.pending ▸ orderly.suspended l (same.suspended ▸ mem)
  | finished remaining => exact absurd mem (LaneSet.not_mem_empty l)

/-- Each call of the sequence suspends no lanes but pending ones. -/
def Aimed (g : LaneLedger) : List LedgerCall → Prop
  | [] => True
  | c :: calls => (∀ lanes, c = .suspended lanes → lanes ⊆ g.pending) ∧ (g.call c).Aimed calls

theorem Aimed.of_none (none : ∀ lanes, .suspended lanes ∉ calls) : g.Aimed calls := by
  induction calls generalizing g with
  | nil => trivial
  | cons c calls ih =>
    exact ⟨fun lanes same => absurd (same ▸ .head _) (none lanes),
      ih fun lanes mem => none lanes (.tail _ mem)⟩

theorem Orderly.after (orderly : g.Orderly) (aimed : g.Aimed calls) : (g.after calls).Orderly := by
  induction calls generalizing g with
  | nil => exact orderly
  | cons c calls ih => exact ih (orderly.call aimed.1) aimed.2

theorem category_subset : g.category ⊆ g.pending := by
  intro l mem
  unfold category at mem
  split at mem
  · exact mem
  · exact (LaneSet.mem_inter.mp mem).1

theorem candidates_subset : g.candidates ⊆ g.category := by
  intro l mem
  unfold candidates at mem
  split at mem
  · exact (LaneSet.mem_inter.mp mem).1
  · exact (LaneSet.mem_diff.mp mem).1

/-- The choice is a batch of the candidates. -/
theorem choose_eq (orderly : g.Orderly) : g.choose = g.candidates.batch := by
  have pinged : g.pending ∩ g.pinged = g.pinged := LaneSet.ext_mem fun l =>
    LaneSet.mem_inter.trans ⟨And.right, fun mem => ⟨orderly.pending_of_pinged l mem, mem⟩⟩
  unfold choose
  dsimp only
  by_cases none : g.pending.isEmpty
  · have empty := LaneSet.isEmpty_iff.mp none
    rw [if_pos none]
    refine LaneSet.ext_mem fun l => iff_of_false (LaneSet.not_mem_empty l) fun mem => ?_
    exact empty l (category_subset l (candidates_subset l (LaneSet.mem_of_mem_batch mem)))
  · rw [if_neg none]
    unfold candidates category
    by_cases urgent : (g.pending ∩ nonIdle).isEmpty
    · simp only [urgent, Bool.not_true, Bool.false_eq_true, if_false, if_true, pinged]
      split <;> rfl
    · simp only [urgent, Bool.not_false, if_true, Bool.false_eq_true, if_false]
      split <;> rfl

theorem next_eq_choose (g : LaneLedger) : g.next ∅ = g.choose := by
  unfold next keeps
  dsimp only
  split
  next none => exact (beq_iff_eq.mp none).symm
  next => rfl

/-- A shadowed choice is empty, and all of the work it was made from is idle. -/
theorem next_of_shadowed (orderly : g.Orderly) (shadowed : g.Shadowed) :
    g.next ∅ = ∅ ∧ g.pending ∩ nonIdle = ∅ := by
  constructor
  · rw [next_eq_choose, choose_eq orderly, LaneSet.batch_deferred shadowed]
  · have mem := candidates_subset _ (LaneSet.first?_eq_some.mp shadowed).1
    unfold category at mem
    split at mem
    next idle => exact beq_iff_eq.mp idle
    next => exact absurd (LaneSet.mem_inter.mp mem).2 (by decide)

/-! ## Whom the choice serves -/

theorem mem_ready : l ∈ g.ready ↔
    l ∈ g.category ∧ l ≠ deferred ∧ (l ∉ g.suspended ∨ l ∈ g.pinged) := by
  unfold ready
  rw [LaneSet.mem_diff, LaneSet.mem_diff, LaneSet.mem_diff, LaneSet.mem_deferredLane, and_assoc,
    not_and_or, not_not]

/-- Lanes whose data arrived are candidates only if all lanes of the category wait. -/
theorem candidates_cases (g : LaneLedger) :
    (g.category ⊆ g.suspended ∧ g.candidates = g.category ∩ g.pinged) ∨
      ((∃ l ∈ g.category, l ∉ g.suspended) ∧ g.candidates = g.category \ g.suspended) := by
  by_cases free : ∃ l ∈ g.category, l ∉ g.suspended
  · refine .inr ⟨free, if_neg fun none => ?_⟩
    obtain ⟨l, mem, free⟩ := free
    exact LaneSet.isEmpty_iff.mp none l (LaneSet.mem_diff.mpr ⟨mem, free⟩)
  · have blocked : g.category ⊆ g.suspended := fun l mem =>
      Decidable.not_not.mp fun open_ => free ⟨l, mem, open_⟩
    refine .inl ⟨blocked, if_pos (LaneSet.isEmpty_iff.mpr fun l mem => ?_)⟩
    obtain ⟨mem, open_⟩ := LaneSet.mem_diff.mp mem
    exact open_ (blocked l mem)

theorem ready_of_mem_candidates (mem : l ∈ g.candidates) (own : l ≠ deferred) : l ∈ g.ready := by
  refine mem_ready.mpr ⟨candidates_subset l mem, own, ?_⟩
  unfold candidates at mem
  split at mem
  · exact .inr (LaneSet.mem_inter.mp mem).2
  · exact .inl (LaneSet.mem_diff.mp mem).2

/-- Where a lane is ready, there are candidates. -/
theorem candidates_ne_empty (mem : l ∈ g.ready) : g.candidates ≠ ∅ := by
  obtain ⟨mem, -, open_⟩ := mem_ready.mp mem
  rcases g.candidates_cases with ⟨blocked, among⟩ | ⟨⟨m, mem, free⟩, among⟩
  · have arrived := open_.resolve_left fun free => free (blocked l mem)
    exact among ▸ LaneSet.ne_empty_of_mem (LaneSet.mem_inter.mpr ⟨mem, arrived⟩)
  · exact among ▸ LaneSet.ne_empty_of_mem (LaneSet.mem_diff.mpr ⟨mem, free⟩)

/-- The batch of the candidates serves the ready lanes, unless it is shadowed. -/
theorem served_batch (work : g.ready ≠ ∅) (clear : ¬ g.Shadowed) :
    g.Served g.candidates.batch := by
  obtain ⟨l, mem⟩ := LaneSet.exists_mem work
  obtain ⟨f, urgent⟩ := LaneSet.exists_first? (candidates_ne_empty mem)
  have own : f ≠ deferred := by
    rintro rfl
    exact clear urgent
  have chosen := LaneSet.mem_batch urgent own
  have mem := (LaneSet.first?_eq_some.mp urgent).1
  have mine := ready_of_mem_candidates mem own
  have busy : g.candidates.batch ≠ ∅ := LaneSet.ne_empty_of_mem chosen
  have ready : g.candidates.batch ⊆ g.ready := fun l mem =>
    ready_of_mem_candidates (LaneSet.mem_of_mem_batch mem) fun same =>
      LaneSet.deferred_not_mem_batch (same ▸ mem)
  rcases g.candidates_cases with ⟨blocked, among⟩ | ⟨-, among⟩
  · refine ⟨busy, ready, fun f' least => ?_, fun _ f' least => ?_⟩
    · obtain ⟨mem', free⟩ := LaneSet.mem_diff.mp (LaneSet.first?_eq_some.mp least).1
      exact absurd (blocked f' (mem_ready.mp mem').1) free
    · obtain ⟨mem', arrived⟩ := LaneSet.mem_inter.mp (LaneSet.first?_eq_some.mp least).1
      have there : f' ∈ g.candidates := by
        rw [among]
        exact LaneSet.mem_inter.mpr ⟨(mem_ready.mp mem').1, arrived⟩
      have here := LaneSet.mem_inter.mpr ⟨mine, (LaneSet.mem_inter.mp (among ▸ mem)).2⟩
      exact LaneSet.first?_eq_first? urgent least here there ▸ chosen
  · have here := LaneSet.mem_diff.mpr ⟨mine, (LaneSet.mem_diff.mp (among ▸ mem)).2⟩
    refine ⟨busy, ready, fun f' least => ?_, fun none => ?_⟩
    · obtain ⟨mem', free⟩ := LaneSet.mem_diff.mp (LaneSet.first?_eq_some.mp least).1
      have there : f' ∈ g.candidates := by
        rw [among]
        exact LaneSet.mem_diff.mpr ⟨(mem_ready.mp mem').1, free⟩
      exact LaneSet.first?_eq_first? urgent least here there ▸ chosen
    · exact absurd none (LaneSet.ne_empty_of_mem here)

/-- After every sequence of calls that suspends only pending lanes, if some lane of the category is
ready, the choice serves the ready lanes if and only if the deferred lane is not the most urgent
candidate. If it is, nothing is chosen, and all pending work is idle. -/
theorem served_iff (calls : List LedgerCall) (aimed : Aimed {} calls)
    (work : (({} : LaneLedger).after calls).ready ≠ ∅) :
    let g := ({} : LaneLedger).after calls
    (g.Served (g.next ∅) ↔ ¬ g.Shadowed) ∧
      (g.Shadowed → g.next ∅ = ∅ ∧ g.pending ∩ nonIdle = ∅) := by
  intro g
  have orderly : g.Orderly := Orderly.start.after aimed
  refine ⟨⟨fun served shadowed => ?_, fun clear => ?_⟩, next_of_shadowed orderly⟩
  · exact served.busy (next_of_shadowed orderly shadowed).1
  · rw [next_eq_choose, choose_eq orderly]
    exact served_batch work clear

/-- Idle work whose data arrived is shadowed by deferred work. -/
theorem idle_shadowed :
    let calls : List LedgerCall := [.updated LaneSet.idleLane, .updated deferredLane,
      .suspended LaneSet.idleLane, .pinged LaneSet.idleLane]
    let g := ({} : LaneLedger).after calls
    Aimed {} calls ∧ g.ready = LaneSet.idleLane ∧ ¬ g.Served (g.next ∅) := by
  intro calls g
  have aimed : Aimed {} calls := by
    refine ⟨nofun, nofun, fun lanes same => ?_, nofun, trivial⟩
    cases same
    exact LaneSet.within_iff.mp (by decide)
  have ready : g.ready = LaneSet.idleLane := by decide
  have shadowed : g.Shadowed := by decide
  have iff := (served_iff calls aimed (by decide)).1
  exact ⟨aimed, ready, fun served => iff.mp served shadowed⟩

end LaneLedger

end ConcurrentRender
