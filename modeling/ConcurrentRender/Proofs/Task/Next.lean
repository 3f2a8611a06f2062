import Mathlib.Data.List.Basic
import ConcurrentRender.Task.Queue

/-!
# The task that runs next

A queue looks for its next task priority by priority. What it finds is the first one of the most
urgent tasks. The others go on waiting in their order, and so the agenda goes on with them.

* `TaskPriority.rank p`: how many priorities are more urgent than `p`.
* `TaskQueue.Foremost before t after`: `t`, in its place among those that wait, is the first one of
  the most urgent.

Results:
1. `exists_foremost`: if tasks wait, one of them is foremost.
2. `agenda_of_foremost`, `takeNext_of_foremost`: it is first on the agenda, and it is taken.
3. `takeNext_cases`: hence all that can come of asking for the next task.
4. `next_induction`: and what holds of all queues, task by task.
-/

namespace ConcurrentRender

namespace TaskPriority

/-- How many priorities are more urgent. -/
def rank : TaskPriority → Nat
  | immediate => 0
  | userBlocking => 1
  | normal => 2
  | low => 3
  | idle => 4

theorem all_ascending : all.Pairwise fun p o => p.rank < o.rank := by decide

theorem mem_all (p : TaskPriority) : p ∈ all := by
  cases p <;> decide

end TaskPriority

namespace TaskQueue

variable {τ : Type} {t : WaitingTask τ} {before after : List (WaitingTask τ)} {p : TaskPriority}

/-- No task before `t` is as urgent, and none after it is more urgent. -/
structure Foremost (before : List (WaitingTask τ)) (t : WaitingTask τ)
    (after : List (WaitingTask τ)) : Prop where
  before : ∀ u ∈ before, t.priority.rank < u.priority.rank
  after : ∀ u ∈ after, t.priority.rank ≤ u.priority.rank

theorem size_split (before after : List (WaitingTask τ)) (t : WaitingTask τ) :
    size ⟨before ++ t :: after⟩ = size ⟨before ++ after⟩ + 1 := by
  simp [size, Nat.add_assoc]

/-- The first task is foremost, unless the foremost one of the others is more urgent. -/
theorem exists_foremost : ∀ {tasks : List (WaitingTask τ)}, tasks ≠ [] →
    ∃ before t after, tasks = before ++ t :: after ∧ Foremost before t after
  | [], waits => absurd rfl waits
  | [t], _ => ⟨[], t, [], rfl, nofun, nofun⟩
  | u :: v :: tasks, _ => by
    obtain ⟨before, t, after, split, first⟩ := exists_foremost (List.cons_ne_nil v tasks)
    rw [split]
    rcases Nat.lt_or_ge t.priority.rank u.priority.rank with urgent | late
    · refine ⟨u :: before, t, after, rfl, ?_, first.after⟩
      exact List.forall_mem_cons.mpr ⟨urgent, first.before⟩
    · refine ⟨[], u, before ++ t :: after, rfl, nofun, ?_⟩
      refine List.forall_mem_append.mpr ⟨fun w mem => ?_, List.forall_mem_cons.mpr ⟨late, ?_⟩⟩
      · exact Nat.le_trans late (Nat.le_of_lt (first.before w mem))
      · exact fun w mem => Nat.le_trans late (first.after w mem)

namespace Foremost

theorem ne_of_before (first : Foremost before t after) :
    ∀ u ∈ before, ¬ (u.priority == t.priority) := fun u mem same =>
  Nat.ne_of_gt (first.before u mem) (congrArg TaskPriority.rank (beq_iff_eq.mp same))

/-- Nothing that waits is more urgent. -/
theorem filter_of_lt (first : Foremost before t after) (urgent : p.rank < t.priority.rank) :
    ((before ++ after).filter fun u => u.priority == p) = [] := by
  have late : ∀ u ∈ before ++ after, t.priority.rank ≤ u.priority.rank :=
    List.forall_mem_append.mpr ⟨fun u mem => Nat.le_of_lt (first.before u mem), first.after⟩
  refine List.filter_eq_nil_iff.mpr fun u mem same => ?_
  obtain rfl := beq_iff_eq.mp same
  exact Nat.not_lt.mpr (late u mem) urgent

/-- Of its priority it is the first, and to the other priorities it makes no difference. -/
theorem filter_eq (first : Foremost before t after) (p : TaskPriority) :
    ((before ++ t :: after).filter fun u => u.priority == p) =
      (if p = t.priority then [t] else []) ++
        (before ++ after).filter fun u => u.priority == p := by
  by_cases own : p = t.priority
  · subst own
    have none := List.filter_eq_nil_iff.mpr first.ne_of_before
    simp [List.filter_append, none]
  · simp [List.filter_append, own, Ne.symm own]

end Foremost

/-- The foremost task is the first one on the agenda. -/
theorem agenda_of_foremost (first : Foremost before t after) :
    agenda ⟨before ++ t :: after⟩ = t :: agenda ⟨before ++ after⟩ := by
  obtain ⟨above, below, priorities⟩ := List.append_of_mem t.priority.mem_all
  have ascending := TaskPriority.all_ascending
  rw [priorities, List.pairwise_append, List.pairwise_cons] at ascending
  obtain ⟨-, ⟨lower, -⟩, upper⟩ := ascending
  -- Above the priority of `t` nothing waits, and below it `t` is not looked at.
  have urgent : ∀ p ∈ above, p.rank < t.priority.rank := fun p mem => upper p mem _ (.head _)
  have same : ∀ ps : List TaskPriority, (∀ p ∈ ps, p.rank ≠ t.priority.rank) →
      (ps.flatMap fun p => (before ++ t :: after).filter fun u => u.priority == p) =
        ps.flatMap fun p => (before ++ after).filter fun u => u.priority == p := by
    refine fun ps apart => List.flatMap_congr fun p mem => ?_
    rw [first.filter_eq, if_neg fun same => apart p mem (congrArg _ same), List.nil_append]
  have none : (above.flatMap fun p => (before ++ after).filter fun u => u.priority == p) = [] :=
    List.flatMap_eq_nil_iff.mpr fun p mem => first.filter_of_lt (urgent p mem)
  simp only [agenda, priorities, List.flatMap_append, List.flatMap_cons]
  rw [same above fun p mem => Nat.ne_of_lt (urgent p mem),
    same below fun p mem => Nat.ne_of_gt (lower p mem), none, first.filter_eq, if_pos rfl]
  rfl

/-- The foremost task is the one that is taken. -/
theorem takeNext_of_foremost (first : Foremost before t after) :
    takeNext ⟨before ++ t :: after⟩ = some (t, ⟨before ++ after⟩) := by
  rw [takeNext, agenda_of_foremost first]
  simp [List.eraseP_append_right _ first.ne_of_before]

/-- No task waits, or the foremost one is taken and the others go on waiting. -/
theorem takeNext_cases (q : TaskQueue τ) :
    q = {} ∧ q.takeNext = none ∨
      ∃ before t after, q.waiting = before ++ t :: after ∧ Foremost before t after ∧
        q.takeNext = some (t, ⟨before ++ after⟩) := by
  obtain ⟨tasks⟩ := q
  rcases eq_or_ne tasks [] with rfl | waits
  · exact .inl ⟨rfl, rfl⟩
  · obtain ⟨before, t, after, rfl, first⟩ := exists_foremost waits
    exact .inr ⟨before, t, after, rfl, first, takeNext_of_foremost first⟩

/-- What holds of the empty queue, and of a queue as soon as it holds without the foremost task,
holds of every queue. -/
@[elab_as_elim]
theorem next_induction {motive : TaskQueue τ → Prop} (idle : motive {})
    (next : ∀ {before t after}, Foremost before t after →
      motive ⟨before ++ after⟩ → motive ⟨before ++ t :: after⟩) (q : TaskQueue τ) : motive q := by
  obtain ⟨tasks⟩ := q
  induction length : tasks.length generalizing tasks with
  | zero =>
    obtain rfl := List.length_eq_zero_iff.mp length
    exact idle
  | succ n ih =>
    obtain ⟨before, t, after, rfl, first⟩ :=
      exists_foremost (List.ne_nil_of_length_eq_add_one length)
    exact next first (ih _ (Nat.succ.inj ((size_split before after t).symm.trans length)))

theorem length_agenda (q : TaskQueue τ) : q.agenda.length = q.size := by
  induction q using next_induction with
  | idle => rfl
  | next first ih =>
    rw [agenda_of_foremost first, List.length_cons, ih, size_split]

end TaskQueue

end ConcurrentRender
