import Mathlib.Data.List.MinMax
import Mathlib.Data.List.Sort
import Mathlib.Data.Prod.Lex
import ConcurrentRender.Proofs.Task.Next

/-!
# In which order tasks run

Tasks are scheduled by a host, and by the tasks that run. Each one gets the next number. The task
that runs is the most urgent one of those that wait, and of equally urgent ones that with the lowest
number. A queue keeps no numbers. Here it is compared with a diary that does.

* `TaskTurn`: a task is scheduled, or one runs. What a task leads to may differ from turn to turn.
* `TaskQueue.ran q turns`: the tasks that run in these turns.
  `TaskQueue.runs follow n`: `n` turns in each of which a task runs.
* `NumberedTask.key t`: the urgency of a task, and then its number.
* `TaskDiary`: the tasks that were scheduled, and those that ran. `TaskDiary.left d`: those that did
  not run. `TaskDiary.due? d`: the one of them with the least key.
* `TaskDiary.Describes d q`: the queue holds what the diary says is left.

Results:
1. `runAll_eq_some_iff`: all tasks have run when, after as many single runs, no task waits.
2. `runAll_of_no_others`: tasks that lead to no others run in the order of the agenda.
3. `Ascending.foremost`, `Ascending.agenda_eq`: the least key is that of the foremost task, and the
   agenda is sorted by keys.
4. `Describes.turn`, `Describes.through`: the diary goes on describing the queue.
5. `runs_by_urgency`: hence which task runs when, and that none is lost.
-/

namespace ConcurrentRender

/-! ## Turns of a queue -/

/-- A task is scheduled, or one runs. -/
inductive TaskTurn (τ : Type) where
  | schedule (priority : TaskPriority) (job : τ)
  /-- Runs the next task, and `follow` says what that one schedules meanwhile. -/
  | run (follow : τ → List (WaitingTask τ))

namespace TaskQueue

variable {τ : Type} {q rest : TaskQueue τ} {t : WaitingTask τ} {done : List (WaitingTask τ)}
  {follow : τ → List (WaitingTask τ)} {fuel count : Nat}

def turn (q : TaskQueue τ) : TaskTurn τ → TaskQueue τ
  | .schedule priority job => q.schedule priority job
  | .run follow => ((q.runNext follow).map Prod.snd).getD q

def through (q : TaskQueue τ) (turns : List (TaskTurn τ)) : TaskQueue τ := turns.foldl turn q

/-- The task that runs. -/
def runs? (q : TaskQueue τ) : TaskTurn τ → Option (WaitingTask τ)
  | .schedule _ _ => none
  | .run follow => (q.runNext follow).map Prod.fst

/-- The tasks that run, in order. -/
def ran (q : TaskQueue τ) : List (TaskTurn τ) → List (WaitingTask τ)
  | [] => []
  | x :: turns => (q.runs? x).toList ++ (q.turn x).ran turns

/-- So many runs in a row. -/
def runs (follow : τ → List (WaitingTask τ)) (n : Nat) : List (TaskTurn τ) :=
  .replicate n (.run follow)

theorem runNext_eq_none_iff : q.runNext follow = none ↔ q.waiting = [] := by
  rcases q.takeNext_cases with ⟨rfl, idle⟩ | ⟨before, t, after, waiting, -, next⟩
  · simp [runNext, idle]
  · simp [runNext, next, waiting]

theorem turn_of_runNext (next : q.runNext follow = some (t, rest)) :
    q.runs? (.run follow) = some t ∧ q.turn (.run follow) = rest := by
  simp [runs?, turn, next]

theorem ran_runs_succ (next : q.runNext follow = some (t, rest)) (n : Nat) :
    q.ran (runs follow (n + 1)) = t :: rest.ran (runs follow n) ∧
      q.through (runs follow (n + 1)) = rest.through (runs follow n) := by
  obtain ⟨taken, left⟩ := turn_of_runNext next
  simp [runs, List.replicate_succ, ran, through, taken, left]

theorem ran_runs_of_idle (idle : q.runNext follow = none) (n : Nat) :
    q.ran (runs follow n) = [] := by
  induction n with
  | zero => rfl
  | succ n ih =>
    have stays : q.turn (.run follow) = q := by simp [turn, idle]
    simpa [runs, List.replicate_succ, ran, runs?, idle, stays] using ih

theorem runAll_eq_nil_iff :
    q.runAll follow fuel = some (count, [], rest) ↔ count = 0 ∧ q = rest ∧ rest.waiting = [] := by
  have idle : q.runAll follow fuel = some (count, [], rest) ↔
      q.waiting = [] ∧ 0 = count ∧ q = rest := by
    cases fuel with
    | zero => simp [runAll]
    | succ fuel =>
      have idle : q.runNext follow = none ↔ q.waiting = [] := runNext_eq_none_iff
      rw [runAll, ← idle]
      cases q.runNext follow <;> simp
  rw [idle, and_comm, and_assoc, eq_comm]
  exact and_congr_right fun _ => and_congr_right fun same => by rw [same]

/-- All tasks have run when, after as many single runs, no task waits. -/
theorem runAll_eq_some_iff :
    q.runAll follow fuel = some (count, done, rest) ↔
      count = done.length ∧ done.length ≤ fuel ∧ q.ran (runs follow done.length) = done ∧
        q.through (runs follow done.length) = rest ∧ rest.waiting = [] := by
  induction done generalizing q fuel count with
  | nil => simp [runAll_eq_nil_iff, runs, ran, through]
  | cons t done ih =>
    cases fuel with
    | zero => simp [runAll]
    | succ fuel =>
      rw [List.length_cons, Nat.succ_le_succ_iff]
      cases next : q.runNext follow with
      | none => simp [runAll, next, ran_runs_of_idle next]
      | some taken =>
        obtain ⟨u, others⟩ := taken
        have first : q.runAll follow (fuel + 1) = some (count, t :: done, rest) ↔
            u = t ∧ ∃ n, n + 1 = count ∧ others.runAll follow fuel = some (n, done, rest) := by
          simp [runAll, next, and_left_comm]
        simp only [first, ih, (ran_runs_succ next _).1, (ran_runs_succ next _).2, List.cons.injEq]
        constructor
        · rintro ⟨rfl, n, rfl, rfl, enough, ran, left⟩
          exact ⟨rfl, enough, ⟨rfl, ran⟩, left⟩
        · rintro ⟨rfl, enough, ⟨rfl, ran⟩, left⟩
          exact ⟨rfl, _, rfl, rfl, enough, ran, left⟩

/-- Tasks that lead to no others run in the order of the agenda. -/
theorem runAll_of_no_others (last : ∀ t ∈ q.waiting, follow t.job = []) (enough : q.size ≤ fuel) :
    q.runAll follow fuel = some (q.size, q.agenda, {}) := by
  induction q using next_induction generalizing fuel with
  | idle => exact runAll_eq_nil_iff.mpr ⟨rfl, rfl, rfl⟩
  | @next before t after first ih =>
    simp only [List.forall_mem_append, List.forall_mem_cons] at last
    obtain ⟨earlier, own, later⟩ := last
    rw [size_split] at enough ⊢
    cases fuel with
    | zero => cases enough
    | succ fuel =>
      have others : runAll follow fuel ⟨before ++ after⟩ = some (_, agenda ⟨before ++ after⟩, {}) :=
        ih (List.forall_mem_append.mpr ⟨earlier, later⟩) (Nat.succ_le_succ_iff.mp enough)
      rw [runAll, runNext, takeNext_of_foremost first, agenda_of_foremost first]
      simp [scheduleAll, own, others]

end TaskQueue

/-! ## Numbers -/

/-- A task, and how many were scheduled before it. -/
structure NumberedTask (τ : Type) where
  number : Nat
  task : WaitingTask τ

namespace NumberedTask

variable {τ : Type} {t u : NumberedTask τ} {tasks sorted before after : List (NumberedTask τ)}

/-- What decides which of two tasks runs first: their urgency, and then their number. -/
def key (t : NumberedTask τ) : ℕ ×ₗ ℕ := toLex (t.task.priority.rank, t.number)

theorem key_le : t.key ≤ u.key ↔
    t.task.priority.rank < u.task.priority.rank ∨
      t.task.priority.rank = u.task.priority.rank ∧ t.number ≤ u.number :=
  Prod.Lex.toLex_le_toLex

/-- The tasks are in the order of their numbers. -/
def Ascending (tasks : List (NumberedTask τ)) : Prop :=
  tasks.Pairwise fun t u => t.number < u.number

namespace Ascending

theorem eq_of_key_eq (ascending : Ascending tasks) (here : t ∈ tasks) (there : u ∈ tasks)
    (same : t.key = u.key) : t = u := by
  have nodup : (tasks.map number).Nodup := List.pairwise_map.mpr (ascending.imp Nat.ne_of_lt)
  exact List.inj_on_of_nodup_map nodup here there (congrArg (fun k => (ofLex k).2) same)

theorem argmin_eq_some_iff (ascending : Ascending tasks) :
    tasks.argmin key = some t ↔ t ∈ tasks ∧ ∀ u ∈ tasks, t.key ≤ u.key := by
  constructor
  · exact fun found => ⟨List.argmin_mem found, fun u mem => List.le_of_mem_argmin mem found⟩
  · rintro ⟨mem, least⟩
    cases found : tasks.argmin key with
    | none =>
      rw [List.argmin_eq_none.mp found] at mem
      cases mem
    | some u =>
      have there := List.argmin_mem found
      have same : u.key = t.key := le_antisymm (List.le_of_mem_argmin mem found) (least u there)
      rw [ascending.eq_of_key_eq there mem same]

theorem others (ascending : Ascending (before ++ t :: after)) : Ascending (before ++ after) :=
  ascending.sublist ((List.sublist_cons_self t after).append_left before)

theorem filter_ne (ascending : Ascending (before ++ t :: after)) :
    ((before ++ t :: after).filter fun u => t.number ≠ u.number) = before ++ after := by
  rw [Ascending, List.pairwise_append, List.pairwise_cons] at ascending
  obtain ⟨-, ⟨later, -⟩, earlier⟩ := ascending
  rw [List.filter_append, List.filter_cons_of_neg (by simp)]
  congr 1
  · exact List.filter_eq_self.mpr fun u mem => decide_eq_true (earlier u mem t (.head _)).ne'
  · exact List.filter_eq_self.mpr fun u mem => decide_eq_true (later u mem).ne

/-- The task with the least key is the foremost one. -/
theorem foremost (ascending : Ascending (before ++ t :: after))
    (least : ∀ u ∈ before ++ after, t.key ≤ u.key) :
    TaskQueue.Foremost (before.map task) t.task (after.map task) := by
  rw [Ascending, List.pairwise_append] at ascending
  obtain ⟨-, -, earlier⟩ := ascending
  constructor
  · refine List.forall_mem_map.mpr fun u mem => ?_
    have number := earlier u mem t (.head _)
    have key := key_le.mp (least u (List.mem_append_left _ mem))
    omega
  · refine List.forall_mem_map.mpr fun u mem => ?_
    have key := key_le.mp (least u (List.mem_append_right _ mem))
    omega

/-- The agenda lists the tasks by their keys. -/
theorem agenda_eq (ascending : Ascending tasks) (perm : sorted.Perm tasks)
    (order : sorted.Pairwise fun t u => t.key ≤ u.key) :
    TaskQueue.agenda ⟨tasks.map task⟩ = sorted.map task := by
  induction sorted generalizing tasks with
  | nil =>
    obtain rfl := perm.nil_eq
    rfl
  | cons t sorted ih =>
    obtain ⟨before, after, rfl⟩ := List.append_of_mem (perm.subset (.head _))
    obtain ⟨least, order⟩ := List.pairwise_cons.mp order
    have others : sorted.Perm (before ++ after) := (perm.trans List.perm_middle).cons_inv
    have first := ascending.foremost fun u mem => least u (others.symm.subset mem)
    rw [List.map_append, List.map_cons, TaskQueue.agenda_of_foremost first, ← List.map_append,
      ih ascending.others others order, List.map_cons]

end Ascending

end NumberedTask

/-! ## The diary -/

/-- The tasks that were scheduled, and those that ran, in order. -/
structure TaskDiary (τ : Type) where
  scheduled : List (NumberedTask τ) := []
  ran : List (NumberedTask τ) := []

namespace TaskDiary

open NumberedTask (Ascending)

variable {τ : Type} {d : TaskDiary τ} {q : TaskQueue τ} {t : NumberedTask τ}
  {before after : List (NumberedTask τ)}

/-- The tasks that did not run. -/
def left (d : TaskDiary τ) : List (NumberedTask τ) :=
  d.scheduled.filter fun t => ∀ u ∈ d.ran, u.number ≠ t.number

/-- The task that is to run next: the most urgent one, and of those the one scheduled first. -/
def due? (d : TaskDiary τ) : Option (NumberedTask τ) := d.left.argmin NumberedTask.key

def schedule (d : TaskDiary τ) (task : WaitingTask τ) : TaskDiary τ :=
  { d with scheduled := d.scheduled ++ [⟨d.scheduled.length, task⟩] }

def run (d : TaskDiary τ) (t : NumberedTask τ) : TaskDiary τ := { d with ran := d.ran ++ [t] }

def turn (d : TaskDiary τ) : TaskTurn τ → TaskDiary τ
  | .schedule priority job => d.schedule { priority, job }
  | .run follow =>
    match d.due? with
    | none => d
    | some t => (follow t.task.job).foldl schedule (d.run t)

def through (d : TaskDiary τ) (turns : List (TaskTurn τ)) : TaskDiary τ := turns.foldl turn d

theorem left_run (ascending : Ascending (before ++ t :: after))
    (split : d.left = before ++ t :: after) : (d.run t).left = before ++ after := by
  have others : (d.run t).left = d.left.filter fun u => t.number ≠ u.number := by
    simp [left, run, List.filter_filter, or_imp, forall_and, and_comm]
  rw [others, split, ascending.filter_ne]

theorem ran_scheduleAll (d : TaskDiary τ) (tasks : List (WaitingTask τ)) :
    (tasks.foldl schedule d).ran = d.ran := by
  induction tasks generalizing d with
  | nil => rfl
  | cons t tasks ih => exact ih (d.schedule t)

/-- The tasks are numbered, each of them ran once or is left, and those that are left wait. -/
structure Describes (d : TaskDiary τ) (q : TaskQueue τ) : Prop where
  numbers : d.scheduled.map NumberedTask.number = List.range d.scheduled.length
  settled : (d.ran ++ d.left).Perm d.scheduled
  waiting : q.waiting = d.left.map NumberedTask.task

namespace Describes

theorem start : Describes {} ({} : TaskQueue τ) := ⟨rfl, .nil, rfl⟩

theorem ascending (described : Describes d q) : Ascending d.left := by
  have scheduled : Ascending d.scheduled :=
    List.pairwise_map.mp (described.numbers ▸ List.pairwise_lt_range)
  exact scheduled.sublist List.filter_sublist

/-- A number is given to one task only, so that none that ran has the next number. -/
theorem left_schedule (described : Describes d q) (task : WaitingTask τ) :
    (d.schedule task).left = d.left ++ [⟨d.scheduled.length, task⟩] := by
  have fresh : ∀ u ∈ d.ran, u.number ≠ d.scheduled.length := by
    intro u ran
    have there : u ∈ d.scheduled := described.settled.subset (List.mem_append_left _ ran)
    have mem : u.number ∈ List.range d.scheduled.length :=
      described.numbers ▸ List.mem_map_of_mem there
    exact (List.mem_range.mp mem).ne
  rw [left, TaskDiary.schedule, List.filter_append]
  exact congrArg _ (List.filter_eq_self.mpr (by simpa using fresh))

theorem schedule (described : Describes d q) (priority : TaskPriority) (job : τ) :
    Describes (d.schedule { priority, job }) (q.schedule priority job) := by
  refine ⟨?_, ?_, ?_⟩
  · simp [TaskDiary.schedule, described.numbers, List.range_succ]
  · rw [described.left_schedule, ← List.append_assoc]
    exact described.settled.append_right _
  · rw [described.left_schedule, TaskQueue.schedule, described.waiting, List.map_append,
      List.map_singleton]

theorem scheduleAll (described : Describes d q) (tasks : List (WaitingTask τ)) :
    Describes (tasks.foldl TaskDiary.schedule d) (q.scheduleAll tasks) := by
  induction tasks generalizing q d with
  | nil =>
    rw [TaskQueue.scheduleAll, List.append_nil]
    exact described
  | cons t tasks ih =>
    have later := ih (described.schedule t.priority t.job)
    rw [TaskQueue.scheduleAll, TaskQueue.schedule, List.append_assoc] at later
    exact later

/-- The queue takes the task that is due. -/
theorem takeNext_of_due (described : Describes d q) (due : d.due? = some t) :
    ∃ rest, q.takeNext = some (t.task, rest) ∧ Describes (d.run t) rest := by
  obtain ⟨mem, least⟩ := described.ascending.argmin_eq_some_iff.mp due
  obtain ⟨before, after, split⟩ := List.append_of_mem mem
  have ascending : Ascending (before ++ t :: after) := split ▸ described.ascending
  have left := left_run ascending split
  have first := ascending.foremost fun u other =>
    least u (split ▸ ((List.sublist_cons_self t after).append_left before).subset other)
  refine ⟨⟨(before ++ after).map NumberedTask.task⟩, ?_, described.numbers, ?_, ?_⟩
  · have waiting : q = ⟨before.map NumberedTask.task ++ t.task :: after.map NumberedTask.task⟩ := by
      rw [← List.map_cons, ← List.map_append, ← split, ← described.waiting]
    rw [waiting, TaskQueue.takeNext_of_foremost first, List.map_append]
  · have moved : (t :: (before ++ after)).Perm d.left := split ▸ List.perm_middle.symm
    rw [left, run, List.append_assoc]
    exact (moved.append_left d.ran).trans described.settled
  · rw [left]

theorem takeNext_of_none (described : Describes d q) (idle : d.due? = none) :
    q.takeNext = none := by
  have left : d.left = [] := List.argmin_eq_none.mp idle
  have waiting : q.waiting = [] := by rw [described.waiting, left, List.map_nil]
  exact congrArg (fun waiting => TaskQueue.takeNext ⟨waiting⟩) waiting

theorem runNext_eq (described : Describes d q) (follow : τ → List (WaitingTask τ)) :
    (q.runNext follow).map Prod.fst = d.due?.map NumberedTask.task := by
  rw [TaskQueue.runNext, Option.map_map]
  cases due : d.due? with
  | none => rw [described.takeNext_of_none due, Option.map_none, Option.map_none]
  | some t =>
    obtain ⟨rest, taken, -⟩ := described.takeNext_of_due due
    rw [taken, Option.map_some, Option.map_some]
    rfl

theorem agenda_eq (described : Describes d q) :
    q.agenda = (d.left.mergeSort fun t u => t.key ≤ u.key).map NumberedTask.task := by
  have agenda : q.agenda = TaskQueue.agenda ⟨d.left.map NumberedTask.task⟩ :=
    congrArg (fun waiting => TaskQueue.agenda ⟨waiting⟩) described.waiting
  have sorted : (d.left.mergeSort fun t u => t.key ≤ u.key).Pairwise
      fun t u => decide (t.key ≤ u.key) :=
    List.pairwise_mergeSort (fun _ _ _ => by simpa using le_trans)
      (fun t u => by simpa using le_total t.key u.key) d.left
  rw [agenda]
  exact described.ascending.agenda_eq (List.mergeSort_perm ..) (sorted.imp of_decide_eq_true)

/-- What runs in a turn is what the diary says. -/
theorem turn (described : Describes d q) (x : TaskTurn τ) :
    Describes (d.turn x) (q.turn x) ∧
      (d.turn x).ran.map NumberedTask.task =
        d.ran.map NumberedTask.task ++ (q.runs? x).toList := by
  cases x with
  | schedule priority job => exact ⟨described.schedule priority job, (List.append_nil _).symm⟩
  | run follow =>
    cases due : d.due? with
    | none =>
      have same : d.turn (.run follow) = d := by rw [TaskDiary.turn, due]
      have idle : q.runNext follow = none := by
        rw [TaskQueue.runNext, described.takeNext_of_none due, Option.map_none]
      rw [same, TaskQueue.turn, TaskQueue.runs?, idle]
      exact ⟨described, (List.append_nil _).symm⟩
    | some t =>
      obtain ⟨rest, taken, others⟩ := described.takeNext_of_due due
      have next : q.runNext follow = some (t.task, rest.scheduleAll (follow t.task.job)) := by
        rw [TaskQueue.runNext, taken, Option.map_some]
      obtain ⟨runs, left⟩ := TaskQueue.turn_of_runNext next
      rw [TaskDiary.turn, due, runs, left]
      refine ⟨others.scheduleAll _, ?_⟩
      rw [ran_scheduleAll, run, List.map_append]
      rfl

theorem through (described : Describes d q) (turns : List (TaskTurn τ)) :
    Describes (d.through turns) (q.through turns) ∧
      (d.through turns).ran.map NumberedTask.task =
        d.ran.map NumberedTask.task ++ q.ran turns := by
  induction turns generalizing q d with
  | nil => exact ⟨described, (List.append_nil _).symm⟩
  | cons x turns ih =>
    obtain ⟨next, ran⟩ := described.turn x
    obtain ⟨final, later⟩ := ih next
    refine ⟨final, ?_⟩
    rw [TaskQueue.ran, ← List.append_assoc, ← ran]
    exact later

end Describes

end TaskDiary

/-! ## The order -/

/-- Whatever is scheduled, by the host or by tasks that run: each task runs at most once, and waits
until then. The one that runs is the least of those that wait, by urgency and number, and the
priorities are listed in this order. Running all tasks comes to an end when, after as many single
runs, none waits, and it answers their number. If no waiting task leads to others, the priorities
that run are those listed. -/
theorem runs_by_urgency {τ : Type} (turns : List (TaskTurn τ)) :
    let q := ({} : TaskQueue τ).through turns
    let d := ({} : TaskDiary τ).through turns
    -- No task is lost, and none runs twice.
    d.scheduled.map NumberedTask.number = List.range d.scheduled.length ∧
    (d.ran ++ d.left).Perm d.scheduled ∧
    ({} : TaskQueue τ).ran turns = d.ran.map NumberedTask.task ∧
    q.waiting = d.left.map NumberedTask.task ∧
    -- One task, whatever it leads to.
    (∀ follow, (q.runNext follow).map Prod.fst = d.due?.map NumberedTask.task) ∧
    (∀ t, d.due? = some t ↔ t ∈ d.left ∧ ∀ u ∈ d.left, t.key ≤ u.key) ∧
    q.priorities = (d.left.mergeSort fun t u => t.key ≤ u.key).map (·.task.priority) ∧
    -- All tasks.
    ∀ (follow : τ → List (WaitingTask τ)) (fuel : Nat),
      (∀ count done rest, q.runAll follow fuel = some (count, done, rest) ↔
        count = done.length ∧ done.length ≤ fuel ∧
          q.ran (TaskQueue.runs follow done.length) = done ∧
          q.through (TaskQueue.runs follow done.length) = rest ∧ rest.waiting = []) ∧
      ((∀ t ∈ q.waiting, follow t.job = []) → q.size ≤ fuel →
        ∃ done, q.runAll follow fuel = some (q.size, done, {}) ∧
          done.map (·.priority) = q.priorities) := by
  intro q d
  obtain ⟨described, ran⟩ := TaskDiary.Describes.start.through turns
  refine ⟨described.numbers, described.settled, ran.symm, described.waiting, described.runNext_eq,
    fun t => described.ascending.argmin_eq_some_iff, ?_, fun follow fuel => ⟨?_, ?_⟩⟩
  · rw [TaskQueue.priorities, described.agenda_eq, List.map_map]
    rfl
  · exact fun count done rest => TaskQueue.runAll_eq_some_iff
  · exact fun last enough => ⟨_, TaskQueue.runAll_of_no_others last enough, rfl⟩

/-- A task scheduled two more, and one of them goes before the task that was there. -/
theorem runs_by_urgency_of_three :
    let q := ({} : TaskQueue String).through [.schedule .low "old", .schedule .immediate "urgent",
      .run fun _ => [⟨.low, "new"⟩, ⟨.normal, "between"⟩]]
    let follow : String → List (WaitingTask String) := fun _ => []
    (∀ t ∈ q.waiting, follow t.job = []) ∧ q.size ≤ 3 ∧ q.priorities = [.normal, .low, .low] ∧
      ∃ done, q.runAll follow 3 = some (3, done, {}) ∧
        done.map (·.priority) = q.priorities := by
  intro q follow
  have last : ∀ t ∈ q.waiting, follow t.job = [] := fun _ _ => rfl
  obtain ⟨-, -, -, -, -, -, -, all⟩ := runs_by_urgency (τ := String) [.schedule .low "old",
    .schedule .immediate "urgent", .run fun _ => [⟨.low, "new"⟩, ⟨.normal, "between"⟩]]
  exact ⟨last, by decide, rfl, (all follow 3).2 last (by decide)⟩

end ConcurrentRender
