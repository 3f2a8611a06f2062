import ConcurrentRender.Proofs.Cache.Counting
import ConcurrentRender.Proofs.Task.Next
import ConcurrentRender.Proofs.Tree.Frame

/-!
# When a cache is aborted

The release of the last reference to a cache schedules a task that aborts it. The task runs later
and does not look at the references again. So a cache that was retained meanwhile is aborted all
the same. Only if it was released as often as it was retained since the task was scheduled, there
is nobody left whom the abort could hit.

* `CacheHost.Stage h c scheduled aborted tasks`: how far the abort of `c` has come, and the tasks
  that wait for it.

Results:
1. `runNext_cases`, `runAll_eq`: what running one task does, and running all of them.
2. `refs_after`: the references to a cache are those that its calls count.
3. `Stage.call`: one call schedules the abort, runs it or leaves it where it is.
4. `Stage.after_idle`: it is scheduled at most once, by a release of the last reference.
5. `refs_at_abort`: hence what there is of references when it runs.
-/

namespace ConcurrentRender

namespace CacheHost

open CacheCall (count retained released Balanced)

variable {h : CacheHost} {c d : CacheId} {priority : TaskPriority} {calls : List CacheCall}

def call (h : CacheHost) : CacheCall → CacheHost
  | .create => h.create.2
  | .retain c => (retain c h).state
  | .release c priority => (release c priority h).state
  | .run => h.runNext.2

def after (h : CacheHost) (calls : List CacheCall) : CacheHost := calls.foldl call h

theorem after_append (h : CacheHost) (calls later : List CacheCall) :
    h.after (calls ++ later) = (h.after calls).after later :=
  List.foldl_append ..

/-! ## Single calls -/

theorem cache_setCache (h : CacheHost) (c d : CacheId) (g : Cache → Cache) :
    (h.setCache c g).cache d = if c = d ∧ h.caches.has d then g (h.cache d) else h.cache d :=
  Arena.get_modify ..

theorem cache_setCache_of_ne (ne : c ≠ d) (g : Cache → Cache) :
    (h.setCache c g).cache d = h.cache d := by
  rw [cache_setCache, if_neg fun same => ne same.1]

theorem cache_setCache_self (there : h.caches.has c) (g : Cache → Cache) :
    (h.setCache c g).cache c = g (h.cache c) := by
  rw [cache_setCache, if_pos ⟨rfl, there⟩]

@[simp] theorem has_setCache (h : CacheHost) (c d : CacheId) (g : Cache → Cache) :
    (h.setCache c g).caches.has d = h.caches.has d := by
  simp only [Arena.has, setCache, Arena.size_modify]

theorem cache_create (there : h.caches.has c) : h.create.2.cache c = h.cache c :=
  Arena.get_add_of_lt _ _ _ there

/-- A release finds nothing to give back, or gives one reference back. It may schedule a task. -/
theorem release_cases (h : CacheHost) (c : CacheId) (priority : TaskPriority) :
    (h.cache c).refs = 0 ∧ (release c priority h).state = h ∨
      ∃ tasks, (h.cache c).refs ≠ 0 ∧
        (release c priority h).state =
          { h.setCache c fun x =>
              { x with
                refs := x.refs - 1
                abortScheduled := x.abortScheduled || (h.cache c).refs == 1 } with tasks } := by
  unfold release
  dsimp only
  split
  next none => exact .inl ⟨none, rfl⟩
  next held =>
    refine .inr ?_
    split
    all_goals exact ⟨_, held, rfl⟩

/-- What a release does to the cache. -/
theorem cache_release (there : h.caches.has c) :
    (release c priority h).state.cache c =
      { h.cache c with
        refs := (CacheCall.release c priority).count c (h.cache c).refs
        abortScheduled := (h.cache c).abortScheduled || (h.cache c).refs == 1 } := by
  rcases release_cases h c priority with ⟨none, same⟩ | ⟨tasks, held, done⟩
  · rw [same]
    cases x : h.cache c with
    | mk refs =>
      obtain rfl : refs = 0 := by rwa [x] at none
      simp [count]
  · rw [done]
    exact (cache_setCache_self there _).trans (by simp [count, held])

theorem cache_release_of_ne (ne : c ≠ d) : (release c priority h).state.cache d = h.cache d := by
  rcases release_cases h c priority with ⟨_, same⟩ | ⟨tasks, _, done⟩
  · rw [same]
  · rw [done]
    exact cache_setCache_of_ne ne _

theorem has_release : (release c priority h).state.caches.has d = h.caches.has d := by
  rcases release_cases h c priority with ⟨_, same⟩ | ⟨tasks, _, done⟩
  · rw [same]
  · rw [done]
    exact has_setCache ..

/-- The release of the last reference schedules the abort, but not a second time. -/
theorem waiting_release (h : CacheHost) (c : CacheId) (priority : TaskPriority) :
    (release c priority h).state.tasks.waiting = h.tasks.waiting ++
      if (h.cache c).refs = 1 ∧ (h.cache c).abortScheduled = false then [⟨priority, c⟩]
      else [] := by
  unfold release
  dsimp only
  split
  next none => simp [none]
  next held =>
    cases scheduled : (h.cache c).abortScheduled
    all_goals by_cases last : (h.cache c).refs = 1
    all_goals simp [last, TaskQueue.schedule, setCache]

/-- Running finds nothing to do, or runs one of the waiting tasks. -/
theorem runNext_cases (h : CacheHost) :
    h.tasks.takeNext = none ∧ h.runNext.2 = h ∨
      ∃ t tasks before after, h.tasks.takeNext = some (t, tasks) ∧
        h.tasks.waiting = before ++ t :: after ∧ tasks.waiting = before ++ after ∧
        h.runNext.2 = { h with tasks }.abort t.job := by
  unfold runNext
  rcases h.tasks.takeNext_cases with ⟨-, idle⟩ | ⟨before, t, after, waiting, -, taken⟩
  · rw [idle]
    exact .inl ⟨rfl, rfl⟩
  · rw [taken]
    exact .inr ⟨t, _, before, after, rfl, waiting, rfl, rfl⟩

/-- Running all tasks aborts their caches, in the order of the agenda. -/
theorem runAll_eq (h : CacheHost) :
    h.runAll = (h.tasks.agenda.length,
      h.tasks.agenda.foldl (fun h t => h.abort t.job) { h with tasks := {} }) := by
  have states : (fun h : CacheHost => h.runNext.2)^[h.tasks.size] h =
      h.tasks.agenda.foldl (fun h t => h.abort t.job) { h with tasks := {} } := by
    generalize waiting : h.tasks = q
    induction q using TaskQueue.next_induction generalizing h with
    | idle => exact congrArg (fun tasks => { h with tasks }) waiting
    | @next before t after first ih =>
      have next : h.runNext.2 = { h with tasks := ⟨before ++ after⟩ }.abort t.job := by
        rw [runNext, waiting, TaskQueue.takeNext_of_foremost first]
      rw [TaskQueue.size_split, Function.iterate_succ_apply, next,
        TaskQueue.agenda_of_foremost first]
      exact ih _ rfl
  rw [TaskQueue.length_agenda, ← states, runAll, List.foldl_const, List.length_range]

/-! ## References -/

theorem has_call (there : h.caches.has c) (x : CacheCall) : (h.call x).caches.has c := by
  cases x with
  | create => exact Arena.has_add.mpr (.inr there)
  | retain d => exact (has_setCache ..).trans there
  | release d priority => exact has_release.trans there
  | run =>
    rcases runNext_cases h with ⟨_, same⟩ | ⟨t, tasks, _, _, _, _, _, ran⟩
    · exact (congrArg (fun h => h.caches.has c) same).trans there
    · exact (congrArg (fun h => h.caches.has c) ran).trans ((has_setCache ..).trans there)

/-- Aborting a cache is no more than throwing its switch. -/
theorem cache_abort (h : CacheHost) (c d : CacheId) :
    ((h.abort d).cache c).refs = (h.cache c).refs ∧
      ((h.abort d).cache c).abortScheduled = (h.cache c).abortScheduled := by
  unfold abort
  rw [cache_setCache]
  split
  all_goals exact ⟨rfl, rfl⟩

theorem refs_call (there : h.caches.has c) (x : CacheCall) :
    ((h.call x).cache c).refs = x.count c (h.cache c).refs := by
  cases x with
  | create => exact congrArg Cache.refs (cache_create there)
  | retain d =>
    show ((h.setCache d _).cache c).refs = _
    rw [cache_setCache]
    by_cases own : d = c <;> simp [count, own, there]
  | release d priority =>
    rcases eq_or_ne d c with rfl | other
    · exact congrArg Cache.refs (cache_release there)
    · exact (congrArg Cache.refs (cache_release_of_ne other)).trans (by simp [count, other])
  | run =>
    rcases runNext_cases h with ⟨_, same⟩ | ⟨t, tasks, _, _, _, _, _, ran⟩
    · exact congrArg (fun h => (h.cache c).refs) same
    · exact (congrArg (fun h => (h.cache c).refs) ran).trans (cache_abort ..).1

/-- A cache that nothing refers to gets no reference but by being retained. -/
theorem unused_call (there : h.caches.has c) (unused : (h.cache c).refs = 0) {x : CacheCall}
    (other : x.isRetain c = false) : ((h.call x).cache c).refs = 0 := by
  rw [refs_call there, unused]
  cases x with
  | retain d => exact if_neg (ne_of_beq_false other)
  | release d priority => exact if_neg fun held => held.2 rfl
  | create => rfl
  | run => rfl

theorem has_after (there : h.caches.has c) (calls : List CacheCall) :
    (h.after calls).caches.has c := by
  induction calls generalizing h with
  | nil => exact there
  | cons x calls ih => exact ih (has_call there x)

theorem refs_after (there : h.caches.has c) (calls : List CacheCall) :
    ((h.after calls).cache c).refs = calls.foldl (count c) (h.cache c).refs := by
  induction calls generalizing h with
  | nil => rfl
  | cons x calls ih => exact (ih (has_call there x)).trans (by rw [refs_call there]; rfl)

/-! ## The abort -/

/-- How far the abort of a cache has come, and the tasks that wait for it. -/
structure Stage (h : CacheHost) (c : CacheId) (scheduled aborted : Bool)
    (tasks : List (WaitingTask CacheId)) : Prop where
  there : h.caches.has c
  scheduled : (h.cache c).abortScheduled = scheduled
  aborted : (h.cache c).aborted = aborted
  tasks : (h.tasks.waiting.filter fun t => t.job = c) = tasks

namespace Stage

/-- Nothing was done yet to a cache that was just made. -/
theorem of_create (known : ∀ t ∈ h.tasks.waiting, h.caches.has t.job) :
    Stage h.create.2 h.create.1 false false [] where
  there := Arena.has_add.mpr (.inl rfl)
  scheduled := congrArg Cache.abortScheduled (Arena.get_add_next ..)
  aborted := congrArg Cache.aborted (Arena.get_add_next ..)
  tasks := List.filter_eq_nil_iff.mpr fun t waits own => by
    have there := known t waits
    rw [of_decide_eq_true own] at there
    exact Bool.false_ne_true ((Arena.not_has_next _).symm.trans there)

variable {scheduled aborted : Bool} {tasks : List (WaitingTask CacheId)}

theorem create (stage : Stage h c scheduled aborted tasks) :
    Stage (h.call .create) c scheduled aborted tasks :=
  have same := cache_create stage.there
  ⟨has_call stage.there .create, same ▸ stage.scheduled, same ▸ stage.aborted, stage.tasks⟩

theorem retain (stage : Stage h c scheduled aborted tasks) (d : CacheId) :
    Stage (h.call (.retain d)) c scheduled aborted tasks := by
  have same : ((h.call (.retain d)).cache c).abortScheduled = (h.cache c).abortScheduled ∧
      ((h.call (.retain d)).cache c).aborted = (h.cache c).aborted := by
    unfold call CacheHost.retain
    dsimp only
    rw [cache_setCache]
    split
    all_goals exact ⟨rfl, rfl⟩
  exact ⟨has_call stage.there (.retain d), same.1.trans stage.scheduled,
    same.2.trans stage.aborted, stage.tasks⟩

/-- The release of another cache may schedule a task, but for that cache. -/
theorem release_of_ne (stage : Stage h c scheduled aborted tasks) (ne : d ≠ c)
    (priority : TaskPriority) : Stage (h.call (.release d priority)) c scheduled aborted tasks := by
  have same : (h.call (.release d priority)).cache c = h.cache c := cache_release_of_ne ne
  refine ⟨has_call stage.there (.release d priority), same ▸ stage.scheduled,
    same ▸ stage.aborted, ?_⟩
  have waiting : (h.call (.release d priority)).tasks.waiting = _ := waiting_release h d priority
  rw [waiting, List.filter_append, stage.tasks]
  split
  all_goals simp [ne]

theorem release (stage : Stage h c scheduled aborted tasks) (priority : TaskPriority) :
    Stage (h.call (.release c priority)) c (scheduled || (h.cache c).refs == 1) aborted
      (tasks ++ if (h.cache c).refs = 1 ∧ scheduled = false then [⟨priority, c⟩] else []) := by
  have done : (h.call (.release c priority)).cache c = _ := cache_release stage.there
  refine ⟨has_call stage.there (.release c priority), ?_, ?_, ?_⟩
  · rw [done, stage.scheduled]
  · rw [done]
    exact stage.aborted
  · have waiting : (h.call (.release c priority)).tasks.waiting = _ := waiting_release h c priority
    rw [waiting, List.filter_append, stage.tasks, stage.scheduled]
    split
    all_goals simp

/-- Any task that is taken and run leaves the cache alone, or is one of its tasks and aborts it. -/
theorem abort (stage : Stage h c scheduled aborted tasks) {t : WaitingTask CacheId}
    {rest : TaskQueue CacheId} {before after : List (WaitingTask CacheId)}
    (waiting : h.tasks.waiting = before ++ t :: after) (left : rest.waiting = before ++ after) :
    t.job ≠ c ∧ Stage ({ h with tasks := rest }.abort t.job) c scheduled aborted tasks ∨
      t.job = c ∧ ∃ before after, tasks = before ++ t :: after ∧
        Stage ({ h with tasks := rest }.abort t.job) c scheduled true (before ++ after) := by
  have own := stage.tasks
  rw [waiting, List.filter_append, List.filter_cons] at own
  have there : ({ h with tasks := rest }.abort t.job).caches.has c :=
    (has_setCache ..).trans stage.there
  have scheduled' := (cache_abort { h with tasks := rest } c t.job).2.trans stage.scheduled
  have tasks' : ({ h with tasks := rest }.abort t.job).tasks.waiting.filter (fun t => t.job = c) =
      before.filter (fun t => t.job = c) ++ after.filter fun t => t.job = c := by
    rw [← List.filter_append]
    exact congrArg _ left
  rcases eq_or_ne t.job c with mine | other
  · rw [if_pos (decide_eq_true mine)] at own
    refine .inr ⟨mine, _, _, own.symm, there, scheduled', ?_, tasks'⟩
    rw [mine]
    exact congrArg Cache.aborted (cache_setCache_self (h := { h with tasks := rest }) stage.there _)
  · rw [if_neg fun same => other (of_decide_eq_true same)] at own
    refine .inl ⟨other, there, scheduled', ?_, tasks'.trans own⟩
    exact (congrArg Cache.aborted (cache_setCache_of_ne other _)).trans stage.aborted

/-- A run leaves the cache alone, or takes one of its tasks and aborts it. -/
theorem run (stage : Stage h c scheduled aborted tasks) :
    (∀ t rest, h.tasks.takeNext = some (t, rest) → t.job ≠ c) ∧
        Stage (h.call .run) c scheduled aborted tasks ∨
      ∃ t rest before after, h.tasks.takeNext = some (t, rest) ∧ t.job = c ∧
        tasks = before ++ t :: after ∧ Stage (h.call .run) c scheduled true (before ++ after) := by
  rcases runNext_cases h with ⟨idle, same⟩ | ⟨t, rest, before, after, taken, waiting, left, ran⟩
  · have same : h.call .run = h := same
    refine .inl ⟨fun t rest taken => ?_, same.symm ▸ stage⟩
    rw [idle] at taken
    cases taken
  have ran : h.call .run = { h with tasks := rest }.abort t.job := ran
  rw [ran]
  rcases stage.abort waiting left with ⟨other, same⟩ | ⟨mine, before, after, own, done⟩
  · refine .inl ⟨fun u more found => ?_, same⟩
    rw [taken] at found
    cases found
    exact other
  · exact .inr ⟨t, rest, before, after, taken, mine, own, done⟩

end Stage

/-- The call gives the last reference to the cache back. -/
def GivesLast (h : CacheHost) (c : CacheId) (x : CacheCall) : Prop :=
  x.isRelease c ∧ (h.cache c).refs = 1

/-- The abort gets further only when the last reference is given back, and then when its task
is taken. -/
theorem Stage.call {scheduled aborted : Bool} {tasks : List (WaitingTask CacheId)}
    (stage : Stage h c scheduled aborted tasks) (x : CacheCall) :
    (scheduled = false → ¬ h.GivesLast c x) ∧ Stage (h.call x) c scheduled aborted tasks ∨
      (∃ priority, x = .release c priority ∧ h.GivesLast c x ∧ scheduled = false ∧
        Stage (h.call x) c true aborted (tasks ++ [⟨priority, c⟩])) ∨
      ∃ t before after, tasks = before ++ t :: after ∧
        Stage (h.call x) c scheduled true (before ++ after) := by
  cases x with
  | create => exact .inl ⟨fun _ gives => absurd gives.1 Bool.false_ne_true, stage.create⟩
  | retain d => exact .inl ⟨fun _ gives => absurd gives.1 Bool.false_ne_true, stage.retain d⟩
  | release d priority =>
    rcases eq_or_ne d c with rfl | ne
    · have stage' := stage.release priority
      split at stage'
      next first =>
        refine .inr (.inl ⟨priority, rfl, ⟨beq_self_eq_true _, first.1⟩, first.2, ?_⟩)
        simpa [first.1] using stage'
      next held =>
        refine .inl ⟨fun unscheduled gives => held ⟨gives.2, unscheduled⟩, ?_⟩
        cases scheduled with
        | true => simpa using stage'
        | false =>
          have more : (h.cache d).refs ≠ 1 := fun last => held ⟨last, rfl⟩
          simpa [beq_false_of_ne more] using stage'
    · exact .inl ⟨fun _ gives => ne (beq_iff_eq.mp gives.1), stage.release_of_ne ne priority⟩
  | run =>
    rcases stage.run with ⟨_, same⟩ | ⟨t, _, before, after, _, _, waiting, ran⟩
    · exact .inl ⟨fun _ gives => absurd gives.1 Bool.false_ne_true, same⟩
    · exact .inr (.inr ⟨t, before, after, waiting, ran⟩)

/-- An abort that ran does not run again. -/
theorem Stage.after_done (stage : Stage h c true true []) (calls : List CacheCall) :
    Stage (h.after calls) c true true [] := by
  induction calls generalizing h with
  | nil => exact stage
  | cons x calls ih =>
    rcases stage.call x with ⟨_, same⟩ | ⟨_, _, _, unscheduled, _⟩ | ⟨t, before, after, waiting, _⟩
    · exact ih same
    · cases unscheduled
    · simp at waiting

/-- An abort that was scheduled waits until it runs. -/
theorem Stage.after_scheduled {t : WaitingTask CacheId} (stage : Stage h c true false [t])
    (calls : List CacheCall) :
    Stage (h.after calls) c true false [t] ∨ Stage (h.after calls) c true true [] := by
  induction calls generalizing h with
  | nil => exact .inl stage
  | cons x calls ih =>
    obtain ⟨_, same⟩ | ⟨_, _, _, unscheduled, _⟩ | ⟨u, before, after, waiting, ran⟩ := stage.call x
    · exact ih same
    · cases unscheduled
    · obtain ⟨rfl, same⟩ | ⟨_, none⟩ := List.singleton_eq_append_iff.mp waiting
      · cases same
        exact .inr (ran.after_done calls)
      · cases none

/-- The abort is scheduled once, by the first call that gives the last reference back. -/
theorem Stage.after_idle (stage : Stage h c false false []) (calls : List CacheCall) :
    Stage (h.after calls) c false false [] ∨
      ∃ earlier priority later, calls = earlier ++ .release c priority :: later ∧
        ((h.after earlier).cache c).refs = 1 ∧
        (∀ before x rest, earlier = before ++ x :: rest → ¬ (h.after before).GivesLast c x) ∧
        (Stage (h.after calls) c true false [⟨priority, c⟩] ∨
          Stage (h.after calls) c true true []) := by
  induction calls generalizing h with
  | nil => exact .inl stage
  | cons x calls ih =>
    obtain ⟨keeps, same⟩ | ⟨priority, rfl, gives, _, next⟩ | ⟨t, before, after, waiting, _⟩ :=
      stage.call x
    · refine (ih same).imp_right ?_
      rintro ⟨earlier, priority, later, rfl, last, first, next⟩
      refine ⟨x :: earlier, priority, later, rfl, last, fun before y rest split => ?_, next⟩
      cases before with
      | nil =>
        cases split
        exact keeps rfl
      | cons z before =>
        cases split
        exact first before y rest rfl
    · exact .inr ⟨[], priority, calls, rfl, gives.2, by simp, next.after_scheduled calls⟩
    · simp at waiting

theorem Stage.job_ne_of_takeNext {scheduled aborted : Bool} (stage : Stage h c scheduled aborted [])
    {t : WaitingTask CacheId} {rest : TaskQueue CacheId}
    (next : h.tasks.takeNext = some (t, rest)) : t.job ≠ c := by
  rcases stage.run with ⟨other, _⟩ | ⟨_, _, before, after, _, _, waiting, _⟩
  · exact other t rest next
  · simp at waiting

/-- The only task for a cache is the one that aborts it. -/
theorem Stage.of_takeNext {scheduled aborted : Bool} {t u : WaitingTask CacheId}
    {rest : TaskQueue CacheId} (stage : Stage h c scheduled aborted [u])
    (next : h.tasks.takeNext = some (t, rest)) (own : t.job = c) :
    u = t ∧ Stage h.runNext.2 c scheduled true [] := by
  obtain ⟨other, _⟩ | ⟨v, _, before, after, taken, _, waiting, ran⟩ := stage.run
  · exact absurd own (other t rest next)
  obtain rfl : t = v := congrArg Prod.fst (Option.some.inj (next.symm.trans taken))
  obtain ⟨rfl, same⟩ | ⟨_, none⟩ := List.singleton_eq_append_iff.mp waiting
  · cases same
    exact ⟨rfl, ran⟩
  · cases none

/-! ## What the abort finds -/

/-- Since the last reference was given back, the references are counted anew. -/
theorem refs_since_last {earlier later : List CacheCall} (there : h.caches.has c)
    (last : ((h.after earlier).cache c).refs = 1) :
    ((h.after (earlier ++ .release c priority :: later)).cache c).refs =
      later.foldl (count c) 0 := by
  rw [after_append, refs_after (has_after there _), last, List.foldl_cons,
    CacheCall.count_release_one]

/-- If they fit into a word, they are those that were not given back. -/
theorem refs_since_last_of_fits {earlier later : List CacheCall} (there : h.caches.has c)
    (unused : (h.cache c).refs = 0) (last : ((h.after earlier).cache c).refs = 1)
    (balanced : Balanced c (earlier ++ .release c priority :: later))
    (fits : Fits (count c) 0 (earlier ++ .release c priority :: later)) :
    ((h.after (earlier ++ .release c priority :: later)).cache c).refs.toNat + released c later =
      retained c later := by
  have counted {calls : List CacheCall} (part : calls <+: earlier ++ .release c priority :: later) :
      ((h.after calls).cache c).refs.toNat + released c calls = retained c calls := by
    rw [refs_after there, unused, toNat_foldl_of_fits CacheCall.toNat_count (fits.of_prefix part)]
    exact CacheCall.foldl_count_of_balanced (balanced.of_prefix part)
  have all := counted List.prefix_rfl
  have first := counted (List.prefix_append ..)
  have more : retained c (.release c priority :: later) = retained c later :=
    List.countP_cons_of_neg Bool.false_ne_true
  have less : released c (.release c priority :: later) = released c later + 1 :=
    List.countP_cons_of_pos (beq_self_eq_true c)
  rw [last, UInt32.toNat_one] at first
  rw [CacheCall.retained_append, CacheCall.released_append] at all
  omega

/-- When a cache is aborted, this was scheduled by the first release of the last reference. What
there is of references by then was counted since, and is aborted all the same, once and for all. As
long as references fit into a word, these are the ones that were retained since and not given
back. -/
theorem refs_at_abort (idle : Stage h c false false []) (unused : (h.cache c).refs = 0)
    {t : WaitingTask CacheId} {rest : TaskQueue CacheId}
    (next : (h.after calls).tasks.takeNext = some (t, rest)) (own : t.job = c) :
    ∃ earlier later, calls = earlier ++ .release c t.priority :: later ∧
      ((h.after earlier).cache c).refs = 1 ∧
      (∀ before x rest, earlier = before ++ x :: rest → ¬ (h.after before).GivesLast c x) ∧
      ((h.after calls).cache c).refs = later.foldl (count c) 0 ∧
      (Balanced c calls → Fits (count c) 0 calls →
        ((h.after calls).cache c).refs.toNat + released c later = retained c later) ∧
      ((h.after calls).cache c).aborted = false ∧
      ((h.after calls).runNext.2.cache c).refs = ((h.after calls).cache c).refs ∧
      ((h.after calls).runNext.2.cache c).aborted = true ∧
      ∀ further u rest, ((h.after calls).runNext.2.after further).tasks.takeNext = some (u, rest) →
        u.job ≠ c := by
  rcases idle.after_idle calls with still | ⟨earlier, priority, later, rfl, last, first, stage⟩
  · exact absurd own (still.job_ne_of_takeNext next)
  obtain awaits | done := stage
  · obtain ⟨rfl, ran⟩ := awaits.of_takeNext next own
    exact ⟨earlier, later, rfl, last, first, refs_since_last idle.there last,
      refs_since_last_of_fits idle.there unused last, awaits.aborted,
      refs_call (has_after idle.there _) .run, ran.aborted,
      fun further u rest => (ran.after_done further).job_ne_of_takeNext⟩
  · exact absurd own (done.job_ne_of_takeNext next)

/-- A cache that was retained again is aborted under its user. -/
theorem refs_at_abort_of_retained_again :
    let h := ({} : CacheHost).create.2
    let c : CacheId := ⟨0⟩
    let calls := [.retain c, .release c .low, .retain c]
    Balanced c calls ∧ ((h.after calls).tasks.takeNext.map fun took => took.1.job) = some c ∧
      ((h.after calls).runNext.2.cache c).aborted ∧
      ((h.after calls).runNext.2.cache c).refs = 1 := by
  intro h c calls
  have idle : Stage h c false false [] := .of_create nofun
  have next : (h.after calls).tasks.takeNext = some (⟨.low, c⟩, {}) := rfl
  obtain ⟨_, _, _, _, _, _, _, _, same, aborted, _⟩ := refs_at_abort idle rfl next rfl
  exact ⟨by decide, rfl, aborted, same.trans (by decide)⟩

end CacheHost

end ConcurrentRender
