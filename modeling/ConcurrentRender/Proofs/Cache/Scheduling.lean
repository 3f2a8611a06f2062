import ConcurrentRender.Proofs.Cache.Aborting

/-!
# Which abort is scheduled

A cache may be used and given up any number of times, and given back more often than it was
retained. Its abort is scheduled by the first release that gives the last reference back, and by no
other one. A release never aborts the cache itself: some scheduler runs the task later, once, or not
at all. It need not take the most urgent task.

All this goes by the references that the cache counts. There may be others: a cache that was
retained `2 ^ 32` times counts none.

* `CacheTurn`: a call, or the run of any waiting task.
* `CacheTurn.count c n x`: the references to `c` after a turn, if there were `n`, in words or
  without bound.
* `CacheTurn.lastReleases c n turns`: the priorities of the releases that gave the last reference
  back.
* `CacheHost.handedOver h c turns`: the tasks for `c` that were scheduled meanwhile.
  `CacheHost.ran h c turns`: those that ran.

Results:
1. `lastReleases_of_fits`: as long as they fit, words tell the releases of the last reference.
2. `refs_turn`, `handsOver_eq`: what one turn does to the references and to the waiting tasks.
3. `Stage.turn`: and how far it brings the abort.
4. `Stage.through`: the same for many turns. What was scheduled ran once, or still waits.
5. `abort_once`: hence when an abort is scheduled, and when the cache is aborted.
6. `abort_of_many`: a cache with many references is aborted when one of them is given back.
-/

namespace ConcurrentRender

/-- A call, or the run of the task at the given place among those that wait. -/
inductive CacheTurn where
  | call (x : CacheCall)
  | pick (n : Nat)

namespace CacheTurn

/-- The turn is the run of a task. -/
def isRun : CacheTurn → Bool
  | call .run => true
  | call _ => false
  | pick _ => true

section Count

variable {α : Type} [OfNat α 0] [OfNat α 1] [Add α] [Sub α] [DecidableEq α] {c : CacheId}

/-- The references to the cache after a turn, if there were `n`. -/
def count (c : CacheId) (n : α) : CacheTurn → α
  | call x => x.count c n
  | pick _ => n

/-- The priority of a release that gives the last of `n` references back. -/
def lastRelease? (c : CacheId) (n : α) : CacheTurn → Option TaskPriority
  | call (.release d priority) => if d = c ∧ n = 1 then some priority else none
  | _ => none

def lastReleases (c : CacheId) (n : α) : List CacheTurn → List TaskPriority
  | [] => []
  | x :: turns => (x.lastRelease? c n).toList ++ lastReleases c (x.count c n) turns

theorem lastReleases_append {n : α} {turns later : List CacheTurn} :
    lastReleases c n (turns ++ later) =
      lastReleases c n turns ++ lastReleases c (turns.foldl (count c) n) later := by
  induction turns generalizing n with
  | nil => rfl
  | cons x turns ih => simp [lastReleases, ih]

/-- Retaining a cache again and again counts one by one. -/
theorem foldl_count_retain {f : Nat → α} (next : ∀ k, f (k + 1) = f k + 1) (c : CacheId) (k : Nat) :
    (List.replicate k (call (.retain c))).foldl (count c) (f 0) = f k := by
  induction k with
  | zero => rfl
  | succ k ih =>
    rw [List.replicate_succ', List.foldl_concat, ih, next]
    exact if_pos rfl

theorem lastReleases_retain (c : CacheId) (n : α) (k : Nat) :
    lastReleases c n (.replicate k (call (.retain c))) = [] := by
  induction k generalizing n with
  | zero => rfl
  | succ k ih => exact ih _

end Count

variable {c : CacheId} {n : UInt32}

theorem lastRelease?_of_run {x : CacheTurn} (runs : x.isRun) :
    x.lastRelease? c n = none := by
  cases x with
  | pick => rfl
  | call x => cases x <;> first | rfl | cases runs

theorem toNat_count (n : UInt32) (x : CacheTurn) (small : x.count c n.toNat < UInt32.size) :
    (x.count c n).toNat = x.count c n.toNat := by
  cases x with
  | call x => exact x.toNat_count n small
  | pick => rfl

theorem lastRelease?_toNat (x : CacheTurn) : x.lastRelease? c n.toNat = x.lastRelease? c n := by
  have one : n.toNat = 1 ↔ n = 1 := UInt32.toNat_inj (b := 1)
  cases x with
  | pick => rfl
  | call x => cases x <;> simp only [lastRelease?, one]

/-- As long as they fit, words tell which releases give the last reference back. -/
theorem lastReleases_of_fits {turns : List CacheTurn} (fits : Fits (count c) n.toNat turns) :
    lastReleases c n turns = lastReleases c n.toNat turns := by
  induction turns generalizing n with
  | nil => rfl
  | cons x turns ih =>
    have later := (fits_cons.mp fits).2
    have same := toNat_count n x later.head
    rw [← same] at later
    rw [lastReleases, lastReleases, lastRelease?_toNat, ih later, same]

end CacheTurn

namespace CacheHost

open CacheTurn (lastReleases)

variable {h : CacheHost} {c : CacheId}

/-- Runs the task at the given place among those that wait, if there is one. -/
def pick (h : CacheHost) (n : Nat) : CacheHost :=
  match h.tasks.waiting[n]? with
  | none => h
  | some t => { h with tasks := { waiting := h.tasks.waiting.eraseIdx n } }.abort t.job

def turn (h : CacheHost) : CacheTurn → CacheHost
  | .call x => h.call x
  | .pick n => h.pick n

def through (h : CacheHost) (turns : List CacheTurn) : CacheHost := turns.foldl turn h

/-- The tasks for the cache that come to those that wait. -/
def handsOver (h : CacheHost) (c : CacheId) (x : CacheTurn) : List (WaitingTask CacheId) :=
  ((h.turn x).tasks.waiting.drop h.tasks.waiting.length).filter fun t => t.job = c

def handedOver (h : CacheHost) (c : CacheId) : List CacheTurn → List (WaitingTask CacheId)
  | [] => []
  | x :: turns => h.handsOver c x ++ (h.turn x).handedOver c turns

/-- The task that runs. -/
def runs? (h : CacheHost) : CacheTurn → Option (WaitingTask CacheId)
  | .call .run => h.tasks.takeNext.map Prod.fst
  | .call _ => none
  | .pick n => h.tasks.waiting[n]?

/-- The tasks for the cache that run. -/
def runsFor (h : CacheHost) (c : CacheId) (x : CacheTurn) : List (WaitingTask CacheId) :=
  (h.runs? x).toList.filter fun t => t.job = c

def ran (h : CacheHost) (c : CacheId) : List CacheTurn → List (WaitingTask CacheId)
  | [] => []
  | x :: turns => h.runsFor c x ++ (h.turn x).ran c turns

/-! ## One turn -/

/-- Whoever picks a task takes it from those that wait. -/
theorem pick_cases (h : CacheHost) (n : Nat) :
    h.tasks.waiting[n]? = none ∧ h.pick n = h ∨
      ∃ t tasks before after, h.tasks.waiting[n]? = some t ∧
        h.tasks.waiting = before ++ t :: after ∧ tasks.waiting = before ++ after ∧
        h.pick n = { h with tasks }.abort t.job := by
  unfold pick
  cases found : h.tasks.waiting[n]? with
  | none => exact .inl ⟨rfl, rfl⟩
  | some t =>
    obtain ⟨inside, rfl⟩ := List.getElem?_eq_some_iff.mp found
    refine .inr ⟨_, _, h.tasks.waiting.take n, h.tasks.waiting.drop (n + 1), rfl, ?_, ?_, rfl⟩
    · rw [← List.drop_eq_getElem_cons, List.take_append_drop]
    · exact List.eraseIdx_eq_take_drop_succ ..

/-- A run finds nothing to do, or runs one of the waiting tasks. -/
theorem runs_cases (h : CacheHost) {x : CacheTurn} (runs : x.isRun) :
    h.runs? x = none ∧ h.turn x = h ∨
      ∃ t tasks before after, h.runs? x = some t ∧
        h.tasks.waiting = before ++ t :: after ∧ tasks.waiting = before ++ after ∧
        h.turn x = { h with tasks }.abort t.job := by
  cases x with
  | pick n => exact pick_cases h n
  | call x =>
    obtain rfl : x = .run := by
      cases x <;> first | rfl | cases runs
    rcases runNext_cases h with ⟨idle, same⟩ | ⟨t, tasks, before, after, taken, rest⟩
    · exact .inl ⟨by simp [runs?, idle], same⟩
    · exact .inr ⟨t, tasks, before, after, by simp [runs?, taken], rest⟩

/-- A run counts for nothing, and leaves no more tasks waiting. -/
theorem frame_of_run {x : CacheTurn} (runs : x.isRun) :
    ((h.turn x).cache c).refs = (h.cache c).refs ∧ h.handsOver c x = [] := by
  suffices same : ((h.turn x).cache c).refs = (h.cache c).refs ∧
      (h.turn x).tasks.waiting.length ≤ h.tasks.waiting.length by
    refine ⟨same.1, ?_⟩
    rw [handsOver, List.drop_eq_nil_of_le same.2, List.filter_nil]
  rcases runs_cases h runs with ⟨-, same⟩ | ⟨t, tasks, before, after, -, waiting, left, ran⟩
  · rw [same]
    exact ⟨rfl, Nat.le_refl _⟩
  · rw [ran, waiting]
    refine ⟨(cache_abort { h with tasks } c t.job).1, (congrArg List.length left).trans_le ?_⟩
    simp

theorem refs_turn (there : h.caches.has c) (x : CacheTurn) :
    ((h.turn x).cache c).refs = x.count c (h.cache c).refs := by
  cases x with
  | pick n => exact (frame_of_run rfl).1
  | call x => exact refs_call there x

theorem handsOver_of_append {x : CacheTurn} {new : List (WaitingTask CacheId)}
    (waiting : (h.turn x).tasks.waiting = h.tasks.waiting ++ new) :
    h.handsOver c x = new.filter fun t => t.job = c := by
  rw [handsOver, waiting, List.drop_left]

/-- Only a release schedules something: the first one that gives the last reference back. -/
theorem handsOver_eq (h : CacheHost) (c : CacheId) (x : CacheTurn) :
    h.handsOver c x =
      if (h.cache c).abortScheduled then []
      else ((x.lastRelease? c (h.cache c).refs).map fun priority => ⟨priority, c⟩).toList := by
  have runs {x : CacheTurn} (runs : x.isRun) : h.handsOver c x =
      if (h.cache c).abortScheduled then []
      else ((x.lastRelease? c (h.cache c).refs).map fun priority => ⟨priority, c⟩).toList := by
    simp [(frame_of_run runs).2, CacheTurn.lastRelease?_of_run runs]
  cases x with
  | pick n => exact runs rfl
  | call x =>
    cases x with
    | run => exact runs rfl
    | create =>
      rw [handsOver_of_append (x := .call .create) (List.append_nil _).symm]
      simp [CacheTurn.lastRelease?]
    | retain d =>
      rw [handsOver_of_append (x := .call (.retain d)) (List.append_nil _).symm]
      simp [CacheTurn.lastRelease?]
    | release d priority =>
      rw [handsOver_of_append (x := .call (.release d priority)) (waiting_release h d priority)]
      by_cases own : d = c
      · subst own
        by_cases last : (h.cache d).refs = 1 <;> cases (h.cache d).abortScheduled <;>
          simp [CacheTurn.lastRelease?, last]
      · split <;> simp [CacheTurn.lastRelease?, own]

namespace Stage

variable {scheduled aborted : Bool} {tasks : List (WaitingTask CacheId)}

/-- A task that runs does not wait any more. -/
theorem turn_of_run (stage : Stage h c scheduled aborted tasks) {x : CacheTurn} (runs : x.isRun) :
    ∃ tasks', tasks.Perm (h.runsFor c x ++ tasks') ∧
      Stage (h.turn x) c scheduled (aborted || !(h.runsFor c x).isEmpty) tasks' := by
  rcases runs_cases h runs with ⟨idle, same⟩ | ⟨t, rest, _, _, runs, waiting, left, ran⟩
  · refine ⟨tasks, by simp [runsFor, idle], ?_⟩
    simpa [runsFor, idle, same] using stage
  · rw [ran]
    rcases stage.abort waiting left with ⟨apart, same⟩ | ⟨mine, before, after, rfl, done⟩
    · refine ⟨tasks, by simp [runsFor, runs, apart], ?_⟩
      simpa [runsFor, runs, apart] using same
    · refine ⟨before ++ after, by simp [runsFor, runs, mine], ?_⟩
      simpa [runsFor, runs, mine] using done

/-- A call runs nothing. It may schedule the abort. -/
theorem turn_of_call (stage : Stage h c scheduled aborted tasks) {x : CacheTurn}
    (calls : x.isRun = false) :
    h.runsFor c x = [] ∧
      Stage (h.turn x) c (scheduled || (x.lastRelease? c (h.cache c).refs).isSome) aborted
        (tasks ++ h.handsOver c x) := by
  cases x with
  | pick n => cases calls
  | call x =>
    cases x with
    | run => cases calls
    | create =>
      have same : Stage (h.turn (.call .create)) c scheduled aborted tasks := stage.create
      exact ⟨rfl, by simpa [handsOver_eq, CacheTurn.lastRelease?] using same⟩
    | retain d =>
      have same : Stage (h.turn (.call (.retain d))) c scheduled aborted tasks := stage.retain d
      exact ⟨rfl, by simpa [handsOver_eq, CacheTurn.lastRelease?] using same⟩
    | release d priority =>
      refine ⟨rfl, ?_⟩
      rw [handsOver_eq, stage.scheduled]
      rcases eq_or_ne d c with rfl | apart
      · have released : Stage (h.turn (.call (.release d priority))) d _ _ _ :=
          stage.release priority
        by_cases last : (h.cache d).refs = 1
        · cases scheduled <;> simpa [CacheTurn.lastRelease?, last] using released
        · simpa [CacheTurn.lastRelease?, last, beq_false_of_ne last] using released
      · have same : Stage (h.turn (.call (.release d priority))) c _ _ _ :=
          stage.release_of_ne apart priority
        simpa [CacheTurn.lastRelease?, apart] using same

/-- A turn may schedule the abort, and it may run a task of the cache. All other tasks go on
waiting. -/
theorem turn (stage : Stage h c scheduled aborted tasks) (x : CacheTurn) :
    ∃ tasks', (tasks ++ h.handsOver c x).Perm (h.runsFor c x ++ tasks') ∧
      Stage (h.turn x) c (scheduled || (x.lastRelease? c (h.cache c).refs).isSome)
        (aborted || !(h.runsFor c x).isEmpty) tasks' := by
  cases runs : x.isRun with
  | true =>
    simpa [(frame_of_run (h := h) (c := c) runs).2, CacheTurn.lastRelease?_of_run runs]
      using stage.turn_of_run runs
  | false =>
    obtain ⟨idle, called⟩ := stage.turn_of_call runs
    exact ⟨_, by rw [idle]; exact .refl _, by simpa [idle] using called⟩

/-- Many turns. The abort is scheduled once, and what was scheduled ran once or still waits. -/
theorem through (stage : Stage h c scheduled aborted tasks) (turns : List CacheTurn) :
    let given := lastReleases c (h.cache c).refs turns
    ((h.through turns).cache c).refs = turns.foldl (CacheTurn.count c) (h.cache c).refs ∧
      h.handedOver c turns =
        (if scheduled then [] else (given.take 1).map fun priority => ⟨priority, c⟩) ∧
      ∃ tasks', (tasks ++ h.handedOver c turns).Perm (h.ran c turns ++ tasks') ∧
        Stage (h.through turns) c (scheduled || !given.isEmpty)
          (aborted || !(h.ran c turns).isEmpty) tasks' := by
  induction turns generalizing h scheduled aborted tasks with
  | nil =>
    have same : Stage (h.through []) c scheduled aborted tasks := stage
    exact ⟨rfl, by cases scheduled <;> rfl, tasks, by simp [handedOver, ran],
      by simpa [ran, lastReleases] using same⟩
  | cons x turns ih =>
    obtain ⟨tasks', perm, next⟩ := stage.turn x
    obtain ⟨refs, handed, tasks'', perm', final⟩ := ih next
    rw [refs_turn stage.there] at refs handed final
    refine ⟨refs, ?_, tasks'', ?_, ?_⟩
    · rw [handedOver, handsOver_eq, stage.scheduled, handed, lastReleases]
      cases scheduled <;> cases x.lastRelease? c (h.cache c).refs <;> simp
    · rw [handedOver, ran, ← List.append_assoc, List.append_assoc (h.runsFor c x)]
      refine (perm.append_right _).trans ?_
      rw [List.append_assoc]
      exact perm'.append_left _
    · have given : (scheduled || !(lastReleases c (h.cache c).refs (x :: turns)).isEmpty) =
          (scheduled || (x.lastRelease? c (h.cache c).refs).isSome ||
            !(lastReleases c (x.count c (h.cache c).refs) turns).isEmpty) := by
        rw [lastReleases]
        cases x.lastRelease? c (h.cache c).refs <;> simp
      have ran : (aborted || !(h.ran c (x :: turns)).isEmpty) =
          (aborted || !(h.runsFor c x).isEmpty || !((h.turn x).ran c turns).isEmpty) := by
        rw [CacheHost.ran]
        cases h.runsFor c x <;> simp
      rw [given, ran]
      exact final

end Stage

/-! ## Caches of a host -/

/-- Tasks wait for caches that are there. -/
def Known (h : CacheHost) : Prop := ∀ t ∈ h.tasks.waiting, h.caches.has t.job

theorem has_turn (there : h.caches.has c) (x : CacheTurn) : (h.turn x).caches.has c := by
  cases x with
  | call x => exact has_call there x
  | pick n =>
    rcases pick_cases h n with ⟨-, same⟩ | ⟨t, tasks, _, _, -, -, -, ran⟩
    · exact (congrArg (fun h => h.caches.has c) same).trans there
    · exact (congrArg (fun h => h.caches.has c) ran).trans ((has_setCache ..).trans there)

theorem Known.turn (known : h.Known) (x : CacheTurn) : (h.turn x).Known := by
  intro t waits
  refine has_turn ?_ x
  have ran {x : CacheTurn} (runs : x.isRun) (waits : t ∈ (h.turn x).tasks.waiting) :
      h.caches.has t.job := by
    rcases runs_cases h runs with ⟨-, same⟩ | ⟨u, tasks, before, after, -, waiting, left, ran⟩
    · exact known t (same ▸ waits)
    · rw [ran] at waits
      have stays : t ∈ before ++ after := left ▸ waits
      refine known t ?_
      rw [waiting]
      exact List.mem_append.mpr ((List.mem_append.mp stays).imp_right (.tail _))
  cases x with
  | pick n => exact ran rfl waits
  | call x =>
    cases x with
    | run => exact ran rfl waits
    | create => exact known t waits
    | retain d => exact known t waits
    | release d priority =>
      rw [show (h.turn (.call (.release d priority))).tasks.waiting = _ from
        waiting_release h d priority] at waits
      rcases List.mem_append.mp waits with waits | new
      · exact known t waits
      · -- A cache that is not there has no references to give back.
        split at new
        next last =>
          rw [List.mem_singleton.mp new]
          by_contra absent
          have none : (h.cache d).refs = 0 :=
            congrArg Cache.refs (Arena.get_of_not_has (Bool.eq_false_iff.mpr absent))
          exact absurd (none.symm.trans last.1) (by decide)
        next => cases new

theorem Known.through (known : h.Known) (turns : List CacheTurn) : (h.through turns).Known := by
  induction turns generalizing h with
  | nil => exact known
  | cons x turns ih => exact ih (known.turn x)

/-- Whatever was done before, a new cache counts its references in a word. The first release that
gives the last one of these back schedules the abort, with its priority, and no other turn does. The
task runs at most once, and the cache is aborted from then on, and not before. The word tells how
many references there are, all along, just if at no point there are too many for it, and then also
which release gives the last one back. -/
theorem abort_once (earlier turns : List CacheTurn) :
    let h := ({} : CacheHost).through earlier
    let c := h.create.1
    let made := h.create.2
    let h' := made.through turns
    (h'.cache c).refs = turns.foldl (CacheTurn.count c) 0 ∧
    made.handedOver c turns =
      ((lastReleases c (0 : UInt32) turns).take 1).map (fun priority => ⟨priority, c⟩) ∧
    (∀ x : CacheTurn, h'.handsOver c x =
      if lastReleases c (0 : UInt32) turns = [] then
        ((x.lastRelease? c (h'.cache c).refs).map fun priority => ⟨priority, c⟩).toList
      else []) ∧
    (made.handedOver c turns).Perm
      (made.ran c turns ++ h'.tasks.waiting.filter fun t => t.job = c) ∧
    (h'.aborted (.cache c) ↔ made.ran c turns ≠ []) ∧
    -- Counted without bound
    ((∀ part, part <+: turns →
        ((made.through part).cache c).refs.toNat = part.foldl (CacheTurn.count c) 0) ↔
      Fits (CacheTurn.count c) 0 turns) ∧
    (Fits (CacheTurn.count c) 0 turns →
      lastReleases c (0 : UInt32) turns = lastReleases c (0 : Nat) turns) := by
  intro h c made h'
  have known : h.Known := Known.through (fun _ waits => absurd waits List.not_mem_nil) earlier
  have idle : Stage made c false false [] := .of_create known
  have unused : (made.cache c).refs = 0 := congrArg Cache.refs (Arena.get_add_next ..)
  have refs (turns : List CacheTurn) :
      ((made.through turns).cache c).refs = turns.foldl (CacheTurn.count c) 0 :=
    (idle.through turns).1.trans (by rw [unused])
  obtain ⟨-, handed, tasks, perm, stage⟩ := idle.through turns
  rw [unused] at handed stage
  refine ⟨refs turns, handed, fun x => ?_, ?_, ?_, ⟨?_, ?_⟩, CacheTurn.lastReleases_of_fits (n := 0)⟩
  · rw [handsOver_eq, stage.scheduled]
    cases lastReleases c (0 : UInt32) turns <;> rfl
  · rw [stage.tasks]
    exact perm
  · show (h'.cache c).aborted = true ↔ _
    rw [stage.aborted]
    simp
  · intro exact part start
    rw [← exact part start]
    exact UInt32.toNat_lt_size _
  · intro fits part start
    rw [refs part]
    exact toNat_foldl_of_fits CacheTurn.toNat_count (fits.of_prefix start)

/-- A cache that is retained again and given up once more, before or after its task ran, is not
aborted a second time. -/
example :
    let c : CacheId := ⟨0⟩
    let again : List CacheTurn :=
      [.call (.retain c), .call (.release c .idle), .call (.release c .idle)]
    let made := ({} : CacheHost).create.2
    made.handedOver c (again ++ again ++ .pick 0 :: again) = [⟨.idle, c⟩] ∧
      made.ran c (again ++ again ++ .pick 0 :: again) = [⟨.idle, c⟩] := by
  exact ⟨rfl, rfl⟩

/-- A cache that is retained until the count starts again, and then once more. Its abort is scheduled
when one of these references is given back. -/
theorem handedOver_of_wrap {k : Nat} (many : k ≠ 0) (wraps : UInt32.ofNat k = 0) :
    let c : CacheId := ⟨0⟩
    let made := ({} : CacheHost).create.2
    let turns : List CacheTurn :=
      .replicate (k + 1) (.call (.retain c)) ++ [.call (.release c .low)]
    turns.foldl (CacheTurn.count c) 0 = k ∧ lastReleases c (0 : Nat) turns = [] ∧
      ((made.through turns).cache c).refs = 0 ∧ made.handedOver c turns = [⟨.low, c⟩] := by
  intro c made turns
  have idle : Stage made c false false [] := .of_create nofun
  obtain ⟨refs, handed, -⟩ := idle.through turns
  have unused : (made.cache c).refs = 0 := rfl
  have wide : (List.replicate (k + 1) (CacheTurn.call (.retain c))).foldl (CacheTurn.count c) 0 =
      k + 1 := CacheTurn.foldl_count_retain (f := id) (fun _ => rfl) c (k + 1)
  have narrow : (List.replicate (k + 1) (CacheTurn.call (.retain c))).foldl (CacheTurn.count c) 0 =
      (1 : UInt32) := by
    refine (CacheTurn.foldl_count_retain (fun k => UInt32.ofNat_add k 1) c (k + 1)).trans ?_
    rw [UInt32.ofNat_add, wraps]
    rfl
  refine ⟨?_, ?_, ?_, ?_⟩
  · rw [List.foldl_append, wide]
    rfl
  · rw [CacheTurn.lastReleases_append, CacheTurn.lastReleases_retain, wide]
    simp [lastReleases, CacheTurn.lastRelease?, many]
  · rw [refs, unused, List.foldl_append, narrow]
    rfl
  · rw [handed, unused, CacheTurn.lastReleases_append, CacheTurn.lastReleases_retain, narrow]
    rfl

/-- There are `2 ^ 32` references left when the abort is scheduled. -/
theorem abort_of_many :
    let c : CacheId := ⟨0⟩
    let made := ({} : CacheHost).create.2
    let turns : List CacheTurn :=
      .replicate (UInt32.size + 1) (.call (.retain c)) ++ [.call (.release c .low)]
    turns.foldl (CacheTurn.count c) 0 = UInt32.size ∧ lastReleases c (0 : Nat) turns = [] ∧
      ((made.through turns).cache c).refs = 0 ∧ made.handedOver c turns = [⟨.low, c⟩] :=
  handedOver_of_wrap (by decide) (by decide)

end CacheHost

end ConcurrentRender
