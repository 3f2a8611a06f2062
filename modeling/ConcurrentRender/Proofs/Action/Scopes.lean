import ConcurrentRender.Proofs.Action.Listeners
import ConcurrentRender.Proofs.Action.Phases

/-!
# A scope is complete when all its actions have settled

An action that settles does not say in which scope it was started. It is counted out of the
scope that is open, whichever that is. A `Story` knows better, and tells the same.

* `ActionCall`: what is done to actions. A settlement is one call (`settle`) or two (`withdraw`
  and later `tell`), with any calls in between.
* `Session`: the actions, and the scopes that have ended without their listeners being told.
* `Session.Reflects r s`: what a session shows of its story.

Results:
1. `Reflects.entangle`, `Reflects.withdraw`, `Reflects.tell`, `Reflects.settle`,
   `Reflects.listen`: what a call does to a session is what it does to the story.
2. `Reflects.after`: hence so do any calls.
3. `scopes_all_or_nothing`: what is to be seen after any calls.
-/

namespace ConcurrentRender

/-! ## Sessions -/

/-- What is done to actions. -/
inductive ActionCall where
  | entangle (runtime : Bool) (lane : LaneSet)
  /-- Both phases of a settlement, with nothing in between. -/
  | settle (action : Id .action)
  /-- The first phase of a settlement. -/
  | withdraw (action : Id .action)
  /-- The second phase of a settlement that ended the scope. -/
  | tell (scope : Id .scope)
  | listen (scope : Id .scope) (listener : Listener)
  | register (callback : String) (script : List CallbackStep)
  /-- What concerns the indicator. -/
  | perform (depth : Nat) (steps : List CallbackStep)

/-- The listener that is registered for the scope. -/
def ActionCall.listener? (i : Id .scope) : ActionCall → Option Listener
  | listen j l => if j = i then some l else none
  | _ => none

/-- Actions, with the scopes that ended and whose listeners were not told yet. -/
structure Session where
  actions : Actions
  untold : List (Id .scope) := []

def Session.call (r : Session) : ActionCall → Session
  | .entangle runtime lane => { r with actions := (Actions.entangle runtime lane r.actions).state }
  | .settle n => { r with actions := r.actions.settle n }
  | .withdraw n =>
    { actions := (r.actions.withdraw n).2
      untold := r.untold ++ (r.actions.withdraw n).1.toList }
  | .tell i =>
    if i ∈ r.untold then
      { actions := r.actions.fulfil i, untold := r.untold.filter fun j => j ≠ i }
    else r
  | .listen i l => { r with actions := r.actions.andThen i l }
  | .register callback script => { r with actions := r.actions.register callback script }
  | .perform depth steps => { r with actions := r.actions.perform depth steps }

def Story.call (s : Story) : ActionCall → Story
  | .entangle runtime lane => if runtime then s.entangle lane else s
  | .settle n => s.settle n
  | .withdraw n => s.withdraw n
  | .tell i => s.tell i
  | .listen i l => s.listen i l
  | .register .. | .perform .. => s

def Session.after (r : Session) (calls : List ActionCall) : Session := calls.foldl call r

def Story.after (s : Story) (calls : List ActionCall) : Story := calls.foldl call s

/-- What a session shows of its story. -/
structure Session.Reflects (r : Session) (s : Story) : Prop where
  started : r.actions.started.size = s.started
  running : ∀ n, r.actions.isRunning n ↔ ∃ i, n ∈ s.running i
  scope : r.actions.scope = s.current?.map fun i =>
    { lane := (s.episode i).lane, pending := (s.running i).length, thenable := i }
  scopes : r.actions.thenables.size = s.episodes.size
  thenable : ∀ i, r.actions.thenables.get i = (s.episode i).thenable
  untold : ∀ i, i ∈ r.untold ↔ s.Complete i ∧ (s.episode i).told = false
  fired : r.actions.fired = s.fired

theorem Story.Sound.call {s : Story} (sound : s.Sound) (x : ActionCall) : (s.call x).Sound := by
  cases x with
  | entangle runtime lane =>
    cases runtime with
    | true => exact sound.entangle lane
    | false => exact sound
  | settle n => exact sound.settle n
  | withdraw n => exact sound.withdraw n
  | tell i => exact sound.tell i
  | listen i l => exact sound.listen i l
  | register | perform => exact sound

theorem Story.Sound.after {s : Story} (sound : s.Sound) (calls : List ActionCall) :
    (s.after calls).Sound := by
  induction calls generalizing s with
  | nil => exact sound
  | cons x calls ih => exact ih (sound.call x)

theorem Story.Lasts.call {s : Story} (sound : s.Sound) (x : ActionCall) : s.Lasts (s.call x) := by
  cases x with
  | entangle runtime lane =>
    cases runtime with
    | true => exact .entangle sound lane
    | false => exact .refl s
  | settle n => exact .settle sound n
  | withdraw n => exact .withdraw sound n
  | tell i => exact .tell s i
  | listen i l => exact .listen s i l
  | register | perform => exact .refl s

theorem Story.Lasts.after {s : Story} (sound : s.Sound) (calls : List ActionCall) :
    s.Lasts (s.after calls) := by
  induction calls generalizing s with
  | nil => exact .refl s
  | cons x calls ih => exact (Lasts.call sound x).trans (ih (sound.call x))

theorem Story.Told.call {s : Story} (told : s.Told) (x : ActionCall) : (s.call x).Told := by
  cases x with
  | entangle runtime lane =>
    cases runtime with
    | true => exact told.entangle lane
    | false => exact told
  | settle n => exact told.settle n
  | withdraw n => exact told.withdraw n
  | tell i => exact told.tell i
  | listen i l => exact told.listen i l
  | register | perform => exact told

theorem Story.Told.after {s : Story} (told : s.Told) (calls : List ActionCall) :
    (s.after calls).Told := by
  induction calls generalizing s with
  | nil => exact told
  | cons x calls ih => exact ih (told.call x)

theorem Story.heard_call {s : Story} {i : Id .scope} (told : s.Told) (there : s.episodes.has i)
    (x : ActionCall) :
    ((s.call x).episode i).heard = (s.episode i).heard ++ (x.listener? i).toList := by
  cases x with
  | listen j l =>
    refine (told.heard_listen there j l).trans (congrArg ((s.episode i).heard ++ ·) ?_)
    rw [ActionCall.listener?]
    split
    all_goals rfl
  | entangle runtime lane =>
    cases runtime with
    | true => exact (s.heard_entangle lane i).trans (List.append_nil _).symm
    | false => exact (List.append_nil _).symm
  | settle n => exact (s.heard_settle n i).trans (List.append_nil _).symm
  | withdraw n => exact (congrArg _ (s.episode_withdraw n i)).trans (List.append_nil _).symm
  | tell j => exact (s.heard_tell j i).trans (List.append_nil _).symm
  | register | perform => exact (List.append_nil _).symm

/-- The listeners of a scope are those that were registered since it was opened. -/
theorem Story.heard_after {s : Story} {i : Id .scope} (sound : s.Sound) (told : s.Told)
    (there : s.episodes.has i) (calls : List ActionCall) :
    ((s.after calls).episode i).heard =
      (s.episode i).heard ++ calls.filterMap (ActionCall.listener? i) := by
  induction calls generalizing s with
  | nil => exact (List.append_nil _).symm
  | cons x calls ih =>
    have there' := ((Lasts.call sound x).lane i there).1
    refine (ih (sound.call x) (told.call x) there').trans ?_
    rw [heard_call told there, List.append_assoc]
    cases registers : x.listener? i with
    | none => rw [List.filterMap_cons_none registers]; rfl
    | some l => rw [List.filterMap_cons_some registers]; rfl

namespace Session.Reflects

variable {r : Session} {s : Story} {i j : Id .scope} {n : Id .action}

theorem of_sameScopes {a : Actions} (reflects : r.Reflects s) (same : r.actions.SameScopes a) :
    Reflects { r with actions := a } s := by
  obtain ⟨started, running, scope, scopes, thenable, untold, fired⟩ := reflects
  refine ⟨?_, fun n => ?_, same.scope.trans scope, ?_, fun i => ?_, untold, same.fired.trans fired⟩
  · rw [← started, same.started]
  · rw [← running n, Actions.isRunning, Actions.isRunning, same.started]
  · rw [← scopes, same.thenables]
  · rw [← thenable i, same.thenables]

theorem thenables_next (reflects : r.Reflects s) :
    r.actions.thenables.next = s.episodes.next := by
  rw [Arena.next, Arena.next, reflects.scopes]

/-- An action that starts runs in the scope that it joins. -/
theorem running_entangle (reflects : r.Reflects s) (sound : s.Sound) (lane : LaneSet)
    (n : Id .action) :
    (r.actions.started.add true).get n ↔ ∃ i, n ∈ (s.entangle lane).running i := by
  have next : r.actions.started.next = ⟨s.started⟩ := congrArg Id.mk reflects.started
  rw [Arena.get_add, next]
  simp only [sound.running_entangle, List.mem_append]
  split
  next new => exact iff_of_true rfl ⟨s.home, .inr (by simp [new])⟩
  next old =>
    refine (reflects.running n).trans ⟨fun ⟨i, mem⟩ => ⟨i, .inl mem⟩, fun ⟨i, mem⟩ => ⟨i, ?_⟩⟩
    refine mem.resolve_right fun new => old ?_
    split at new
    next => exact List.mem_singleton.mp new
    next => cases new

theorem entangle (reflects : r.Reflects s) (sound : s.Sound) (lane : LaneSet) :
    (r.call (.entangle true lane)).Reflects (s.entangle lane) := by
  have sound' := sound.entangle lane
  have untold : ∀ i, i ∈ r.untold ↔
      (s.entangle lane).Complete i ∧ ((s.entangle lane).episode i).told = false := fun i => by
    rw [sound.complete_entangle, (s.listeners_entangle lane i).1]
    exact reflects.untold i
  have started : (r.actions.started.add true).size = (s.entangle lane).started :=
    (Arena.size_add ..).trans (congrArg (· + 1) reflects.started)
  have running := reflects.running_entangle sound lane
  have scope := reflects.scope
  cases current : s.current? with
  | some i =>
    have home := sound.home_of_running (sound.current?_eq_some.mp current)
    have goesOn : (s.entangle lane).running i = s.running i ++ [⟨s.started⟩] := by
      rw [sound.running_entangle, if_pos home.symm]
    have current' : (s.entangle lane).current? = some i :=
      sound'.current?_eq_some.mpr (by simp [goesOn])
    rw [current] at scope
    rw [call, Actions.entangle_of_some scope]
    refine ⟨started, running, ?_, ?_, fun j => ?_, untold, ?_⟩
    · rw [current', Option.map_some, goesOn, List.length_append,
        Story.episode_entangle_of_some current, if_pos rfl]
      rfl
    · exact reflects.scopes.trans (by simp [Story.entangle, current])
    · rw [Story.episode_entangle_of_some current]
      refine (reflects.thenable j).trans ?_
      split
      all_goals rfl
    · exact reflects.fired
  | none =>
    have home : s.home = s.episodes.next := by rw [Story.home, current]; rfl
    have opened : (s.entangle lane).running s.episodes.next = [⟨s.started⟩] := by
      rw [sound.running_entangle, Story.Sound.current?_eq_none.mp current, if_pos home.symm]
      rfl
    have current' : (s.entangle lane).current? = some s.episodes.next :=
      sound'.current?_eq_some.mpr (by simp [opened])
    rw [current] at scope
    rw [call, Actions.entangle_of_none scope]
    refine ⟨started, running, ?_, ?_, fun j => ?_, untold, ?_⟩
    · rw [current', Option.map_some, opened, Story.episode_entangle_of_none current, if_pos rfl]
      simp [reflects.thenables_next]
    · exact (Arena.size_add ..).trans (by simp [Story.entangle, current, reflects.scopes])
    · rw [Story.episode_entangle_of_none current]
      refine (Arena.get_add ..).trans ?_
      rw [reflects.thenables_next]
      split
      next => rfl
      next => exact reflects.thenable j
    · exact reflects.fired

/-- The answer names the action, and tells whether the lane was used. -/
theorem answer (reflects : r.Reflects s) (runtime : Bool) (lane : LaneSet) :
    (Actions.entangle runtime lane r.actions).result =
      if runtime then .ok (⟨s.started⟩, s.current?.isNone) else .error .noAsyncRuntime := by
  have next : r.actions.started.next = ⟨s.started⟩ := congrArg Id.mk reflects.started
  have scope := reflects.scope
  cases runtime with
  | false => rfl
  | true =>
    rw [if_pos rfl, ← next]
    cases current : s.current? with
    | some i =>
      rw [current] at scope
      rw [Actions.entangle_of_some scope]
      rfl
    | none =>
      rw [current] at scope
      rw [Actions.entangle_of_none scope]
      rfl

theorem has_iff (reflects : r.Reflects s) (i : Id .scope) :
    r.actions.thenables.has i = s.episodes.has i := by
  rw [Arena.has, Arena.has, reflects.scopes]

/-- What only concerns listeners is to be seen at the thenables alone. -/
theorem of_sameActions {r' : Session} {s' : Story} (reflects : r.Reflects s)
    (same : s.SameActions s') (scope : r'.actions.scope = r.actions.scope)
    (started : r'.actions.started = r.actions.started)
    (scopes : r'.actions.thenables.size = r.actions.thenables.size)
    (thenable : ∀ i, r'.actions.thenables.get i = (s'.episode i).thenable)
    (untold : ∀ i, i ∈ r'.untold ↔ s.Complete i ∧ (s'.episode i).told = false)
    (fired : r'.actions.fired = s'.fired) : r'.Reflects s' := by
  refine ⟨?_, fun n => ?_, ?_, ?_, thenable, fun i => ?_, fired⟩
  · rw [started, same.started, reflects.started]
  · simpa only [Actions.isRunning, started, same.running] using reflects.running n
  · simpa only [scope, same.current?, same.lane, same.running] using reflects.scope
  · rw [scopes, same.size, reflects.scopes]
  · rw [same.complete, untold i]

theorem listen (reflects : r.Reflects s) (i : Id .scope) (l : Listener) :
    (r.call (.listen i l)).Reflects (s.listen i l) := by
  refine reflects.of_sameActions (s.sameActions_listen i l) rfl rfl (Arena.size_modify ..)
    (fun j => ?_) (fun j => ?_) ?_
  · rw [Story.episode_listen]
    refine (Actions.get_andThen ..).trans ?_
    rw [reflects.has_iff j, reflects.thenable i]
    split
    next both => rw [Episode.thenable_listen, both.1]
    next => exact reflects.thenable j
  · rw [Story.told_listen]
    exact reflects.untold j
  · refine (Actions.fired_andThen ..).trans ?_
    rw [reflects.fired, reflects.thenable i]
    rfl

theorem tell (reflects : r.Reflects s) (i : Id .scope) :
    (r.call (.tell i)).Reflects (s.tell i) := by
  unfold call
  dsimp only
  split
  next due =>
    obtain ⟨complete, waits⟩ := (reflects.untold i).mp due
    refine reflects.of_sameActions (s.sameActions_tell i) rfl rfl (Arena.size_modify ..)
      (fun j => ?_) (fun j => ?_) ?_
    · rw [Story.episode_tell]
      refine (Actions.get_fulfil ..).trans ?_
      rw [reflects.has_iff j, reflects.thenable i]
      rcases eq_or_ne i j with rfl | ne
      · rw [if_pos ⟨rfl, complete.1⟩, if_pos ⟨rfl, complete⟩, Episode.thenable_told waits]
      · rw [if_neg fun same => ne same.1, if_neg fun same => ne same.1]
        exact reflects.thenable j
    · rw [Story.episode_tell, List.mem_filter, reflects.untold j]
      rcases eq_or_ne i j with rfl | ne
      · rw [if_pos ⟨rfl, complete⟩]
        simp
      · rw [if_neg fun same => ne same.1]
        simp [ne.symm]
    · have told : (s.tell i).fired = s.fired ++ (s.episode i).early.flatMap Listener.fire := by
        rw [Story.tell, if_pos ⟨complete, waits⟩]
      rw [told, ← reflects.fired]
      refine (Actions.fired_fulfil _ _ ?_).trans ?_
      · rw [reflects.thenable i]
        exact waits
      · rw [reflects.thenable i, Episode.thenable, waits]
        rfl
  next idle =>
    have same : s.tell i = s := if_neg fun due => idle ((reflects.untold i).mpr due)
    rw [same]
    exact reflects

/-- An action that settles runs no more. -/
theorem running_withdraw (reflects : r.Reflects s) (sound : s.Sound) (mem : n ∈ s.running i)
    (m : Id .action) :
    (r.actions.started.modify n fun _ => false).get m ↔ ∃ j, m ∈ (s.withdraw n).running j := by
  have ran : r.actions.isRunning n := (reflects.running n).mpr ⟨i, mem⟩
  rw [Story.withdraw_of_running mem sound, Arena.get_modify]
  simp only [Story.running_settled, List.mem_filter, decide_eq_true_eq]
  rcases eq_or_ne n m with rfl | ne
  · have has : r.actions.started.has n := by
      by_contra absent
      rw [Actions.isRunning, Arena.get_of_not_has (Bool.eq_false_iff.mpr absent)] at ran
      cases ran
    simp [has]
  · simpa [Actions.isRunning, ne, ne.symm] using reflects.running m

/-- What an action that settles leaves open, and whom it leaves to be told. -/
theorem of_withdraw {r' : Session} (reflects : r.Reflects s) (sound : s.Sound)
    (mem : n ∈ s.running i) (scope : r'.actions.scope = (s.withdraw n).current?.map fun i =>
      { lane := (s.episode i).lane, pending := ((s.running i).erase n).length, thenable := i })
    (started : r'.actions.started = r.actions.started.modify n fun _ => false)
    (thenables : r'.actions.thenables = r.actions.thenables)
    (untold : ∀ j, j ∈ r'.untold ↔ j ∈ r.untold ∨ j = i ∧ (s.running i).erase n = [])
    (fired : r'.actions.fired = r.actions.fired) : r'.Reflects (s.withdraw n) := by
  obtain ⟨episodes, startedStory, firedStory⟩ := s.frame_withdraw n
  refine ⟨?_, fun m => ?_, ?_, ?_, fun j => ?_, fun j => ?_, ?_⟩
  · rw [started, Arena.size_modify, startedStory, reflects.started]
  · rw [Actions.isRunning, started]
    exact reflects.running_withdraw sound mem m
  · rw [scope, sound.current?_withdraw mem]
    split
    next => rfl
    next => simp only [Option.map_some, Story.episode_withdraw, sound.running_withdraw mem, if_pos]
  · rw [thenables, episodes, reflects.scopes]
  · rw [thenables, Story.episode_withdraw, reflects.thenable j]
  · rw [untold j, reflects.untold j, sound.complete_withdraw mem, Story.episode_withdraw]
    rcases eq_or_ne j i with rfl | ne
    · simp [sound.not_told_of_mem mem]
    · simp [ne]
  · rw [fired, firedStory, reflects.fired]

/-- The open scope counts its actions. It ends with the last one. -/
theorem withdraw_of_mem (reflects : r.Reflects s) (sound : s.Sound) (mem : n ∈ s.running i) :
    (r.actions.withdraw n).1 = (if (s.running i).erase n = [] then some i else none) ∧
      (r.call (.withdraw n)).Reflects (s.withdraw n) := by
  have scope := reflects.scope
  rw [sound.current?_eq_some.mpr (List.ne_nil_of_mem mem), Option.map_some] at scope
  have withdrawn := Actions.withdraw_of_running ((reflects.running n).mpr ⟨i, mem⟩) scope
  have left : (s.running i).length - 1 = ((s.running i).erase n).length :=
    (List.length_erase_of_mem mem).symm
  have current := sound.current?_withdraw mem
  rcases eq_or_ne ((s.running i).erase n) [] with last | more
  · rw [if_pos (left.trans (List.length_eq_zero_iff.mpr last))] at withdrawn
    rw [if_pos last] at current ⊢
    rw [call, withdrawn]
    let counted : Actions :=
      { r.actions with started := r.actions.started.modify n fun _ => false }
    have closed : Reflects { actions := { counted with scope := none }, untold := r.untold ++ [i] }
        (s.withdraw n) := by
      refine reflects.of_withdraw sound mem ?_ rfl rfl (fun j => ?_) rfl
      · rw [current]
        rfl
      · simp [last]
    exact ⟨rfl, closed.of_sameScopes (Actions.sameScopes_close counted)⟩
  · rw [if_neg fun none => more (List.length_eq_zero_iff.mp (left.symm.trans none))] at withdrawn
    rw [if_neg more] at current ⊢
    rw [call, withdrawn]
    refine ⟨rfl, reflects.of_withdraw sound mem ?_ rfl rfl (fun j => ?_) rfl⟩
    · rw [current, Option.map_some, ← left]
    · simp [more]

theorem not_running (reflects : r.Reflects s) (settled : s.scopeOf? n = none) :
    ¬ r.actions.isRunning n :=
  mt (reflects.running n).mp (not_exists.mpr (Story.Sound.scopeOf?_eq_none.mp settled))

theorem withdraw (reflects : r.Reflects s) (sound : s.Sound) (n : Id .action) :
    (r.call (.withdraw n)).Reflects (s.withdraw n) := by
  cases found : s.scopeOf? n with
  | some i => exact (reflects.withdraw_of_mem sound (sound.scopeOf?_eq_some.mp found)).2
  | none =>
    rw [call, Actions.withdraw_of_not_running (reflects.not_running found), Option.toList_none,
      List.append_nil, Story.withdraw_of_not_running (Story.Sound.scopeOf?_eq_none.mp found)]
    exact reflects

/-- Both phases of a settlement: the action's own scope is told if it was the last one. -/
theorem settle (reflects : r.Reflects s) (sound : s.Sound) (n : Id .action) :
    (r.call (.settle n)).Reflects (s.settle n) := by
  rw [call, Actions.settle_eq, Story.settle]
  cases found : s.scopeOf? n with
  | none =>
    rw [Actions.withdraw_of_not_running (reflects.not_running found)]
    exact reflects
  | some i =>
    have mem := sound.scopeOf?_eq_some.mp found
    obtain ⟨ends, after⟩ := reflects.withdraw_of_mem sound mem
    have unfinished : ¬ s.Complete i := fun complete => List.ne_nil_of_mem mem complete.2
    rcases eq_or_ne ((s.running i).erase n) [] with last | more
    · rw [if_pos last] at ends
      have told := after.tell i
      have kept : (r.untold ++ [i]).filter (fun j => j ≠ i) = r.untold := by
        have others : ∀ j ∈ r.untold, j ≠ i := fun j due same =>
          unfinished (same ▸ ((reflects.untold j).mp due).1)
        simpa using others
      rw [call, ends, call, if_pos (by simp), Option.toList_some, kept] at told
      rw [ends]
      exact told
    · rw [if_neg more] at ends
      have waits : (s.withdraw n).tell i = s.withdraw n :=
        if_neg fun due => ((sound.complete_withdraw mem i).mp due.1).elim unfinished (more ·.2)
      rw [call, ends, Option.toList_none, List.append_nil] at after
      rw [ends]
      dsimp only
      rw [waits]
      exact after

/-- A session goes on as its story does. -/
theorem call (reflects : r.Reflects s) (sound : s.Sound) (x : ActionCall) :
    (r.call x).Reflects (s.call x) := by
  cases x with
  | entangle runtime lane =>
    cases runtime with
    | true => exact reflects.entangle sound lane
    | false => exact reflects
  | settle n => exact reflects.settle sound n
  | withdraw n => exact reflects.withdraw sound n
  | tell i => exact reflects.tell i
  | listen i l => exact reflects.listen i l
  | register callback script => exact reflects.of_sameScopes (.register _ callback script)
  | perform depth steps => exact reflects.of_sameScopes (.perform depth steps _)

/-- A session in which nothing was done yet. -/
theorem start (usesIndicator : Bool) : Reflects { actions := { usesIndicator } } {} where
  started := rfl
  running n := iff_of_false Bool.false_ne_true fun ⟨_, mem⟩ => absurd mem List.not_mem_nil
  scope := rfl
  scopes := rfl
  thenable _ := rfl
  untold i := iff_of_false List.not_mem_nil fun due =>
    absurd due.1.1 (by simp [Arena.has, Arena.size])
  fired := rfl

theorem after (reflects : r.Reflects s) (sound : s.Sound) (calls : List ActionCall) :
    (r.after calls).Reflects (s.after calls) := by
  induction calls generalizing r s with
  | nil => exact reflects
  | cons x calls ih => exact ih (reflects.call sound x) (sound.call x)

end Session.Reflects

/-- Without settlements that pause between their phases, everybody is told in time. -/
theorem Session.untold_after {r : Session} {calls : List ActionCall} (none : r.untold = [])
    (whole : ∀ n, .withdraw n ∉ calls) : (r.after calls).untold = [] := by
  induction calls generalizing r with
  | nil => exact none
  | cons x calls ih =>
    refine ih ?_ fun n mem => whole n (.tail _ mem)
    cases x with
    | withdraw n => exact absurd (.head _) (whole n)
    | tell i =>
      have idle : i ∉ r.untold := none ▸ List.not_mem_nil
      rw [call, if_neg idle]
      exact none
    | entangle | settle | listen | register | perform => exact none

/-- After any calls:
* the open scope is the one with actions that have not settled, has their number, and its own
  lane and thenable (`Reflects`), and no other scope has such actions (`Sound`);
* the listeners that were told are those of scopes that are complete, once each (`Told`);
* unless a settlement is between its phases, the thenables of the scopes that are complete are
  fulfilled, and no others;
* whatever is called next, scopes keep their lane, those that are complete get no further actions
  (`Lasts`), and listeners stand in the order in which they are registered;
* the next action opens a scope if and only if none is open;
* the settlement of the last action of a scope tells the listeners that wait, in that order, and
  any other settlement tells nobody;
* a listener that is registered after that is told at once. -/
theorem scopes_all_or_nothing (usesIndicator : Bool) (calls : List ActionCall) :
    let r := ({ actions := { usesIndicator } } : Session).after calls
    let s := ({} : Story).after calls
    r.Reflects s ∧ s.Sound ∧ s.Told ∧
      ((∀ n, .withdraw n ∉ calls) → ∀ i, (r.actions.thenables.get i).fulfilled ↔ s.Complete i) ∧
      (∀ more, s.Lasts (s.after more) ∧ ∀ i, s.episodes.has i →
        ((s.after more).episode i).heard =
          (s.episode i).heard ++ more.filterMap (ActionCall.listener? i)) ∧
      (∀ runtime lane, (Actions.entangle runtime lane r.actions).result =
        if runtime then .ok (⟨s.started⟩, s.current?.isNone) else .error .noAsyncRuntime) ∧
      (∀ i n, n ∈ s.running i → (s.episode i).early = (s.episode i).heard ∧
        (r.actions.settle n).fired = r.actions.fired ++
          if (s.running i).erase n = [] then (s.episode i).early.flatMap Listener.fire else []) ∧
      ∀ i l, (r.actions.andThen i l).fired = r.actions.fired ++
        if (r.actions.thenables.get i).fulfilled then l.fire else [] := by
  intro r s
  have sound : s.Sound := Story.Sound.start.after calls
  have told : s.Told := Story.Told.start.after calls
  have reflects : r.Reflects s := (Session.Reflects.start usesIndicator).after .start calls
  refine ⟨reflects, sound, told, fun whole i => ?_,
    fun more => ⟨.after sound more, fun i there => Story.heard_after sound told there more⟩,
    reflects.answer, fun i n mem => ⟨?_, ?_⟩, r.actions.fired_andThen⟩
  · rw [reflects.thenable i]
    refine ⟨sound.complete_of_told, fun complete => ?_⟩
    by_contra waits
    have due := (reflects.untold i).mpr ⟨complete, Bool.eq_false_iff.mpr waits⟩
    rw [Session.untold_after rfl whole] at due
    cases due
  · rw [Episode.heard, told.late i (sound.not_told_of_mem mem), List.append_nil]
  · rw [reflects.fired, ← sound.fired_settle mem]
    exact (reflects.settle sound n).fired

/-- The second scope is opened before the listeners of the first one are told. -/
example :
    let calls := [.entangle true (.single 6), .listen ⟨0⟩ { label := "a" }, .withdraw ⟨0⟩,
      .entangle true (.single 7), .listen ⟨0⟩ { label := "b" }, .tell ⟨0⟩,
      .listen ⟨0⟩ { label := "c" }]
    let r := ({ actions := {} } : Session).after calls
    r.actions.scope = some { lane := .single 7, pending := 1, thenable := ⟨1⟩ } ∧
      r.actions.fired = [{ label := "a" }, { label := "b" }, { label := "c" }] := by
  cbv

end ConcurrentRender
