import Mathlib.Data.List.Nodup
import ConcurrentRender.Action.Thenable
import ConcurrentRender.Proofs.Tree.Frame

/-!
# What becomes of scopes

An action that settles does not say in which scope it was started. It is counted out of the scope
that is open, whichever that is. A `Story` is told by someone who keeps track: which actions have
joined each scope, and which actions have settled. What a scope is at follows from that.

* `Episode`, `Story`: what became of a scope, and of all scopes.
* `Story.running s i`: the actions of a scope that have not settled.
* `Story.Complete s i`: there are none, and will be none.
* `Story.Sound s`: what holds in every story.
* `Story.SameActions s s'`: only the listeners differ.

Results:
1. `Sound.entangle`, `Sound.withdraw`, `Sound.tell`, `Sound.listen`: no two scopes have running
   actions at once, and no action is in two scopes.
2. `Sound.complete_entangle`, `Sound.complete_withdraw`: only the last action of a scope
   completes it.
3. `Sound.fired_settle`: and has its listeners told.
-/

namespace ConcurrentRender

theorem Arena.mem_ids {k : Kind} {α : Type} {a : Arena k α} {i : Id k} : i ∈ a.ids ↔ a.has i := by
  cases i
  simp [ids, has]

/-- What holds of one entry only is found there. -/
theorem Arena.find?_ids_eq_some {k : Kind} {α : Type} {a : Arena k α} {p : Id k → Prop}
    [DecidablePred p] (there : ∀ i, p i → a.has i) (alone : ∀ i j, p i → p j → i = j) {i : Id k} :
    a.ids.find? (fun i => p i) = some i ↔ p i := by
  constructor
  · exact fun found => by simpa using List.find?_some found
  · intro holds
    cases found : a.ids.find? fun i => p i with
    | none =>
      have none := List.find?_eq_none.mp found i (mem_ids.mpr (there i holds))
      exact absurd (decide_eq_true holds) none
    | some j => rw [alone i j holds (by simpa using List.find?_some found)]

theorem Arena.find?_ids_eq_none {k : Kind} {α : Type} {a : Arena k α} {p : Id k → Prop}
    [DecidablePred p] (there : ∀ i, p i → a.has i) :
    a.ids.find? (fun i => p i) = none ↔ ∀ i, ¬ p i := by
  refine List.find?_eq_none.trans ⟨fun none i holds => ?_, fun none i _ holds => ?_⟩
  · exact none i (mem_ids.mpr (there i holds)) (decide_eq_true holds)
  · exact none i (of_decide_eq_true holds)

/-- What became of a scope. -/
structure Episode where
  /-- The lane on which it was opened. -/
  lane : LaneSet
  /-- The actions that were started in it, in order. -/
  joined : List (Id .action) := []
  /-- The listeners that are told at the end, in order. -/
  early : List Listener := []
  /-- The listeners that came later, in order. -/
  late : List Listener := []
  told : Bool := false
deriving Inhabited

namespace Episode

/-- The listeners wait until they are told. -/
def thenable (e : Episode) : Thenable :=
  { fulfilled := e.told, listeners := if e.told then [] else e.early }

/-- Who comes after the others were told need not wait. -/
def listen (e : Episode) (l : Listener) : Episode :=
  if e.told then { e with late := e.late ++ [l] } else { e with early := e.early ++ [l] }

theorem thenable_listen (e : Episode) (l : Listener) :
    (e.listen l).thenable = (e.thenable.andThen l).2 := by
  unfold listen
  split
  next told => simp [thenable, Thenable.andThen, told]
  next waits => simp [thenable, Thenable.andThen, waits]

theorem thenable_told {e : Episode} (waits : e.told = false) :
    thenable { e with told := true } = e.thenable.fulfil.2 := by
  simp [thenable, Thenable.fulfil, waits]

/-- All its listeners, in the order in which they came. -/
def heard (e : Episode) : List Listener := e.early ++ e.late

/-- What its listeners have to do by now. -/
def firings (e : Episode) : List Firing :=
  if e.told then e.heard.flatMap Listener.fire else []

theorem firings_listen (e : Episode) (l : Listener) :
    (e.listen l).firings = e.firings ++ if e.told then l.fire else [] := by
  unfold listen
  split
  next told => simp [firings, heard, told]
  next waits => simp [firings, waits]

end Episode

/-- All scopes that were opened so far. -/
structure Story where
  episodes : Arena .scope Episode := {}
  started : Nat := 0
  settled : List (Id .action) := []
  fired : List Firing := []

namespace Story

variable {s s' : Story} {i j : Id .scope} {n m : Id .action}

def episode (s : Story) (i : Id .scope) : Episode := s.episodes.get i

/-- The actions of a scope that have not settled. -/
def running (s : Story) (i : Id .scope) : List (Id .action) :=
  (s.episode i).joined.filter fun n => n ∉ s.settled

/-- The scope that has running actions. -/
def current? (s : Story) : Option (Id .scope) := s.episodes.ids.find? fun i => s.running i ≠ []

/-- The scope in which an action is running. -/
def scopeOf? (s : Story) (n : Id .action) : Option (Id .scope) :=
  s.episodes.ids.find? fun i => n ∈ s.running i

/-- All actions of the scope have settled. -/
def Complete (s : Story) (i : Id .scope) : Prop := s.episodes.has i ∧ s.running i = []

instance (s : Story) (i : Id .scope) : Decidable (s.Complete i) :=
  inferInstanceAs (Decidable (_ ∧ _))

/-! ## Calls -/

/-- The action joins the scope that has running actions. Only if there is none, it is the first
one of a new scope, on the given lane. -/
def entangle (s : Story) (lane : LaneSet) : Story :=
  let episodes := match s.current? with
    | some i => s.episodes.modify i fun e => { e with joined := e.joined ++ [⟨s.started⟩] }
    | none => s.episodes.add { lane, joined := [⟨s.started⟩] }
  { s with episodes, started := s.started + 1 }

/-- The action has settled. Nobody is told yet. -/
def withdraw (s : Story) (n : Id .action) : Story :=
  if (s.scopeOf? n).isSome then { s with settled := n :: s.settled } else s

/-- The listeners of a scope that is complete are told, in order and once. -/
def tell (s : Story) (i : Id .scope) : Story :=
  if s.Complete i ∧ (s.episode i).told = false then
    { s with
      episodes := s.episodes.modify i fun e => { e with told := true }
      fired := s.fired ++ (s.episode i).early.flatMap Listener.fire }
  else s

/-- The listeners of the action's own scope are told if it was the last one. -/
def settle (s : Story) (n : Id .action) : Story :=
  match s.scopeOf? n with
  | some i => (s.withdraw n).tell i
  | none => s

def listen (s : Story) (i : Id .scope) (l : Listener) : Story :=
  { s with
    episodes := s.episodes.modify i fun e => e.listen l
    fired := s.fired ++ if (s.episode i).told then l.fire else [] }

/-! ## What holds in every story -/

structure Sound (s : Story) : Prop where
  /-- At most one scope has running actions. -/
  alone : ∀ i j, s.running i ≠ [] → s.running j ≠ [] → i = j
  /-- No action is in two scopes, or twice in one. -/
  own : ∀ i j n, n ∈ (s.episode i).joined → n ∈ (s.episode j).joined → i = j
  nodup : ∀ i, (s.episode i).joined.Nodup
  /-- The next action is a new one. -/
  joined : ∀ i, ∀ n ∈ (s.episode i).joined, n.index < s.started
  settled : ∀ n ∈ s.settled, n.index < s.started
  /-- Listeners are told at the end. -/
  told : ∀ i, (s.episode i).told → s.running i = []

theorem mem_running : n ∈ s.running i ↔ n ∈ (s.episode i).joined ∧ n ∉ s.settled := by
  simp [running]

theorem has_of_running (busy : s.running i ≠ []) : s.episodes.has i := by
  by_contra absent
  have none : s.episode i = default := Arena.get_of_not_has (Bool.eq_false_iff.mpr absent)
  exact busy (by rw [running, none]; rfl)

theorem has_of_mem_running (i : Id .scope) (mem : n ∈ s.running i) : s.episodes.has i :=
  has_of_running (List.ne_nil_of_mem mem)

theorem running_of_current? (goesOn : s.current? = some i) : s.running i ≠ [] := by
  simpa using List.find?_some goesOn

namespace Sound

theorem current?_eq_some (sound : s.Sound) : s.current? = some i ↔ s.running i ≠ [] :=
  Arena.find?_ids_eq_some (fun _ => has_of_running) sound.alone

theorem current?_eq_none : s.current? = none ↔ ∀ i, s.running i = [] :=
  (Arena.find?_ids_eq_none fun _ => has_of_running).trans (forall_congr' fun _ => not_not)

theorem scopeOf?_eq_some (sound : s.Sound) : s.scopeOf? n = some i ↔ n ∈ s.running i :=
  Arena.find?_ids_eq_some has_of_mem_running fun i j hi hj =>
    sound.own i j n (mem_running.mp hi).1 (mem_running.mp hj).1

theorem scopeOf?_eq_none : s.scopeOf? n = none ↔ ∀ i, n ∉ s.running i :=
  Arena.find?_ids_eq_none has_of_mem_running

end Sound

/-! ## What a call does to the scopes -/

theorem episode_of_not_has (absent : s.episodes.has i = false) : s.episode i = default :=
  Arena.get_of_not_has absent

theorem running_settled (s : Story) (n : Id .action) (i : Id .scope) :
    running { s with settled := n :: s.settled } i = (s.running i).filter fun m => m ≠ n := by
  simp only [running, episode, List.filter_filter]
  exact List.filter_congr fun m _ => by simp

theorem frame_withdraw (s : Story) (n : Id .action) :
    (s.withdraw n).episodes = s.episodes ∧ (s.withdraw n).started = s.started ∧
      (s.withdraw n).fired = s.fired := by
  unfold withdraw
  split
  all_goals exact ⟨rfl, rfl, rfl⟩

theorem episode_withdraw (s : Story) (n : Id .action) (j : Id .scope) :
    (s.withdraw n).episode j = s.episode j := by
  rw [episode, (s.frame_withdraw n).1, episode]

theorem withdraw_of_not_running (none : ∀ i, n ∉ s.running i) : s.withdraw n = s := by
  rw [withdraw, Sound.scopeOf?_eq_none.mpr none]
  rfl

theorem withdraw_of_running (mem : n ∈ s.running i) (sound : s.Sound) :
    s.withdraw n = { s with settled := n :: s.settled } := by
  rw [withdraw, sound.scopeOf?_eq_some.mpr mem, Option.isSome_some, if_pos rfl]

/-- The scope that the next action joins. -/
def home (s : Story) : Id .scope := s.current?.getD s.episodes.next

theorem episode_entangle_of_some (goesOn : s.current? = some i) (lane : LaneSet) :
    (s.entangle lane).episode j =
      if i = j then { s.episode j with joined := (s.episode j).joined ++ [⟨s.started⟩] }
      else s.episode j := by
  have found : (s.entangle lane).episodes =
      s.episodes.modify i fun e => { e with joined := e.joined ++ [⟨s.started⟩] } := by
    simp only [entangle, goesOn]
  rw [episode, found, Arena.get_modify]
  split
  next both => rw [if_pos both.1]; rfl
  next other =>
    rw [if_neg fun same => other ⟨same, same ▸ has_of_running (running_of_current? goesOn)⟩]
    rfl

theorem episode_entangle_of_none (none : s.current? = none) (lane : LaneSet) :
    (s.entangle lane).episode j =
      if j = s.episodes.next then { lane, joined := [⟨s.started⟩] } else s.episode j := by
  have found : (s.entangle lane).episodes = s.episodes.add { lane, joined := [⟨s.started⟩] } := by
    simp only [entangle, none]
  rw [episode, found, Arena.get_add]
  rfl

theorem joined_entangle (s : Story) (lane : LaneSet) (j : Id .scope) :
    ((s.entangle lane).episode j).joined =
      (s.episode j).joined ++ if j = s.home then [⟨s.started⟩] else [] := by
  cases goesOn : s.current? with
  | some i =>
    rw [episode_entangle_of_some goesOn, home, goesOn, Option.getD_some]
    rcases eq_or_ne i j with rfl | ne
    · rw [if_pos rfl, if_pos rfl]
    · rw [if_neg ne, if_neg ne.symm, List.append_nil]
  | none =>
    rw [episode_entangle_of_none goesOn, home, goesOn, Option.getD_none]
    rcases eq_or_ne j s.episodes.next with rfl | ne
    · rw [if_pos rfl, if_pos rfl, episode_of_not_has (Arena.not_has_next _)]
      rfl
    · rw [if_neg ne, if_neg ne, List.append_nil]

/-- No listener comes or goes when an action starts. -/
theorem listeners_entangle (s : Story) (lane : LaneSet) (j : Id .scope) :
    let e := (s.entangle lane).episode j
    e.told = (s.episode j).told ∧ e.early = (s.episode j).early ∧ e.late = (s.episode j).late := by
  dsimp only
  cases goesOn : s.current? with
  | some i =>
    rw [episode_entangle_of_some goesOn]
    split
    all_goals exact ⟨rfl, rfl, rfl⟩
  | none =>
    rw [episode_entangle_of_none goesOn]
    split
    next new =>
      rw [new, episode_of_not_has (Arena.not_has_next _)]
      exact ⟨rfl, rfl, rfl⟩
    next => exact ⟨rfl, rfl, rfl⟩

/-- The lane matters only if a scope is opened. -/
theorem lane_entangle (there : s.episodes.has j) (lane : LaneSet) :
    ((s.entangle lane).episode j).lane = (s.episode j).lane := by
  cases goesOn : s.current? with
  | some i =>
    rw [episode_entangle_of_some goesOn]
    split
    all_goals rfl
  | none =>
    have old : j ≠ s.episodes.next := fun new => by
      rw [new, Arena.not_has_next] at there
      cases there
    rw [episode_entangle_of_none goesOn, if_neg old]

theorem has_entangle (s : Story) (lane : LaneSet) :
    (s.entangle lane).episodes.has j ↔ j = s.home ∨ s.episodes.has j := by
  cases goesOn : s.current? with
  | some i =>
    have kept : (s.entangle lane).episodes.has j = s.episodes.has j := by
      simp only [entangle, goesOn, Arena.has, Arena.size_modify]
    rw [kept, home, goesOn, Option.getD_some]
    exact ⟨.inr, fun h => h.elim (· ▸ has_of_running (running_of_current? goesOn)) id⟩
  | none =>
    simp only [entangle, goesOn, home, Option.getD_none]
    exact Arena.has_add

/-- Only the listeners differ. -/
structure SameActions (s s' : Story) : Prop where
  size : s'.episodes.size = s.episodes.size
  lane : ∀ i, (s'.episode i).lane = (s.episode i).lane
  joined : ∀ i, (s'.episode i).joined = (s.episode i).joined
  settled : s'.settled = s.settled
  started : s'.started = s.started

namespace SameActions

theorem running (same : s.SameActions s') (i : Id .scope) : s'.running i = s.running i := by
  rw [Story.running, Story.running, same.joined, same.settled]

theorem current? (same : s.SameActions s') : s'.current? = s.current? := by
  simp only [Story.current?, Arena.ids, same.size, same.running]

theorem complete (same : s.SameActions s') (i : Id .scope) : s'.Complete i ↔ s.Complete i := by
  rw [Complete, Complete, Arena.has, Arena.has, same.size, same.running]

end SameActions

theorem episode_tell (s : Story) (i j : Id .scope) :
    (s.tell i).episode j =
      if i = j ∧ s.Complete i then { s.episode j with told := true } else s.episode j := by
  unfold tell
  split
  next due =>
    rw [episode, Arena.get_modify]
    rcases eq_or_ne i j with rfl | ne
    · rw [if_pos ⟨rfl, due.1.1⟩, if_pos ⟨rfl, due.1⟩]
      rfl
    · rw [if_neg fun same => ne same.1, if_neg fun same => ne same.1]
      rfl
  next idle =>
    split
    next both =>
      obtain ⟨rfl, complete⟩ := both
      have told : (s.episode i).told = true :=
        Bool.not_eq_false _ ▸ fun untold => idle ⟨complete, untold⟩
      rw [← told]
    next => rfl

theorem sameActions_tell (s : Story) (i : Id .scope) : s.SameActions (s.tell i) := by
  have kept : ∀ j, ((s.tell i).episode j).lane = (s.episode j).lane ∧
      ((s.tell i).episode j).joined = (s.episode j).joined := by
    intro j
    rw [episode_tell]
    split
    all_goals exact ⟨rfl, rfl⟩
  refine ⟨?_, fun j => (kept j).1, fun j => (kept j).2, ?_, ?_⟩
  all_goals
    unfold tell
    split
  · exact Arena.size_modify ..
  all_goals rfl

theorem episode_listen (s : Story) (i j : Id .scope) (l : Listener) :
    (s.listen i l).episode j =
      if i = j ∧ s.episodes.has j then (s.episode j).listen l else s.episode j :=
  Arena.get_modify ..

theorem told_listen (s : Story) (i j : Id .scope) (l : Listener) :
    ((s.listen i l).episode j).told = (s.episode j).told := by
  rw [episode_listen]
  unfold Episode.listen
  split
  next =>
    split
    all_goals rfl
  next => rfl

theorem sameActions_listen (s : Story) (i : Id .scope) (l : Listener) :
    s.SameActions (s.listen i l) := by
  have kept : ∀ j, ((s.listen i l).episode j).lane = (s.episode j).lane ∧
      ((s.listen i l).episode j).joined = (s.episode j).joined := by
    intro j
    rw [episode_listen]
    unfold Episode.listen
    split
    next =>
      split
      all_goals exact ⟨rfl, rfl⟩
    next => exact ⟨rfl, rfl⟩
  exact ⟨Arena.size_modify .., fun j => (kept j).1, fun j => (kept j).2, rfl, rfl⟩

namespace Sound

theorem running_entangle (sound : s.Sound) (lane : LaneSet) (j : Id .scope) :
    (s.entangle lane).running j = s.running j ++ if j = s.home then [⟨s.started⟩] else [] := by
  have new : (⟨s.started⟩ : Id .action) ∉ s.settled := fun mem =>
    absurd (sound.settled _ mem) (Nat.lt_irrefl _)
  rw [running, joined_entangle, List.filter_append]
  refine congrArg (s.running j ++ ·) ?_
  split
  next => exact List.filter_cons_of_pos (decide_eq_true new)
  next => rfl

theorem home_of_running (sound : s.Sound) (busy : s.running i ≠ []) : s.home = i := by
  rw [home, sound.current?_eq_some.mpr busy, Option.getD_some]

/-- Actions do not join a scope that is complete. -/
theorem not_complete_home (sound : s.Sound) : ¬ s.Complete s.home := by
  rintro ⟨there, none⟩
  cases goesOn : s.current? with
  | some i =>
    have busy := sound.current?_eq_some.mp goesOn
    exact busy (sound.home_of_running busy ▸ none)
  | none =>
    rw [home, goesOn, Option.getD_none, Arena.not_has_next] at there
    cases there

theorem not_told_of_mem (sound : s.Sound) (mem : n ∈ s.running i) :
    (s.episode i).told = false :=
  Bool.eq_false_iff.mpr fun told => List.ne_nil_of_mem mem (sound.told i told)

theorem complete_of_told (sound : s.Sound) (told : (s.episode i).told) : s.Complete i := by
  refine ⟨?_, sound.told i told⟩
  by_contra absent
  rw [episode_of_not_has (Bool.eq_false_iff.mpr absent)] at told
  cases told

theorem of_sameActions (sound : s.Sound) (same : s.SameActions s')
    (told : ∀ i, (s'.episode i).told → s.running i = []) : s'.Sound := by
  refine ⟨?_, ?_, ?_, ?_, ?_, ?_⟩
  · simpa only [same.running] using sound.alone
  · simpa only [same.joined] using sound.own
  · simpa only [same.joined] using sound.nodup
  · simpa only [same.joined, same.started] using sound.joined
  · simpa only [same.settled, same.started] using sound.settled
  · simpa only [same.running] using told

theorem entangle (sound : s.Sound) (lane : LaneSet) : (s.entangle lane).Sound := by
  have ran : ∀ i, (s.entangle lane).running i ≠ [] → i = s.home := by
    intro i busy
    by_contra other
    rw [sound.running_entangle, if_neg other, List.append_nil] at busy
    exact other (sound.home_of_running busy).symm
  have mem : ∀ i n, n ∈ ((s.entangle lane).episode i).joined →
      n ∈ (s.episode i).joined ∨ i = s.home ∧ n = ⟨s.started⟩ := by
    intro i n mem
    rw [joined_entangle] at mem
    split at mem
    next same => simpa [same] using mem
    next => exact .inl (by simpa using mem)
  have new : ∀ i, (⟨s.started⟩ : Id .action) ∉ (s.episode i).joined := fun i mem =>
    absurd (sound.joined i _ mem) (Nat.lt_irrefl _)
  refine ⟨fun i j hi hj => (ran i hi).trans (ran j hj).symm, fun i j n hi hj => ?_, fun i => ?_,
    fun i n hi => ?_, fun n hn => Nat.lt_succ_of_lt (sound.settled n hn), fun i told => ?_⟩
  · rcases mem i n hi with old | ⟨rfl, rfl⟩
    · rcases mem j n hj with old' | ⟨rfl, rfl⟩
      · exact sound.own i j n old old'
      · exact absurd old (new i)
    · rcases mem j _ hj with old' | ⟨rfl, _⟩
      · exact absurd old' (new j)
      · rfl
  · rw [joined_entangle]
    split
    next => exact List.concat_eq_append ▸ (sound.nodup i).concat (new i)
    next => rw [List.append_nil]; exact sound.nodup i
  · rcases mem i n hi with old | ⟨_, rfl⟩
    · exact Nat.lt_succ_of_lt (sound.joined i n old)
    · exact Nat.lt_succ_self _
  · rw [(s.listeners_entangle lane i).1] at told
    by_contra busy
    exact sound.not_complete_home (ran i busy ▸ sound.complete_of_told told)

theorem running_withdraw (sound : s.Sound) (mem : n ∈ s.running i) (j : Id .scope) :
    (s.withdraw n).running j = if j = i then (s.running i).erase n else s.running j := by
  rw [withdraw_of_running mem sound, running_settled]
  split
  next same =>
    have nodup : (s.running i).Nodup := (sound.nodup i).filter _
    rw [same, nodup.erase_eq_filter]
    exact List.filter_congr fun m _ => by simp [bne, beq_eq_decide]
  next other =>
    exact List.filter_eq_self.mpr fun m mine => decide_eq_true fun same =>
      other (sound.own j i m (mem_running.mp mine).1 (mem_running.mp (same ▸ mem)).1)

theorem withdraw (sound : s.Sound) (n : Id .action) : (s.withdraw n).Sound := by
  cases found : s.scopeOf? n with
  | none =>
    rw [withdraw_of_not_running (scopeOf?_eq_none.mp found)]
    exact sound
  | some i =>
    have mem := sound.scopeOf?_eq_some.mp found
    have fewer : ∀ j, (s.withdraw n).running j ≠ [] → s.running j ≠ [] := by
      intro j busy none
      rw [withdraw_of_running mem sound, running_settled, none] at busy
      exact busy rfl
    have alone : ∀ j k, (s.withdraw n).running j ≠ [] → (s.withdraw n).running k ≠ [] → j = k :=
      fun j k hj hk => sound.alone j k (fewer j hj) (fewer k hk)
    have told : ∀ j, (s.episode j).told → (s.withdraw n).running j = [] := fun j told => by
      by_contra busy
      exact fewer j busy (sound.told j told)
    rw [withdraw_of_running mem sound] at told alone ⊢
    refine ⟨alone, sound.own, sound.nodup, sound.joined, fun m hm => ?_, told⟩
    rcases List.mem_cons.mp hm with rfl | old
    · exact sound.joined i _ (mem_running.mp mem).1
    · exact sound.settled m old

/-- The last action of a scope completes it. -/
theorem complete_withdraw (sound : s.Sound) (mem : n ∈ s.running i) (j : Id .scope) :
    (s.withdraw n).Complete j ↔ s.Complete j ∨ j = i ∧ (s.running i).erase n = [] := by
  have ran := List.ne_nil_of_mem mem
  rw [Complete, Complete, (s.frame_withdraw n).1, sound.running_withdraw mem]
  rcases eq_or_ne j i with rfl | ne
  · simp [ran, has_of_running ran]
  · simp [ne]

theorem current?_withdraw (sound : s.Sound) (mem : n ∈ s.running i) :
    (s.withdraw n).current? = if (s.running i).erase n = [] then none else some i := by
  have others : ∀ j, j ≠ i → s.running j = [] := fun j ne => by
    by_contra busy
    exact ne (sound.alone j i busy (List.ne_nil_of_mem mem))
  split
  next last =>
    refine current?_eq_none.mpr fun j => ?_
    rw [sound.running_withdraw mem]
    split
    next => exact last
    next ne => exact others j ne
  next more =>
    refine (sound.withdraw n).current?_eq_some.mpr ?_
    rw [sound.running_withdraw mem, if_pos rfl]
    exact more

theorem tell (sound : s.Sound) (i : Id .scope) : (s.tell i).Sound := by
  refine sound.of_sameActions (s.sameActions_tell i) fun j told => ?_
  rw [episode_tell] at told
  split at told
  next both => exact both.1 ▸ both.2.2
  next => exact sound.told j told

theorem listen (sound : s.Sound) (i : Id .scope) (l : Listener) : (s.listen i l).Sound :=
  sound.of_sameActions (s.sameActions_listen i l) fun j told =>
    sound.told j (s.told_listen i j l ▸ told)

/-- An action that starts completes no scope, and none is complete any less. -/
theorem complete_entangle (sound : s.Sound) (lane : LaneSet) :
    (s.entangle lane).Complete j ↔ s.Complete j := by
  rcases eq_or_ne j s.home with rfl | ne
  · refine iff_of_false (fun complete => ?_) sound.not_complete_home
    have joined : (⟨s.started⟩ : Id .action) ∈ (s.entangle lane).running s.home := by
      simp [sound.running_entangle]
    exact absurd joined (complete.2 ▸ List.not_mem_nil)
  · rw [Complete, Complete, has_entangle, sound.running_entangle]
    simp [ne]

theorem settle (sound : s.Sound) (n : Id .action) : (s.settle n).Sound := by
  unfold Story.settle
  split
  next i _ => exact (sound.withdraw n).tell i
  next => exact sound

/-- The last action of a scope has its listeners told, and no other action has anyone told. -/
theorem fired_settle (sound : s.Sound) (mem : n ∈ s.running i) :
    (s.settle n).fired = s.fired ++
      if (s.running i).erase n = [] then (s.episode i).early.flatMap Listener.fire else [] := by
  have waits := sound.not_told_of_mem mem
  have fired := (s.frame_withdraw n).2.2
  have complete : (s.withdraw n).Complete i ↔ (s.running i).erase n = [] := by
    rw [sound.complete_withdraw mem]
    simp [Complete, List.ne_nil_of_mem mem]
  have settled : s.settle n = (s.withdraw n).tell i := by
    rw [Story.settle, sound.scopeOf?_eq_some.mpr mem]
  rw [settled, Story.tell]
  split
  next due => rw [if_pos (complete.mp due.1), ← fired, episode_withdraw]
  next idle =>
    have more : (s.running i).erase n ≠ [] := fun last =>
      idle ⟨complete.mpr last, (episode_withdraw s n i) ▸ waits⟩
    rw [if_neg more, fired, List.append_nil]

theorem start : Sound {} where
  alone _ _ some := absurd rfl some
  own _ _ _ mem := absurd mem List.not_mem_nil
  nodup _ := List.nodup_nil
  joined _ _ mem := absurd mem List.not_mem_nil
  settled _ mem := absurd mem List.not_mem_nil
  told _ _ := rfl

end Sound

end Story

end ConcurrentRender
