import ConcurrentRender.Proofs.Action.Story

/-!
# What becomes of the listeners of a scope

A listener waits until its scope is complete and is then told, with all that came before it and
after them. If the scope was complete before, it is told at once. Nobody is told twice, since
what is complete remains so.

* `Story.firings s`: what all listeners had to do that were told.
* `Story.Told s`: they did that once, and nothing else was done.
* `Story.Lasts s s'`: what of the scopes is for good.

Results:
1. `Told.entangle`, `Told.withdraw`, `Told.tell`, `Told.listen`: each call has those do something
   who have to.
2. `Told.heard_listen`: listeners stand in the order in which they came.
3. `Lasts.entangle`, `Lasts.withdraw`, `Lasts.tell`, `Lasts.listen`: no call takes anything back.
-/

namespace ConcurrentRender

namespace Story

variable {s s' : Story} {i j : Id .scope} {n : Id .action}

/-! ## Each listener is told once -/

/-- One entry has more to tell. -/
theorem perm_flatMap_modify {α β : Type} {l : List α} {g : α → List β} {f : α → α} {k : Nat} {x : α}
    {more : List β} (entry : l[k]? = some x) (grows : g (f x) = g x ++ more) :
    (l.flatMap g ++ more).Perm ((l.modify k f).flatMap g) := by
  induction l generalizing k with
  | nil => cases entry
  | cons y l ih =>
    cases k with
    | zero =>
      obtain rfl : y = x := Option.some.inj entry
      rw [List.modify_zero_cons, List.flatMap_cons, List.flatMap_cons, grows, List.append_assoc,
        List.append_assoc]
      exact List.perm_append_comm.append_left _
    | succ k =>
      rw [List.modify_succ_cons, List.flatMap_cons, List.flatMap_cons, List.append_assoc]
      exact (ih entry).append_left _

/-- What all listeners so far had to do. -/
def firings (s : Story) : List Firing := s.episodes.items.toList.flatMap Episode.firings

/-- Whoever had to be told was told once. -/
structure Told (s : Story) : Prop where
  late : ∀ i, (s.episode i).told = false → (s.episode i).late = []
  fired : s.fired.Perm s.firings

theorem firings_modify {f : Episode → Episode} {more : List Firing} (there : s.episodes.has i)
    (grows : (f (s.episode i)).firings = (s.episode i).firings ++ more) :
    (s.firings ++ more).Perm (firings { s with episodes := s.episodes.modify i f }) := by
  have entry : s.episodes.items.toList[i.index]? = some (s.episode i) := by
    have bound : i.index < s.episodes.items.size := of_decide_eq_true there
    simp [episode, Arena.get, Arena.get?, bound]
  unfold firings
  rw [Arena.modify, Array.toList_modify]
  exact perm_flatMap_modify entry grows

theorem firings_modify_of_not_has {f : Episode → Episode} (absent : s.episodes.has i = false) :
    firings { s with episodes := s.episodes.modify i f } = s.firings := by
  have bound : s.episodes.items.toList.length ≤ i.index := Nat.not_lt.mp (of_decide_eq_false absent)
  unfold firings
  rw [Arena.modify, Array.toList_modify, List.modify_eq_self bound]

namespace Told

theorem start : Told {} := ⟨fun _ _ => rfl, .refl _⟩

theorem entangle (told : s.Told) (lane : LaneSet) : (s.entangle lane).Told := by
  refine ⟨fun i waits => ?_, ?_⟩
  · obtain ⟨same, _, late⟩ := s.listeners_entangle lane i
    rw [late]
    exact told.late i (same ▸ waits)
  · cases goesOn : s.current? with
    | some i =>
      have joins := firings_modify (f := fun e => { e with joined := e.joined ++ [⟨s.started⟩] })
        (has_of_running (running_of_current? goesOn)) (List.append_nil _).symm
      rw [List.append_nil] at joins
      simp only [Story.entangle, goesOn]
      exact told.fired.trans joins
    | none =>
      have opens : (s.entangle lane).firings = s.firings := by
        simp [firings, Story.entangle, goesOn, Arena.add, Episode.firings]
      rw [opens]
      exact told.fired

theorem withdraw (told : s.Told) (n : Id .action) : (s.withdraw n).Told := by
  unfold Story.withdraw
  split
  next => exact ⟨told.late, told.fired⟩
  next => exact told

theorem tell (told : s.Told) (i : Id .scope) : (s.tell i).Told := by
  refine ⟨fun j waits => ?_, ?_⟩
  · rw [episode_tell] at waits ⊢
    split at waits
    next => cases waits
    next other => rw [if_neg other]; exact told.late j waits
  · unfold Story.tell
    split
    next due =>
      refine (told.fired.append_right _).trans (firings_modify due.1.1 ?_)
      simp [Episode.firings, Episode.heard, due.2, told.late i due.2]
    next => exact told.fired

theorem settle (told : s.Told) (n : Id .action) : (s.settle n).Told := by
  unfold Story.settle
  split
  next i _ => exact (told.withdraw n).tell i
  next => exact told

theorem listen (told : s.Told) (i : Id .scope) (l : Listener) : (s.listen i l).Told := by
  refine ⟨fun j waits => ?_, ?_⟩
  · rw [told_listen] at waits
    rw [episode_listen]
    split
    next => simpa [Episode.listen, waits] using told.late j waits
    next => exact told.late j waits
  · cases there : s.episodes.has i with
    | true =>
      exact (told.fired.append_right _).trans (firings_modify there (Episode.firings_listen _ l))
    | false =>
      have same := firings_modify_of_not_has (f := fun e => e.listen l) there
      have waits : (s.episode i).told = false := by
        rw [episode_of_not_has there]
        rfl
      have fired : (s.listen i l).fired = s.fired := by
        simp [Story.listen, waits]
      rw [fired]
      exact same.symm ▸ told.fired

end Told

/-! ## Who came when -/

theorem heard_entangle (s : Story) (lane : LaneSet) (j : Id .scope) :
    ((s.entangle lane).episode j).heard = (s.episode j).heard := by
  obtain ⟨_, early, late⟩ := s.listeners_entangle lane j
  rw [Episode.heard, early, late, Episode.heard]

theorem heard_tell (s : Story) (i j : Id .scope) :
    ((s.tell i).episode j).heard = (s.episode j).heard := by
  rw [episode_tell]
  split
  all_goals rfl

theorem heard_settle (s : Story) (n : Id .action) (j : Id .scope) :
    ((s.settle n).episode j).heard = (s.episode j).heard := by
  unfold settle
  split
  next => rw [heard_tell, episode_withdraw]
  next => rfl

/-- A listener comes after all others. -/
theorem Told.heard_listen (told : s.Told) (there : s.episodes.has j) (i : Id .scope)
    (l : Listener) :
    ((s.listen i l).episode j).heard = (s.episode j).heard ++ if i = j then [l] else [] := by
  rw [episode_listen]
  rcases eq_or_ne i j with rfl | ne
  · rw [if_pos ⟨rfl, there⟩, if_pos rfl]
    unfold Episode.listen Episode.heard
    split
    next => exact (List.append_assoc ..).symm
    next waits => simp [told.late i (Bool.eq_false_iff.mpr waits)]
  · rw [if_neg fun both => ne both.1, if_neg ne, List.append_nil]

/-! ## What lasts -/

/-- Between `s` and `s'` no scope got another lane, no action joined a scope that was complete,
and no listener was put before those that had been told. -/
structure Lasts (s s' : Story) : Prop where
  lane : ∀ i, s.episodes.has i →
    s'.episodes.has i ∧ (s'.episode i).lane = (s.episode i).lane
  complete : ∀ i, s.Complete i → s'.Complete i ∧ (s'.episode i).joined = (s.episode i).joined
  told : ∀ i, (s.episode i).told →
    (s'.episode i).told ∧ (s'.episode i).early = (s.episode i).early

namespace Lasts

theorem refl (s : Story) : s.Lasts s :=
  ⟨fun _ there => ⟨there, rfl⟩, fun _ complete => ⟨complete, rfl⟩, fun _ told => ⟨told, rfl⟩⟩

theorem trans {s'' : Story} (first : s.Lasts s') (second : s'.Lasts s'') : s.Lasts s'' := by
  refine ⟨fun i there => ?_, fun i complete => ?_, fun i told => ?_⟩
  · obtain ⟨there', lane⟩ := first.lane i there
    exact (second.lane i there').imp_right (·.trans lane)
  · obtain ⟨complete', joined⟩ := first.complete i complete
    exact (second.complete i complete').imp_right (·.trans joined)
  · obtain ⟨told', early⟩ := first.told i told
    exact (second.told i told').imp_right (·.trans early)

theorem of_sameActions (same : s.SameActions s')
    (told : ∀ i, (s.episode i).told →
      (s'.episode i).told ∧ (s'.episode i).early = (s.episode i).early) : s.Lasts s' := by
  refine ⟨fun i there => ⟨?_, same.lane i⟩,
    fun i complete => ⟨(same.complete i).mpr complete, same.joined i⟩, told⟩
  rwa [Arena.has, same.size, ← Arena.has]

theorem entangle (sound : s.Sound) (lane : LaneSet) : s.Lasts (s.entangle lane) := by
  refine ⟨fun i there => ⟨?_, lane_entangle there lane⟩, fun i complete => ⟨?_, ?_⟩,
    fun i told => ?_⟩
  · exact (has_entangle s lane).mpr (.inr there)
  · exact (sound.complete_entangle lane).mpr complete
  · have other : i ≠ s.home := fun same => sound.not_complete_home (same ▸ complete)
    rw [joined_entangle, if_neg other, List.append_nil]
  · obtain ⟨same, early, _⟩ := s.listeners_entangle lane i
    exact ⟨same.trans told, early⟩

theorem withdraw (sound : s.Sound) (n : Id .action) : s.Lasts (s.withdraw n) := by
  cases found : s.scopeOf? n with
  | none =>
    rw [withdraw_of_not_running (Sound.scopeOf?_eq_none.mp found)]
    exact refl s
  | some i =>
    have mem := sound.scopeOf?_eq_some.mp found
    have same := episode_withdraw s n
    refine ⟨fun j there => ⟨(s.frame_withdraw n).1 ▸ there, by rw [same]⟩,
      fun j complete => ⟨(sound.complete_withdraw mem j).mpr (.inl complete), by rw [same]⟩,
      fun j told => ?_⟩
    rw [same]
    exact ⟨told, rfl⟩

theorem tell (s : Story) (i : Id .scope) : s.Lasts (s.tell i) := by
  refine of_sameActions (s.sameActions_tell i) fun j told => ?_
  rw [episode_tell]
  split
  next => exact ⟨rfl, rfl⟩
  next => exact ⟨told, rfl⟩

theorem settle (sound : s.Sound) (n : Id .action) : s.Lasts (s.settle n) := by
  unfold Story.settle
  split
  next i _ => exact (withdraw sound n).trans (tell _ i)
  next => exact refl s

theorem listen (s : Story) (i : Id .scope) (l : Listener) : s.Lasts (s.listen i l) := by
  refine of_sameActions (s.sameActions_listen i l) fun j told => ?_
  rw [episode_listen]
  split
  next => simp [Episode.listen, told]
  next => exact ⟨told, rfl⟩

end Lasts

end Story

end ConcurrentRender
