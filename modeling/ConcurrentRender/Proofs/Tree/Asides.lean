import ConcurrentRender.Proofs.Tree.Core
import ConcurrentRender.Proofs.Tree.Summit

/-!
# Updates that are put aside come back

An update below a hidden boundary is put aside there, and carries the offscreen lane as a mark. The
lane that it was made on is not kept with it. When the boundary is revealed, the mark is taken away,
and what is left is the lane that the update was made on, unless that was the offscreen lane: such
an update is left without any lane.

* `Tree.NearestHidden t f b`: the first hidden boundary on the way up from `f` is `b`.
* `Aside`: an update that was put aside, with the boundary and the lane that it was made on.
* `Tree.Asides t es`: a run leads to `t`, and `es` are put aside after it.

Results:
1. `hiddenAbove?_eq_some_iff`: the walk finds the nearest hidden boundary.
2. `parked_markPath`, `lane_markPath`: a mark puts the update aside there and nowhere else.
3. `revealed_eq`, `update_reveal`: which updates come back, in which order and on which lanes.
4. `Asides.shelves`: in every run, boundaries hold what the run has put aside, and these updates are
   marked.
5. `brought_back_iff`: which updates have their lanes again once they are brought back.
-/

namespace ConcurrentRender

theorem LaneSet.single_inj {l m : Lane} : single l = single m ↔ l = m := by
  refine ⟨fun same => ?_, congrArg single⟩
  exact mem_single.mp (same ▸ mem_single.mpr rfl)

/-- Taking a mark away that was put on a lane before. -/
theorem LaneSet.union_diff (s t : LaneSet) : (s ∪ t) \ t = s \ t :=
  ext_mem fun l => by simp only [mem_diff, mem_union]; tauto

theorem LaneSet.diff_twice (s t : LaneSet) : (s \ t) \ t = s \ t :=
  ext_mem fun l => by simp only [mem_diff]; tauto

/-- A lane is left if another one is taken away. -/
theorem LaneSet.single_diff_single {l m : Lane} : single l \ single m = single l ↔ l ≠ m := by
  constructor
  · rintro same rfl
    have mem : l ∈ single l := mem_single.mpr rfl
    rw [← same] at mem
    exact (mem_diff.mp mem).2 (mem_single.mpr rfl)
  · refine fun differs => ext_mem fun k => ?_
    simp only [mem_diff, mem_single, and_iff_left_iff_imp]
    exact fun same => same ▸ differs

/-- An update that was put aside on a boundary. -/
structure Aside where
  boundary : BoundaryId
  /-- The lane that it was made on. -/
  lane : Lane
  update : UpdateId
deriving DecidableEq

namespace Aside

/-- The entry of the boundary for the update. -/
def parked (e : Aside) : LaneSet × UpdateId := (.single e.lane, e.update)

/-- The update comes back when the boundary is revealed on the lanes. -/
def Returns (b : BoundaryId) (lanes : LaneSet) (e : Aside) : Prop :=
  e.boundary = b ∧ e.lane ∈ lanes

instance (b : BoundaryId) (lanes : LaneSet) (e : Aside) : Decidable (e.Returns b lanes) :=
  inferInstanceAs (Decidable (_ ∧ _))

/-- What comes back, most urgent lane first, and of one lane in the order of putting aside. -/
def returning (es : List Aside) (b : BoundaryId) (lanes : LaneSet) : List Aside :=
  lanes.members.flatMap fun l => es.filter fun e => e.boundary = b ∧ e.lane = l

theorem mem_returning {es : List Aside} {b : BoundaryId} {lanes : LaneSet} {e : Aside} :
    e ∈ returning es b lanes ↔ e ∈ es ∧ e.Returns b lanes := by
  simp only [returning, List.mem_flatMap, LaneSet.mem_members, List.mem_filter, decide_eq_true_eq,
    Returns]
  constructor
  · rintro ⟨l, hl, mem, here, rfl⟩
    exact ⟨mem, here, hl⟩
  · rintro ⟨mem, here, hl⟩
    exact ⟨e.lane, hl, mem, here, rfl⟩

/-- What the boundary holds if `es` are put aside. -/
def heldBy (es : List Aside) (b : BoundaryId) : List (LaneSet × UpdateId) :=
  (es.filter (·.boundary = b)).map parked

theorem heldBy_append (es es' : List Aside) (b : BoundaryId) :
    heldBy (es ++ es') b = heldBy es b ++ heldBy es' b := by
  simp only [heldBy, List.filter_append, List.map_append]

end Aside

namespace Tree

/-- Links lead to fibers that are there, and fibers stand for boundaries that are there. -/
structure Whole (t : Tree) : Prop where
  parents : t.ParentsThere
  boundaries : ∀ f b, t.boundaryOf? f = some b → t.boundaries.has b

/-- The first hidden boundary on the way up from a fiber. -/
inductive NearestHidden (t : Tree) : FiberId → BoundaryId → Prop
  | here {f p : FiberId} {b : BoundaryId} :
      (t.fiber f).parent = some p → t.hiddenBoundaryOf? p = some b → NearestHidden t f b
  | above {f p : FiberId} {b : BoundaryId} :
      (t.fiber f).parent = some p → t.hiddenBoundaryOf? p = none → NearestHidden t p b →
      NearestHidden t f b

variable {t t₀ t' t'' : Tree} {f p source : FiberId} {b c : BoundaryId} {u v : UpdateId} {l : Lane}
  {lane lanes : LaneSet} {r : RootId} {es : List Aside}

/-! ## The nearest hidden boundary -/

theorem NearestHidden.unique (first : t.NearestHidden f b) (second : t.NearestHidden f c) :
    b = c := by
  induction first with
  | here up hidden =>
    cases second with
    | here up' hidden' =>
      obtain rfl := Option.some.inj (up.symm.trans up')
      exact Option.some.inj (hidden.symm.trans hidden')
    | above up' shown _ =>
      obtain rfl := Option.some.inj (up.symm.trans up')
      cases hidden.symm.trans shown
  | above up shown _ ih =>
    cases second with
    | here up' hidden =>
      obtain rfl := Option.some.inj (up.symm.trans up')
      cases shown.symm.trans hidden
    | above up' _ further =>
      obtain rfl := Option.some.inj (up.symm.trans up')
      exact ih further

theorem nearestHidden_of_climb {n : Nat}
    (found : (t.climb n f).findSome? t.hiddenBoundaryOf? = some b) : t.NearestHidden f b := by
  induction n generalizing f with
  | zero => cases found
  | succ n ih =>
    rw [climb_succ] at found
    cases up : (t.fiber f).parent with
    | none => simp [up] at found
    | some p =>
      simp only [up, List.findSome?_cons] at found
      cases hidden : t.hiddenBoundaryOf? p with
      | none =>
        rw [hidden] at found
        exact .above up hidden (ih found)
      | some c =>
        rw [hidden] at found
        exact .here up (hidden.trans found)

theorem NearestHidden.exists_above (nearest : t.NearestHidden f b) :
    ∃ p, t.Above f p ∧ t.hiddenBoundaryOf? p = some b := by
  induction nearest with
  | here up hidden => exact ⟨_, .parent up, hidden⟩
  | above up _ _ ih =>
    obtain ⟨p, above, hidden⟩ := ih
    exact ⟨p, .step up above, hidden⟩

/-- The walk finds a boundary if there is a hidden one above. -/
theorem exists_hiddenAbove? (valid : t.ParentsThere) (above : t.Above f p)
    (hidden : t.hiddenBoundaryOf? p = some b) : ∃ c, t.hiddenAbove? f = some c := by
  refine Option.isSome_iff_exists.mp (List.findSome?_isSome_iff.mpr ?_)
  exact ⟨p, (mem_ancestors_iff valid).mpr above, by rw [hidden]; rfl⟩

theorem hiddenAbove?_eq_some_iff (valid : t.ParentsThere) :
    t.hiddenAbove? f = some b ↔ t.NearestHidden f b := by
  refine ⟨nearestHidden_of_climb, fun nearest => ?_⟩
  obtain ⟨p, above, hidden⟩ := nearest.exists_above
  obtain ⟨c, found⟩ := exists_hiddenAbove? valid above hidden
  rw [found, (nearestHidden_of_climb found).unique nearest]

theorem Whole.has_nearest (whole : t.Whole) (nearest : t.NearestHidden f b) :
    t.boundaries.has b := by
  obtain ⟨p, -, hidden⟩ := nearest.exists_above
  exact whole.boundaries p b (Option.eq_some_of_filter_eq_some hidden)

/-- It is enough to look at the fibers that are there. -/
theorem whole_iff :
    t.Whole ↔ t.ParentsThere ∧
      ∀ f ∈ t.fibers.ids, (t.boundaryOf? f).all (t.boundaries.has ·) := by
  refine ⟨fun whole => ⟨whole.parents, fun f _ => ?_⟩, fun ⟨parents, all⟩ => ⟨parents, ?_⟩⟩
  · cases stands : t.boundaryOf? f with
    | none => rfl
    | some b => exact whole.boundaries f b stands
  · intro f b stands
    cases there : t.fibers.has f with
    | true =>
      have index : f.index < t.fibers.size := of_decide_eq_true there
      have found := all f (List.mem_map.mpr ⟨f.index, List.mem_range.mpr index, rfl⟩)
      rwa [stands] at found
    | false =>
      rw [boundaryOf?, fiber_of_not_has there] at stands
      cases stands

/-! ## Putting aside -/

/-- A mark below a hidden boundary raises the lane and puts the update aside. -/
theorem markPath_eq_park (rooted : t.findRoot? source = some r)
    (hidden : t.hiddenAbove? source = some b) :
    (markPath source (some u) lane t).state = (t.raise source lane).park b u lane := by
  have lifted : (t.raise source lane).hiddenAbove? source = some b :=
    ((SameCore.raise t source lane).hiddenAbove? source).trans hidden
  unfold markPath
  dsimp only
  rw [summit_eq, rooted]
  unfold parkBelow
  dsimp only
  rw [lifted]

/-- The update is put aside once, on this boundary and on no other one. -/
theorem parked_markPath (whole : t.Whole) (rooted : t.findRoot? source = some r)
    (nearest : t.NearestHidden source b) (u : UpdateId) (lane : LaneSet) (c : BoundaryId) :
    ((markPath source (some u) lane t).state.boundary c).parked =
      (t.boundary c).parked ++ if b = c then [(lane, u)] else [] := by
  have core := SameCore.raise t source lane
  have same : (t.raise source lane).boundary c = t.boundary c := by
    simp only [boundary, (onlyFibers_raise t source lane).boundaries]
  rw [markPath_eq_park rooted ((hiddenAbove?_eq_some_iff whole.parents).mpr nearest), parked_park,
    same, core.hasBoundary]
  by_cases here : b = c
  · subst here
    rw [if_pos ⟨rfl, whole.has_nearest nearest⟩, if_pos rfl]
  · rw [if_neg fun both => here both.1, if_neg here]

/-- The update is marked, and no other one is. -/
theorem lane_markPath (valid : t.ParentsThere) (rooted : t.findRoot? source = some r)
    (nearest : t.NearestHidden source b) (there : t.updates.has u) (lane : LaneSet)
    (v : UpdateId) :
    ((markPath source (some u) lane t).state.update v).lane =
      if u = v then lane ∪ LaneSet.offscreenLane else (t.update v).lane := by
  have core := SameCore.raise t source lane
  have same : (t.raise source lane).update v = t.update v := by
    simp only [update, (onlyFibers_raise t source lane).updates]
  rw [markPath_eq_park rooted ((hiddenAbove?_eq_some_iff valid).mpr nearest), lane_park, same,
    core.hasUpdate]
  by_cases here : u = v
  · subst here
    rw [if_pos ⟨rfl, there⟩, if_pos rfl]
  · rw [if_neg fun both => here both.1, if_neg here]

/-! ## Bringing back -/

theorem comesBack_single : comesBack lanes (.single l) = true ↔ l ∈ lanes := by
  simp only [comesBack, List.any_eq_true, LaneSet.mem_members, beq_iff_eq, LaneSet.single_inj]
  constructor
  · rintro ⟨m, mem, rfl⟩
    exact mem
  · exact fun mem => ⟨l, mem, rfl⟩

/-- Changing updates one by one changes each of them once, if a second time would change nothing. -/
theorem update_foldl_setUpdate {g : Update → Update} (twice : ∀ x, g (g x) = g x)
    (us : List UpdateId) (t : Tree) (v : UpdateId) :
    (us.foldl (fun t u => t.setUpdate u g) t).update v =
      if v ∈ us ∧ t.updates.has v then g (t.update v) else t.update v := by
  induction us generalizing t with
  | nil => simp
  | cons u us ih =>
    rw [List.foldl_cons, ih, update_setUpdate, has_setUpdate]
    by_cases here : u = v
    · subst here
      by_cases later : u ∈ us <;> by_cases there : t.updates.has u <;> simp [later, there, twice]
    · simp [here, Ne.symm here]

theorem size_foldl_setUpdate (g : Update → Update) (us : List UpdateId) (t : Tree) :
    (us.foldl (fun t u => t.setUpdate u g) t).updates.size = t.updates.size := by
  induction us generalizing t with
  | nil => rfl
  | cons u us ih => exact (ih _).trans (size_setUpdate t u g)

theorem boundaries_foldl_setUpdate (g : Update → Update) (us : List UpdateId) (t : Tree) :
    (us.foldl (fun t u => t.setUpdate u g) t).boundaries = t.boundaries := by
  induction us generalizing t with
  | nil => rfl
  | cons u us ih => exact ih _

/-- The boundary is shown, and keeps what does not come back. -/
theorem boundary_reveal (t : Tree) (b : BoundaryId) (lanes : LaneSet) (c : BoundaryId) :
    (t.reveal b lanes).2.boundary c =
      if b = c ∧ t.boundaries.has c then
        { visible := true
          parked := (t.boundary c).parked.filter fun p => !comesBack lanes p.1 }
      else t.boundary c := by
  unfold reveal boundary
  dsimp only
  rw [boundaries_foldl_setUpdate]
  exact boundary_setBoundary t b c _

/-- The mark is taken away from the updates that come back. -/
theorem update_reveal (t : Tree) (b : BoundaryId) (lanes : LaneSet) (v : UpdateId) :
    (t.reveal b lanes).2.update v =
      if v ∈ (t.reveal b lanes).1 ∧ t.updates.has v then
        { t.update v with lane := (t.update v).lane \ LaneSet.offscreenLane }
      else t.update v :=
  update_foldl_setUpdate (fun x => by simp only [LaneSet.diff_twice]) _ _ v

theorem size_reveal (t : Tree) (b : BoundaryId) (lanes : LaneSet) :
    (t.reveal b lanes).2.updates.size = t.updates.size :=
  size_foldl_setUpdate _ _ _

/-- What is put aside in the tree is `es`. -/
structure Shelves (t : Tree) (es : List Aside) : Prop where
  held : ∀ b, (t.boundary b).parked = Aside.heldBy es b
  there : ∀ e ∈ es, t.updates.has e.update
  marked : ∀ e ∈ es, (t.update e.update).lane = .single e.lane ∪ LaneSet.offscreenLane
  once : (es.map (·.update)).Nodup

namespace Shelves

/-- What comes back are the updates that were made on one of the lanes. -/
theorem revealed_eq (shelves : t.Shelves es) (b : BoundaryId) (lanes : LaneSet) :
    (t.reveal b lanes).1 = (Aside.returning es b lanes).map (·.update) := by
  show lanes.members.flatMap (fun l => (t.boundary b).parkedOn (.single l)) = _
  unfold Aside.returning Boundary.parkedOn
  rw [shelves.held, List.map_flatMap]
  refine List.flatMap_congr fun l _ => ?_
  unfold Aside.heldBy
  rw [List.filter_map, List.map_map, List.filter_filter]
  refine congrArg₂ _ rfl (List.filter_congr fun e _ => ?_)
  rw [Bool.eq_iff_iff]
  simp only [Aside.parked, Function.comp_apply, Bool.and_eq_true, beq_iff_eq, decide_eq_true_eq,
    LaneSet.single_inj, and_comm]

/-- An update comes back as part of one entry. -/
theorem mem_revealed (shelves : t.Shelves es) {e : Aside} (mem : e ∈ es) :
    e.update ∈ (t.reveal b lanes).1 ↔ e.Returns b lanes := by
  rw [shelves.revealed_eq]
  constructor
  · intro back
    obtain ⟨d, hd, same⟩ := List.mem_map.mp back
    obtain ⟨mem', returns⟩ := Aside.mem_returning.mp hd
    obtain rfl := List.inj_on_of_nodup_map shelves.once mem' mem same
    exact returns
  · exact fun returns => List.mem_map.mpr ⟨e, Aside.mem_returning.mpr ⟨mem, returns⟩, rfl⟩

theorem start (empty : ∀ b, (t.boundary b).parked = []) : t.Shelves [] :=
  ⟨empty, nofun, nofun, List.nodup_nil⟩

theorem put (shelves : t.Shelves es) (whole : t.Whole) (rooted : t.findRoot? source = some r)
    (nearest : t.NearestHidden source b) (there : t.updates.has u)
    (fresh : ∀ e ∈ es, e.update ≠ u) :
    (markPath source (some u) (.single l) t).state.Shelves (es ++ [⟨b, l, u⟩]) := by
  have stays (v : UpdateId) (has : t.updates.has v) :
      (markPath source (some u) (.single l) t).state.updates.has v := by
    rw [markPath_eq_park rooted ((hiddenAbove?_eq_some_iff whole.parents).mpr nearest)]
    exact (((SameCore.raise t source _).trans (.park _ b u _)).hasUpdate v).trans has
  refine ⟨fun c => ?_, fun e mem => ?_, fun e mem => ?_, ?_⟩
  · rw [parked_markPath whole rooted nearest, Aside.heldBy_append, ← shelves.held]
    by_cases here : b = c <;> simp [Aside.heldBy, Aside.parked, here]
  · rcases List.mem_append.mp mem with old | new
    · exact stays _ (shelves.there e old)
    · obtain rfl := List.mem_singleton.mp new
      exact stays u there
  · rw [lane_markPath whole.parents rooted nearest there]
    rcases List.mem_append.mp mem with old | new
    · rw [if_neg (fresh e old).symm]
      exact shelves.marked e old
    · obtain rfl := List.mem_singleton.mp new
      rw [if_pos rfl]
  · rw [List.map_append]
    refine List.nodup_append.mpr ⟨shelves.once, List.nodup_singleton u, fun a ha a' ha' => ?_⟩
    obtain ⟨e, mem, rfl⟩ := List.mem_map.mp ha
    exact List.mem_singleton.mp ha' ▸ fresh e mem

/-- What a shown boundary holds are the entries that do not come back. -/
theorem held_reveal (shelves : t.Shelves es) (there : t.boundaries.has b) (lanes : LaneSet)
    (c : BoundaryId) :
    ((t.reveal b lanes).2.boundary c).parked =
      Aside.heldBy (es.filter fun e => ¬ e.Returns b lanes) c := by
  rw [boundary_reveal]
  unfold Aside.heldBy
  rw [List.filter_filter]
  by_cases here : b = c
  · subst here
    rw [if_pos ⟨rfl, there⟩]
    show (t.boundary b).parked.filter _ = _
    rw [shelves.held, Aside.heldBy, List.filter_map, List.filter_filter]
    refine congrArg _ (List.filter_congr fun e _ => ?_)
    have back : comesBack lanes (.single e.lane) = true ↔ e.lane ∈ lanes := comesBack_single
    by_cases on : e.boundary = b <;> simp [Aside.parked, Aside.Returns, on, ← back]
  · rw [if_neg fun same => here same.1, shelves.held, Aside.heldBy]
    refine congrArg _ (List.filter_congr fun e _ => ?_)
    by_cases on : e.boundary = c
    · simp [Aside.Returns, on, Ne.symm here]
    · simp [on]

/-- What does not come back keeps its mark. -/
theorem update_of_not_returns (shelves : t.Shelves es) {e : Aside} (mem : e ∈ es)
    (stays : ¬ e.Returns b lanes) :
    (t.reveal b lanes).2.update e.update = t.update e.update := by
  rw [update_reveal, if_neg fun back => stays ((shelves.mem_revealed mem).mp back.1)]

/-- What comes back is left with the lane that it was made on, and without the mark. -/
theorem lane_of_returns (shelves : t.Shelves es) {e : Aside} (mem : e ∈ es)
    (returns : e.Returns b lanes) :
    ((t.reveal b lanes).2.update e.update).lane = .single e.lane \ LaneSet.offscreenLane := by
  rw [update_reveal, if_pos ⟨(shelves.mem_revealed mem).mpr returns, shelves.there e mem⟩]
  show (t.update e.update).lane \ _ = _
  rw [shelves.marked e mem, LaneSet.union_diff]

/-- The other entries stay after a boundary was shown. -/
theorem reveal (shelves : t.Shelves es) (there : t.boundaries.has b) (lanes : LaneSet) :
    (t.reveal b lanes).2.Shelves (es.filter fun e => ¬ e.Returns b lanes) := by
  have kept {e : Aside} (mem : e ∈ es.filter fun e => ¬ e.Returns b lanes) :
      e ∈ es ∧ ¬ e.Returns b lanes :=
    ⟨List.mem_of_mem_filter mem, by simpa using List.of_mem_filter mem⟩
  refine ⟨shelves.held_reveal there lanes, fun e mem => ?_, fun e mem => ?_, ?_⟩
  · have there := shelves.there e (kept mem).1
    exact Arena.has_of_size_le (Nat.le_of_eq (size_reveal t b lanes).symm) there
  · rw [shelves.update_of_not_returns (kept mem).1 (kept mem).2]
    exact shelves.marked e (kept mem).1
  · exact shelves.once.sublist (List.filter_sublist.map _)

end Shelves

/-! ## Runs -/

/-- `t'` comes from `t` by steps that do not put updates aside or bring them back. -/
structure SameShelves (t t' : Tree) : Prop where
  parked : ∀ b, (t'.boundary b).parked = (t.boundary b).parked
  there : ∀ u, t.updates.has u → t'.updates.has u
  lane : ∀ u, t.updates.has u → (t'.update u).lane = (t.update u).lane

namespace SameShelves

theorem trans (h : SameShelves t t') (h' : SameShelves t' t'') : SameShelves t t'' where
  parked b := (h'.parked b).trans (h.parked b)
  there u there := h'.there u (h.there u there)
  lane u there := (h'.lane u (h.there u there)).trans (h.lane u there)

theorem of_onlyFibers (only : OnlyFibers t t') : SameShelves t t' := by
  refine ⟨fun b => ?_, fun u => ?_, fun u _ => ?_⟩
  · rw [boundary, only.boundaries, boundary]
  · rw [only.updates]
    exact id
  · rw [update, only.updates, update]

theorem createRoot (t : Tree) (concurrent : Bool) :
    SameShelves t (t.createRoot concurrent).2 :=
  ⟨fun _ => rfl, fun _ => id, fun _ _ => rfl⟩

theorem createUpdate (t : Tree) (lane : LaneSet) (payload : Payload) :
    SameShelves t (t.createUpdate lane payload).2 where
  parked _ := rfl
  there _ there := Arena.has_add.mpr (.inr there)
  lane u there := congrArg Update.lane (Arena.get_add_of_lt t.updates _ u there)

theorem appendPending (t : Tree) (q : QueueId) (u : UpdateId) :
    SameShelves t (t.appendPending q u) where
  parked b := by rw [boundary, boundaries_appendPending, boundary]
  there v there := ((SameCore.appendPending t q u).hasUpdate v).trans there
  lane v _ := lane_appendPending t q u v

/-- A new boundary holds nothing. -/
theorem createBoundary (t : Tree) (f : FiberId) (visible : Bool) :
    SameShelves t (t.createBoundary f visible).2 := by
  have added : SameShelves t { t with boundaries := t.boundaries.add { visible } } :=
    ⟨Arena.read_add Boundary.parked t.boundaries _ rfl, fun _ => id, fun _ _ => rfl⟩
  exact added.trans (of_onlyFibers (.setTwins _ f _))

theorem setVisible (t : Tree) (b : BoundaryId) (visible : Bool) :
    SameShelves t (t.setVisible b visible) where
  parked c := by
    rw [Tree.setVisible, boundary_setBoundary]
    split <;> rfl
  there _ := id
  lane _ _ := rfl

end SameShelves

/-- `es` are put aside after a run that leads to the tree. It starts with nothing put aside, and
every update is put aside once at a time. -/
inductive Asides : Tree → List Aside → Prop
  | start {t : Tree} (empty : ∀ b, (t.boundary b).parked = []) : Asides t []
  | put {t : Tree} {es : List Aside} {source : FiberId} {r : RootId} {b : BoundaryId} {l : Lane}
      {u : UpdateId} (before : Asides t es) (whole : t.Whole)
      (rooted : t.findRoot? source = some r) (nearest : t.NearestHidden source b)
      (there : t.updates.has u) (made : (t.update u).lane = .single l)
      (fresh : ∀ e ∈ es, e.update ≠ u) :
      Asides (markPath source (some u) (.single l) t).state (es ++ [⟨b, l, u⟩])
  | reveal {t : Tree} {es : List Aside} {b : BoundaryId} (before : Asides t es)
      (there : t.boundaries.has b) (lanes : LaneSet) :
      Asides (t.reveal b lanes).2 (es.filter fun e => ¬ e.Returns b lanes)
  | apart {t t' : Tree} {es : List Aside} (before : Asides t es) (same : SameShelves t t') :
      Asides t' es

theorem Shelves.apart (shelves : t.Shelves es) (same : SameShelves t t') : t'.Shelves es where
  held b := (same.parked b).trans (shelves.held b)
  there e mem := same.there _ (shelves.there e mem)
  marked e mem := (same.lane _ (shelves.there e mem)).trans (shelves.marked e mem)
  once := shelves.once

/-- In every run boundaries hold what the run has put aside, and these updates are marked. -/
theorem Asides.shelves (run : t.Asides es) : t.Shelves es := by
  induction run with
  | start empty => exact .start empty
  | put _ whole rooted nearest there _ fresh ih => exact ih.put whole rooted nearest there fresh
  | reveal _ there lanes ih => exact ih.reveal there lanes
  | apart _ same ih => exact ih.apart same

/-- An update below a hidden boundary is put aside once, on the nearest one, and marked. After any
run that puts updates aside and shows boundaries, a boundary that is shown answers those that it
holds for one of the lanes, by lane and then in the order of putting aside. All others stay put
aside and marked. Those that come back lose the mark, and the offscreen lane with it: each has the
lane again that it was made on, unless it was made on that one. -/
theorem Asides.brought_back_iff (t : Tree) :
    (∀ (source p : FiberId) (r : RootId) (c : BoundaryId) (u : UpdateId) (l : Lane), t.Whole →
      t.findRoot? source = some r → t.Above source p → t.hiddenBoundaryOf? p = some c →
      t.updates.has u →
      let after := (markPath source (some u) (.single l) t).state
      ∃ b, t.NearestHidden source b ∧
        (∀ c, (after.boundary c).parked =
          (t.boundary c).parked ++ if b = c then [(.single l, u)] else []) ∧
        ∀ v, (after.update v).lane =
          if u = v then .single l ∪ LaneSet.offscreenLane else (t.update v).lane) ∧
    ∀ (es : List Aside), t.Asides es →
      ∀ (b : BoundaryId) (lanes : LaneSet), t.boundaries.has b →
      let after := (t.reveal b lanes).2
      let back := Aside.returning es b lanes
      (t.reveal b lanes).1 = back.map (·.update) ∧
      (∀ e, e ∈ back ↔ e ∈ es ∧ e.boundary = b ∧ e.lane ∈ lanes) ∧
      (∀ e ∈ back, (after.update e.update).lane = .single e.lane \ LaneSet.offscreenLane) ∧
      ((∀ e ∈ back, (after.update e.update).lane = .single e.lane) ↔
        ∀ e ∈ back, .single e.lane ≠ LaneSet.offscreenLane) ∧
      (∀ c, (after.boundary c).parked =
        Aside.heldBy (es.filter fun e => ¬ (e.boundary = b ∧ e.lane ∈ lanes)) c) ∧
      ∀ e ∈ es, ¬ (e.boundary = b ∧ e.lane ∈ lanes) →
        (after.update e.update).lane = .single e.lane ∪ LaneSet.offscreenLane := by
  refine ⟨fun source p r c u l whole rooted above hidden there => ?_,
    fun es run b lanes there => ?_⟩
  · obtain ⟨b, found⟩ := exists_hiddenAbove? whole.parents above hidden
    have nearest := (hiddenAbove?_eq_some_iff whole.parents).mp found
    exact ⟨b, nearest, parked_markPath whole rooted nearest u _,
      lane_markPath whole.parents rooted nearest there _⟩
  · have shelves := run.shelves
    have lane (e : Aside) (back : e ∈ Aside.returning es b lanes) :
        ((t.reveal b lanes).2.update e.update).lane = .single e.lane \ LaneSet.offscreenLane :=
      have ⟨mem, returns⟩ := Aside.mem_returning.mp back
      shelves.lane_of_returns mem returns
    refine ⟨shelves.revealed_eq b lanes, fun e => Aside.mem_returning, lane, ?_,
      shelves.held_reveal there lanes, fun e mem stays => ?_⟩
    · refine forall₂_congr fun e back => ?_
      rw [lane e back]
      exact LaneSet.single_diff_single.trans (not_congr LaneSet.single_inj.symm)
    · rw [shelves.update_of_not_returns mem stays, shelves.marked e mem]

/-- Two updates are put aside on the inner one of two hidden boundaries. Both come back, one without
a lane, as it was made on the offscreen lane. -/
theorem brought_back_of_offscreen_lane :
    let t := (({} : Tree).createRoot true).2
    let t := ((t.createChild ⟨0⟩ .offscreen).2.createBoundary ⟨1⟩ false).2
    let t := ((t.createChild ⟨1⟩ .offscreen).2.createBoundary ⟨2⟩ false).2
    let t := (t.createChild ⟨2⟩ .functionComponent).2
    let t := ((t.createUpdate (.single 2) .unit).2.createUpdate (.single 22) .unit).2
    let t := (markPath ⟨3⟩ (some ⟨0⟩) (.single 2) t).state
    let t := (markPath ⟨3⟩ (some ⟨1⟩) (.single 22) t).state
    let back := t.reveal ⟨1⟩ (.single 2 ∪ .single 22)
    back.1 = [⟨0⟩, ⟨1⟩] ∧
      (back.2.update ⟨0⟩).lane = .single 2 ∧ (back.2.update ⟨1⟩).lane ≠ .single 22 := by
  intro t₁ t₂ t₃ t₄ t₅ t₆ t back
  have absent (b : BoundaryId) : ({} : Tree).boundaries.has b = false :=
    decide_eq_false (Nat.not_lt_zero _)
  have empty : ({} : Tree).Asides [] :=
    .start fun b => congrArg Boundary.parked (Arena.get_of_not_has (absent b))
  have outer : SameShelves {} t₂ :=
    (SameShelves.createRoot _ true).trans
      ((SameShelves.of_onlyFibers (.createChild ..)).trans (.createBoundary ..))
  have inner : SameShelves t₂ t₃ :=
    (SameShelves.of_onlyFibers (.createChild ..)).trans (.createBoundary ..)
  have updates : SameShelves t₃ t₅ :=
    (SameShelves.of_onlyFibers (.createChild t₃ ⟨2⟩ .functionComponent)).trans
      ((SameShelves.createUpdate ..).trans (.createUpdate ..))
  have built : t₅.Asides [] := empty.apart (outer.trans (inner.trans updates))
  have first : t₆.Asides [⟨⟨1⟩, 2, ⟨0⟩⟩] :=
    have whole : t₅.Whole := whole_iff.mpr (by decide +kernel)
    built.put whole (r := ⟨0⟩) (by decide +kernel)
      ((hiddenAbove?_eq_some_iff whole.parents).mp (by decide +kernel)) (by decide +kernel)
      (by decide +kernel) (by decide)
  have run : t.Asides [⟨⟨1⟩, 2, ⟨0⟩⟩, ⟨⟨1⟩, 22, ⟨1⟩⟩] :=
    have whole : t₆.Whole := whole_iff.mpr (by decide +kernel)
    first.put whole (r := ⟨0⟩) (by decide +kernel)
      ((hiddenAbove?_eq_some_iff whole.parents).mp (by decide +kernel)) (by decide +kernel)
      (by decide +kernel) (by decide)
  obtain ⟨revealed, -, lane, -⟩ :=
    (Asides.brought_back_iff t).2 _ run ⟨1⟩ (.single 2 ∪ .single 22) (by decide +kernel)
  refine ⟨revealed.trans (by decide), ?_, ?_⟩
  · exact (lane ⟨⟨1⟩, 2, ⟨0⟩⟩ (by decide)).trans (by decide)
  · have lost := lane ⟨⟨1⟩, 22, ⟨1⟩⟩ (by decide)
    exact fun same => absurd (lost.symm.trans same) (by decide)

end Tree

end ConcurrentRender
