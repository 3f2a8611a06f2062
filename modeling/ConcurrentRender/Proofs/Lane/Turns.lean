import ConcurrentRender.Lane.Supply

/-!
# Lanes of transitions, event by event

A transition joins the actions under way, or else the transitions of its event, or else takes a lane
of its own. The supply keeps one lane for the event and looks at it first, even before the lane of
the actions. It can do so because the two never differ: the first transition of an event takes the
lane of the actions, and actions that start in the event take that of its transitions.

* `Diary`: the lanes that transitions were given so far, each with its event.
* `Diary.due d scope`: the lane that a transition must get, if `scope` is the lane of the actions.
* `Tally p scope d`: the supply `p` is as the diary says.

Results:
1. `after_turn`, `turn_ne`: transition lanes are taken in turn, and 14 in a row differ.
2. `Tally.answer`, `Tally.hand`: a transition gets the lane that is due, and the supply is as the
   diary says again.
3. `Tally.close`, `Tally.opens`, `Tally.drops`: so it is when an event is over, and when actions
   start or are all settled.
-/

namespace ConcurrentRender

open LaneSet (single transitions firstTransition)

theorem LaneSet.isEmpty_eq_false {s : LaneSet} (some : s ≠ ∅) : s.isEmpty = false :=
  beq_eq_false_iff_ne.mpr some

namespace LaneSupply

/-- The lane of the transition that is the `n`-th one, from 0 on, with a lane of its own. -/
def turn (n : Nat) : LaneSet :=
  single ⟨3 + n % 14, by omega⟩

theorem turn_ne_empty (n : Nat) : turn n ≠ ∅ := by
  intro none
  have mem : _ ∈ turn n := LaneSet.mem_single.mpr rfl
  rw [none] at mem
  exact LaneSet.not_mem_empty _ mem

theorem after_turn (n : Nat) : after (turn n) transitions firstTransition = turn (n + 1) := by
  have cycle : ∀ k : Fin 14, after (single ⟨3 + k, by omega⟩) transitions firstTransition =
      single ⟨3 + (k + 1) % 14, by omega⟩ := by decide
  have step := cycle ⟨n % 14, Nat.mod_lt n (by decide)⟩
  simp only [Nat.mod_add_mod] at step
  exact step

/-- Less than 14 turns apart, the lanes differ. -/
theorem turn_ne {i j : Nat} (later : i < j) (close : j < i + 14) : turn i ≠ turn j := by
  intro same
  have mem : (⟨3 + i % 14, by omega⟩ : Lane) ∈ turn j := same ▸ LaneSet.mem_single.mpr rfl
  have equal : 3 + i % 14 = 3 + j % 14 := congrArg Fin.val (LaneSet.mem_single.mp mem)
  omega

theorem after_ne_empty (lane : LaneSet) : after lane transitions firstTransition ≠ ∅ := by
  unfold after
  dsimp only
  split
  next meets =>
    intro none
    rw [none] at meets
    exact absurd meets (by decide)
  next => decide

/-- A transition that gets a lane leaves it to those that follow in its event. -/
theorem eventLane_ne_empty {p : LaneSupply} (turn : p.nextTransition ≠ ∅) (actions : LaneSet) :
    (p.eventLane actions).2.nextTransition ≠ ∅ ∧ (p.eventLane actions).2.eventTransition ≠ ∅ := by
  have ne_empty {s : LaneSet} (busy : s.isEmpty = false) : s ≠ ∅ := beq_eq_false_iff_ne.mp busy
  unfold eventLane
  cases shared : p.eventTransition.isEmpty with
  | false => exact ⟨turn, ne_empty shared⟩
  | true =>
    cases joined : actions.isEmpty with
    | true => exact ⟨after_ne_empty _, turn⟩
    | false => exact ⟨turn, ne_empty joined⟩

end LaneSupply

/-- A lane that a transition was given. -/
structure Handout where
  event : Nat
  lane : LaneSet
  /-- No actions were under way, and the event had no lane for its transitions yet. -/
  fresh : Bool
deriving DecidableEq

/-- What was handed out so far, in order, and how many events are over. -/
structure Diary where
  event : Nat := 0
  handouts : List Handout := []

namespace Diary

variable {d : Diary} {scope : Option LaneSet} {lane : LaneSet}

/-- The lane that transitions of the event under way were given already. -/
def handed? (d : Diary) : Option LaneSet :=
  (d.handouts.find? fun h => h.event = d.event).map (·.lane)

def fresh (d : Diary) : List Handout := d.handouts.filter (·.fresh)

/-- The lane of a transition that is made now: that of the actions under way, or else of the event,
or else the next one in turn. -/
def due (d : Diary) (scope : Option LaneSet) : LaneSet :=
  match scope with
  | some lane => lane
  | none => d.handed?.getD (LaneSupply.turn d.fresh.length)

/-- A transition is given a lane. -/
def hand (d : Diary) (scope : Option LaneSet) (lane : LaneSet) : Diary :=
  let fresh := scope.isNone && d.handed?.isNone
  { d with handouts := d.handouts ++ [{ event := d.event, lane, fresh }] }

/-- The event is over. -/
def close (d : Diary) : Diary := { d with event := d.event + 1 }

theorem handed?_eq_none : d.handed? = none ↔ ∀ h ∈ d.handouts, h.event ≠ d.event := by
  simp [handed?]

theorem mem_of_handed? (handed : d.handed? = some lane) :
    ∃ h ∈ d.handouts, h.event = d.event ∧ h.lane = lane := by
  obtain ⟨h, found, rfl⟩ := Option.map_eq_some_iff.mp handed
  exact ⟨h, List.mem_of_find?_eq_some found, by simpa using List.find?_some found, rfl⟩

/-- The first lane handed out in an event stays the lane of the event. -/
theorem handed?_hand (d : Diary) (scope : Option LaneSet) (lane : LaneSet) :
    (d.hand scope lane).handed? = some (d.handed?.getD lane) := by
  unfold handed?
  show ((d.handouts ++ [_]).find? fun h : Handout => h.event = d.event).map _ = _
  rw [List.find?_append]
  cases d.handouts.find? fun h => h.event = d.event <;> simp

theorem fresh_hand (d : Diary) (scope : Option LaneSet) (lane : LaneSet) :
    (d.hand scope lane).fresh =
      d.fresh ++ if scope = none ∧ d.handed? = none then
        [{ event := d.event, lane, fresh := true }] else [] := by
  simp only [fresh, hand, List.filter_append]
  cases scope <;> cases d.handed? <;> rfl

end Diary

/-- The supply is as the diary says, while `scope` is the lane of the actions under way, and the
diary is in order. -/
structure Tally (p : LaneSupply) (scope : Option LaneSet) (d : Diary) : Prop where
  shared : p.eventTransition = d.handed?.getD ∅
  turn : p.nextTransition = LaneSupply.turn d.fresh.length
  /-- Transitions of the event and actions have the same lane, if both have one. -/
  joined : ∀ lane, scope = some lane → lane ≠ ∅ ∧ ∀ l, d.handed? = some l → lane = l
  lanes : ∀ h ∈ d.handouts, h.lane ≠ ∅
  past : ∀ h ∈ d.handouts, h.event ≤ d.event
  one : ∀ h ∈ d.handouts, ∀ h' ∈ d.handouts, h.event = h'.event → h.lane = h'.lane
  turns : d.fresh.map Handout.lane = (List.range d.fresh.length).map LaneSupply.turn
  later : d.fresh.Pairwise fun h h' => h.event < h'.event

namespace Tally

variable {p : LaneSupply} {scope : Option LaneSet} {d : Diary}

theorem start : Tally {} none {} where
  shared := rfl
  turn := rfl
  joined := nofun
  lanes := nofun
  past := nofun
  one := nofun
  turns := rfl
  later := .nil

/-- Who comes after the first transition of an event gets the lane of the event. -/
theorem due_of_handed (t : Tally p scope d) {lane : LaneSet} (handed : d.handed? = some lane) :
    d.due scope = lane := by
  cases scope with
  | none => simp [Diary.due, handed]
  | some l => exact (t.joined l rfl).2 lane handed

theorem due_ne_empty (t : Tally p scope d) : d.due scope ≠ ∅ := by
  cases scope with
  | some lane => exact (t.joined lane rfl).1
  | none =>
    cases handed : d.handed? with
    | none => simpa [Diary.due, handed] using LaneSupply.turn_ne_empty _
    | some lane =>
      obtain ⟨h, mem, -, rfl⟩ := Diary.mem_of_handed? handed
      simpa [Diary.due, handed] using t.lanes h mem

/-- A transition that is not the first one of its event gets the lane of the event. -/
theorem eventLane_of_handed (t : Tally p scope d) {lane : LaneSet}
    (handed : d.handed? = some lane) : p.eventLane (scope.getD ∅) = (d.due scope, p) := by
  obtain ⟨h, mem, -, rfl⟩ := Diary.mem_of_handed? handed
  have shared : p.eventTransition = h.lane := by rw [t.shared, handed, Option.getD_some]
  rw [LaneSupply.eventLane, shared, LaneSet.isEmpty_eq_false (t.lanes h mem),
    t.due_of_handed handed]
  rfl

/-- The first transition of an event gets the lane of the actions, or else the next one in turn. -/
theorem eventLane_of_first (t : Tally p scope d) (first : d.handed? = none) :
    p.eventLane (scope.getD ∅) =
      (d.due scope,
        { p with
          eventTransition := d.due scope
          nextTransition :=
            LaneSupply.turn (d.fresh.length + if scope = none then 1 else 0) }) := by
  have shared : p.eventTransition = ∅ := by rw [t.shared, first, Option.getD_none]
  cases scope with
  | some lane =>
    have joins : lane.isEmpty = false := LaneSet.isEmpty_eq_false (t.joined lane rfl).1
    simp only [LaneSupply.eventLane, shared, Option.getD_some, joins, Diary.due, reduceCtorEq]
    exact congrArg (fun next => (lane, { p with eventTransition := lane, nextTransition := next }))
      t.turn
  | none =>
    simp only [LaneSupply.eventLane, shared, Option.getD_none, Diary.due, first,
      LaneSupply.takeTransition, t.turn, LaneSupply.after_turn, if_true]
    rfl

/-- A transition gets the lane that is due. -/
theorem answer (t : Tally p scope d) : (p.eventLane (scope.getD ∅)).1 = d.due scope := by
  cases handed : d.handed? with
  | some lane => rw [t.eventLane_of_handed handed]
  | none => rw [t.eventLane_of_first handed]

/-- After a transition was given its lane, the supply is as the diary says. -/
theorem hand (t : Tally p scope d) :
    Tally (p.eventLane (scope.getD ∅)).2 scope (d.hand scope (d.due scope)) := by
  have mem_hand : ∀ {h}, h ∈ (d.hand scope (d.due scope)).handouts →
      h ∈ d.handouts ∨ h.event = d.event ∧ h.lane = d.due scope := by
    intro h mem
    refine (List.mem_append.mp mem).imp_right fun new => ?_
    rw [List.mem_singleton.mp new]
    exact ⟨rfl, rfl⟩
  -- A transition of the event was given a lane before only if it was this one.
  have same : ∀ h ∈ d.handouts, h.event = d.event → h.lane = d.due scope := by
    intro h mem now
    cases handed : d.handed? with
    | none => exact absurd now (Diary.handed?_eq_none.mp handed h mem)
    | some lane =>
      obtain ⟨h', mem', now', rfl⟩ := Diary.mem_of_handed? handed
      rw [t.one h mem h' mem' (now.trans now'.symm), t.due_of_handed handed]
  have handed : (d.hand scope (d.due scope)).handed? = some (d.due scope) := by
    rw [Diary.handed?_hand]
    cases handed : d.handed? with
    | none => rfl
    | some lane =>
      rw [t.due_of_handed handed, Option.getD_some]
  refine ⟨?_, ?_, fun lane joins => ⟨(t.joined lane joins).1, fun l now => ?_⟩, fun h mem => ?_,
    fun h mem => ?_, fun h mem h' mem' now => ?_, ?_, ?_⟩
  · rw [handed, Option.getD_some]
    cases first : d.handed? with
    | none => rw [t.eventLane_of_first first]
    | some lane =>
      rw [t.eventLane_of_handed first, t.shared, first, Option.getD_some, t.due_of_handed first]
  · cases first : d.handed? with
    | none =>
      rw [t.eventLane_of_first first, Diary.fresh_hand]
      cases scope <;> simp [first]
    | some lane => rw [t.eventLane_of_handed first, t.turn, Diary.fresh_hand]; simp [first]
  · rw [handed] at now
    cases now
    subst joins
    rfl
  · rcases mem_hand mem with old | ⟨-, new⟩
    · exact t.lanes h old
    · exact new ▸ t.due_ne_empty
  · rcases mem_hand mem with old | ⟨new, -⟩
    · exact t.past h old
    · exact Nat.le_of_eq new
  · rcases mem_hand mem with old | ⟨event, lane⟩ <;>
      rcases mem_hand mem' with old' | ⟨event', lane'⟩
    · exact t.one h old h' old' now
    · exact (same h old (now.trans event')).trans lane'.symm
    · exact lane.trans (same h' old' (now.symm.trans event)).symm
    · exact lane.trans lane'.symm
  · rw [Diary.fresh_hand]
    split
    next first =>
      have due : d.due scope = LaneSupply.turn d.fresh.length := by
        rw [first.1]
        simp [Diary.due, first.2]
      simp [List.range_succ, t.turns, due]
    next => simpa using t.turns
  · rw [Diary.fresh_hand]
    split
    next first =>
      refine List.pairwise_append.mpr ⟨t.later, List.pairwise_singleton _ _, fun h mem h' new => ?_⟩
      have old := (List.mem_filter.mp mem).1
      rw [List.mem_singleton.mp new]
      exact Nat.lt_of_le_of_ne (t.past h old) (Diary.handed?_eq_none.mp first.2 h old)
    next => simpa using t.later

/-- When the event is over, its transitions do not share their lane with later ones. -/
theorem close (t : Tally p scope d) : Tally p.endEvent scope d.close := by
  have none : d.close.handed? = none :=
    Diary.handed?_eq_none.mpr fun h mem => Nat.ne_of_lt (Nat.lt_succ_of_le (t.past h mem))
  refine ⟨?_, t.turn, fun lane joins => ⟨(t.joined lane joins).1, fun l now => ?_⟩, t.lanes,
    fun h mem => Nat.le_succ_of_le (t.past h mem), t.one, t.turns, t.later⟩
  · rw [none]
    rfl
  · rw [none] at now
    cases now

/-- Actions start on the lane that was just handed out. -/
theorem opens (t : Tally p none d) {lane : LaneSet} (handed : d.handed? = some lane) :
    Tally p (some lane) d where
  shared := t.shared
  turn := t.turn
  joined := by
    intro l same
    cases same
    obtain ⟨h, mem, -, rfl⟩ := Diary.mem_of_handed? handed
    exact ⟨t.lanes h mem, fun l now => Option.some.inj (handed.symm.trans now)⟩
  lanes := t.lanes
  past := t.past
  one := t.one
  turns := t.turns
  later := t.later

/-- All actions have settled. -/
theorem drops (t : Tally p scope d) : Tally p none d :=
  ⟨t.shared, t.turn, nofun, t.lanes, t.past, t.one, t.turns, t.later⟩

/-- The supply may change where transitions get no lanes from. -/
theorem of_supply (t : Tally p scope d) {p' : LaneSupply}
    (shared : p'.eventTransition = p.eventTransition)
    (next : p'.nextTransition = p.nextTransition) : Tally p' scope d :=
  ⟨shared.trans t.shared, next.trans t.turn, t.joined, t.lanes, t.past, t.one, t.turns, t.later⟩

/-- The lanes of the fresh handouts are those in turn. -/
theorem lane_fresh (t : Tally p scope d) {i : Nat} (hi : i < d.fresh.length) :
    d.fresh[i].lane = LaneSupply.turn i := by
  have read := congrArg (·[i]?) t.turns
  simpa [List.getElem?_eq_getElem hi, hi] using read

end Tally

end ConcurrentRender
