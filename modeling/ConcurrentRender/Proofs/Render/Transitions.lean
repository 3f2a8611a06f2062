import ConcurrentRender.Proofs.Action.Phases
import ConcurrentRender.Proofs.Lane.Turns
import ConcurrentRender.Proofs.Render.Aside
import ConcurrentRender.Proofs.Render.Overlooked

/-!
# The lanes of transitions along a run

Scopes of events and transitions are entered one inside the other, and an event goes on until the
outermost of them is left. Meanwhile actions start, settle and start again. Whenever that happens, a
transition gets the lane of the actions under way, or else the one that its event has already, or
else the next one in turn.

* `Renderer.Course r₀ r saved d`: a run leads from `r₀` to `r`, the scopes `saved` have been entered
  and not left, and `d` records the lanes handed out to transitions.
* `Renderer.SameEvent r r'`: nothing that the lanes of transitions depend on differs.
* `Renderer.Paced r saved d`: the renderer is as the open scopes and the diary say.

Results:
1. `sameEvent_commit`, `sameEvent_prepare`: starting and ending a render leaves all of it alone.
2. `Paced.next`, `Paced.aside`: all other calls keep the renderer as the diary says.
3. `transition_lanes_of_course`: hence which lane a transition gets.
-/

namespace ConcurrentRender

namespace SavedScope

def isBatched : SavedScope → Bool
  | batched .. => true
  | _ => false

/-- An event goes on while the scope is open. -/
def isEvent : SavedScope → Bool
  | updatePriority _ => false
  | _ => true

/-- Each scope for a host event remembers whether it was entered inside another one. -/
def Nested : List SavedScope → Prop
  | [] => True
  | batched wasBatched _ :: saved => wasBatched = saved.any isBatched ∧ Nested saved
  | _ :: saved => Nested saved

/-- An event is under way while a transition or a host event is. -/
theorem any_isEvent (saved : List SavedScope) :
    saved.any isEvent = (decide (0 < saved.count transition) || saved.any isBatched) := by
  induction saved with
  | nil => rfl
  | cons s saved ih => cases s <;> simp [isEvent, isBatched, ih]

end SavedScope

/-- The call ends the event if no scope of an event is open after it. -/
def Operation.endsEvent : Operation → Bool
  | .leave _ => true
  | .entangle _ => true
  | _ => false

/-- A scope that is left is the one that was entered last. -/
def Operation.leavesLast (saved : List SavedScope) : Operation → Bool
  | .leave scope => saved.head? == some scope
  | _ => true

namespace Renderer

open SavedScope (Nested isBatched isEvent)
open StepM (Keeps)

variable {r r' r'' : Renderer} {saved : List SavedScope} {d : Diary} {op : Operation}
  {α β : Type}

/-- The lane of the actions under way. -/
def actionLane? (r : Renderer) : Option LaneSet := r.actions.scope.map (·.lane)

/-- The lanes of updates that are made now while a fiber is being rendered. -/
def rendered (r : Renderer) : LaneSet := if r.execution.rendering then r.renderLanes else ∅

/-- An update of the fiber gets the lane of a transition. -/
def asks (r : Renderer) (fiber : FiberId) : Bool :=
  (r.tree.fiber fiber).concurrent && r.rendered.isEmpty && decide (0 < r.transitionDepth)

/-- The lane that the call hands out to a transition, or on which it starts actions. -/
def hands? (r : Renderer) : Operation → Option LaneSet
  | .dispatch fiber _ _ => if r.asks fiber then some (r.laneFor fiber) else none
  | .dispatchQuietly fiber _ _ => if r.asks fiber then some (r.laneFor fiber) else none
  | .forceUpdate fiber => if r.asks fiber then some (r.laneFor fiber) else none
  | .entangle runtime =>
    if r.actionLane?.isSome then none else (r.next (.entangle runtime)).actionLane?
  | _ => none

def handsAside? (r : Renderer) : SideCall → Option LaneSet
  | .requestLane fiber => if r.asks fiber then some (r.laneFor fiber) else none
  | _ => none

/-- The scopes that are open after the call. -/
def opened (r : Renderer) (saved : List SavedScope) : Operation → List SavedScope
  | .enter scope => (r.enter scope).1 :: saved
  | .leave _ => saved.tail
  | _ => saved

def noted (r : Renderer) (d : Diary) (hands : Option LaneSet) : Diary :=
  hands.elim d (d.hand r.actionLane?)

/-- The event is over if no scope of an event is open. -/
def closed (saved : List SavedScope) (d : Diary) : Diary :=
  if saved.any isEvent then d else d.close

/-- What is noted after the call. -/
def recorded (r : Renderer) (saved : List SavedScope) (d : Diary) (op : Operation) : Diary :=
  let d := r.noted d (r.hands? op)
  if op.endsEvent then closed (r.opened saved op) d else d

/-- Nothing that the lanes of transitions depend on differs. -/
structure SameEvent (r r' : Renderer) : Prop where
  shared : r'.supply.eventTransition = r.supply.eventTransition
  turn : r'.supply.nextTransition = r.supply.nextTransition
  depth : r'.transitionDepth = r.transitionDepth
  batched : r'.execution.batched = r.execution.batched
  lane : r'.actionLane? = r.actionLane?

/-- A run from `r₀` to `r`, with the scopes that are open after it, the last one first, and what was
noted in it.

* `call`: an operation. Scopes are left in the order opposite to that in which they were entered.
* `aside`: a side call.
* `apart`: whatever leaves alone what the lanes of transitions depend on. -/
inductive Course (r₀ : Renderer) : Renderer → List SavedScope → Diary → Prop
  | start : Course r₀ r₀ [] {}
  | call {r : Renderer} {saved : List SavedScope} {d : Diary} (op : Operation) :
      Course r₀ r saved d → op.leavesLast saved →
      Course r₀ (r.next op) (r.opened saved op) (r.recorded saved d op)
  | aside {r : Renderer} {saved : List SavedScope} {d : Diary} (c : SideCall) :
      Course r₀ r saved d → Course r₀ (r.aside c) saved (r.noted d (r.handsAside? c))
  | apart {r r' : Renderer} {saved : List SavedScope} {d : Diary} :
      Course r₀ r saved d → r.SameEvent r' → Course r₀ r' saved d

/-! ## What leaves everything alone -/

theorem SameEvent.trans (h : SameEvent r r') (h' : SameEvent r' r'') : SameEvent r r'' :=
  ⟨h'.shared.trans h.shared, h'.turn.trans h.turn, h'.depth.trans h.depth,
    h'.batched.trans h.batched, h'.lane.trans h.lane⟩

instance : Overlooks SameEvent where
  refl _ := ⟨rfl, rfl, rfl, rfl, rfl⟩
  trans _ _ _ := .trans
  change _ _ _ := ⟨rfl, rfl, rfl, rfl, rfl⟩

theorem sameEvent_commit (root : RootId) (remaining : LaneSet) :
    Keeps SameEvent (commit root remaining) := by
  have setTree (g : Renderer → Tree → Tree) :
      Keeps SameEvent (StepM.change fun r => r.setTree (g r)) :=
    fun r => overlooked_setTree r _
  have switchTop : Keeps SameEvent (StepM.change (switchTop · root)) :=
    fun r => overlooked_switchTop r root
  unfold commit
  refine .bind (fun _ => ⟨rfl, rfl, rfl, rfl, rfl⟩) fun _ => .bind (.look _) fun _ => ?_
  refine .bind (.look _) fun _ => .bind (setTree _) fun _ => .bind switchTop fun _ => ?_
  refine .bind (.look _) fun _ => .bind (keeps_onPool root _) fun _ => ?_
  refine .bind (keeps_onStaging _) fun _ => .bind (fun _ => ⟨rfl, rfl, rfl, rfl, rfl⟩) fun _ => ?_
  exact .bind (keeps_onStaging _) fun _ => .pure _

theorem sameEvent_prepare (root : RootId) : Keeps SameEvent (prepare root) := by
  unfold prepare
  refine .bind (.look _) fun next => ?_
  split
  · exact .pure _
  · refine .bind (.look _) fun _ => .bind (fun _ => ⟨rfl, rfl, rfl, rfl, rfl⟩) fun _ => ?_
    exact .bind (keeps_onStaging _) fun _ => .pure _

/-! ## Lanes that are handed out -/

theorem rendered_request (r : Renderer) (fiber : FiberId) :
    (r.request fiber).renderLanes.getD ∅ = r.rendered := by
  simp only [request, rendered]
  split <;> rfl

theorem pick_of_asks {fiber : FiberId} (asks : r.asks fiber) :
    r.supply.pick (r.request fiber) = r.supply.eventLane (r.actionLane?.getD ∅) := by
  simp only [Renderer.asks, Bool.and_eq_true, decide_eq_true_eq] at asks
  obtain ⟨⟨concurrent, calm⟩, inTransition⟩ := asks
  simp only [LaneSupply.pick, rendered_request, calm]
  simp [request, concurrent, inTransition]
  rfl

/-- Updates that do not get the lane of a transition leave the supply alone. -/
theorem supply_of_not_asks {fiber : FiberId} (other : ¬ r.asks fiber) :
    (r.supply.pick (r.request fiber)).2 = r.supply := by
  simp only [Renderer.asks, Bool.and_eq_true, decide_eq_true_eq] at other
  simp only [LaneSupply.pick, rendered_request]
  split
  · rfl
  next concurrent =>
    split
    next retry => cases retry
    next =>
      split
      · rfl
      next calm =>
        split
        next inTransition =>
          refine absurd ⟨⟨by simpa [request] using concurrent, by simpa using calm⟩, ?_⟩ other
          simpa [request] using inTransition
        next => rfl

theorem pickLane_of_not_asks {fiber : FiberId} (other : r.asks fiber = false) :
    (r.pickLane (r.request fiber)).2 = r :=
  congrArg (fun supply => { r with supply }) (supply_of_not_asks (ne_true_of_eq_false other))

/-- Where an update gets the lane of a transition, an event is under way. -/
theorem isEvent_of_asks {fiber : FiberId} (depth : r.transitionDepth = saved.count .transition)
    (asks : r.asks fiber) : saved.any isEvent := by
  simp only [Renderer.asks, Bool.and_eq_true, decide_eq_true_eq] at asks
  rw [SavedScope.any_isEvent, ← depth, decide_eq_true asks.2]
  rfl

/-! ## The open scopes and the diary -/

/-- A scope that is entered is the last one of those that are open. -/
theorem opened_enter (depth : r.transitionDepth = saved.count .transition)
    (batched : r.execution.batched = saved.any isBatched) (scope : EventScope) :
    (r.enter scope).2.transitionDepth = ((r.enter scope).1 :: saved).count .transition ∧
      (r.enter scope).2.execution.batched = ((r.enter scope).1 :: saved).any isBatched := by
  cases scope with
  | batched priority => exact ⟨depth, rfl⟩
  | transition =>
    refine ⟨?_, batched⟩
    show r.transitionDepth + 1 = List.count .transition (.transition :: saved)
    rw [List.count_cons_self, depth]
  | updatePriority priority => exact ⟨depth, batched⟩

/-- The end of an event forgets the lane of its transitions, but only if no scope of an event is
open. -/
theorem endEvent_eq (depth : r.transitionDepth = saved.count .transition)
    (batched : r.execution.batched = saved.any isBatched) :
    r.endEvent =
      if saved.any isEvent then r else { r with supply := r.supply.endEvent } := by
  have ended : (decide (r.transitionDepth = 0) && !r.execution.batched) = !saved.any isEvent := by
    rw [depth, batched, SavedScope.any_isEvent, Bool.not_or]
    congr 1
    simp [Nat.pos_iff_ne_zero]
  unfold endEvent
  simp only [ended]
  cases saved.any isEvent <;> rfl

/-- The renderer is as the open scopes and the diary say. -/
structure Paced (r : Renderer) (saved : List SavedScope) (d : Diary) : Prop where
  depth : r.transitionDepth = saved.count .transition
  batched : r.execution.batched = saved.any isBatched
  nested : Nested saved
  tally : Tally r.supply r.actionLane? d
  /-- Outside of events no lane is kept. -/
  rest : saved.any isEvent = false → d.handed? = none

namespace Paced

theorem of_sameEvent (paced : r.Paced saved d) (same : r.SameEvent r') : r'.Paced saved d where
  depth := same.depth.trans paced.depth
  batched := same.batched.trans paced.batched
  nested := paced.nested
  tally := same.lane ▸ paced.tally.of_supply same.shared same.turn
  rest := paced.rest

/-- The lane that the event keeps is forgotten when the event is over. -/
theorem endEvent (depth : r.transitionDepth = saved.count .transition)
    (batched : r.execution.batched = saved.any isBatched) (nested : Nested saved)
    (tally : Tally r.supply r.actionLane? d) : r.endEvent.Paced saved (closed saved d) := by
  rw [endEvent_eq depth batched, closed]
  cases going : saved.any isEvent with
  | true => exact ⟨depth, batched, nested, tally, fun none => nomatch going.symm.trans none⟩
  | false =>
    refine ⟨depth, batched, nested, tally.close, fun _ => ?_⟩
    exact Diary.handed?_eq_none.mpr fun h mem => Nat.ne_of_lt (Nat.lt_succ_of_le (tally.past h mem))

/-- An update of the fiber is given its lane. -/
theorem request (paced : r.Paced saved d) (fiber : FiberId) :
    (r.pickLane (r.request fiber)).2.Paced saved
      (r.noted d (if r.asks fiber then some (r.laneFor fiber) else none)) := by
  cases asks : r.asks fiber with
  | true =>
    have picked := pick_of_asks asks
    have due : r.laneFor fiber = d.due r.actionLane? :=
      (congrArg Prod.fst picked).trans paced.tally.answer
    refine ⟨paced.depth, paced.batched, paced.nested, ?_, fun none => ?_⟩
    · show Tally (r.supply.pick (r.request fiber)).2 r.actionLane? _
      rw [picked, due]
      exact paced.tally.hand
    · cases (isEvent_of_asks paced.depth asks).symm.trans none
  | false =>
    rw [pickLane_of_not_asks asks]
    exact paced

theorem enter (paced : r.Paced saved d) (scope : EventScope) :
    (r.next (.enter scope)).Paced (r.opened saved (.enter scope)) d := by
  obtain ⟨depth, batched⟩ := opened_enter paced.depth paced.batched scope
  cases scope with
  | batched priority => exact ⟨depth, batched, ⟨paced.batched, paced.nested⟩, paced.tally, nofun⟩
  | transition => exact ⟨depth, batched, paced.nested, paced.tally, nofun⟩
  | updatePriority priority => exact ⟨depth, batched, paced.nested, paced.tally, paced.rest⟩

theorem leave {scope : SavedScope} (paced : r.Paced (scope :: saved) d) :
    (r.next (.leave scope)).Paced saved (closed saved d) := by
  cases scope with
  | batched wasBatched priority =>
    refine endEvent paced.depth ?_ paced.nested.2 paced.tally
    show (r.execution.batched && wasBatched) = saved.any isBatched
    rw [paced.batched, paced.nested.1]
    rfl
  | transition =>
    refine endEvent ?_ paced.batched paced.nested paced.tally
    show r.transitionDepth - 1 = saved.count .transition
    rw [paced.depth, List.count_cons_self, Nat.add_sub_cancel]
  | updatePriority previous => exact endEvent paced.depth paced.batched paced.nested paced.tally

end Paced

/-- What starting an action does: it joins the actions under way, or takes a lane for new ones, and
outside of events it is an event of its own. -/
theorem next_entangle (r : Renderer) (runtime : Bool) :
    r.next (.entangle runtime) =
      endEvent { r with
        supply := if runtime && r.actions.scope.isNone then (r.supply.eventLane ∅).2 else r.supply
        actions := (Actions.entangle runtime (r.supply.eventLane ∅).1 r.actions).state } := by
  cases runtime with
  | false => rfl
  | true =>
    have opens : ∃ action, (Actions.entangle true (r.supply.eventLane ∅).1 r.actions).result =
        .ok (action, r.actions.scope.isNone) := ⟨_, rfl⟩
    obtain ⟨action, opens⟩ := opens
    have answer : (onActions (Actions.entangle true (r.supply.eventLane ∅).1) r).result =
        .ok (action, r.actions.scope.isNone) := opens
    show (entangle true r).state = _
    unfold entangle
    rw [StepM.run_look_bind]
    dsimp only
    rw [(StepM.run_bind_of_ok (a := (onActions _ r).result) rfl).1, answer]
    cases r.actions.scope.isNone <;> rfl

theorem actionLane?_endEvent (r : Renderer) : r.endEvent.actionLane? = r.actionLane? := by
  unfold endEvent
  split <;> rfl

/-- Actions that start anew do so on the lane that a transition would get. -/
theorem hands?_entangle (r : Renderer) (runtime : Bool) :
    r.hands? (.entangle runtime) =
      if runtime && r.actions.scope.isNone then some (r.supply.eventLane ∅).1 else none := by
  have lane := (congrArg actionLane? (next_entangle r runtime)).trans (actionLane?_endEvent _)
  simp only [hands?, lane]
  cases runtime with
  | false =>
    show (if r.actionLane?.isSome then none else r.actionLane?) = none
    cases r.actionLane? <;> rfl
  | true =>
    cases scope : r.actions.scope <;>
      simp [actionLane?, scope, Actions.entangle, Actions.openScope]

namespace Paced

theorem entangle (paced : r.Paced saved d) (runtime : Bool) :
    (r.next (.entangle runtime)).Paced saved (r.recorded saved d (.entangle runtime)) := by
  show Paced _ saved (closed saved (r.noted d (r.hands? (.entangle runtime))))
  -- Where no actions are started anew, no lane is taken.
  have joins {r' : Renderer} (ends : r.next (.entangle runtime) = r'.endEvent)
      (same : r.SameEvent r') (hands : r.hands? (.entangle runtime) = none) :
      (r.next (.entangle runtime)).Paced saved
        (closed saved (r.noted d (r.hands? (.entangle runtime)))) := by
    have kept := paced.of_sameEvent same
    rw [ends, hands]
    exact endEvent kept.depth kept.batched kept.nested kept.tally
  have next := next_entangle r runtime
  cases runtime with
  | false =>
    exact joins next ⟨rfl, rfl, rfl, rfl, rfl⟩ (hands?_entangle r false)
  | true =>
    cases scope : r.actions.scope with
    | some s =>
      have lane : r.actionLane? = some s.lane := congrArg (Option.map ActionScope.lane) scope
      have joined := congrArg Outcome.state
        (Actions.entangle_of_some scope (r.supply.eventLane ∅).1)
      refine joins next ⟨?_, ?_, rfl, rfl, ?_⟩ ?_
      · simp [scope]
      · simp [scope]
      · rw [lane]
        exact congrArg (fun a : Actions => a.scope.map (·.lane)) joined
      · simp [hands?_entangle, scope]
    | none =>
      have free : r.actionLane? = none := congrArg (Option.map ActionScope.lane) scope
      have tally := paced.tally
      rw [free] at tally
      have due : (r.supply.eventLane ∅).1 = d.due none := tally.answer
      let supply := (r.supply.eventLane ∅).2
      let actions := (Actions.entangle true (r.supply.eventLane ∅).1 r.actions).state
      have ends : r.next (.entangle true) = Renderer.endEvent { r with supply, actions } := by
        rw [next]
        simp [scope, supply, actions]
      have lane : { r with supply, actions }.actionLane? = some (d.due none) := by
        have opened := congrArg Outcome.state
          (Actions.entangle_of_none scope (r.supply.eventLane ∅).1)
        rw [← due]
        exact congrArg (fun a : Actions => a.scope.map (·.lane)) opened
      have hands : r.hands? (.entangle true) = some (d.due none) := by
        rw [hands?_entangle, due]
        simp [scope]
      have given : (d.hand none (d.due none)).handed? = some (d.due none) := by
        rw [Diary.handed?_hand]
        cases handed : d.handed? <;> simp [Diary.due, handed]
      rw [ends, hands]
      refine endEvent paced.depth paced.batched paced.nested ?_
      rw [lane]
      show Tally supply _ (d.hand r.actionLane? (d.due none))
      rw [free]
      exact tally.hand.opens given

end Paced

theorem scope_complete (a : Actions) (s : ActionScope) : (a.complete s).scope = none := by
  unfold Actions.complete
  dsimp only
  split <;> rfl

/-- An action that settles leaves the actions under way on their lane, unless it is the last one. -/
theorem actionLane?_settle (r : Renderer) (action : Id .action) :
    (r.settle action).actionLane? = r.actionLane? ∨ (r.settle action).actionLane? = none := by
  unfold Renderer.settle Actions.settle
  split
  next =>
    unfold Actions.countDown
    dsimp only
    split
    next scope => exact .inl rfl
    next s scope =>
      split
      next => exact .inr (congrArg (Option.map ActionScope.lane) (scope_complete _ s))
      next => exact .inl (congrArg (Option.map ActionScope.lane) scope).symm
  next => exact .inl rfl

namespace Paced

theorem settle (paced : r.Paced saved d) (action : Id .action) :
    (r.settle action).Paced saved d where
  depth := paced.depth
  batched := paced.batched
  nested := paced.nested
  tally := by
    show Tally r.supply _ d
    rcases actionLane?_settle r action with same | none
    · exact same ▸ paced.tally
    · exact none ▸ paced.tally.drops
  rest := paced.rest

/-- After every call the renderer is as the open scopes and the diary say. -/
theorem next (paced : r.Paced saved d) (op : Operation) (last : op.leavesLast saved) :
    (r.next op).Paced (r.opened saved op) (r.recorded saved d op) := by
  cases op with
  | enter scope => exact paced.enter scope
  | leave scope =>
    cases saved with
    | nil => cases last
    | cons s saved =>
      obtain rfl : s = scope := by simpa [Operation.leavesLast] using last
      exact paced.leave
  | entangle runtime => exact paced.entangle runtime
  | settle action => exact paced.settle action
  | dispatch fiber queue payload =>
    exact (paced.request fiber).of_sameEvent (overlooked_dispatch r fiber queue payload)
  | dispatchQuietly fiber queue payload =>
    exact (paced.request fiber).of_sameEvent (overlooked_dispatchQuietly r fiber queue payload)
  | forceUpdate fiber => exact (paced.request fiber).of_sameEvent (overlooked_forceUpdate r fiber)
  | prepare root => exact paced.of_sameEvent (sameEvent_prepare root r)
  | commit root remaining => exact paced.of_sameEvent (sameEvent_commit root remaining r)
  | edit | flush | takePending | suspended | pinged | starved | begin | readContext | pushProvider
  | popProvider | rerender | complete =>
    exact paced.of_sameEvent ⟨rfl, rfl, rfl, rfl, rfl⟩

/-- A retry takes its lane elsewhere. -/
theorem sameEvent_requestRetryLane (r : Renderer) (fiber : FiberId) :
    SameEvent r (requestRetryLane fiber r).state := by
  unfold requestRetryLane pickLane LaneSupply.pick
  simp only [StepM.run_take]
  split <;> exact ⟨rfl, rfl, rfl, rfl, rfl⟩

theorem aside (paced : r.Paced saved d) (c : SideCall) :
    (r.aside c).Paced saved (r.noted d (r.handsAside? c)) := by
  cases c with
  | requestLane fiber => exact paced.request fiber
  | requestRetryLane fiber => exact paced.of_sameEvent (sameEvent_requestRetryLane r fiber)
  | pooledCache => exact paced.of_sameEvent (keeps_pooledCache r)
  | createUpdate | writeFiber | bailOut | spreadDeferred | spreadCache | share =>
    exact paced.of_sameEvent ⟨rfl, rfl, rfl, rfl, rfl⟩

theorem start {settings : Settings} {registry : ContextRegistry}
    (begins : Renderer.start settings registry = .ok r) : r.Paced [] {} := by
  rw [eq_of_start begins]
  exact ⟨rfl, rfl, trivial, .start, fun _ => rfl⟩

end Paced

theorem Course.paced {settings : Settings} {registry : ContextRegistry} {r₀ : Renderer}
    (begins : Renderer.start settings registry = .ok r₀) (run : r₀.Course r saved d) :
    r.Paced saved d := by
  induction run with
  | start => exact .start begins
  | call op _ last ih => exact ih.next op last
  | aside c _ ih => exact ih.aside c
  | apart _ same ih => exact ih.of_sameEvent same

end Renderer

open Renderer in
/-- After every run, a transition made for a concurrent fiber outside of a render gets the lane of
the actions under way, or else the one that was handed out in the event, or else the next one in
turn. So all transitions of an event share a lane, and of the events that took a lane in turn, 14 in
a row took different ones. -/
theorem transition_lanes_of_course {settings : Settings} {registry : ContextRegistry}
    {r₀ r : Renderer} (begins : start settings registry = .ok r₀) {saved : List SavedScope}
    {d : Diary} (run : r₀.Course r saved d) :
    (∀ fiber, (r.tree.fiber fiber).concurrent → .transition ∈ saved →
      (r.execution.rendering → r.renderLanes = ∅) →
        (requestLane fiber r).result = .ok (match r.actions.scope with
          | some scope => scope.lane
          | none => d.handed?.getD (LaneSupply.turn d.fresh.length))) ∧
    (∀ h ∈ d.handouts, ∀ h' ∈ d.handouts, h.event = h'.event → h.lane = h'.lane) ∧
    ∀ i j, (hi : i < d.fresh.length) → (hj : j < d.fresh.length) → i < j → j < i + 14 →
      d.fresh[i].event < d.fresh[j].event ∧ d.fresh[i].lane ≠ d.fresh[j].lane := by
  have paced := run.paced begins
  refine ⟨fun fiber concurrent inside calm => ?_, paced.tally.one, fun i j hi hj later close => ?_⟩
  · have asks : r.asks fiber := by
      have deep : 0 < r.transitionDepth := paced.depth ▸ List.count_pos_iff.mpr inside
      have calm : r.rendered.isEmpty := by
        unfold rendered
        split
        next busy => exact beq_iff_eq.mpr (calm busy)
        next => rfl
      simp [Renderer.asks, concurrent, calm, deep]
    show Except.ok (r.supply.pick (r.request fiber)).1 = _
    rw [pick_of_asks asks, paced.tally.answer]
    unfold Diary.due actionLane?
    cases r.actions.scope <;> rfl
  · refine ⟨List.pairwise_iff_getElem.mp paced.tally.later i j hi hj later, ?_⟩
    rw [paced.tally.lane_fresh, paced.tally.lane_fresh]
    exact LaneSupply.turn_ne later close

/-- In one event, a transition is made, an action starts and settles, and another transition is
made. The second transition gets the lane of the first one. -/
theorem transition_lanes_of_event :
    let asked := ((default : Renderer).after
      [.edit (.createRoot true), .enter (.batched .discrete), .enter .transition]).aside
        (.requestLane ⟨0⟩)
    let r := asked.after [.entangle true, .leave .transition, .settle ⟨0⟩, .enter .transition]
    Renderer.start {} .start = .ok default ∧
      (∃ saved d, Renderer.Course default r saved d ∧ .transition ∈ saved) ∧
      (Renderer.requestLane ⟨0⟩ r).result = .ok (.single 3) := by
  intro asked r
  have begins : Renderer.start {} .start = .ok default := by rfl
  have starts : Renderer.Course default default [] {} := .start
  have opened := ((starts.call (.edit (.createRoot true)) rfl).call
    (.enter (.batched .discrete)) rfl).call (.enter .transition) rfl
  have run := (((opened.aside (.requestLane ⟨0⟩)).call (.entangle true) rfl).call
    (.leave .transition) rfl).call (.settle ⟨0⟩) rfl |>.call (.enter .transition) rfl
  refine ⟨begins, ⟨_, _, run, List.mem_cons_self⟩, ?_⟩
  have answer := (transition_lanes_of_course begins run).1 ⟨0⟩ (by decide +kernel)
    List.mem_cons_self (by decide +kernel)
  exact answer.trans (by decide +kernel)

end ConcurrentRender
