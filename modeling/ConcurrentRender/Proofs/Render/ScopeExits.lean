import ConcurrentRender.Proofs.Render.Access
import ConcurrentRender.Proofs.Render.Transitions

/-!
# How scopes are left

Scopes of events, transitions and priorities are nested in any way. The code inside a scope does
with the renderer what it likes, and may break off at any point. Then all scopes around it are left
until one of them, or code between two of them, takes care of that. All three kinds of scopes are
left in the same way, which also decides whether the event is over.

* `Program`: what the code does, with the scopes that it enters. `Program.run p` runs it by means of
  `Renderer.within`.
* `Program.play saved p`: the same, and each scope that is left is noted as an `Exit`.
* `SameScopes r r'`: the four things that scopes change are equal.

Results:
1. `play_run`: a play ends as the run does.
2. `sameScopes_access`, `sameScopes_leave`: what is done inside a scope leaves the four things
   alone, and leaving the scope undoes what entering it did.
3. `Attends.access`, `Attends.leave`: a lane is kept as long as its event goes on.
4. `scope_exits`: hence how every scope is left.
-/

namespace ConcurrentRender

namespace Access

/-- Scopes are entered and left by other means. -/
def plain : Access → Bool
  | call (.enter _) => false
  | call (.leave _) => false
  | _ => true

end Access

/-- What some code does with a renderer.

* `panic`: it breaks off.
* `look`: what it does next depends on the renderer.
* `scope`: it runs some code inside a scope.
* `guarded`: it runs some code, and goes on even if that breaks off. -/
inductive Program where
  | done
  | panic
  | access (a : Access) (plain : a.plain) (rest : Program)
  | look (rest : Renderer → Program)
  | scope (s : EventScope) (body rest : Program)
  | guarded (body rest : Program)

namespace Program

def run : Program → StepM Renderer Unit
  | done => pure ()
  | panic => StepM.fail .brokeOff
  | access a _ rest => do
    StepM.change (·.access a)
    rest.run
  | look rest => do
    let r ← StepM.look id
    (rest r).run
  | scope s body rest => do
    Renderer.within s body.run
    rest.run
  | guarded body rest => do
    let _ ← StepM.attempt body.run
    rest.run

end Program

/-! ## Plays -/

/-- A scope was left. -/
structure Exit where
  /-- The renderer before the scope was entered. -/
  before : Renderer
  after : Renderer
  /-- The scopes that are still open, the one entered last first. -/
  enclosing : List SavedScope
  /-- A lane was handed out to a transition in the event in which the scope was open. -/
  handed : Bool

structure Play where
  now : Renderer
  /-- In the event that goes on, a lane was handed out to a transition. -/
  handed : Bool := false
  exits : List Exit := []
  panicking : Bool := false

/-- The access hands out a lane to a transition, or starts actions on a lane. -/
def Renderer.handsOut (r : Renderer) : Access → Bool
  | .call op => (r.hands? op).isSome
  | .aside c => (r.handsAside? c).isSome
  | .tree _ => false
  | .actions _ => false

namespace Play

open SavedScope (isEvent)

def result (p : Play) : Except Fault Unit := if p.panicking then .error .brokeOff else .ok ()

/-- What is handed out outside of events belongs to no event that goes on. -/
def access (saved : List SavedScope) (p : Play) (a : Access) : Play :=
  { p with
    now := p.now.access a
    handed := saved.any isEvent && (p.handed || p.now.handsOut a) }

/-- Leaves the scope that was entered at `before`. The scopes `saved` are still open. -/
def leave (saved : List SavedScope) (before : Renderer) (kept : SavedScope) (p : Play) : Play :=
  let after := p.now.leave kept
  { p with
    now := after
    handed := saved.any isEvent && p.handed
    exits := p.exits ++ [{ before, after, enclosing := saved, handed := p.handed }] }

end Play

/-- Runs the program while the scopes `saved` are open, and notes which scopes are left. -/
def Program.play (saved : List SavedScope) : Program → Play → Play
  | done, p => p
  | panic, p => { p with panicking := true }
  | access a _ rest, p => rest.play saved (p.access saved a)
  | look rest, p => (rest p.now).play saved p
  | scope s body rest, p =>
    let entered := p.now.enter s
    let left := (body.play (entered.1 :: saved) { p with now := entered.2 }).leave saved p.now
      entered.1
    if left.panicking then left else rest.play saved left
  | guarded body rest, p => rest.play saved { body.play saved p with panicking := false }

namespace Renderer

open SavedScope (isBatched isEvent)

variable {r r' r'' : Renderer} {saved : List SavedScope} {handed : Bool} {a : Access}

/-- A play ends as the run does. -/
theorem play_run (p : Program) (saved : List SavedScope) (q : Play)
    (going : q.panicking = false) :
    (p.run q.now).state = (p.play saved q).now ∧
      (p.run q.now).result = (p.play saved q).result := by
  induction p generalizing saved q with
  | done => exact ⟨rfl, by rw [Program.play, Play.result, going]; rfl⟩
  | panic => exact ⟨rfl, rfl⟩
  | access a plain rest ih => exact ih saved (q.access saved a) going
  | look rest ih => exact ih q.now saved q going
  | scope s body rest ihBody ihRest =>
    let entered := q.now.enter s
    let inner := body.play (entered.1 :: saved) { q with now := entered.2 }
    let left := inner.leave saved q.now entered.1
    obtain ⟨state, ended⟩ := ihBody (entered.1 :: saved) { q with now := entered.2 } going
    have now : (within s body.run q.now).state = left.now := congrArg (·.leave entered.1) state
    have ended : (within s body.run q.now).result = left.result := ended
    show ((within s body.run >>= fun _ => rest.run) q.now).state =
        (if left.panicking then left else rest.play saved left).now ∧
      ((within s body.run >>= fun _ => rest.run) q.now).result =
        (if left.panicking then left else rest.play saved left).result
    -- The scope is left in any case, and what follows it is reached if nothing broke off.
    cases panicking : left.panicking with
    | true =>
      have stops : left.result = .error .brokeOff := if_pos panicking
      obtain ⟨state, answer⟩ := StepM.run_bind_of_error (f := fun _ => rest.run)
        (ended.trans stops)
      exact ⟨state.trans now, answer.trans stops.symm⟩
    | false =>
      have goes : left.result = .ok () := if_neg (ne_true_of_eq_false panicking)
      obtain ⟨state, answer⟩ := StepM.run_bind_of_ok (f := fun _ => rest.run) (ended.trans goes)
      rw [state, answer, now]
      exact ihRest saved left panicking
  | guarded body rest ihBody ihRest =>
    let caught : Play := { body.play saved q with panicking := false }
    have now : (StepM.attempt body.run q.now).state = caught.now := (ihBody saved q going).1
    obtain ⟨state, answer⟩ := StepM.run_bind_of_ok (m := StepM.attempt body.run)
      (f := fun _ => rest.run) (s := q.now) rfl
    show ((StepM.attempt body.run >>= fun _ => rest.run) q.now).state =
        (rest.play saved caught).now ∧
      ((StepM.attempt body.run >>= fun _ => rest.run) q.now).result =
        (rest.play saved caught).result
    rw [state, answer, now]
    exact ihRest saved caught rfl

/-! ## The four things -/

/-- What scopes change is equal. -/
structure SameScopes (r r' : Renderer) : Prop where
  eventPriority : r'.eventPriority = r.eventPriority
  updatePriority : r'.updatePriority = r.updatePriority
  depth : r'.transitionDepth = r.transitionDepth
  batched : r'.execution.batched = r.execution.batched

namespace SameScopes

theorem refl (r : Renderer) : SameScopes r r := ⟨rfl, rfl, rfl, rfl⟩

theorem trans (h : SameScopes r r') (h' : SameScopes r' r'') : SameScopes r r'' :=
  ⟨h'.eventPriority.trans h.eventPriority, h'.updatePriority.trans h.updatePriority,
    h'.depth.trans h.depth, h'.batched.trans h.batched⟩

end SameScopes

theorem sameScopes_endEvent (r : Renderer) : SameScopes r r.endEvent := by
  unfold endEvent
  split <;> exact ⟨rfl, rfl, rfl, rfl⟩

/-- Whatever is done besides entering and leaving scopes. -/
theorem sameScopes_access (r : Renderer) (plain : a.plain) : SameScopes r (r.access a) := by
  have same {c : Circumstances} (eq : (r.access a).circumstances = c)
      (event : c.eventPriority = r.eventPriority) (update : c.updatePriority = r.updatePriority)
      (depth : c.transitionDepth = r.transitionDepth)
      (batched : c.execution.batched = r.execution.batched) : SameScopes r (r.access a) := by
    subst eq
    exact ⟨event, update, depth, batched⟩
  cases a with
  | tree | actions => exact ⟨rfl, rfl, rfl, rfl⟩
  | aside c => exact same (circumstances_aside r c) rfl rfl rfl rfl
  | call op =>
    have next := circumstances_next r op
    cases op with
    | enter | leave => cases plain
    | prepare root =>
      dsimp only at next
      split at next <;> exact same next rfl rfl rfl rfl
    | _ => exact same next rfl rfl rfl rfl

/-- Leaving a scope undoes what entering it did. -/
theorem sameScopes_restore {s : EventScope} (inside : SameScopes (r.enter s).2 r') :
    SameScopes r (r'.restore (r.enter s).1) := by
  obtain ⟨event, update, depth, batched⟩ := inside
  cases s with
  | batched priority =>
    refine ⟨rfl, update, depth, ?_⟩
    show (r'.execution.batched && r.execution.batched) = r.execution.batched
    rw [batched]
    rfl
  | transition => exact ⟨event, update, congrArg (· - 1) depth, batched⟩
  | updatePriority priority => exact ⟨event, rfl, depth, batched⟩

theorem sameScopes_leave {s : EventScope} (inside : SameScopes (r.enter s).2 r') :
    SameScopes r (r'.leave (r.enter s).1) :=
  (sameScopes_restore inside).trans (sameScopes_endEvent _)

/-! ## The lane of the event -/

/-- The renderer is as the open scopes say, and keeps a lane if and only if one was handed out in
the event that goes on. -/
structure Attends (r : Renderer) (saved : List SavedScope) (handed : Bool) : Prop where
  depth : r.transitionDepth = saved.count .transition
  batched : r.execution.batched = saved.any isBatched
  turn : r.supply.nextTransition ≠ ∅
  shared : r.supply.eventTransition = ∅ ↔ handed = false
  rest : saved.any isEvent = false → handed = false

namespace Attends

theorem start {settings : Settings} {registry : ContextRegistry}
    (begins : Renderer.start settings registry = .ok r) : r.Attends [] false := by
  rw [eq_of_start begins]
  have first : LaneSet.firstTransition ≠ ∅ := by decide
  exact ⟨rfl, rfl, first, iff_of_true rfl rfl, fun _ => rfl⟩

theorem of_sameEvent (attends : r.Attends saved handed) (same : r.SameEvent r') :
    r'.Attends saved handed where
  depth := same.depth.trans attends.depth
  batched := same.batched.trans attends.batched
  turn := same.turn ▸ attends.turn
  shared := same.shared ▸ attends.shared
  rest := attends.rest

theorem masked (attends : r.Attends saved handed) :
    r.Attends saved (saved.any isEvent && handed) := by
  have same : (saved.any isEvent && handed) = handed := by
    cases going : saved.any isEvent with
    | true => rfl
    | false => exact (attends.rest going).symm
  rwa [same]

/-- The lane that the event keeps is forgotten when the event is over. -/
theorem endEvent (depth : r.transitionDepth = saved.count .transition)
    (batched : r.execution.batched = saved.any isBatched) (turn : r.supply.nextTransition ≠ ∅)
    (shared : r.supply.eventTransition = ∅ ↔ handed = false) :
    r.endEvent.Attends saved (saved.any isEvent && handed) := by
  rw [endEvent_eq depth batched]
  cases going : saved.any isEvent with
  | true => exact ⟨depth, batched, turn, shared, fun none => nomatch going.symm.trans none⟩
  | false => exact ⟨depth, batched, turn, iff_of_true rfl rfl, fun _ => rfl⟩

/-- An update of the fiber is given its lane. -/
theorem request (attends : r.Attends saved handed) (fiber : FiberId) :
    (r.pickLane (r.request fiber)).2.Attends saved (handed || r.asks fiber) := by
  cases asks : r.asks fiber with
  | true =>
    obtain ⟨turn, given⟩ := LaneSupply.eventLane_ne_empty attends.turn (r.actionLane?.getD ∅)
    rw [← pick_of_asks asks] at turn given
    rw [Bool.or_true]
    refine ⟨attends.depth, attends.batched, turn, iff_of_false given nofun, fun none => ?_⟩
    cases (isEvent_of_asks attends.depth asks).symm.trans none
  | false =>
    rw [pickLane_of_not_asks asks, Bool.or_false]
    exact attends

/-- Actions that start anew take the lane of the event. Outside of events they do not keep it. -/
theorem entangle (attends : r.Attends saved handed) (runtime : Bool) :
    (r.next (.entangle runtime)).Attends saved
      (saved.any isEvent && (handed || (r.hands? (.entangle runtime)).isSome)) := by
  rw [next_entangle, hands?_entangle]
  cases (runtime && r.actions.scope.isNone) with
  | true =>
    obtain ⟨turn, given⟩ := LaneSupply.eventLane_ne_empty attends.turn ∅
    exact endEvent attends.depth attends.batched turn (iff_of_false given (by simp))
  | false =>
    refine endEvent attends.depth attends.batched attends.turn ?_
    simpa using attends.shared

/-- Whatever is done besides entering and leaving scopes. -/
theorem access (attends : r.Attends saved handed) (plain : a.plain) :
    (r.access a).Attends saved (saved.any isEvent && (handed || r.handsOut a)) := by
  have quiet (none : r.handsOut a = false) (kept : (r.access a).Attends saved handed) :
      (r.access a).Attends saved (saved.any isEvent && (handed || r.handsOut a)) := by
    rw [none, Bool.or_false]
    exact kept.masked
  have same (none : r.handsOut a = false) (same : r.SameEvent (r.access a)) :=
    quiet none (attends.of_sameEvent same)
  have asked {fiber : FiberId}
      (asks : r.handsOut a = (if r.asks fiber then some (r.laneFor fiber) else none).isSome)
      (same : SameEvent (r.pickLane (r.request fiber)).2 (r.access a)) :
      (r.access a).Attends saved (saved.any isEvent && (handed || r.handsOut a)) := by
    have asks : r.handsOut a = r.asks fiber := by rw [asks]; cases r.asks fiber <;> rfl
    rw [asks]
    exact ((attends.request fiber).of_sameEvent same).masked
  have kept : ∀ actions, { r with actions }.Attends saved handed := fun _ =>
    ⟨attends.depth, attends.batched, attends.turn, attends.shared, attends.rest⟩
  cases a with
  | tree g => exact same rfl ⟨rfl, rfl, rfl, rfl, rfl⟩
  | actions g => exact quiet rfl (kept _)
  | aside c =>
    cases c with
    | requestLane fiber => exact asked rfl ⟨rfl, rfl, rfl, rfl, rfl⟩
    | requestRetryLane fiber => exact same rfl (Paced.sameEvent_requestRetryLane r fiber)
    | pooledCache => exact same rfl (keeps_pooledCache r)
    | createUpdate | writeFiber | bailOut | spreadDeferred | spreadCache | share =>
      exact same rfl ⟨rfl, rfl, rfl, rfl, rfl⟩
  | call op =>
    cases op with
    | enter | leave => cases plain
    | entangle runtime => exact attends.entangle runtime
    | settle action => exact quiet rfl (kept _)
    | dispatch fiber queue payload => exact asked rfl (overlooked_dispatch r fiber queue payload)
    | dispatchQuietly fiber queue payload =>
      exact asked rfl (overlooked_dispatchQuietly r fiber queue payload)
    | forceUpdate fiber => exact asked rfl (overlooked_forceUpdate r fiber)
    | prepare root => exact same rfl (sameEvent_prepare root r)
    | commit root remaining => exact same rfl (sameEvent_commit root remaining r)
    | edit | flush | takePending | suspended | pinged | starved | begin | readContext
    | pushProvider | popProvider | rerender | complete =>
      exact same rfl ⟨rfl, rfl, rfl, rfl, rfl⟩

theorem enter (attends : r.Attends saved handed) (s : EventScope) :
    (r.enter s).2.Attends ((r.enter s).1 :: saved) handed := by
  obtain ⟨depth, batched⟩ := opened_enter attends.depth attends.batched s
  cases s with
  | batched | transition => exact ⟨depth, batched, attends.turn, attends.shared, nofun⟩
  | updatePriority => exact ⟨depth, batched, attends.turn, attends.shared, attends.rest⟩

/-- The event goes on if the scope that is left was entered inside another one of the event. -/
theorem leave {s : EventScope} {before : Bool} (outside : r.Attends saved before)
    (inside : SameScopes (r.enter s).2 r')
    (attends : r'.Attends ((r.enter s).1 :: saved) handed) :
    (r'.leave (r.enter s).1).Attends saved (saved.any isEvent && handed) := by
  -- Which scopes are open is known from before the scope was entered, so nothing needs to be known
  -- of the body but that it left the four things alone.
  have back := sameScopes_restore inside
  have supply : (r'.restore (r.enter s).1).supply = r'.supply := by cases s <;> rfl
  refine endEvent (back.depth.trans outside.depth) (back.batched.trans outside.batched) ?_ ?_
  · rw [supply]
    exact attends.turn
  · rw [supply]
    exact attends.shared

end Attends

/-! ## Whole programs -/

/-- The scope was left with everything as it was before, and a lane is kept for the event if and
only if it goes on and one was handed out in it. -/
structure Restores (e : Exit) : Prop where
  same : SameScopes e.before e.after
  shared : e.after.supply.eventTransition = ∅ ↔
    e.enclosing.any isEvent = false ∨ e.handed = false

/-- What a program does in the scopes that are open when it begins. -/
theorem play_keeps (p : Program) (saved : List SavedScope) (q : Play)
    (attends : q.now.Attends saved q.handed) (exits : ∀ e ∈ q.exits, Restores e) :
    (p.play saved q).now.Attends saved (p.play saved q).handed ∧
      SameScopes q.now (p.play saved q).now ∧ ∀ e ∈ (p.play saved q).exits, Restores e := by
  -- A scope can be left properly only if its body kept both: the four things, and what the renderer
  -- keeps for the event.
  induction p generalizing saved q with
  | done | panic => exact ⟨attends, .refl _, exits⟩
  | access a plain rest ih =>
    obtain ⟨attends, same, exits⟩ := ih saved (q.access saved a) (attends.access plain) exits
    exact ⟨attends, (sameScopes_access q.now plain).trans same, exits⟩
  | look rest ih => exact ih q.now saved q attends exits
  | guarded body rest ihBody ihRest =>
    obtain ⟨attends, same, exits⟩ := ihBody saved q attends exits
    obtain ⟨attends, same', exits⟩ :=
      ihRest saved { body.play saved q with panicking := false } attends exits
    exact ⟨attends, same.trans same', exits⟩
  | scope s body rest ihBody ihRest =>
    let entered := q.now.enter s
    let inner := body.play (entered.1 :: saved) { q with now := entered.2 }
    let left := inner.leave saved q.now entered.1
    obtain ⟨inside, same, exits⟩ :=
      ihBody (entered.1 :: saved) { q with now := entered.2 } (attends.enter s) exits
    have outside : left.now.Attends saved left.handed := attends.leave same inside
    have back : SameScopes q.now left.now := sameScopes_leave same
    have exits : ∀ e ∈ left.exits, Restores e := by
      refine List.forall_mem_append.mpr ⟨exits, List.forall_mem_singleton.mpr ⟨back, ?_⟩⟩
      exact outside.shared.trans Bool.and_eq_false_iff
    show (if left.panicking then left else rest.play saved left).now.Attends saved
        (if left.panicking then left else rest.play saved left).handed ∧
      SameScopes q.now (if left.panicking then left else rest.play saved left).now ∧
      ∀ e ∈ (if left.panicking then left else rest.play saved left).exits, Restores e
    cases left.panicking with
    | true => exact ⟨outside, back, exits⟩
    | false =>
      obtain ⟨attends, same, exits⟩ := ihRest saved left outside exits
      exact ⟨attends, back.trans same, exits⟩

end Renderer

open Renderer in
/-- In every program, every scope is left with the event priority, the update priority, the
transition depth and the mark of host events as they were when it was entered, however it is left.
A lane is kept for transitions after that if and only if a scope of an event is still open, and a
lane was handed out in that event. The play tells of the scopes what happens in the run. -/
theorem scope_exits {settings : Settings} {registry : ContextRegistry} {r₀ : Renderer}
    (begins : start settings registry = .ok r₀) (p : Program) :
    let play := p.play [] { now := r₀ }
    (p.run r₀).state = play.now ∧ (p.run r₀).result = play.result ∧
      ∀ exit ∈ play.exits,
        exit.after.eventPriority = exit.before.eventPriority ∧
        exit.after.updatePriority = exit.before.updatePriority ∧
        exit.after.transitionDepth = exit.before.transitionDepth ∧
        exit.after.execution.batched = exit.before.execution.batched ∧
        (exit.after.supply.eventTransition = ∅ ↔
          exit.enclosing.any SavedScope.isEvent = false ∨ exit.handed = false) := by
  intro play
  obtain ⟨state, result⟩ := play_run p [] { now := r₀ } rfl
  have attends : Attends r₀ [] false := .start begins
  obtain ⟨-, -, exits⟩ := play_keeps p [] { now := r₀ } attends (List.forall_mem_nil _)
  refine ⟨state, result, fun exit mem => ?_⟩
  obtain ⟨same, shared⟩ := exits exit mem
  exact ⟨same.eventPriority, same.updatePriority, same.depth, same.batched, shared⟩

/-- Inside a host event, a transition gets a lane and breaks off, and then a scope with a priority
of its own does, which ends the whole event. The lane is kept until then. -/
theorem scope_exits_of_panics :
    let transition : Program :=
      .scope .transition (.access (.aside (.requestLane ⟨0⟩)) rfl .panic) .done
    let priority : Program := .scope (.updatePriority .idle) .panic .done
    let event : Program := .scope (.batched .discrete) (.guarded transition priority) .done
    let p : Program := .access (.call (.edit (.createRoot true))) rfl (.guarded event .done)
    let exits := (p.play [] { now := default }).exits
    Renderer.start {} .start = .ok default ∧ (p.run default).result = .ok () ∧
      (∀ exit ∈ exits, exit.after.eventPriority = exit.before.eventPriority ∧
        exit.after.updatePriority = exit.before.updatePriority) ∧
      exits.map (fun exit => exit.after.supply.eventTransition) =
        [LaneSet.single 3, LaneSet.single 3, ∅] := by
  intro transition priority event p exits
  have begins : Renderer.start {} .start = .ok default := by rfl
  obtain ⟨-, result, restored⟩ := scope_exits begins p
  refine ⟨begins, result.trans (by decide +kernel), fun exit mem => ?_, by decide +kernel⟩
  exact ⟨(restored exit mem).1, (restored exit mem).2.1⟩

end ConcurrentRender
