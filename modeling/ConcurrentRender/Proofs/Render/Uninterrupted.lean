import ConcurrentRender.Proofs.Lane.Selection
import ConcurrentRender.Proofs.Render.FreshStart
import ConcurrentRender.Proofs.Render.Outlived

/-!
# Renders that go on

The lanes of a render are those that were chosen together with all that is entangled with them, so
they need not be a choice themselves. Whether the render goes on is decided anew at each start, by
comparing its most urgent lane with that of the choice. And where nothing is chosen, it does not go
on. But one of its lanes is always there to be chosen: idle lanes are not entangled, and so a render
of idle work has one lane, while every other render has a pending lane that is not idle.

This depends on the lanes of actions. If actions run on lanes of transitions and on idle ones, a
render of idle work may be entangled with a transition that is done already.

* `LaneLedger.Anchors g lanes`: one of the lanes is pending, and it is not idle, or it is the most
  urgent of the lanes and not the deferred lane.
* `LaneLedger.Unchallenged g lanes`: none of the lanes waits, and pending work is more urgent than
  they are only if it is default work and they are those of transitions.
* `LaneSet.Unmixed s`: it has no idle lane besides lanes of transitions.
* `Renderer.Footing r`: no idle lanes are entangled, only pending lanes wait, and every render is
  anchored.
* `Renderer.Allows r a`: the access suspends pending lanes only, and if it is none of the calls, it
  leaves the lanes of roots and queues alone, and starts actions on lanes that are not mixed.

Results:
1. `anchors_choose`, `Anchors.withPartners`: the lanes of a render are anchored when it starts.
2. `next_eq_of_anchors`: an anchored render goes on, unless there is more urgent work.
3. `Footing.access`: each access leaves every render anchored.
4. `nextLanes_of_undisturbed`: hence a render goes on as long as there is no more urgent work.
5. `render_given_up`: which it does not if actions mix lanes, or the start of another render fails.
-/

namespace ConcurrentRender

open LaneSet (single transitions nonIdle defaultLane idleLane deferred)

namespace LaneSet

variable {s t : LaneSet} {f l : Lane}

theorem toNat_single_le (least : f ≤ l) : (single f).toNat ≤ (single l).toNat := by
  have short (l : Lane) := Nat.mod_eq_of_lt (Nat.pow_lt_pow_right Nat.one_lt_two l.isLt)
  show (BitVec.twoPow 31 f).toNat ≤ (BitVec.twoPow 31 l).toNat
  rw [BitVec.toNat_twoPow, BitVec.toNat_twoPow, short, short]
  exact Nat.pow_le_pow_right Nat.two_pos least

theorem mem_nonIdle : l ∈ nonIdle ↔ l.val < 21 := by
  have bound : ∀ l : Lane, l ∈ nonIdle ↔ l.val < 21 := by decide
  exact bound l

theorem lt_of_mem_transitions (mem : l ∈ transitions) : l.val < 17 := by
  have bound : ∀ l : Lane, l ∈ transitions → l.val < 17 := by decide
  exact bound l mem

theorem transitions_subset_nonIdle : transitions ⊆ nonIdle := fun l mem =>
  mem_nonIdle.mpr (Nat.lt_trans (lt_of_mem_transitions mem) (by decide))

/-- The set has no idle lane besides lanes of transitions. -/
def Unmixed (s : LaneSet) : Prop := s.meets transitions → s ⊆ nonIdle

theorem Unmixed.of_subset (sub : s ⊆ transitions) : s.Unmixed := fun _ l mem =>
  transitions_subset_nonIdle l (sub l mem)

theorem unmixed_single (l : Lane) : (single l).Unmixed := by
  refine fun meets m mem => transitions_subset_nonIdle m ?_
  rw [mem_single.mp mem]
  exact single_meets.mp meets

theorem unmixed_first (s : LaneSet) : s.first.Unmixed := by
  unfold first
  cases s.first? with
  | none => exact .of_subset forall_mem_empty
  | some f => exact unmixed_single f

end LaneSet

namespace LaneLedger

variable {g g' : LaneLedger} {lanes : LaneSet} {l f : Lane}

/-- One of the lanes is pending, and it is not idle, or it is the most urgent of the lanes and not
the deferred lane. -/
def Anchors (g : LaneLedger) (lanes : LaneSet) : Prop :=
  ∃ l ∈ lanes, l ∈ g.pending ∧ (l ∈ nonIdle ∨ lanes.first? = some l ∧ l ≠ deferred)

theorem Anchors.mono (anchors : g.Anchors lanes) (grows : g.pending ⊆ g'.pending) :
    g'.Anchors lanes := by
  obtain ⟨l, mem, pends, first⟩ := anchors
  exact ⟨l, mem, grows l pends, first⟩

/-- A choice is anchored in its most urgent lane. -/
theorem anchors_choose (orderly : g.Orderly) (some : g.choose ≠ ∅) : g.Anchors g.choose := by
  rw [choose_eq orderly] at some ⊢
  have busy : g.candidates ≠ ∅ := fun none => some (by rw [none, LaneSet.batch_empty])
  obtain ⟨f, urgent⟩ := LaneSet.exists_first? busy
  have own : f ≠ deferred := by
    rintro rfl
    exact some (LaneSet.batch_deferred urgent)
  have pends := category_subset f (candidates_subset f (LaneSet.first?_eq_some.mp urgent).1)
  exact ⟨f, LaneSet.mem_batch urgent own, pends, .inr ⟨LaneSet.first?_batch urgent own, own⟩⟩

/-- Lanes entangled with others would be more urgent than an idle lane. -/
theorem Anchors.withPartners (anchors : g.Anchors lanes) (bound : g.entangled ⊆ nonIdle) :
    g.Anchors (g.withPartners lanes) := by
  obtain ⟨l, mem, pends, first⟩ := anchors
  have joins : l ∈ g.withPartners lanes := mem_withPartners.mpr (.inl mem)
  by_cases urgent : l ∈ nonIdle
  · exact ⟨l, joins, pends, .inl urgent⟩
  · obtain ⟨first, own⟩ := first.resolve_left urgent
    refine ⟨l, joins, pends, .inr ⟨?_, own⟩⟩
    have least := (LaneSet.first?_eq_some.mp first).2
    refine LaneSet.first?_eq_some.mpr ⟨joins, fun m partner => ?_⟩
    rcases mem_withPartners.mp partner with mine | ⟨k, mine, entangled, -⟩
    · exact least m mine
    · have late : 21 ≤ l.val := Nat.not_lt.mp (mt LaneSet.mem_nonIdle.mpr urgent)
      have early := LaneSet.mem_nonIdle.mp (bound k entangled)
      have : l.val ≤ k.val := least k mine
      omega

/-- All lanes that are done next are anchored, if those under way are. -/
theorem anchors_next (orderly : g.Orderly) (anchored : lanes = ∅ ∨ g.Anchors lanes)
    (some : g.next lanes ≠ ∅) : g.Anchors (g.next lanes) := by
  unfold next at some ⊢
  dsimp only at some ⊢
  split at some
  next => exact absurd rfl some
  next busy =>
    rw [if_neg busy]
    split at some
    next kept =>
      rw [if_pos kept]
      exact anchored.resolve_left some
    next other =>
      rw [if_neg other]
      exact anchors_choose orderly some

/-- None of the lanes waits, and pending work is more urgent than they are only if it is default
work and their most urgent lane is that of a transition. -/
structure Unchallenged (g : LaneLedger) (lanes : LaneSet) : Prop where
  free : ∀ l ∈ lanes, l ∉ g.suspended
  calm : ∀ f, lanes.first? = some f → ∀ l ∈ g.pending, l < f → l ∈ defaultLane ∧ f ∈ transitions

theorem mem_category_of_nonIdle (pends : l ∈ g.pending) (urgent : l ∈ nonIdle) :
    l ∈ g.category := by
  have mem := LaneSet.mem_inter.mpr ⟨pends, urgent⟩
  unfold category
  rw [if_neg fun none => LaneSet.isEmpty_iff.mp none l mem]
  exact mem

theorem mem_category_of_idle (pends : l ∈ g.pending) (idle : ∀ m ∈ g.pending, m ∉ nonIdle) :
    l ∈ g.category := by
  have none : (g.pending ∩ nonIdle).isEmpty := LaneSet.isEmpty_iff.mpr fun m mem =>
    idle m (LaneSet.mem_inter.mp mem).1 (LaneSet.mem_inter.mp mem).2
  unfold category
  rw [if_pos none]
  exact pends

/-- Where anchored lanes are unchallenged, there is a choice. -/
theorem first?_choose_of_anchors (orderly : g.Orderly) (anchors : g.Anchors lanes)
    (still : g.Unchallenged lanes) : ∃ c ∈ g.pending, g.choose.first? = some c := by
  obtain ⟨l, mem, pends, first⟩ := anchors
  -- Work that is more urgent than idle lanes would be challenging them.
  have among : l ∈ g.category := by
    by_cases urgent : l ∈ nonIdle
    · exact mem_category_of_nonIdle pends urgent
    · refine mem_category_of_idle pends fun m pends' urgent' => ?_
      have early := LaneSet.mem_nonIdle.mp urgent'
      have late := mt LaneSet.mem_nonIdle.mpr urgent
      have ahead : m.val < l.val := by omega
      obtain ⟨-, transition⟩ := still.calm l (first.resolve_left urgent).1 m pends' ahead
      have := LaneSet.lt_of_mem_transitions transition
      omega
  have candidates : g.candidates = g.category \ g.suspended := by
    rcases g.candidates_cases with ⟨blocked, -⟩ | ⟨-, eq⟩
    · exact absurd (blocked l among) (still.free l mem)
    · exact eq
  have candidate : l ∈ g.candidates :=
    candidates ▸ LaneSet.mem_diff.mpr ⟨among, still.free l mem⟩
  obtain ⟨c, least⟩ := LaneSet.exists_first? (LaneSet.ne_empty_of_mem candidate)
  have pends' := category_subset c (candidates_subset c (LaneSet.first?_eq_some.mp least).1)
  have before : c.val ≤ l.val := (LaneSet.first?_eq_some.mp least).2 l candidate
  have own : c ≠ deferred := by
    rintro rfl
    have late : ¬ l.val < 21 := fun early => absurd (Nat.lt_of_le_of_lt before early) (by decide)
    obtain ⟨urgent, own⟩ := first.resolve_left (mt LaneSet.mem_nonIdle.mp late)
    have ahead : deferred < l := Nat.lt_of_le_of_ne before fun same => own (Fin.ext same.symm)
    exact absurd (still.calm l urgent deferred pends' ahead).1 (by decide)
  exact ⟨c, pends', choose_eq orderly ▸ LaneSet.first?_batch least own⟩

/-- Anchored lanes that are unchallenged go on. -/
theorem next_eq_of_anchors (orderly : g.Orderly) (anchors : g.Anchors lanes)
    (still : g.Unchallenged lanes) : g.next lanes = lanes := by
  obtain ⟨c, pends, chosen⟩ := first?_choose_of_anchors orderly anchors still
  obtain ⟨l, mem, -⟩ := anchors
  have some : lanes ≠ ∅ := LaneSet.ne_empty_of_mem mem
  have busy : g.choose ≠ ∅ := by
    intro none
    rw [LaneSet.first?_eq_none.mpr none] at chosen
    cases chosen
  obtain ⟨f, urgent⟩ := LaneSet.exists_first? some
  have free : lanes.meets g.suspended = false := by
    refine Bool.eq_false_iff.mpr fun meets => ?_
    obtain ⟨m, mem, waits⟩ := LaneSet.meets_iff.mp meets
    exact still.free m mem waits
  have wins : (decide (lanes.first.toNat ≤ g.choose.first.toNat) ||
      (g.choose.first == defaultLane && lanes.first.meets transitions)) = true := by
    rw [LaneSet.first_eq urgent, LaneSet.first_eq chosen, Bool.or_eq_true, Bool.and_eq_true]
    by_cases later : f ≤ c
    · exact .inl (decide_eq_true (LaneSet.toNat_single_le later))
    · obtain ⟨default, transition⟩ := still.calm f urgent c pends (Fin.not_le.mp later)
      refine .inr ⟨?_, LaneSet.single_meets.mpr transition⟩
      rw [LaneSet.mem_single.mp default]
      rfl
  unfold next
  dsimp only
  rw [LaneSet.isEmpty_eq_false busy, if_neg Bool.false_ne_true]
  by_cases same : lanes = g.choose
  · split <;> simp [same]
  · refine if_pos ?_
    unfold keeps
    rw [wins, free, LaneSet.isEmpty_eq_false some, bne_iff_ne.mpr same]
    rfl

end LaneLedger

theorem EventPriority.unmixed_lane (priority : EventPriority) : priority.lane.Unmixed := by
  cases priority <;> exact LaneSet.unmixed_single _

namespace LaneSupply

theorem turn_subset (n : Nat) : turn n ⊆ transitions := by
  have cycle : ∀ k : Fin 14, (⟨3 + k, by omega⟩ : Lane) ∈ transitions := by decide
  intro l mem
  rw [LaneSet.mem_single.mp mem]
  exact cycle ⟨n % 14, Nat.mod_lt n (by decide)⟩

/-- The supply keeps lanes of transitions for transitions, without idle ones besides them. -/
structure Stocked (p : LaneSupply) : Prop where
  turn : ∃ n, p.nextTransition = turn n
  shared : p.eventTransition.Unmixed

namespace Stocked

variable {p : LaneSupply} {actions : LaneSet}

theorem eventLane (stocked : p.Stocked) (joins : actions.Unmixed) :
    (p.eventLane actions).1.Unmixed ∧ (p.eventLane actions).2.Stocked := by
  obtain ⟨n, turn⟩ := stocked.turn
  have fresh : p.nextTransition.Unmixed := .of_subset (turn ▸ turn_subset n)
  unfold LaneSupply.eventLane
  split
  · exact ⟨stocked.shared, stocked⟩
  · split
    · refine ⟨fresh, ⟨n + 1, ?_⟩, fresh⟩
      show after p.nextTransition transitions LaneSet.firstTransition = _
      rw [turn, after_turn]
    · exact ⟨joins, stocked.turn, joins⟩

/-- An update that gets a lane of transitions gets no idle one besides. -/
theorem pick (stocked : p.Stocked) {q : Request} (first : q.retry = false)
    (joins : q.actionLane.Unmixed) : (p.pick q).1.Unmixed ∧ (p.pick q).2.Stocked := by
  unfold LaneSupply.pick
  dsimp only
  split
  · exact ⟨LaneSet.unmixed_single _, stocked⟩
  · rw [first, if_neg Bool.false_ne_true]
    split
    · exact ⟨LaneSet.unmixed_first _, stocked⟩
    · split
      · exact stocked.eventLane joins
      · exact ⟨EventPriority.unmixed_lane _, stocked⟩

end Stocked

end LaneSupply

namespace Renderer

variable {r r' : Renderer} {a : Access} {as before between : List Access} {op : Operation}
  {root : RootId} {fiber : FiberId}

/-- Transitions get no idle lanes besides those of transitions, and actions run on no such lanes. -/
structure Supplied (r : Renderer) : Prop where
  stocked : r.supply.Stocked
  actions : ∀ lane, r.actionLane? = some lane → lane.Unmixed

namespace Supplied

theorem of_sameEvent (supplied : r.Supplied) (same : SameEvent r r') : r'.Supplied where
  stocked := ⟨same.turn ▸ supplied.stocked.turn, same.shared ▸ supplied.stocked.shared⟩
  actions := same.lane ▸ supplied.actions

theorem unmixed_actionLane (supplied : r.Supplied) : (r.actionLane?.getD ∅).Unmixed := by
  cases lane : r.actionLane? with
  | none => exact .of_subset LaneSet.forall_mem_empty
  | some lane' => exact supplied.actions lane' lane

theorem endEvent (supplied : r.Supplied) : r.endEvent.Supplied := by
  unfold Renderer.endEvent
  split
  · exact ⟨⟨supplied.stocked.turn, .of_subset LaneSet.forall_mem_empty⟩, supplied.actions⟩
  · exact supplied

theorem pick (supplied : r.Supplied) (fiber : FiberId) :
    (r.laneFor fiber).Unmixed ∧ (r.pickLane (r.request fiber)).2.Supplied := by
  obtain ⟨lane, supply⟩ := supplied.stocked.pick (q := r.request fiber) rfl
    supplied.unmixed_actionLane
  exact ⟨lane, supply, supplied.actions⟩

/-- Actions that start anew run on the lane that a transition would get. -/
theorem entangle (supplied : r.Supplied) (runtime : Bool) :
    (r.next (.entangle runtime)).Supplied := by
  rw [next_entangle]
  have none_joins : (∅ : LaneSet).Unmixed := .of_subset LaneSet.forall_mem_empty
  obtain ⟨lane, supply⟩ := supplied.stocked.eventLane none_joins
  refine endEvent ⟨?_, fun lane' given => ?_⟩
  · dsimp only
    split
    · exact supply
    · exact supplied.stocked
  · cases runtime with
    | false => exact supplied.actions lane' given
    | true =>
      cases scope : r.actions.scope with
      | some s =>
        refine supplied.actions lane' ?_
        rw [← given]
        simp [actionLane?, scope, Actions.entangle]
      | none =>
        have opened : lane' = (r.supply.eventLane ∅).1 := by
          simpa [actionLane?, scope, Actions.entangle, Actions.openScope, eq_comm] using given
        exact opened ▸ lane

theorem next (supplied : r.Supplied) (op : Operation) : (r.next op).Supplied := by
  cases op with
  | enter scope => cases scope <;> exact ⟨supplied.stocked, supplied.actions⟩
  | leave saved =>
    have restored : (r.restore saved).Supplied := by
      cases saved <;> exact ⟨supplied.stocked, supplied.actions⟩
    exact restored.endEvent
  | entangle runtime => exact supplied.entangle runtime
  | settle action =>
    refine ⟨supplied.stocked, fun lane kept => ?_⟩
    rcases actionLane?_settle r action with same | none
    · exact supplied.actions lane (same ▸ kept)
    · exact nomatch none.symm.trans kept
  | dispatch fiber queue payload =>
    exact (supplied.pick fiber).2.of_sameEvent (overlooked_dispatch r fiber queue payload)
  | dispatchQuietly fiber queue payload =>
    exact (supplied.pick fiber).2.of_sameEvent (overlooked_dispatchQuietly r fiber queue payload)
  | forceUpdate fiber => exact (supplied.pick fiber).2.of_sameEvent (overlooked_forceUpdate r fiber)
  | prepare root => exact supplied.of_sameEvent (sameEvent_prepare root r)
  | commit root remaining => exact supplied.of_sameEvent (sameEvent_commit root remaining r)
  | edit | flush | takePending | suspended | pinged | starved | begin | readContext | pushProvider
  | popProvider | rerender | complete =>
    exact supplied.of_sameEvent ⟨rfl, rfl, rfl, rfl, rfl⟩

theorem aside (supplied : r.Supplied) (c : SideCall) : (r.aside c).Supplied := by
  cases c with
  | requestLane fiber => exact (supplied.pick fiber).2
  | requestRetryLane fiber => exact supplied.of_sameEvent (Paced.sameEvent_requestRetryLane r fiber)
  | pooledCache => exact supplied.of_sameEvent (keeps_pooledCache r)
  | createUpdate | writeFiber | bailOut | spreadDeferred | spreadCache | share =>
    exact supplied.of_sameEvent ⟨rfl, rfl, rfl, rfl, rfl⟩

end Supplied

/-! ## What accesses do to ledgers -/

/-- Whatever the access is, it suspends pending lanes only. An access that is none of the calls
leaves the lanes of roots and queues alone, and if it starts actions, these do not run on idle lanes
besides lanes of transitions. -/
def Allows (r : Renderer) : Access → Prop
  | .call (.suspended root lanes) => lanes ⊆ (r.tree.root root).lanes.pending
  | .tree g => r.tree.SameLedgers (g r.tree)
  | .actions g => ∀ lanes, (r.access (.actions g)).actionLane? = some lanes →
    r.actionLane? = some lanes ∨ lanes.Unmixed
  | _ => True

theorem aimed_ledgerCalls (allows : r.Allows (.call op)) (root : RootId) :
    (r.tree.root root).lanes.Aimed (r.ledgerCalls root op) := by
  cases op with
  | suspended about lanes =>
    simp only [ledgerCalls, tells]
    split
    · split
      next mine =>
        subst mine
        exact ⟨fun lanes' same => LedgerCall.suspended.inj same ▸ allows, trivial⟩
      next => trivial
    · trivial
  | _ => exact .of_none fun lanes mem => by cases suspended_of_ledgerCalls mem

/-- What the queues remember and what a call entangles is not idle. -/
theorem bond_subset_nonIdle (supplied : r.Supplied)
    (queues : ∀ q, (r.tree.queue q).lanes ⊆ nonIdle) {queue : QueueId}
    (transition : (r.laneFor fiber).meets transitions) :
    r.bond root queue (r.laneFor fiber) ⊆ nonIdle := by
  intro l mem
  rcases LaneSet.mem_union.mp mem with old | new
  · exact queues queue l (LaneSet.mem_inter.mp old).1
  · exact (supplied.pick fiber).1 transition l new

/-- No idle lanes are entangled or remembered by queues, only pending lanes wait, and every render is
anchored. -/
structure Footing (r : Renderer) : Prop where
  supplied : r.Supplied
  queues : ∀ queue, (r.tree.queue queue).lanes ⊆ nonIdle
  entangled : ∀ root, (r.tree.root root).lanes.entangled ⊆ nonIdle
  orderly : ∀ root, (r.tree.root root).lanes.Orderly
  anchored : ∀ root, r.underWay root = ∅ ∨ (r.tree.root root).lanes.Anchors (r.underWay root)

namespace Footing

theorem queues_next (footing : r.Footing) (op : Operation) (queue : QueueId) :
    ((r.next op).tree.queue queue).lanes ⊆ nonIdle := by
  rw [(ledgers_next r op).2]
  cases op with
  | dispatch fiber q payload =>
    simp only [queueLanes]
    split
    · exact footing.queues queue
    · split
      next transition => exact bond_subset_nonIdle footing.supplied footing.queues transition.1
      next => exact footing.queues queue
  | _ => exact footing.queues queue

theorem entangled_next (footing : r.Footing) (op : Operation) (root : RootId) :
    ((r.next op).tree.root root).lanes.entangled ⊆ nonIdle := by
  rw [(ledgers_next r op).1]
  refine LaneLedger.after_of_call (P := (·.entangled ⊆ nonIdle)) (footing.entangled root)
    fun g bound c mem => ?_
  cases c with
  | entangled lanes =>
    obtain ⟨fiber, queue, _, _, transition, rfl, _⟩ := entangled_of_ledgerCalls mem
    intro l mem
    rcases LaneSet.mem_union.mp mem with old | new
    · exact bound l old
    · exact bond_subset_nonIdle footing.supplied footing.queues transition l new
  | finished remaining => exact fun l mem => bound l (LaneSet.mem_inter.mp mem).1
  | updated | suspended | pinged | starved =>
    rw [(LaneLedger.partners_call rfl rfl).2]
    exact bound

theorem orderly_next (footing : r.Footing) (allows : r.Allows (.call op)) (root : RootId) :
    ((r.next op).tree.root root).lanes.Orderly := by
  rw [(ledgers_next r op).1]
  exact (footing.orderly root).after (aimed_ledgerCalls allows root)

/-- The lanes of a render are anchored when it starts. -/
theorem anchored_prepare (footing : r.Footing) (about root : RootId) :
    (r.next (.prepare about)).underWay root = ∅ ∨
      (r.tree.root root).lanes.Anchors ((r.next (.prepare about)).underWay root) := by
  by_cases idle : (r.nextLanes about).isEmpty
  · have same : r.next (.prepare about) = r := (prepare_of_idle idle).1
    rw [same]
    exact footing.anchored root
  · rw [underWay_prepare idle]
    split
    next mine =>
      subst mine
      have busy : r.nextLanes about ≠ ∅ := fun none => idle (none ▸ rfl)
      have chosen : (r.tree.root about).lanes.Anchors (r.nextLanes about) :=
        LaneLedger.anchors_next (footing.orderly about) (footing.anchored about) busy
      exact .inr (chosen.withPartners (footing.entangled about))
    next => exact .inl rfl

theorem anchored_next (footing : r.Footing) (op : Operation) (root : RootId) :
    (r.next op).underWay root = ∅ ∨
      ((r.next op).tree.root root).lanes.Anchors ((r.next op).underWay root) := by
  have grows (lasting : op.commits root = false) :
      (r.tree.root root).lanes.pending ⊆ ((r.next op).tree.root root).lanes.pending :=
    fun l pends => pending_next pends fun commits => nomatch lasting.symm.trans commits
  cases between : op.startsOrEnds with
  | false =>
    have lasting : op.commits root = false := by
      cases op with
      | commit => cases between
      | _ => rfl
    rw [(sameRender_next between r).underWay]
    exact (footing.anchored root).imp_right fun anchors => anchors.mono (grows lasting)
  | true =>
    cases op with
    | prepare about =>
      exact (footing.anchored_prepare about root).imp_right fun anchors => anchors.mono (grows rfl)
    | commit about remaining => exact .inl (underWay_commit r about remaining root)
    | _ => cases between

/-- What is no call leaves roots and queues as they are. -/
theorem of_sameLedgers (footing : r.Footing) (supplied : r'.Supplied)
    (ledgers : r.tree.SameLedgers r'.tree) (render : r.SameRender r') : r'.Footing where
  supplied := supplied
  queues queue := ledgers.queue queue ▸ footing.queues queue
  entangled root := ledgers.root root ▸ footing.entangled root
  orderly root := ledgers.root root ▸ footing.orderly root
  anchored root := by
    rw [ledgers.root root, render.underWay root]
    exact footing.anchored root

theorem access (footing : r.Footing) (allows : r.Allows a) : (r.access a).Footing := by
  cases a with
  | call op =>
    exact ⟨footing.supplied.next op, footing.queues_next op, footing.entangled_next op,
      footing.orderly_next allows, footing.anchored_next op⟩
  | aside c =>
    exact footing.of_sameLedgers (footing.supplied.aside c) (sameLedgers_aside r c)
      (sameRender_access r rfl)
  | tree g =>
    exact footing.of_sameLedgers ⟨footing.supplied.stocked, footing.supplied.actions⟩ allows
      (sameRender_access r rfl)
  | actions g =>
    refine footing.of_sameLedgers ⟨footing.supplied.stocked, fun lane given => ?_⟩ (.refl _)
      (sameRender_access r rfl)
    exact (allows lane given).elim (footing.supplied.actions lane) id

theorem start {settings : Settings} {registry : ContextRegistry}
    (begins : Renderer.start settings registry = .ok r) : r.Footing := by
  have tree : r.tree = {} := congrArg Staging.tree (staging_start begins)
  have ledger (root : RootId) : (r.tree.root root).lanes = {} := by
    rw [tree]
    exact congrArg Root.lanes (Arena.get_of_not_has (decide_eq_false (Nat.not_lt_zero _)))
  have queue (queue : QueueId) : (r.tree.queue queue).lanes = ∅ := by
    rw [tree]
    exact congrArg UpdateQueue.lanes (Arena.get_of_not_has (decide_eq_false (Nat.not_lt_zero _)))
  refine ⟨?_, fun q => ?_, fun root => ?_, fun root => ?_, fun root => ?_⟩
  · rw [eq_of_start begins]
    exact ⟨⟨⟨0, rfl⟩, .of_subset LaneSet.forall_mem_empty⟩, nofun⟩
  · rw [queue]
    exact LaneSet.forall_mem_empty
  · rw [ledger]
    exact LaneSet.forall_mem_empty
  · rw [ledger]
    exact .start
  · rw [eq_of_start begins]
    exact .inl (if_neg nofun)

end Footing

/-- What the start of a render answers is under way then. -/
theorem underWay_of_prepare {lanes : LaneSet} (answer : (prepare root r).result = .ok lanes)
    (work : lanes ≠ ∅) : (prepare root r).state.underWay root = lanes := by
  have busy : ¬ (r.nextLanes root).isEmpty := by
    intro idle
    rw [(prepare_of_idle idle).2] at answer
    cases answer
    exact work rfl
  exact (underWay_prepare busy root).trans ((if_pos rfl).trans (result_prepare answer).symm)

/-! ## Runs -/

/-- Each access is allowed when it is made. -/
def AllowsAll (r : Renderer) : List Access → Prop
  | [] => True
  | a :: as => r.Allows a ∧ (r.access a).AllowsAll as

theorem Footing.through (footing : r.Footing) (allows : r.AllowsAll as) :
    (r.through as).Footing := by
  induction as generalizing r with
  | nil => exact footing
  | cons a as ih => exact ih (footing.access allows.1) allows.2

/-- The access is a commit, or starts a render that has something to do. -/
def disturbs (r : Renderer) : Access → Bool
  | .call (.commit ..) => true
  | .call (.prepare root) => !(r.nextLanes root).isEmpty
  | _ => false

/-- Nothing is committed, and no render that has something to do is started. -/
def Undisturbed (r : Renderer) : List Access → Prop
  | [] => True
  | a :: as => r.disturbs a = false ∧ (r.access a).Undisturbed as

theorem sameRender_of_not_disturbs (calm : r.disturbs a = false) : SameRender r (r.access a) := by
  cases a with
  | call op =>
    cases op with
    | commit => cases calm
    | prepare root =>
      have idle : (r.nextLanes root).isEmpty := by simpa [disturbs] using calm
      rw [access_prepare, (prepare_of_idle idle).1]
      exact ⟨rfl, rfl⟩
    | _ => exact sameRender_access r rfl
  | aside | tree | actions => exact sameRender_access r rfl

theorem sameRender_of_undisturbed (calm : r.Undisturbed as) : SameRender r (r.through as) := by
  induction as generalizing r with
  | nil => exact ⟨rfl, rfl⟩
  | cons a as ih => exact (sameRender_of_not_disturbs calm.1).trans (ih calm.2)

end Renderer

open Renderer in
/-- After every run that suspends pending lanes only: a render that was started and has something to
do goes on until the next commit or start of a render. As long as none of its lanes waits, and
nothing more urgent than they are is pending but default work during a transition, the lanes to do
next on the root are exactly those of the render. -/
theorem nextLanes_of_undisturbed {settings : Settings} {registry : ContextRegistry} {r₀ : Renderer}
    (begins : start settings registry = .ok r₀) {before between : List Access} {root : RootId}
    {lanes : LaneSet} (allows : r₀.AllowsAll (before ++ .call (.prepare root) :: between))
    (answer : (prepare root (r₀.through before)).result = .ok lanes) (work : lanes ≠ ∅)
    (calm : (prepare root (r₀.through before)).state.Undisturbed between) :
    let r := r₀.through (before ++ .call (.prepare root) :: between)
    (∀ l ∈ lanes, l ∉ (r.tree.root root).lanes.suspended) →
    (∀ f, lanes.first? = some f → ∀ l ∈ (r.tree.root root).lanes.pending, l < f →
      l ∈ defaultLane ∧ f ∈ transitions) →
    r.nextLanes root = lanes := by
  intro r free ahead
  have footing : r.Footing := (Footing.start begins).through allows
  have underWay : r.underWay root = lanes := by
    show (r₀.through (before ++ .call (.prepare root) :: between)).underWay root = lanes
    rw [through_append, through_cons, access_prepare,
      (sameRender_of_undisturbed calm).underWay root]
    exact underWay_of_prepare answer work
  have anchors := (footing.anchored root).resolve_left (underWay ▸ work)
  rw [underWay] at anchors
  rw [nextLanes_eq, underWay]
  exact LaneLedger.next_eq_of_anchors (footing.orderly root) anchors ⟨free, ahead⟩

/-- While a transition is rendered, default work becomes pending, and the render goes on. -/
theorem transition_goes_on :
    let before : List Access := [.call (.edit (.createRoot true)),
      .call (.edit (.createChild ⟨0⟩ .functionComponent)), .call (.enter .transition),
      .call (.forceUpdate ⟨1⟩), .call (.leave .transition)]
    let between : List Access := [.call (.forceUpdate ⟨1⟩)]
    let r := (default : Renderer).through (before ++ .call (.prepare ⟨0⟩) :: between)
    (Renderer.prepare ⟨0⟩ ((default : Renderer).through before)).result = .ok (single 3) ∧
      (r.tree.root ⟨0⟩).lanes.pending = defaultLane ∪ single 3 ∧ r.nextLanes ⟨0⟩ = single 3 := by
  intro before between r
  have begins : Renderer.start {} .start = .ok default := by rfl
  have answer : (Renderer.prepare ⟨0⟩ ((default : Renderer).through before)).result =
      .ok (single 3) := by decide +kernel
  have allows : (default : Renderer).AllowsAll (before ++ .call (.prepare ⟨0⟩) :: between) :=
    ⟨trivial, trivial, trivial, trivial, trivial, trivial, trivial, trivial⟩
  have pending : (r.tree.root ⟨0⟩).lanes.pending = defaultLane ∪ single 3 := by decide +kernel
  have goes := nextLanes_of_undisturbed begins allows answer (by decide) ⟨rfl, trivial⟩
  refine ⟨answer, pending, goes ?_ ?_⟩
  · have free : (r.tree.root ⟨0⟩).lanes.suspended = ∅ := by decide +kernel
    intro l _
    rw [free]
    exact LaneSet.not_mem_empty l
  · rw [pending]
    decide +kernel

/-- Two renders that do not go on, though none of their lanes waits and no more urgent work is pending
but default work during a transition. In the first run actions start on the lane of a transition and
an idle one. The transition is done first, and idle work is rendered together with it. Then another
transition waits, and nothing is to be done next. In the second run the start of a render of another
root fails, and default work is to be done next. -/
theorem render_given_up :
    (let lanes := single 3 ∪ idleLane
      let before : List Access := [.call (.edit (.createRoot true)),
        .call (.edit (.createChild ⟨0⟩ .functionComponent)), .call (.edit (.createQueue ⟨1⟩)),
        .actions fun a => (Actions.entangle true lanes a).state, .call (.enter .transition),
        .call (.dispatch ⟨1⟩ ⟨0⟩ default), .call (.leave .transition), .call (.prepare ⟨0⟩),
        .call (.commit ⟨0⟩ idleLane)]
      let between : List Access := [.call (.settle ⟨0⟩), .call (.enter .transition),
        .aside (.requestLane ⟨1⟩), .call (.leave .transition), .call (.enter .transition),
        .call (.forceUpdate ⟨1⟩), .call (.leave .transition), .call (.suspended ⟨0⟩ (single 4))]
      let started := Renderer.prepare ⟨0⟩ ((default : Renderer).through before)
      let r := started.state.through between
      started.result = .ok lanes ∧ started.state.Undisturbed between ∧
        (r.tree.root ⟨0⟩).lanes.pending = single 4 ∪ idleLane ∧
        (r.tree.root ⟨0⟩).lanes.Unchallenged lanes ∧ r.nextLanes ⟨0⟩ = ∅) ∧
    (let before : List Access := [.call (.edit (.createRoot true)),
        .call (.edit (.createRoot true)), .call (.edit (.createChild ⟨0⟩ .functionComponent)),
        .call (.edit (.createChild ⟨1⟩ .functionComponent)),
        .call (.edit (.createFiber .functionComponent true)), .call (.enter .transition),
        .call (.forceUpdate ⟨2⟩), .call (.leave .transition)]
      let between : List Access :=
        [.call (.forceUpdate ⟨2⟩), .call (.forceUpdate ⟨3⟩), .call (.forceUpdate ⟨4⟩)]
      let started := Renderer.prepare ⟨0⟩ ((default : Renderer).through before)
      let failed := Renderer.prepare ⟨1⟩ (started.state.through between)
      let r := failed.state
      started.result = .ok (single 3) ∧ started.state.Undisturbed between ∧
        failed.result = .error (.notAttachedToRoot ⟨4⟩ ⟨4⟩) ∧
        (r.tree.root ⟨0⟩).lanes.pending = defaultLane ∪ single 3 ∧
        (r.tree.root ⟨0⟩).lanes.Unchallenged (single 3) ∧ r.nextLanes ⟨0⟩ = defaultLane) := by
  constructor
  · intro lanes before between started r
    have free : ∀ l ∈ lanes, l ∉ (r.tree.root ⟨0⟩).lanes.suspended := by decide +kernel
    have calm : ∀ f, lanes.first? = some f → ∀ l ∈ (r.tree.root ⟨0⟩).lanes.pending, l < f →
        l ∈ defaultLane ∧ f ∈ transitions := by decide +kernel
    exact ⟨by decide +kernel, ⟨rfl, rfl, rfl, rfl, rfl, rfl, rfl, rfl, trivial⟩,
      by decide +kernel, ⟨free, calm⟩, by decide +kernel⟩
  · intro before between started failed r
    have free : ∀ l ∈ single 3, l ∉ (r.tree.root ⟨0⟩).lanes.suspended := by decide +kernel
    have calm : ∀ f, (single 3).first? = some f → ∀ l ∈ (r.tree.root ⟨0⟩).lanes.pending, l < f →
        l ∈ defaultLane ∧ f ∈ transitions := by decide +kernel
    exact ⟨by decide +kernel, ⟨rfl, rfl, rfl, trivial⟩, by decide +kernel, by decide +kernel,
      ⟨free, calm⟩, by decide +kernel⟩

end ConcurrentRender
