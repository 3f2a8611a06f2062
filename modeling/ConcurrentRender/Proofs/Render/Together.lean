import ConcurrentRender.Proofs.Render.Aside

/-!
# Transitions on one queue

Each time a transition is made for a queue, it is entangled with the earlier ones that the queue
remembers and that are still pending. Lanes are used again and again, roots forget what is
finished, and queues forget only when the next transition comes. Still, the transitions of a
queue whose lanes every commit has left pending are rendered together.

* `LaneLedger.Ties g s`: the lanes of `s` are pending, and each has all of them as partners.
* `Renderer.Binds r root queue s`: so it is on the root, and the queue remembers them.
* `Renderer.Standing root queue r₀ r ds`: a run leads from `r₀` to `r` in which all updates for the
  queue are made through fibers below the root. Of the transitions made for the queue in it, `ds`
  are those whose lanes every later commit of the root left pending.

Results:
1. `Ties.call`: lanes stay tied as long as they are left pending.
2. `Binds.next_transition`: a transition made for the queue is tied to all that are.
3. `Standing.binds`: along a run, the standing transitions of the queue are tied.
4. `standing_together`: hence they are rendered together.
-/

namespace ConcurrentRender

namespace LaneLedger

variable {g : LaneLedger} {s : LaneSet} {calls : List LedgerCall}

/-- All of the lanes are pending, and are rendered whenever one of them is. -/
structure Ties (g : LaneLedger) (s : LaneSet) : Prop where
  pending : s ⊆ g.pending
  entangled : s ⊆ g.entangled
  partners : ∀ l ∈ s, s ⊆ g.partners.get l

namespace Ties

theorem empty (g : LaneLedger) : g.Ties ∅ where
  pending := LaneSet.forall_mem_empty
  entangled := LaneSet.forall_mem_empty
  partners := LaneSet.forall_mem_empty

theorem mono {s' : LaneSet} (ties : g.Ties s) (sub : s' ⊆ s) : g.Ties s' where
  pending l mem := ties.pending l (sub l mem)
  entangled l mem := ties.entangled l (sub l mem)
  partners l mem m mem' := ties.partners l (sub l mem) m (sub m mem')

theorem call {c : LedgerCall} (ties : g.Ties s)
    (left : ∀ remaining, c = .finished remaining → s ⊆ remaining) : (g.call c).Ties s where
  pending l mem :=
    mem_pending_call (ties.pending l mem) fun remaining finish => left remaining finish l mem
  entangled l mem :=
    mem_entangled_call (ties.entangled l mem) fun remaining finish => left remaining finish l mem
  partners l mem m mem' :=
    mem_partners_call (ties.partners l mem m mem') fun remaining finish =>
      left remaining finish l mem

theorem after (ties : g.Ties s)
    (left : ∀ remaining, .finished remaining ∈ calls → s ⊆ remaining) :
    (g.after calls).Ties s :=
  after_of_call (P := (·.Ties s)) ties fun _ ties _ mem =>
    ties.call fun remaining finish => left remaining (finish ▸ mem)

/-- Pending lanes are tied by being entangled, whatever was entangled before. -/
theorem of_markEntangled (pending : s ⊆ g.pending) : (g.markEntangled s).Ties s where
  pending := pending
  entangled _ mem := LaneSet.mem_union.mpr (.inr mem)
  partners _ mem _ mem' := mem_partners_markEntangled.mpr (.inr ⟨mem', .inl mem⟩)

theorem subset_withPartners {t : LaneSet} (ties : g.Ties s) (part : t ⊆ s)
    (some : ∃ l : Lane, l ∈ t) : s ⊆ g.withPartners t := by
  intro m mem
  obtain ⟨l, hl⟩ := some
  have tied := part l hl
  exact mem_withPartners.mpr (.inr ⟨l, hl, ties.entangled l tied, ties.partners l tied m mem⟩)

end Ties

end LaneLedger

/-- The call is a commit of the root. -/
def Operation.commits (root : RootId) : Operation → Bool
  | .commit about _ => about == root
  | _ => false

namespace Renderer

variable {r : Renderer} {root : RootId} {queue : QueueId} {s : LaneSet} {op : Operation}
  {ops : List Operation}

/-! ## Standing transitions -/

/-- The transition that the call makes for the queue. -/
def transition? (r : Renderer) (queue : QueueId) : Operation → Option Dispatched
  | .dispatch fiber q payload =>
    match (dispatch fiber q payload r).result with
    | .ok d => if q = queue ∧ d.lane.meets LaneSet.transitions then some d else none
    | .error _ => none
  | _ => none

/-- The transitions that stand after the call: those that stood before, but for those that a commit
of the root does not leave pending, and the one that is made. -/
def stand (r : Renderer) (root : RootId) (queue : QueueId) (ds : List Dispatched)
    (op : Operation) : List Dispatched :=
  let left := ((r.next op).tree.root root).lanes.pending
  ds.filter (fun d => !op.commits root || d.lane.within left) ++ (r.transition? queue op).toList

/-- A call that makes an update for the queue does so through a fiber below the root. -/
def serves (r : Renderer) (root : RootId) (queue : QueueId) : Operation → Bool
  | .dispatch fiber q _ =>
    q != queue || r.tree.queues.has queue && r.tree.roots.has root &&
      r.tree.findRoot? fiber == some root
  | _ => true

/-- A run from `r₀` to `r` in which all updates for the queue are made through fibers below the
root, with the transitions of the queue that stand after it.

* `call`: an operation.
* `told`: a root is told something by itself, but not that lanes are finished.
* `apart`: whatever leaves the lanes of roots and queues alone. -/
inductive Standing (root : RootId) (queue : QueueId) (r₀ : Renderer) :
    Renderer → List Dispatched → Prop
  | start : Standing root queue r₀ r₀ []
  | call {r : Renderer} {ds : List Dispatched} (op : Operation) :
      Standing root queue r₀ r ds → r.serves root queue op →
      Standing root queue r₀ (r.next op) (r.stand root queue ds op)
  | told {r : Renderer} {ds : List Dispatched} (about : RootId) (c : LedgerCall) :
      Standing root queue r₀ r ds → c.finishes = false →
      Standing root queue r₀ (r.setTree (·.setRootLanes about (·.call c))) ds
  | apart {r r' : Renderer} {ds : List Dispatched} :
      Standing root queue r₀ r ds → r.tree.SameLedgers r'.tree → Standing root queue r₀ r' ds

theorem serves_dispatch {fiber : FiberId} {payload : Payload} :
    r.serves root queue (.dispatch fiber queue payload) ↔ r.tree.queues.has queue ∧
      r.tree.roots.has root ∧ r.tree.findRoot? fiber = some root := by
  simp [serves, and_assoc]

theorem mem_stand {ds : List Dispatched} {d : Dispatched} : d ∈ r.stand root queue ds op ↔
    d ∈ ds ∧ (op.commits root → d.lane ⊆ ((r.next op).tree.root root).lanes.pending) ∨
      r.transition? queue op = some d := by
  rw [stand, List.mem_append, List.mem_filter, Bool.or_eq_true, LaneSet.within_iff]
  cases op.commits root <;> simp

theorem exists_lane_of_transition {d : Dispatched} (made : r.transition? queue op = some d) :
    ∃ l : Lane, l ∈ d.lane := by
  cases op with
  | dispatch fiber q payload =>
    simp only [transition?] at made
    split at made
    · split at made
      next h =>
        cases made
        obtain ⟨l, mem, _⟩ := LaneSet.meets_iff.mp h.2
        exact ⟨l, mem⟩
      next => cases made
    · cases made
  | _ => cases made

/-- What follows when a change was staged is reached only if commits do not go on for ever. -/
theorem ok_of_enqueue {α : Type} {entry : StagedUpdate} {rest : Option RootId → StepM Renderer α}
    {a : α} (answer : ((onStaging (Staging.enqueue entry) >>= rest) r).result = .ok a) :
    r.staging.buffer.streak.exhausted = false ∧
      ∃ s, (rest (r.tree.findRoot? entry.fiber) s).result = .ok a := by
  have run := run_bind_enqueue r entry rest
  split at run
  next => cases answer.symm.trans run.2
  next going => exact ⟨Bool.eq_false_iff.mpr going, _, run.2.symm.trans answer⟩

/-- An update that was made answers its lane, and the root above its fiber was told. -/
theorem answer_of_dispatch {fiber : FiberId} {payload : Payload} {d : Dispatched}
    (answer : (dispatch fiber queue payload r).result = .ok d) :
    d.lane = r.laneFor fiber ∧ r.told? fiber = r.tree.findRoot? fiber := by
  unfold dispatch requestLane at answer
  rw [StepM.run_take_bind, run_createUpdate] at answer
  obtain ⟨going, s, rested⟩ := ok_of_enqueue answer
  have streak : r.staging.buffer.streak.exhausted = false := going
  refine ⟨?_, by rw [told?, streak, if_neg Bool.false_ne_true]⟩
  split at rested <;> cases rested <;> rfl

/-! ## Lanes that are tied -/

/-- The lanes are tied on the root, and the queue remembers them. -/
structure Binds (r : Renderer) (root : RootId) (queue : QueueId) (s : LaneSet) : Prop where
  ties : (r.tree.root root).lanes.Ties s
  remembered : s ⊆ (r.tree.queue queue).lanes

/-- What a call finishes on the root is all that a commit of the root does not leave pending. -/
theorem finished_of_ledgerCalls {remaining : LaneSet}
    (finish : .finished remaining ∈ r.ledgerCalls root op) :
    op.commits root ∧ ((r.next op).tree.root root).lanes.pending = remaining := by
  have told := (ledgers_next r op).1 root
  unfold ledgerCalls at finish told
  split at finish
  next there =>
    rw [if_pos there] at told
    cases op with
    | commit about left =>
      simp only [tells] at finish told
      split at finish
      next mine =>
        rw [if_pos mine] at told
        cases List.mem_singleton.mp finish
        exact ⟨beq_iff_eq.mpr mine, congrArg LaneLedger.pending told⟩
      next => exact absurd finish List.not_mem_nil
    | _ => simp [tells] at finish
  next => exact absurd finish List.not_mem_nil

/-- A queue forgets a lane only if the next update is told to a root where it is not pending. -/
theorem mem_queueLanes {l : Lane} (remembered : l ∈ (r.tree.queue queue).lanes)
    (pends : ∀ fiber payload about, op = .dispatch fiber queue payload →
      r.told? fiber = some about → l ∈ (r.tree.root about).lanes.pending) :
    l ∈ r.queueLanes queue op := by
  cases op with
  | dispatch fiber q payload =>
    simp only [queueLanes]
    cases told : r.told? fiber with
    | none => exact remembered
    | some about =>
      dsimp only
      split
      next h =>
        have pends := pends fiber payload about (h.2.1 ▸ rfl) told
        exact LaneSet.mem_union.mpr (.inl (LaneSet.mem_inter.mpr ⟨remembered, pends⟩))
      next => exact remembered
  | _ => exact remembered

/-- Where all updates for the queue are made below the root, only the root is told about them. -/
theorem told_of_serves {fiber : FiberId} {payload : Payload} {about : RootId}
    (serves : r.serves root queue (.dispatch fiber queue payload))
    (told : r.told? fiber = some about) : about = root := by
  have found : r.tree.findRoot? fiber = some about := by
    unfold told? at told
    split at told
    · cases told
    · exact told
  exact Option.some.inj (found.symm.trans (serves_dispatch.mp serves).2.2)

namespace Binds

theorem empty (r : Renderer) (root : RootId) (queue : QueueId) : r.Binds root queue ∅ :=
  ⟨.empty _, LaneSet.forall_mem_empty⟩

theorem mono {s' : LaneSet} (binds : r.Binds root queue s) (sub : s' ⊆ s) :
    r.Binds root queue s' :=
  ⟨binds.ties.mono sub, fun l mem => binds.remembered l (sub l mem)⟩

theorem of_sameLedgers {r' : Renderer} (binds : r.Binds root queue s)
    (same : r.tree.SameLedgers r'.tree) : r'.Binds root queue s := by
  refine ⟨?_, ?_⟩
  · rw [same.root]
    exact binds.ties
  · rw [same.queue]
    exact binds.remembered

theorem told {c : LedgerCall} (binds : r.Binds root queue s) (about : RootId)
    (lasting : c.finishes = false) :
    (r.setTree (·.setRootLanes about (·.call c))).Binds root queue s := by
  have unfinished : ∀ remaining, c ≠ .finished remaining := by
    rintro remaining rfl
    cases lasting
  have ledger := Tree.lanes_setRootLanes r.tree about root (·.call c)
  refine ⟨?_, binds.remembered⟩
  show (((r.tree.setRootLanes about (·.call c)).root root).lanes).Ties s
  rw [ledger]
  split
  · exact binds.ties.call fun remaining finish => absurd finish (unfinished remaining)
  · exact binds.ties

/-- Lanes that a call leaves pending stay tied. -/
theorem next (binds : r.Binds root queue s) (serves : r.serves root queue op)
    (left : op.commits root → s ⊆ ((r.next op).tree.root root).lanes.pending) :
    (r.next op).Binds root queue s := by
  obtain ⟨ledger, lanes⟩ := ledgers_next r op
  constructor
  · rw [ledger]
    refine binds.ties.after fun remaining finish => ?_
    obtain ⟨commits, pending⟩ := finished_of_ledgerCalls finish
    exact pending ▸ left commits
  · intro l mem
    rw [lanes]
    refine mem_queueLanes (binds.remembered l mem) ?_
    rintro fiber payload about rfl told
    exact told_of_serves serves told ▸ binds.ties.pending l mem

/-- What a call leaves pending of tied lanes stays tied. -/
theorem kept (binds : r.Binds root queue s) (serves : r.serves root queue op) :
    ∃ s', (r.next op).Binds root queue s' ∧ ∀ t, t ⊆ s →
      (op.commits root → t ⊆ ((r.next op).tree.root root).lanes.pending) → t ⊆ s' := by
  cases commits : op.commits root with
  | true =>
    let left := ((r.next op).tree.root root).lanes.pending
    have part := binds.mono fun l mem => (LaneSet.mem_inter (t := left).mp mem).1
    refine ⟨s ∩ left, part.next serves fun _ l mem => (LaneSet.mem_inter.mp mem).2, ?_⟩
    exact fun t sub pends l mem => LaneSet.mem_inter.mpr ⟨sub l mem, pends rfl l mem⟩
  | false =>
    refine ⟨s, binds.next serves fun now => ?_, fun _ sub _ => sub⟩
    cases commits.symm.trans now

/-- A transition that is made for the queue is tied to all that are. -/
theorem next_transition {d : Dispatched} (binds : r.Binds root queue s)
    (serves : r.serves root queue op) (made : r.transition? queue op = some d) :
    (r.next op).Binds root queue (s ∪ d.lane) := by
  obtain ⟨ledger, lanes⟩ := ledgers_next r op
  cases op with
  | dispatch fiber q payload =>
    simp only [transition?] at made
    cases answer : (dispatch fiber q payload r).result with
    | error e => simp [answer] at made
    | ok answered =>
      obtain ⟨⟨rfl, transition⟩, rfl⟩ := by simpa [answer] using made
      obtain ⟨lane, told⟩ := answer_of_dispatch answer
      obtain ⟨hasQueue, hasRoot, found⟩ := serves_dispatch.mp serves
      rw [found] at told
      rw [lane] at transition ⊢
      have joins : s ∪ r.laneFor fiber ⊆ r.bond root q (r.laneFor fiber) := by
        intro l mem
        rcases LaneSet.mem_union.mp mem with before | new
        · exact LaneSet.mem_union.mpr (.inl (LaneSet.mem_inter.mpr
            ⟨binds.remembered l before, binds.ties.pending l before⟩))
        · exact LaneSet.mem_union.mpr (.inr new)
      constructor
      · rw [ledger]
        simp only [ledgerCalls, tells, hasRoot, told, transition, if_true]
        have pends := r.bond_subset root q (r.laneFor fiber)
        exact LaneLedger.Ties.mono (LaneLedger.Ties.of_markEntangled pends) joins
      · rw [lanes]
        simp only [queueLanes, told, transition, hasQueue, and_self, if_true]
        exact joins
  | _ => cases made

end Binds

/-! ## Runs -/

/-- All updates for the queue are made through fibers below the root. -/
def servesAll (r : Renderer) (root : RootId) (queue : QueueId) : List Operation → Bool
  | [] => true
  | op :: ops => r.serves root queue op && (r.next op).servesAll root queue ops

/-- The transitions that stand after several calls. -/
def standAll (r : Renderer) (root : RootId) (queue : QueueId) (ds : List Dispatched) :
    List Operation → List Dispatched
  | [] => ds
  | op :: ops => (r.next op).standAll root queue (r.stand root queue ds op) ops

namespace Standing

/-- Along every run, the standing transitions are tied. -/
theorem binds {r₀ : Renderer} {ds : List Dispatched} (run : Standing root queue r₀ r ds) :
    ∃ s, r.Binds root queue s ∧ ∀ d ∈ ds, d.lane ⊆ s ∧ ∃ l : Lane, l ∈ d.lane := by
  induction run with
  | start => exact ⟨∅, .empty r₀ root queue, List.forall_mem_nil _⟩
  | @call r ds op _ serves ih =>
    obtain ⟨s, binds, all⟩ := ih
    cases made : r.transition? queue op with
    | some d =>
      refine ⟨s ∪ d.lane, binds.next_transition serves made, fun e mem => ?_⟩
      rcases mem_stand.mp mem with ⟨before, _⟩ | now
      · obtain ⟨sub, some⟩ := all e before
        exact ⟨fun l hl => LaneSet.mem_union.mpr (.inl (sub l hl)), some⟩
      · obtain rfl : d = e := Option.some.inj (made.symm.trans now)
        exact ⟨fun l hl => LaneSet.mem_union.mpr (.inr hl), exists_lane_of_transition made⟩
    | none =>
      obtain ⟨s', binds', kept⟩ := binds.kept serves
      refine ⟨s', binds', fun e mem => ?_⟩
      rcases mem_stand.mp mem with ⟨before, left⟩ | now
      · obtain ⟨sub, some⟩ := all e before
        exact ⟨kept e.lane sub left, some⟩
      · cases made.symm.trans now
  | told about c _ lasting ih =>
    obtain ⟨s, binds, all⟩ := ih
    exact ⟨s, binds.told about lasting, all⟩
  | apart _ same ih =>
    obtain ⟨s, binds, all⟩ := ih
    exact ⟨s, binds.of_sameLedgers same, all⟩

/-- Several operations, one after the other. -/
theorem after {r₀ : Renderer} {ds : List Dispatched} (run : Standing root queue r₀ r ds)
    (serves : r.servesAll root queue ops) :
    Standing root queue r₀ (r.after ops) (r.standAll root queue ds ops) := by
  induction ops generalizing r ds with
  | nil => exact run
  | cons op ops ih =>
    obtain ⟨served, serves⟩ := Bool.and_eq_true_iff.mp serves
    exact ih (run.call op served) serves

end Standing

end Renderer

open Renderer in
/-- Of the transitions made for one queue through fibers below one root, those whose lanes every
later commit of the root left pending are rendered together: each of them whenever another one
is. -/
theorem standing_together {r₀ r : Renderer} {root : RootId} {queue : QueueId}
    {ds : List Dispatched} (run : Standing root queue r₀ r ds) :
    let g := (r.tree.root root).lanes
    ∀ d ∈ ds, ∀ e ∈ ds, e.lane ⊆ g.withPartners d.lane ∧ d.lane ⊆ g.withPartners e.lane := by
  intro g d hd e he
  obtain ⟨s, binds, all⟩ := run.binds
  obtain ⟨dTied, dSome⟩ := all d hd
  obtain ⟨eTied, eSome⟩ := all e he
  have together : ∀ {x y : LaneSet}, x ⊆ s → y ⊆ s → (∃ l : Lane, l ∈ y) →
      x ⊆ g.withPartners y :=
    fun hx hy some l mem => binds.ties.subset_withPartners hy some l (hx l mem)
  exact ⟨together eTied dTied dSome, together dTied eTied eSome⟩

/-- Three transitions are made for a queue. They are rendered, context changes are spread, and a
commit finishes the second one. The other two are still rendered together. -/
theorem together_of_three_transitions :
    let transition : List Operation :=
      [.enter .transition, .dispatch ⟨1⟩ ⟨0⟩ .unit, .leave .transition]
    let work := [.edit (.createRoot true), .edit (.createChild ⟨0⟩ .functionComponent),
      .edit (.createQueue ⟨1⟩)] ++ transition ++ transition ++ transition ++ [.prepare ⟨0⟩]
    let finish := [Operation.commit ⟨0⟩ (.single 3 ∪ .single 5)]
    let spread := ((default : Renderer).after work).aside (.bailOut ⟨2⟩)
    let r := spread.after finish
    let g := (r.tree.root ⟨0⟩).lanes
    let ds : List Dispatched := [{ update := ⟨0⟩, lane := .single 3, root := some ⟨0⟩ },
      { update := ⟨2⟩, lane := .single 5, root := some ⟨0⟩ }]
    Renderer.Standing ⟨0⟩ ⟨0⟩ default r ds ∧
      .single 5 ⊆ g.withPartners (.single 3) ∧ .single 3 ⊆ g.withPartners (.single 5) := by
  intro transition work finish spread r g ds
  let made := (default : Renderer).standAll ⟨0⟩ ⟨0⟩ [] work
  have worked : Renderer.Standing ⟨0⟩ ⟨0⟩ default spread made :=
    (Renderer.Standing.start.after (by decide +kernel)).apart (Renderer.sameLedgers_aside _ _)
  have run : Renderer.Standing ⟨0⟩ ⟨0⟩ default r (spread.standAll ⟨0⟩ ⟨0⟩ made finish) :=
    worked.after (by decide +kernel)
  have standing : spread.standAll ⟨0⟩ ⟨0⟩ made finish = ds := by decide +kernel
  rw [standing] at run
  exact ⟨run, standing_together run ds[0] (by decide) ds[1] (by decide)⟩

end ConcurrentRender
