import ConcurrentRender.Proofs.Render.Outlived
import ConcurrentRender.Proofs.Render.OwnLanes

/-!
# Staged work is scheduled

Until the next flush, nothing above the fiber of a staged change shows that there is work. A render
gets to it only because the buffer remembers its lane and the root above the fiber was told.
Meanwhile other roots are told and committed, and a commit of the root replaces what is pending by
what its caller leaves. It adds what the buffer remembers, so that staged work is never lost.

* `Booking`: a staged change, with the root that was found when it was made.
* `Renderer.Books r₀ r bs`: a run leads from `r₀` to `r`, and `bs` are the changes staged in it
  since the last flush.

Results:
1. `Tree.RootsThere.apply`: a fiber never stands for a root that is not there.
2. `staged_next`: what is staged after a call.
3. `pending_of_told`: a root that is told has the lane pending.
4. `scheduled_of_books`: hence all that is staged is remembered, and pending on the root that was
   found for it.
-/

namespace ConcurrentRender

namespace Tree

variable {t t' t'' : Tree}

/-- The roots that fibers stand for are there. -/
def RootsThere (t : Tree) : Prop :=
  ∀ f r, (t.fiber f).inst = some (.root r) → t.roots.has r

/-- Fibers of `t'` stand for no roots but those that fibers of `t` stand for. -/
def Inherits (t t' : Tree) : Prop :=
  ∀ f r, (t'.fiber f).inst = some (.root r) → ∃ h, (t.fiber h).inst = some (.root r)

namespace Inherits

theorem of_inst (same : ∀ f, (t'.fiber f).inst = (t.fiber f).inst) : Inherits t t' :=
  fun f _ stands => ⟨f, (same f).symm.trans stands⟩

theorem refl (t : Tree) : Inherits t t := of_inst fun _ => rfl

theorem trans (h : Inherits t t') (h' : Inherits t' t'') : Inherits t t'' := by
  intro f r stands
  obtain ⟨f', stands'⟩ := h' f r stands
  exact h f' r stands'

/-- A change after which the fiber stands for no other root. -/
theorem setFiber (h : Inherits t t') {f : FiberId} {g : Fiber → Fiber}
    (hg : ∀ r, (g (t'.fiber f)).inst = some (.root r) →
      ∃ h, (t.fiber h).inst = some (.root r)) : Inherits t (t'.setFiber f g) := by
  intro k r stands
  rw [fiber_setFiber] at stands
  split at stands
  next changed => exact hg r (changed.1 ▸ stands)
  next => exact h k r stands

theorem keepFiber {g : Fiber → Fiber} (hg : ∀ x, (g x).inst = x.inst) (t : Tree) (f : FiberId) :
    Inherits t (t.setFiber f g) :=
  (refl t).setFiber fun _ stands => ⟨f, (hg _).symm.trans stands⟩

theorem createFiber (t : Tree) (tag : Tag) (concurrent : Bool) :
    Inherits t (t.createFiber tag concurrent).2 :=
  of_inst (Arena.read_add Fiber.inst t.fibers { tag, concurrent } rfl)

theorem placewise : Placewise Inherits where
  refl := refl
  trans := trans
  setFiber {k} hk t f := by
    have kept := fun x => congrArg Fiber.inst (hk x)
    exact keepFiber (g := k) kept t f

theorem ensureTwin (t : Tree) (f : FiberId) : Inherits t (t.ensureTwin f).2 := by
  unfold Tree.ensureTwin
  dsimp only
  split
  · exact refl t
  · let made := (t.createFiber (t.fiber f).tag (t.fiber f).concurrent).2
    let linked := made.setFiber t.fibers.next fun y => { y with twin := some f }
    have links : Inherits made linked := keepFiber (fun _ => by rfl) made _
    exact (createFiber t _ _).trans (links.trans (keepFiber (fun _ => by rfl) linked f))

/-- The twin stands for what the fiber stands for. -/
theorem startTwin (t : Tree) (f : FiberId) (value : Option Value) :
    Inherits t (t.startTwin f value).2 :=
  (ensureTwin t f).setFiber fun _ stands => ⟨f, stands⟩

theorem createBoundary (t : Tree) (f : FiberId) (visible : Bool) :
    Inherits t (t.createBoundary f visible).2 := by
  let added : Tree := { t with boundaries := t.boundaries.add { visible } }
  have first : Inherits t (added.setFiber f fun x =>
      { x with inst := some (.boundary t.boundaries.next) }) :=
    (show Inherits t added from refl t).setFiber fun _ stands => nomatch stands
  unfold Tree.createBoundary Tree.setTwins
  dsimp only
  split
  · exact first
  · exact first.setFiber fun _ stands => nomatch stands

end Inherits

namespace RootsThere

theorem of_inherits (h : t.RootsThere) (grows : t.roots.size ≤ t'.roots.size)
    (inherits : t.Inherits t') : t'.RootsThere := by
  intro f r stands
  obtain ⟨k, before⟩ := inherits f r stands
  exact Arena.has_of_size_le grows (h k r before)

/-- The fiber at the top of a new root stands for the root. -/
theorem createRoot (h : t.RootsThere) (concurrent : Bool) :
    (t.createRoot concurrent).2.RootsThere := by
  intro f r stands
  let made := (t.createFiber .hostRoot concurrent).2
  have stands : ((made.setFiber t.fibers.next fun x =>
      { x with inst := some (.root t.roots.next) }).fiber f).inst = some (.root r) := stands
  refine Arena.has_add.mpr ?_
  rw [fiber_setFiber] at stands
  split at stands
  · cases stands
    exact .inl rfl
  · obtain ⟨k, before⟩ := Inherits.createFiber t .hostRoot concurrent f r stands
    exact .inr (h k r before)

end RootsThere

end Tree

namespace Move

variable {s : Staging} {m : Move}

/-- Only a new root gives a fiber a root to stand for. -/
theorem inherits_edit {e : TreeEdit} (h : ∀ concurrent, e ≠ .createRoot concurrent) (t : Tree) :
    t.Inherits (e.apply t) := by
  cases e with
  | createRoot concurrent => exact absurd rfl (h concurrent)
  | createFiber tag concurrent => exact .createFiber t tag concurrent
  | createChild p tag =>
    exact (Tree.Inherits.createFiber t tag _).trans (Tree.Inherits.placewise.appendChild _ p _)
  | appendChild p c => exact Tree.Inherits.placewise.appendChild t p c
  | startTwin f value => exact .startTwin t f value
  | detach f => exact Tree.Inherits.placewise.detach t f
  | clearLanes f => exact .keepFiber (fun _ => by rfl) t f
  | createQueue owner =>
    let added : Tree := { t with queues := t.queues.add { owner } }
    exact (show t.Inherits added from .refl t).trans (.keepFiber (fun _ => by rfl) added owner)
  | createBoundary f visible => exact .createBoundary t f visible
  | setVisible => exact .refl t
  | reveal b lanes =>
    exact .of_inst (Tree.SameShape.of_fibers_eq (t.frame_reveal b lanes).1).inst

theorem inherits_apply (h : ∀ concurrent, m ≠ .edit (.createRoot concurrent)) :
    s.tree.Inherits (m.apply s).tree := by
  cases m with
  | edit e => exact inherits_edit (fun concurrent same => h concurrent (same ▸ rfl)) s.tree
  | schedule fiber queue payload made lane =>
    exact .of_inst (Tree.sameShape_addLanes (s.tree.createUpdate made payload).2 fiber lane).inst
  | force fiber lane => exact .of_inst (Tree.sameShape_addLanes s.tree fiber lane).inst
  | flush =>
    show s.tree.Inherits (Staging.flush s).state.tree
    rw [(Staging.flush_eq s).1]
    exact .of_inst (Staging.sameShape_settleEach _ _).inst
  | entangle root queue lane =>
    simp only [apply]
    split <;> exact .refl s.tree
  | notes fiber g => exact .keepFiber (fun _ => by rfl) s.tree fiber
  | take | ledger | current | pooled | streak => exact .refl s.tree

theorem rootsThere_apply (h : s.tree.RootsThere) (m : Move) : (m.apply s).tree.RootsThere := by
  by_cases adds : ∃ concurrent, m = .edit (.createRoot concurrent)
  · obtain ⟨concurrent, rfl⟩ := adds
    exact h.createRoot concurrent
  · exact h.of_inherits (Renderer.size_roots_apply s m)
      (inherits_apply fun concurrent same => adds ⟨concurrent, same⟩)

theorem rootsThere_applyAll (h : s.tree.RootsThere) (ms : List Move) :
    (applyAll s ms).tree.RootsThere := by
  induction ms generalizing s with
  | nil => exact h
  | cons m ms ih => exact ih (rootsThere_apply h m)

end Move

/-- A staged change, with the root that was found when it was made. -/
structure Booking where
  entry : StagedUpdate
  root : Option RootId
deriving DecidableEq

namespace Renderer

variable {r r' : Renderer} {root : RootId} {op : Operation} {fiber : FiberId} {queue : QueueId}
  {payload : Payload}

/-- What the call stages, and the root that it answers. An update that changes nothing has no lane,
and no root is looked for. -/
def booking? (r : Renderer) : Operation → Option Booking
  | .dispatch fiber queue payload => some
    { entry := { fiber, queue, update := r.tree.updates.next, lane := r.laneFor fiber }
      root := (dispatch fiber queue payload r).result.toOption.bind (·.root) }
  | .dispatchQuietly fiber queue _ => some
    { entry := { fiber, queue, update := r.tree.updates.next, lane := ∅ }
      root := none }
  | .forceUpdate fiber => some
    { entry := { fiber, lane := r.laneFor fiber }
      root := (forceUpdate fiber r).result.toOption.join }
  | _ => none

/-- The call makes a flush, after which nothing is staged. -/
def empties (r : Renderer) : Operation → Bool
  | .flush => true
  | .dispatchQuietly .. => !r.isRendering
  | .prepare root => !(r.nextLanes root).isEmpty
  | _ => false

/-- The staged changes after the call, if they were `bs` before. -/
def booked (r : Renderer) (bs : List Booking) (op : Operation) : List Booking :=
  if r.empties op then [] else bs ++ (r.booking? op).toList

def bookedAfter (r : Renderer) (bs : List Booking) : List Operation → List Booking
  | [] => bs
  | op :: ops => (r.next op).bookedAfter (r.booked bs op) ops

/-- A run from `r₀` to `r`, with the changes that are staged after it.

* `call`: an operation.
* `told`: a root is told something by itself, but not that lanes are finished.
* `apart`: whatever leaves the lanes of roots and the buffer alone, and lets fibers stand only for
  roots that are there. -/
inductive Books (r₀ : Renderer) : Renderer → List Booking → Prop
  | start : Books r₀ r₀ []
  | call {r : Renderer} {bs : List Booking} (op : Operation) :
      Books r₀ r bs → Books r₀ (r.next op) (r.booked bs op)
  | told {r : Renderer} {bs : List Booking} (about : RootId) (c : LedgerCall) :
      Books r₀ r bs → c.finishes = false →
      Books r₀ (r.setTree (·.setRootLanes about (·.call c))) bs
  | apart {r r' : Renderer} {bs : List Booking} : Books r₀ r bs → r.tree.SameLedgers r'.tree →
      r'.staging.buffer.staged = r.staging.buffer.staged →
      r'.staging.buffer.lanes = r.staging.buffer.lanes → r'.tree.RootsThere → Books r₀ r' bs

theorem Books.after {r₀ : Renderer} {bs : List Booking} (run : r₀.Books r bs)
    (ops : List Operation) : r₀.Books (r.after ops) (r.bookedAfter bs ops) := by
  induction ops generalizing r bs with
  | nil => exact run
  | cons op ops ih => exact ih (run.call op)

/-! ## One call -/

/-- What a call answers that stages a change and tells the root above its fiber. -/
theorem found_of_enqueue {α : Type} {entry : StagedUpdate} {g : α → Option RootId}
    {rest : Option RootId → StepM Renderer α}
    (answers : ∀ root s, (rest root s).result.toOption.bind g = root) :
    ((onStaging (Staging.enqueue entry) >>= rest) r).result.toOption.bind g =
      r.told? entry.fiber := by
  have run := run_bind_enqueue r entry rest
  unfold told?
  split at run
  next exhausted =>
    rw [run.2, if_pos exhausted]
    rfl
  next going =>
    rw [run.2, if_neg going]
    exact answers _ _

theorem found_of_dispatch (r : Renderer) (fiber : FiberId) (queue : QueueId) (payload : Payload) :
    (dispatch fiber queue payload r).result.toOption.bind (·.root) = r.told? fiber := by
  unfold dispatch requestLane
  rw [StepM.run_take_bind, run_createUpdate]
  refine (found_of_enqueue fun root s => ?_).trans ?_
  · cases root <;> rfl
  · unfold told?
    exact congrArg _ ((Tree.SameShape.of_fibers_eq (by rfl)).findRoot? fiber)

theorem found_of_forceUpdate (r : Renderer) (fiber : FiberId) :
    (forceUpdate fiber r).result.toOption.join = r.told? fiber := by
  unfold forceUpdate requestLane
  rw [StepM.run_take_bind]
  refine (found_of_enqueue (g := id) fun root s => ?_).trans rfl
  cases root <;> rfl

/-- What is staged after a call: nothing if it made a flush, and else what it staged besides. -/
theorem staged_next (r : Renderer) (op : Operation) :
    (r.next op).staging.buffer.staged =
      if r.empties op then []
      else r.staging.buffer.staged ++ (r.booking? op).toList.map Booking.entry := by
  have emptied : ∀ s, (Staging.flush s).state.buffer.staged = [] := by
    intro s
    rw [(Staging.flush_eq s).1]
  have idle : ∀ {ms : List Move}, (∀ m ∈ ms, m.idle) →
      (Move.applyAll r.staging ms).buffer.staged = r.staging.buffer.staged ++ [] :=
    fun h => (Move.staged_of_idle h).trans (List.append_nil _).symm
  rw [staging_next]
  cases op with
  | dispatch fiber queue payload =>
    refine (Move.staged_of_idle (idle_tellMoves r fiber ?_)).trans rfl
    simp [Move.idle]
  | forceUpdate fiber =>
    refine (Move.staged_of_idle (idle_tellMoves r fiber ?_)).trans rfl
    simp [Move.idle]
  | dispatchQuietly fiber queue payload =>
    simp only [moves, empties]
    split
    next rendering => simp [rendering, booking?, tree, Move.apply, Move.onTree, Staging.stage]
    next resting => simp [resting, emptied, Move.apply]
  | prepare root =>
    simp only [moves, empties]
    split
    next idle => simp [idle, booking?]
    next busy => simp [busy, emptied, Move.apply]
  | flush => exact emptied _
  | begin fiber => exact idle (idle_begin r fiber)
  | readContext context => exact idle (idle_readContext r context)
  | commit root remaining => exact idle (idle_commit r root remaining)
  | edit | takePending | suspended | pinged | starved | enter | leave | entangle | settle
  | pushProvider | popProvider | rerender | complete => exact (List.append_nil _).symm

/-- A root that is told about an update of the fiber has its lane pending then. -/
theorem pending_of_told {b : Booking} (made : r.booking? op = some b) (found : b.root = some root)
    (there : r.tree.roots.has root) :
    b.entry.lane ⊆ ((r.next op).tree.root root).lanes.pending := by
  have ledger := (ledgers_next r op).1 root
  rw [ledgerCalls, if_pos there] at ledger
  intro l mem
  rw [ledger]
  cases op with
  | dispatch fiber queue payload =>
    cases made
    have told : r.told? fiber = some root :=
      (found_of_dispatch r fiber queue payload).symm.trans found
    simp only [tells, told, if_true]
    split <;> exact LaneLedger.mem_pending_markUpdated.mpr (.inr mem)
  | forceUpdate fiber =>
    cases made
    have told : r.told? fiber = some root := (found_of_forceUpdate r fiber).symm.trans found
    simp only [tells, told, if_true]
    exact LaneLedger.mem_pending_markUpdated.mpr (.inr mem)
  | dispatchQuietly =>
    cases made
    cases found
  | _ => cases made

/-- A root is found only if it is there. -/
theorem there_of_booking {b : Booking} (roots : r.tree.RootsThere) (made : r.booking? op = some b)
    (found : b.root = some root) : r.tree.roots.has root := by
  have stands : ∀ fiber, r.told? fiber = some root → r.tree.roots.has root := by
    intro fiber told
    unfold told? Tree.findRoot? Tree.rootOf? at told
    split at told
    · cases told
    · split at told
      next inst =>
        cases told
        exact roots _ _ inst
      next => cases told
  cases op with
  | dispatch fiber queue payload =>
    cases made
    exact stands fiber ((found_of_dispatch r fiber queue payload).symm.trans found)
  | forceUpdate fiber =>
    cases made
    exact stands fiber ((found_of_forceUpdate r fiber).symm.trans found)
  | dispatchQuietly =>
    cases made
    cases found
  | _ => cases made

theorem has_of_pending {l : Lane} (pends : l ∈ (r.tree.root root).lanes.pending) :
    r.tree.roots.has root := by
  cases there : r.tree.roots.has root with
  | true => rfl
  | false =>
    rw [Tree.root, Arena.get_of_not_has there] at pends
    exact absurd pends (LaneSet.not_mem_empty l)

/-! ## Runs -/

/-- The staged changes are `bs`, the buffer remembers their lanes, and the root found for a change
has its lane pending. -/
structure Posted (r : Renderer) (bs : List Booking) : Prop where
  staged : bs.map Booking.entry = r.staging.buffer.staged
  sumsUp : r.staging.buffer.SumsUp
  pending : ∀ b ∈ bs, ∀ root, b.root = some root →
    b.entry.lane ⊆ (r.tree.root root).lanes.pending
  roots : r.tree.RootsThere

namespace Posted

variable {bs : List Booking}

/-- A commit leaves pending what is staged, whatever it is told. -/
theorem pending_commits (posted : r.Posted bs) {b : Booking} (mem : b ∈ bs) {l : Lane}
    (hl : l ∈ b.entry.lane) (pends : l ∈ (r.tree.root root).lanes.pending)
    (commits : op.commits root) : l ∈ ((r.next op).tree.root root).lanes.pending := by
  cases op with
  | commit about remaining =>
    obtain rfl : about = root := beq_iff_eq.mp commits
    have staged : b.entry ∈ r.staging.buffer.staged := posted.staged ▸ List.mem_map_of_mem mem
    rw [pending_commit (has_of_pending pends)]
    exact LaneSet.mem_union.mpr (.inr ((posted.sumsUp l).mpr ⟨_, staged, hl⟩))
  | _ => cases commits

theorem next (posted : r.Posted bs) (op : Operation) : (r.next op).Posted (r.booked bs op) where
  staged := by
    rw [staged_next, booked]
    split
    · rfl
    · rw [List.map_append, posted.staged]
  sumsUp := by
    rw [staging_next]
    exact Move.sumsUp_applyAll posted.sumsUp _
  pending := by
    intro b mem root found l hl
    unfold booked at mem
    split at mem
    · exact absurd mem List.not_mem_nil
    · rcases List.mem_append.mp mem with old | new
      · have pends := posted.pending b old root found l hl
        exact pending_next pends fun commits => posted.pending_commits old hl pends commits
      · have made : r.booking? op = some b := Option.mem_toList.mp new
        exact pending_of_told made found (there_of_booking posted.roots made found) l hl
  roots := by
    show (r.next op).staging.tree.RootsThere
    rw [staging_next]
    exact Move.rootsThere_applyAll posted.roots _

theorem told (posted : r.Posted bs) (about : RootId) {c : LedgerCall}
    (lasting : c.finishes = false) :
    (r.setTree (·.setRootLanes about (·.call c))).Posted bs where
  staged := posted.staged
  sumsUp := posted.sumsUp
  pending := by
    intro b mem root found l hl
    have pends := posted.pending b mem root found l hl
    show l ∈ ((r.tree.setRootLanes about (·.call c)).root root).lanes.pending
    rw [Tree.lanes_setRootLanes]
    split
    · refine LaneLedger.mem_pending_call pends fun remaining finish => ?_
      rw [finish] at lasting
      cases lasting
    · exact pends
  roots f root stands := (Tree.has_setRoot _ _ _ _).trans (posted.roots f root stands)

end Posted

theorem Books.posted {settings : Settings} {registry : ContextRegistry} {r₀ : Renderer}
    {bs : List Booking} (begins : Renderer.start settings registry = .ok r₀) (run : r₀.Books r bs) :
    r.Posted bs := by
  induction run with
  | start =>
    have staging := staging_start begins
    refine ⟨?_, mem_lanes_of_leads begins .start, nofun, ?_⟩
    · rw [staging]
      rfl
    · rw [tree, staging]
      exact fun _ _ => nofun
  | call op _ ih => exact ih.next op
  | told about c _ lasting ih => exact ih.told about lasting
  | apart _ ledgers staged lanes roots ih =>
    refine ⟨staged ▸ ih.staged, fun l => ?_, fun b mem root found => ?_, roots⟩
    · rw [staged, lanes]
      exact ih.sumsUp l
    · rw [ledgers.root]
      exact ih.pending b mem root found

end Renderer

open Renderer in
/-- After every run, whichever roots were committed in it and whatever their commits were told to
leave, the buffer remembers the lanes of what is staged and no others, and each staged change whose
root was found is pending on the root. -/
theorem scheduled_of_books {settings : Settings} {registry : ContextRegistry} {r₀ r : Renderer}
    (begins : start settings registry = .ok r₀) {bs : List Booking} (run : r₀.Books r bs) :
    let buffer := r.staging.buffer
    bs.map Booking.entry = buffer.staged ∧
    (∀ l, l ∈ buffer.lanes ↔ ∃ e ∈ buffer.staged, l ∈ e.lane) ∧
    ∀ b ∈ bs, ∀ root, b.root = some root → b.entry.lane ⊆ (r.tree.root root).lanes.pending :=
  have posted := run.posted begins
  ⟨posted.staged, posted.sumsUp, posted.pending⟩

/-- A fiber of one of two roots is updated in a transition. Both roots are committed, and the
commits are told that nothing is left. The update is still staged, and pending on its root. -/
theorem scheduled_of_two_roots :
    let ops : List Operation :=
      [.edit (.createRoot true), .edit (.createRoot true),
        .edit (.createChild ⟨1⟩ .functionComponent), .edit (.createQueue ⟨2⟩),
        .enter .transition, .dispatch ⟨2⟩ ⟨0⟩ .unit, .leave .transition,
        .commit ⟨0⟩ ∅, .commit ⟨1⟩ ∅]
    let r := (default : Renderer).after ops
    let booking : Booking :=
      { entry := { fiber := ⟨2⟩, queue := some ⟨0⟩, update := some ⟨0⟩, lane := .single 3 }
        root := some ⟨1⟩ }
    Renderer.start {} .start = .ok default ∧ Renderer.Books default r [booking] ∧
      .single 3 ⊆ (r.tree.root ⟨1⟩).lanes.pending := by
  intro ops r booking
  have begins : Renderer.start {} .start = .ok default := by rfl
  have staged : (default : Renderer).bookedAfter [] ops = [booking] := by decide +kernel
  have run : Renderer.Books default r [booking] := staged ▸ Renderer.Books.start.after ops
  refine ⟨begins, run, ?_⟩
  exact (scheduled_of_books begins run).2.2 booking (.head _) ⟨1⟩ rfl

end ConcurrentRender
