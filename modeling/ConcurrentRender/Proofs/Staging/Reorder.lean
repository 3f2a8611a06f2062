import ConcurrentRender.Proofs.Staging.Joining
import ConcurrentRender.Proofs.Tree.Core

/-!
# In which order changes are staged

Events may arrive in any order before a flush. What the flush makes of them depends on the order
only inside each queue, and on hidden boundaries, which put updates aside in the order of staging.
Lanes are added, which commutes. An update is put aside at most once, since it is staged once.
Links commute as long as an update is not in the rings of two queues.

* `Staging.shelf? t e`: where the update of a change is put aside.
* `Staging.Reordered s s'`: `s'` stages what `s` does, in another order perhaps.
* `Staging.Apart t es`: the updates of the changes do not meet in rings.

Results:
1. `sameCore_settle`: settling changes lanes, links and what is put aside, and nothing else.
2. `links_settleEach`, `lane_settleEach`, `parked_settleEach`: what it does to links, to the lanes
   of updates and to what is put aside.
3. `alike_of_reordered`: settling what is staged in another order leads to a tree that is alike.
4. `flush_of_reordered`: so does a flush, and it succeeds in one order if it does in the other.
-/

namespace ConcurrentRender

namespace Staging

variable {t t' : Tree} {e d : StagedUpdate} {es es' : List StagedUpdate}

/-! ## One change -/

/-- Where the update of a change is put aside, if it is: on the nearest hidden boundary above. -/
def shelf? (t : Tree) (e : StagedUpdate) : Option (BoundaryId × UpdateId) :=
  if e.lane.isEmpty then none
  else
    match t.summit e.fiber, t.hiddenAbove? e.fiber, e.update with
    | .root _, some b, some u => some (b, u)
    | _, _, _ => none

/-- The tree after a change was settled, but for what is put aside. -/
def raised (t : Tree) (e : StagedUpdate) : Tree :=
  if e.lane.isEmpty then queued t e else (queued t e).raise e.fiber e.lane

theorem sameCore_queued (t : Tree) (e : StagedUpdate) : t.SameCore (queued t e) := by
  unfold queued
  split
  · exact .appendPending t _ _
  · exact .refl t

theorem sameCore_raised (t : Tree) (e : StagedUpdate) : t.SameCore (raised t e) := by
  unfold raised
  split
  · exact sameCore_queued t e
  · exact (sameCore_queued t e).trans (.raise _ _ _)

theorem settle_eq_park (e : StagedUpdate) (t : Tree) :
    (settle e t).state =
      match shelf? t e with
      | some (b, u) => (raised t e).park b u e.lane
      | none => raised t e := by
  have core := sameCore_queued t e
  have lifted : t.hiddenAbove? e.fiber = ((queued t e).raise e.fiber e.lane).hiddenAbove? e.fiber :=
    ((core.trans (.raise _ e.fiber e.lane)).hiddenAbove? e.fiber).symm
  rw [(settle_eq e t).1]
  unfold shelf? raised
  split
  next => rfl
  next =>
    unfold Tree.markPath Tree.parkBelow
    dsimp only
    rw [core.shape.summit, lifted]
    cases t.summit e.fiber with
    | detached | loose => rfl
    | root r =>
      cases ((queued t e).raise e.fiber e.lane).hiddenAbove? e.fiber with
      | none => rfl
      | some b => cases e.update <;> rfl

/-- What is put aside is the update of the change. -/
theorem update_of_shelf {b : BoundaryId} {u : UpdateId} (shelf : shelf? t e = some (b, u)) :
    e.update = some u := by
  unfold shelf? at shelf
  split at shelf
  next => cases shelf
  next =>
    split at shelf
    next own =>
      cases shelf
      exact own
    next => cases shelf

theorem sameCore_settle (e : StagedUpdate) (t : Tree) : t.SameCore (settle e t).state := by
  rw [settle_eq_park]
  split
  · exact (sameCore_raised t e).trans (.park _ _ _ _)
  · exact sameCore_raised t e

theorem shelf?_of_sameCore (core : t.SameCore t') (e : StagedUpdate) :
    shelf? t' e = shelf? t e := by
  unfold shelf?
  rw [core.shape.summit, core.hiddenAbove?]

/-- Joining a ring and raising a lane put nothing aside. -/
theorem boundaries_raised (t : Tree) (e : StagedUpdate) :
    (raised t e).boundaries = t.boundaries := by
  have joined : (queued t e).boundaries = t.boundaries := by
    unfold queued
    split
    · exact Tree.boundaries_appendPending ..
    · rfl
  unfold raised
  split
  · exact joined
  · exact (Tree.onlyFibers_raise _ _ _).boundaries.trans joined

theorem lane_raised (t : Tree) (e : StagedUpdate) (v : UpdateId) :
    ((raised t e).update v).lane = (t.update v).lane := by
  have joined : ((queued t e).update v).lane = (t.update v).lane := by
    unfold queued
    split
    · exact Tree.lane_appendPending t _ _ v
    · rfl
  unfold raised
  split
  · exact joined
  · simpa only [Tree.update, (Tree.onlyFibers_raise _ _ _).updates] using joined

/-- The lane of an update after a change was settled that puts it aside, or not. -/
def laneAfter (t : Tree) (v : UpdateId) (lane : LaneSet) (e : StagedUpdate) : LaneSet :=
  match shelf? t e with
  | some (_, u) => if u = v ∧ t.updates.has v then e.lane ∪ LaneSet.offscreenLane else lane
  | none => lane

/-- What a change puts aside on the boundary, if anything. -/
def shelved? (t : Tree) (b : BoundaryId) (e : StagedUpdate) : Option (LaneSet × UpdateId) :=
  match shelf? t e with
  | some (c, u) => if c = b ∧ t.boundaries.has b then some (e.lane, u) else none
  | none => none

theorem lane_settle (e : StagedUpdate) (t : Tree) (v : UpdateId) :
    ((settle e t).state.update v).lane = laneAfter t v (t.update v).lane e := by
  have core := sameCore_raised t e
  rw [settle_eq_park]
  unfold laneAfter
  split
  · rw [Tree.lane_park, core.hasUpdate, lane_raised]
  · exact lane_raised t e v

theorem parked_settle (e : StagedUpdate) (t : Tree) (b : BoundaryId) :
    ((settle e t).state.boundary b).parked =
      (t.boundary b).parked ++ (shelved? t b e).toList := by
  have core := sameCore_raised t e
  have read : (raised t e).boundary b = t.boundary b := by
    simp only [Tree.boundary, boundaries_raised]
  rw [settle_eq_park]
  unfold shelved?
  split
  · rw [Tree.parked_park, core.hasBoundary, read]
    split <;> rfl
  · rw [read]
    exact (List.append_nil _).symm

/-! ## Several changes -/

theorem sameCore_settleEach (es : List StagedUpdate) (t : Tree) :
    t.SameCore (settleEach t es) := by
  induction es generalizing t with
  | nil => exact .refl t
  | cons e es ih => exact (sameCore_settle e t).trans (ih _)

theorem lane_settleEach (es : List StagedUpdate) (t : Tree) (v : UpdateId) :
    ((settleEach t es).update v).lane = es.foldl (laneAfter t v) (t.update v).lane := by
  induction es generalizing t with
  | nil => rfl
  | cons e es ih =>
    have core := sameCore_settle e t
    have same : laneAfter (settle e t).state v = laneAfter t v := by
      unfold laneAfter
      simp only [shelf?_of_sameCore core, core.hasUpdate]
    rw [settleEach_cons, ih, same, lane_settle]
    rfl

theorem parked_settleEach (es : List StagedUpdate) (t : Tree) (b : BoundaryId) :
    ((settleEach t es).boundary b).parked =
      (t.boundary b).parked ++ es.filterMap (shelved? t b) := by
  induction es generalizing t with
  | nil => exact (List.append_nil _).symm
  | cons e es ih =>
    have core := sameCore_settle e t
    have same : shelved? (settle e t).state b = shelved? t b := by
      unfold shelved?
      simp only [shelf?_of_sameCore core, core.hasBoundary]
    rw [settleEach_cons, ih, same, parked_settle, List.append_assoc]
    cases h : shelved? t b e <;> simp [h]

theorem links_settleEach (es : List StagedUpdate) (t : Tree) :
    (settleEach t es).links = Links.joinAll t t.links (pairs es) := by
  induction es generalizing t with
  | nil => rfl
  | cons e es ih =>
    have core := sameCore_settle e t
    have same : Links.join (settle e t).state = Links.join t := by
      unfold Links.join
      simp only [core.hasUpdate, core.hasQueue]
    have joins : (settle e t).state.links = Links.joinAll t t.links (pairs [e]) := by
      rw [(sameRings_settle e t).links_eq]
      unfold queued pairs
      cases pair : e.pair with
      | none => simp [pair, Links.joinAll]
      | some p => simpa [pair, Links.joinAll] using Tree.links_appendPending t p.1 p.2
    rw [settleEach_cons, ih, joins]
    unfold Links.joinAll
    rw [same, ← List.foldl_append, ← pairs_append]
    rfl

end Staging

/-! ## Another order -/

namespace Staging

variable {t : Tree} {s s' : Staging} {e d : StagedUpdate} {es es' : List StagedUpdate}

/-- The updates of the changes do not meet in rings: of those for two queues, none is the newest one
of the other queue, and the two queues have no newest one in common. -/
def Apart (t : Tree) (es : List StagedUpdate) : Prop :=
  ∀ a ∈ pairs es, ∀ b ∈ pairs es, a.1 ≠ b.1 →
    b.2 ∉ (t.queue a.1).newest ∧ ∀ last ∈ (t.queue a.1).newest, last ∉ (t.queue b.1).newest

instance (t : Tree) (es : List StagedUpdate) : Decidable (Apart t es) :=
  inferInstanceAs (Decidable (∀ a ∈ pairs es, ∀ b ∈ pairs es, a.1 ≠ b.1 →
    b.2 ∉ (t.queue a.1).newest ∧ ∀ last ∈ (t.queue a.1).newest, last ∉ (t.queue b.1).newest))

/-- What `s` stages is staged in `s'` too, in another order perhaps, but those for each queue in the
same one. No update is staged twice. -/
structure Reordered (s s' : Staging) : Prop where
  tree : s'.tree = s.tree
  perm : s'.buffer.staged.Perm s.buffer.staged
  order : ∀ q, s'.buffer.staged.filter (·.queue = some q) =
    s.buffer.staged.filter (·.queue = some q)
  once : (s.buffer.staged.filterMap (·.update)).Nodup

/-- An update tells the change that stages it. -/
theorem eq_of_update (once : (es.filterMap (·.update)).Nodup) (he : e ∈ es) (hd : d ∈ es)
    {u : UpdateId} (own : e.update = some u) (own' : d.update = some u) : e = d := by
  let Tells (e d : StagedUpdate) : Prop := ∀ u, e.update = some u → d.update = some u → e = d
  have tells : es.Pairwise Tells := by
    refine (List.pairwise_filterMap.mp once).imp fun differ u own own' => ?_
    exact absurd rfl (differ u own u own')
  have symm : Std.Symm Tells := ⟨fun e d tells u own own' => (tells u own' own).symm⟩
  exact tells.forall_of_forall (fun e _ u _ _ => rfl) he hd u own own'

theorem updatesFor_pairs (q : QueueId) (es : List StagedUpdate) :
    updatesFor q (pairs es) = (es.filter (·.queue = some q)).filterMap (·.update) := by
  unfold updatesFor pairs
  rw [List.filterMap_filterMap, List.filterMap_filter]
  congr 1
  funext e
  unfold StagedUpdate.pair
  cases e.queue <;> cases e.update <;> simp

theorem mem_pairs {p : QueueId × UpdateId} :
    p ∈ pairs es ↔ ∃ e ∈ es, e.queue = some p.1 ∧ e.update = some p.2 := by
  simp only [pairs, List.mem_filterMap]
  refine exists_congr fun e => and_congr_right fun _ => ?_
  unfold StagedUpdate.pair
  cases e.queue <;> cases e.update <;> simp [Prod.ext_iff]

/-- What is put aside does not meet in rings either. -/
theorem links_apart (once : (es.filterMap (·.update)).Nodup) (apart : Apart t es) :
    t.links.Apart (pairs es) := by
  intro a ha b hb differs
  obtain ⟨e, he, queue, update⟩ := mem_pairs.mp ha
  obtain ⟨d, hd, queue', update'⟩ := mem_pairs.mp hb
  refine ⟨fun same => differs ?_, apart a ha b hb differs⟩
  obtain rfl := eq_of_update once he hd update (same ▸ update')
  exact Option.some.inj (queue.symm.trans queue')

/-- At most one of the changes puts the update aside, so their order does not matter. -/
theorem laneAfter_comm (once : (es.filterMap (·.update)).Nodup) (he : e ∈ es) (hd : d ∈ es)
    (v : UpdateId) (lane : LaneSet) :
    laneAfter t v (laneAfter t v lane e) d = laneAfter t v (laneAfter t v lane d) e := by
  rcases eq_or_ne e d with rfl | differs
  · rfl
  · unfold laneAfter
    cases shelf : shelf? t e with
    | none => rfl
    | some p =>
      cases shelf' : shelf? t d with
      | none => rfl
      | some p' =>
        have other : p.2 ≠ p'.2 := fun same =>
          differs (eq_of_update once he hd (update_of_shelf shelf) (same ▸ update_of_shelf shelf'))
        dsimp only
        grind

theorem alike_of_reordered (h : Reordered s s') (apart : Apart s.tree s.buffer.staged) :
    (settleEach s.tree s.buffer.staged).Alike (settleEach s.tree s'.buffer.staged) := by
  have core := (sameCore_settleEach s.buffer.staged s.tree).symm.trans
    (sameCore_settleEach s'.buffer.staged s.tree)
  have links : (settleEach s.tree s'.buffer.staged).links =
      (settleEach s.tree s.buffer.staged).links := by
    rw [links_settleEach, links_settleEach]
    refine Links.joinAll_of_updatesFor (links_apart h.once apart) fun q => ?_
    rw [updatesFor_pairs, updatesFor_pairs, h.order]
  refine core.alike (fun f => ?_) (fun f => ?_) (congrFun (congrArg Links.newest links))
    (fun v => ?_) (congrFun (congrArg Links.next links)) fun b => ?_
  · refine LaneSet.ext_mem fun l => ?_
    simp only [mem_lanes_settleEach, h.perm.mem_iff]
  · refine LaneSet.ext_mem fun l => ?_
    simp only [mem_childLanes_settleEach, h.perm.mem_iff]
  · rw [lane_settleEach, lane_settleEach]
    exact (h.perm.symm.foldl_eq' (fun e he d hd lane => laneAfter_comm h.once he hd v lane) _).symm
  · rw [parked_settleEach, parked_settleEach]
    exact (h.perm.filterMap _).append_left _

/-- What is staged may come in any order, if the changes for each queue keep theirs and updates do
not meet in rings: when no change fails, none fails in the other order, and the flushes lead to
trees that are alike. -/
theorem flush_of_reordered (h : Reordered s s') (free : ∀ e ∈ s.buffer.staged, ¬blocks s.tree e)
    (apart : Apart s.tree s.buffer.staged) :
    (flush s).result = .ok () ∧ (flush s').result = .ok () ∧
      (flush s).state.tree.Alike (flush s').state.tree ∧
      ∀ b lanes, (((flush s').state.tree.boundary b).parkedOn lanes).Perm
        (((flush s).state.tree.boundary b).parkedOn lanes) := by
  have free : ∀ e ∈ s.buffer.staged, blocks s.tree e = false :=
    fun e mem => Bool.eq_false_iff.mpr (free e mem)
  have ok : (flush s).result = .ok () := (flush_eq s).2.trans (verdict_ok_iff.mpr free)
  have ok' : (flush s').result = .ok () := by
    rw [(flush_eq s').2, h.tree]
    exact verdict_ok_iff.mpr fun e mem => free e (h.perm.mem_iff.mp mem)
  have alike : (flush s).state.tree.Alike (flush s').state.tree := by
    rw [flush_of_ok ok, flush_of_ok ok', h.tree]
    exact alike_of_reordered h apart
  exact ⟨ok, ok', alike, alike.parkedOn⟩

/-- Two queues below a hidden boundary get updates, and a fiber besides it is rendered again. What
comes first is put aside first. -/
theorem flush_of_reordered_of_hidden :
    let entry (q u : Nat) (lane : Lane) : StagedUpdate :=
      { fiber := ⟨2⟩, queue := some ⟨q⟩, update := some ⟨u⟩, lane := .single lane }
    let again : StagedUpdate := { fiber := ⟨3⟩, lane := .single 5 }
    let t := ((default : Tree).createRoot true).2
    let t := ((t.createChild ⟨0⟩ .offscreen).2.createBoundary ⟨1⟩ false).2
    let t := ((t.createChild ⟨1⟩ .functionComponent).2.createChild ⟨0⟩ .functionComponent).2
    let t := ((t.createQueue ⟨2⟩).2.createQueue ⟨2⟩).2
    let t := (((t.createUpdate (.single 2) .unit).2.createUpdate (.single 2) .unit).2.createUpdate
      (.single 3) .unit).2
    let staging (staged : List StagedUpdate) : Staging :=
      { buffer := { StagingBuffer.start 50 false with staged }, tree := t }
    let s := staging [entry 0 0 2, entry 1 1 2, again, entry 0 2 3]
    let s' := staging [again, entry 1 1 2, entry 0 0 2, entry 0 2 3]
    Reordered s s' ∧ (flush s').result = .ok () ∧
      (flush s).state.tree.Alike (flush s').state.tree ∧
      ((flush s).state.tree.boundary ⟨0⟩).parkedOn (.single 2) = [⟨0⟩, ⟨1⟩] ∧
      ((flush s').state.tree.boundary ⟨0⟩).parkedOn (.single 2) = [⟨1⟩, ⟨0⟩] := by
  intro entry again t t₁ t₂ t₃ t₄ staging s s'
  have reordered : Reordered s s' := by
    refine ⟨rfl, by decide +kernel, fun q => ?_, by decide +kernel⟩
    show List.filter _ [again, entry 1 1 2, entry 0 0 2, entry 0 2 3] =
      List.filter _ [entry 0 0 2, entry 1 1 2, again, entry 0 2 3]
    grind
  obtain ⟨-, ok, alike, -⟩ :=
    flush_of_reordered reordered (by decide +kernel) (by decide +kernel)
  exact ⟨reordered, ok, alike, by decide +kernel, by decide +kernel⟩

/-- Two queues have one update as their newest one, and then each gets another. Or an update that
waits in one queue is staged for another queue, and an update for the first one besides. In both
cases links depend on the order. -/
theorem not_alike_of_shared_update :
    let lane := LaneSet.single 2
    let entry (q u : Nat) : StagedUpdate :=
      { fiber := ⟨1⟩, queue := some ⟨q⟩, update := some ⟨u⟩, lane }
    let put (s : Staging) (e : StagedUpdate) : Staging := (flush (s.stage e)).state
    let t := ((default : Tree).createRoot true).2
    let t := (t.createChild ⟨0⟩ .functionComponent).2
    let t := ((t.createQueue ⟨1⟩).2.createQueue ⟨1⟩).2
    let t := (((t.createUpdate lane .unit).2.createUpdate lane .unit).2.createUpdate lane .unit).2
    let once := put { buffer := .start 50 false, tree := t } (entry 0 0)
    let twice := put once (entry 1 0)
    let s := (twice.stage (entry 0 1)).stage (entry 1 2)
    let s' := (twice.stage (entry 1 2)).stage (entry 0 1)
    let r := (once.stage (entry 1 0)).stage (entry 0 1)
    let r' := (once.stage (entry 0 1)).stage (entry 1 0)
    (Reordered s s' ∧ (∀ e ∈ s.buffer.staged, ¬blocks s.tree e) ∧
      ((flush s').state.tree.update ⟨1⟩).next ≠ ((flush s).state.tree.update ⟨1⟩).next) ∧
    (Reordered r r' ∧ (∀ e ∈ r.buffer.staged, ¬blocks r.tree e) ∧
      ((flush r').state.tree.update ⟨0⟩).next ≠ ((flush r).state.tree.update ⟨0⟩).next) := by
  intro lane entry put t t₁ t₂ t₃ once twice s s' r r'
  have order (a b : StagedUpdate) (differs : a.queue ≠ b.queue) (q : QueueId) :
      [b, a].filter (·.queue = some q) = [a, b].filter (·.queue = some q) := by
    grind
  have swapped : Reordered s s' :=
    ⟨rfl, .swap _ _ _, order _ _ (by decide), by decide +kernel⟩
  have swapped' : Reordered r r' :=
    ⟨rfl, .swap _ _ _, order _ _ (by decide), by decide +kernel⟩
  exact ⟨⟨swapped, by decide +kernel, by decide +kernel⟩, swapped', by decide +kernel,
    by decide +kernel⟩

end Staging

end ConcurrentRender
