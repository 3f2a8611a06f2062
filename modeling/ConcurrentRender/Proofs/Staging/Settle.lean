import ConcurrentRender.Proofs.StepLaws
import ConcurrentRender.Proofs.Tree.Raise
import ConcurrentRender.Proofs.Tree.Rings
import ConcurrentRender.Staging.Buffer

/-!
# What settling staged changes does

`Staging.settleAll` goes through the staged changes in order and stops at the first one
that fails. Which one that is can be told beforehand, since settling a change leaves the
shape of the tree alone. So the changes fall into those that are reached, the failing one
included, and the rest, of which nothing is seen.

Results:
1. `settle_result`: settling a change fails exactly if it has a lane and its fiber was never
   put into a tree. Even then all of the change but the answer is made.
2. `settleAll_eq`: settling all changes is settling those that are reached, one by one.
3. `sameShape_settleEach`, `mem_lanes_settleEach`, `mem_childLanes_settleEach`: what that does
   to links and lanes.
4. `Sound.settleEach`: the updates of the changes join the rings of their queues, in order.
5. `flush_eq`: a flush is that, with the buffer emptied before.
-/

namespace ConcurrentRender

/-- The queue and the update of a change, if it has both. -/
def StagedUpdate.pair (e : StagedUpdate) : Option (QueueId × UpdateId) :=
  match e.queue, e.update with
  | some q, some u => some (q, u)
  | _, _ => none

namespace Staging

/-- Settling the change fails: its lane cannot be made known up to a root, and the fiber is
not of a removed part of the tree either. -/
def blocks (t : Tree) (e : StagedUpdate) : Bool :=
  !e.lane.isEmpty && match t.summit e.fiber with
    | .loose _ => true
    | _ => false

/-- The changes that a flush comes to: those up to the first one that fails. -/
def reached (t : Tree) : List StagedUpdate → List StagedUpdate
  | [] => []
  | e :: rest => if blocks t e then [e] else e :: reached t rest

/-- The changes after the first one that fails. -/
def unreached (t : Tree) : List StagedUpdate → List StagedUpdate
  | [] => []
  | e :: rest => if blocks t e then rest else unreached t rest

/-- How a flush ends: with the fault of the first change that fails. -/
def verdict (t : Tree) : List StagedUpdate → Except Fault Unit
  | [] => .ok ()
  | e :: rest =>
    if blocks t e then .error (.notAttachedToRoot e.fiber (t.top e.fiber)) else verdict t rest

/-- Settles the changes one by one, whether or not one of them fails. -/
def settleEach (t : Tree) (es : List StagedUpdate) : Tree :=
  es.foldl (fun t e => (settle e t).state) t

/-- The updates of the changes, each with its queue, in order. -/
def pairs (es : List StagedUpdate) : List (QueueId × UpdateId) := es.filterMap StagedUpdate.pair

/-- The updates for the queue, in order. -/
def updatesFor (q : QueueId) (ps : List (QueueId × UpdateId)) : List UpdateId :=
  ps.filterMap fun p => if p.1 = q then some p.2 else none

/-- The updates waiting in the queues are `rings`, and those of the changes can join them:
their queues are there, and none of them waits anywhere or is staged twice. -/
structure Sound (t : Tree) (rings : QueueId → List UpdateId) (es : List StagedUpdate) : Prop where
  held : t.Rings rings
  queue : ∀ q u, (q, u) ∈ pairs es → t.queues.has q
  update : ∀ q u, (q, u) ∈ pairs es → t.updates.has u
  fresh : ∀ q u, (q, u) ∈ pairs es → ∀ p, u ∉ rings p
  once : ((pairs es).map (·.2)).Nodup

variable {t t' : Tree} {e : StagedUpdate} {es : List StagedUpdate}

/-! ## One change -/

/-- The tree after the update of a change was put into its queue. -/
def queued (t : Tree) (e : StagedUpdate) : Tree :=
  match e.pair with
  | some (q, u) => t.appendPending q u
  | none => t

/-- A queue takes an update, and fibers and roots stay as they are. -/
theorem frame_queued (t : Tree) (e : StagedUpdate) :
    (queued t e).fibers = t.fibers ∧ (queued t e).roots = t.roots := by
  unfold queued
  split
  · unfold Tree.appendPending
    dsimp only
    split <;> exact ⟨rfl, rfl⟩
  · exact ⟨rfl, rfl⟩

/-- Settling a change puts its update into the queue, and then makes its lane known. -/
theorem settle_eq (e : StagedUpdate) (t : Tree) :
    (settle e t).state =
        (if e.lane.isEmpty then queued t e
          else (Tree.markPath e.fiber e.update e.lane (queued t e)).state) ∧
      (settle e t).result =
        (if e.lane.isEmpty then .ok ()
          else (Tree.markPath e.fiber e.update e.lane (queued t e)).result.map fun _ => ()) := by
  have first : settle e t = (if e.lane.isEmpty then (pure () : StepM Tree Unit)
      else do let _ ← Tree.markPath e.fiber e.update e.lane) (queued t e) := by
    unfold settle queued StagedUpdate.pair
    cases e.queue with
    | none => rfl
    | some q => cases e.update <;> rfl
  rw [first]
  by_cases empty : e.lane.isEmpty
  · simp only [if_pos empty]
    exact ⟨rfl, rfl⟩
  · simp only [if_neg empty]
    cases h : (Tree.markPath e.fiber e.update e.lane (queued t e)).result with
    | error x => exact StepM.run_bind_of_error h
    | ok r => exact StepM.run_bind_of_ok h

theorem sameShape_settle (e : StagedUpdate) (t : Tree) : t.SameShape (settle e t).state := by
  have queued : t.SameShape (queued t e) := .of_fibers_eq (frame_queued t e).1
  rw [(settle_eq e t).1]
  split
  · exact queued
  · exact queued.trans (Tree.sameShape_markPath _ _ _ _)

/-- Settling a change fails exactly if the change blocks. -/
theorem settle_result (e : StagedUpdate) (t : Tree) :
    (settle e t).result =
      if blocks t e then .error (.notAttachedToRoot e.fiber (t.top e.fiber)) else .ok () := by
  have queued : t.SameShape (queued t e) := .of_fibers_eq (frame_queued t e).1
  rw [(settle_eq e t).2]
  unfold blocks
  by_cases empty : e.lane.isEmpty
  · simp [empty]
  · simp only [empty, Bool.not_false, Bool.true_and, Tree.markPath, queued.summit]
    cases summit : t.summit e.fiber with
    | root r => rfl
    | detached top => rfl
    | loose top =>
      have : top = t.top e.fiber := by
        unfold Tree.summit at summit
        dsimp only at summit
        split at summit
        · cases summit
        · split at summit <;> cases summit
          rfl
      rw [this]
      rfl

theorem roots_settle (e : StagedUpdate) (t : Tree) : (settle e t).state.roots = t.roots := by
  rw [(settle_eq e t).1]
  split
  · exact (frame_queued t e).2
  · exact (Tree.roots_markPath _ _ _ _).trans (frame_queued t e).2

/-- Making a lane known leaves rings alone. -/
theorem sameRings_markPath (t : Tree) (source : FiberId) (update : Option UpdateId)
    (lane : LaneSet) : t.SameRings (Tree.markPath source update lane t).state := by
  have raised : t.SameRings (t.raise source lane) := .of_onlyFibers (Tree.onlyFibers_raise _ _ _)
  unfold Tree.markPath
  dsimp only
  split
  · unfold Tree.parkBelow
    split
    · exact raised.trans (.park _ _ _ _)
    · exact raised
  · exact raised
  · exact raised

theorem sameRings_settle (e : StagedUpdate) (t : Tree) :
    (queued t e).SameRings (settle e t).state := by
  rw [(settle_eq e t).1]
  split
  · exact .refl _
  · exact sameRings_markPath _ _ _ _

/-- Of the fibers, settling a change with a lane changes what raising the lane changes. -/
theorem fiber_settle (e : StagedUpdate) (t : Tree) (h : FiberId) :
    (settle e t).state.fiber h =
      if e.lane.isEmpty then t.fiber h else ((queued t e).raise e.fiber e.lane).fiber h := by
  rw [(settle_eq e t).1]
  split
  · simp only [Tree.fiber, frame_queued]
  · simp only [Tree.fiber, Tree.fibers_markPath]

/-- What the lane of a change is added to. -/
theorem mem_childLanes_settle {h : FiberId} {l : Lane} :
    l ∈ ((settle e t).state.fiber h).childLanes ↔
      l ∈ (t.fiber h).childLanes ∨
        l ∈ e.lane ∧ t.fibers.has h ∧ ∃ a ∈ t.ancestors e.fiber, t.Beside a h := by
  have shape : t.SameShape (queued t e) := .of_fibers_eq (frame_queued t e).1
  have read : (queued t e).fiber h = t.fiber h := by simp only [Tree.fiber, frame_queued]
  rw [fiber_settle]
  split
  next empty =>
    have none : l ∉ e.lane := by simp [beq_iff_eq.mp empty]
    simp only [none, false_and, or_false]
  next =>
    rw [Tree.mem_childLanes_raise, read]
    simp only [shape.has, shape.ancestors, shape.beside]

theorem mem_lanes_settle {h : FiberId} {l : Lane} :
    l ∈ ((settle e t).state.fiber h).lanes ↔
      l ∈ (t.fiber h).lanes ∨ l ∈ e.lane ∧ t.Beside e.fiber h ∧ t.fibers.has h := by
  have shape : t.SameShape (queued t e) := .of_fibers_eq (frame_queued t e).1
  have read : (queued t e).fiber h = t.fiber h := by simp only [Tree.fiber, frame_queued]
  rw [fiber_settle]
  split
  next empty =>
    have none : l ∉ e.lane := by simp [beq_iff_eq.mp empty]
    simp only [none, false_and, or_false]
  next =>
    rw [Tree.mem_lanes_raise, read]
    simp only [shape.has, shape.beside]

/-! ## Several changes -/

theorem settleEach_cons (t : Tree) (e : StagedUpdate) (es : List StagedUpdate) :
    settleEach t (e :: es) = settleEach (settle e t).state es := rfl

theorem reached_append_unreached (t : Tree) (es : List StagedUpdate) :
    reached t es ++ unreached t es = es := by
  induction es with
  | nil => rfl
  | cons e es ih =>
    unfold reached unreached
    split
    · rfl
    · rw [List.cons_append, ih]

/-- What blocks depends on the shape of the tree only. -/
theorem blocks_of_sameShape (shape : t.SameShape t') (e : StagedUpdate) :
    blocks t' e = blocks t e := by
  unfold blocks
  rw [shape.summit]

theorem reached_of_sameShape (shape : t.SameShape t') (es : List StagedUpdate) :
    reached t' es = reached t es ∧ verdict t' es = verdict t es := by
  induction es with
  | nil => exact ⟨rfl, rfl⟩
  | cons e es ih =>
    simp only [reached, verdict, blocks_of_sameShape shape, shape.top, ih, and_self]

/-- Settling all changes settles those up to the first one that fails. -/
theorem settleAll_eq (es : List StagedUpdate) (t : Tree) :
    (settleAll es t).state = settleEach t (reached t es) ∧
      (settleAll es t).result = verdict t es := by
  induction es generalizing t with
  | nil => exact ⟨rfl, rfl⟩
  | cons e es ih =>
    have result := settle_result e t
    unfold settleAll
    by_cases block : blocks t e
    · rw [if_pos block] at result
      obtain ⟨state, fault⟩ := StepM.run_bind_of_error (f := fun _ => settleAll es) result
      simp only [reached, verdict, if_pos block]
      exact ⟨state, fault⟩
    · rw [if_neg block] at result
      obtain ⟨state, answer⟩ := StepM.run_bind_of_ok (f := fun _ => settleAll es) result
      -- The rest is settled in another tree, but of the same shape.
      obtain ⟨reached_eq, verdict_eq⟩ := reached_of_sameShape (sameShape_settle e t) es
      simp only [reached, verdict, if_neg block, settleEach_cons]
      exact ⟨state.trans ((ih _).1.trans (by rw [reached_eq])),
        answer.trans ((ih _).2.trans verdict_eq)⟩

/-- A flush succeeds exactly if no change blocks, and then it reaches all of them. -/
theorem verdict_ok_iff : verdict t es = .ok () ↔ ∀ e ∈ es, blocks t e = false := by
  induction es with
  | nil => simp [verdict]
  | cons e es ih =>
    unfold verdict
    split
    next block => simp [block]
    next free => simp [free, ih]

theorem reached_eq_self (free : ∀ e ∈ es, blocks t e = false) : reached t es = es := by
  induction es with
  | nil => rfl
  | cons e es ih =>
    unfold reached
    rw [if_neg (by simp [free e List.mem_cons_self]), ih fun d hd => free d (.tail _ hd)]

theorem sameShape_settleEach (es : List StagedUpdate) (t : Tree) :
    t.SameShape (settleEach t es) := by
  induction es generalizing t with
  | nil => exact .refl t
  | cons e es ih => exact (sameShape_settle e t).trans (ih _)

theorem roots_settleEach (es : List StagedUpdate) (t : Tree) :
    (settleEach t es).roots = t.roots := by
  induction es generalizing t with
  | nil => rfl
  | cons e es ih => exact (ih _).trans (roots_settle e t)

/-- A lane is added below the fibers above those of the changes that carry it. -/
theorem mem_childLanes_settleEach {h : FiberId} {l : Lane} :
    l ∈ ((settleEach t es).fiber h).childLanes ↔
      l ∈ (t.fiber h).childLanes ∨
        ∃ e ∈ es, l ∈ e.lane ∧ t.fibers.has h ∧ ∃ a ∈ t.ancestors e.fiber, t.Beside a h := by
  induction es generalizing t with
  | nil => simp [settleEach]
  | cons e es ih =>
    have shape := sameShape_settle e t
    rw [settleEach_cons, ih, mem_childLanes_settle]
    simp only [shape.has, shape.ancestors, shape.beside, List.mem_cons, exists_eq_or_imp]
    exact or_assoc

theorem mem_lanes_settleEach {h : FiberId} {l : Lane} :
    l ∈ ((settleEach t es).fiber h).lanes ↔
      l ∈ (t.fiber h).lanes ∨ ∃ e ∈ es, l ∈ e.lane ∧ t.Beside e.fiber h ∧ t.fibers.has h := by
  induction es generalizing t with
  | nil => simp [settleEach]
  | cons e es ih =>
    have shape := sameShape_settle e t
    rw [settleEach_cons, ih, mem_lanes_settle]
    simp only [shape.has, shape.beside, List.mem_cons, exists_eq_or_imp]
    exact or_assoc

/-! ## The rings of queues -/

theorem mem_updatesFor {q : QueueId} {u : UpdateId} {ps : List (QueueId × UpdateId)} :
    u ∈ updatesFor q ps ↔ (q, u) ∈ ps := by
  simp only [updatesFor, List.mem_filterMap]
  constructor
  · rintro ⟨⟨p, v⟩, member, h⟩
    split at h
    next e => cases h; exact e ▸ member
    next => cases h
  · exact fun member => ⟨(q, u), member, if_pos rfl⟩

theorem updatesFor_append (q : QueueId) (ps ps' : List (QueueId × UpdateId)) :
    updatesFor q (ps ++ ps') = updatesFor q ps ++ updatesFor q ps' :=
  List.filterMap_append ..

theorem pairs_append (es es' : List StagedUpdate) : pairs (es ++ es') = pairs es ++ pairs es' :=
  List.filterMap_append ..

namespace Sound

variable {rings : QueueId → List UpdateId}

/-- Changes of the tree that leave rings alone leave what is staged in order. -/
theorem of_sameRings (h : Sound t rings es) (same : t.SameRings t') : Sound t' rings es where
  held := h.held.of_sameRings same
  queue q u m := Arena.has_of_size_le same.queues (h.queue q u m)
  update q u m := Arena.has_of_size_le same.updates (h.update q u m)
  fresh := h.fresh
  once := h.once

/-- A change whose update is new, if it has one, is staged after the others. -/
theorem stage (h : Sound t rings es)
    (new : ∀ q u, e.pair = some (q, u) → t.queues.has q ∧ t.updates.has u ∧
      (∀ p, u ∉ rings p) ∧ ∀ p, (p, u) ∉ pairs es) : Sound t rings (es ++ [e]) := by
  have joins : ∀ q u, (q, u) ∈ pairs (es ++ [e]) → (q, u) ∈ pairs es ∨ e.pair = some (q, u) := by
    intro q u m
    rw [pairs_append] at m
    refine (List.mem_append.mp m).imp id fun m => ?_
    simpa [pairs] using m
  refine ⟨h.held, fun q u m => ?_, fun q u m => ?_, fun q u m => ?_, ?_⟩
  · exact (joins q u m).elim (h.queue q u) fun own => (new q u own).1
  · exact (joins q u m).elim (h.update q u) fun own => (new q u own).2.1
  · exact (joins q u m).elim (h.fresh q u) fun own => (new q u own).2.2.1
  · rw [pairs_append, List.map_append]
    refine List.nodup_append.mpr ⟨h.once, ?_, fun u hu v hv => ?_⟩
    · cases own : e.pair <;> simp [pairs, own]
    · rintro rfl
      obtain ⟨⟨p, u'⟩, staged, rfl⟩ := List.mem_map.mp hu
      obtain ⟨⟨q, v⟩, own, same⟩ := List.mem_map.mp hv
      cases same
      exact (new q _ (by simpa [pairs] using own)).2.2.2 p staged

/-- A queue is taken: its ring is empty, and the other rings stay. -/
theorem takePending (h : Sound t rings es) (q : QueueId) :
    Sound (t.takePending q).2 (Function.update rings q []) es where
  held := (h.held.takePending q).2
  queue p u m := by
    show Arena.has (t.setQueue q _).queues p
    rw [Tree.has_setQueue]
    exact h.queue p u m
  update := h.update
  fresh p u m p' hu := by
    by_cases hp : p' = q
    · subst hp
      simp at hu
    · rw [Function.update_of_ne hp] at hu
      exact h.fresh p u m p' hu
  once := h.once

/-- A change that is settled puts its update, if any, into the ring of its queue. -/
theorem settle (h : Sound t rings (e :: es)) :
    Sound (settle e t).state (fun q => rings q ++ updatesFor q (pairs [e])) es := by
  -- Making the lane known leaves rings alone, so it is enough to look at the queue.
  refine of_sameRings ?_ (sameRings_settle e t)
  have split : pairs (e :: es) = pairs [e] ++ pairs es := pairs_append [e] es
  have later : ∀ q u, (q, u) ∈ pairs es → (q, u) ∈ pairs (e :: es) := fun q u m =>
    split ▸ List.mem_append_right _ m
  cases pair : e.pair with
  | none =>
    have : pairs [e] = [] := by simp [pairs, pair]
    rw [this, List.nil_append] at split
    simp only [queued, pair, this, updatesFor, List.filterMap_nil, List.append_nil]
    exact ⟨h.held, split ▸ h.queue, split ▸ h.update, split ▸ h.fresh, split ▸ h.once⟩
  | some p =>
    obtain ⟨q, u⟩ := p
    have this : pairs [e] = [(q, u)] := by simp [pairs, pair]
    rw [this, List.singleton_append] at split
    have first : (q, u) ∈ pairs (e :: es) := split ▸ List.mem_cons_self
    have grown : (fun p => rings p ++ updatesFor p [(q, u)]) =
        Function.update rings q (rings q ++ [u]) := by
      funext p
      by_cases hp : p = q
      · subst hp
        simp [updatesFor]
      · simp [updatesFor, Function.update_of_ne hp, Ne.symm hp]
    have once := h.once
    rw [split, List.map_cons, List.nodup_cons] at once
    simp only [queued, pair, this, grown]
    refine ⟨?_, fun p v m => ?_, fun p v m => ?_, fun p v m p' hv => ?_, once.2⟩
    · exact h.held.appendPending (h.queue q u first) (h.update q u first) (h.fresh q u first)
    · rw [Arena.has, Tree.size_queues_appendPending]
      exact h.queue p v (later p v m)
    · rw [Arena.has, Tree.size_updates_appendPending]
      exact h.update p v (later p v m)
    · rw [← grown] at hv
      rcases List.mem_append.mp hv with hv | hv
      · exact h.fresh p v (later p v m) p' hv
      · cases List.mem_singleton.mp (mem_updatesFor.mp hv)
        exact once.1 (List.mem_map.mpr ⟨_, m, rfl⟩)

/-- Changes that are settled put their updates into the rings, in order. -/
theorem settleEach {rest : List StagedUpdate} (h : Sound t rings (es ++ rest)) :
    Sound (settleEach t es) (fun q => rings q ++ updatesFor q (pairs es)) rest := by
  induction es generalizing t rings with
  | nil => simpa [pairs, updatesFor, Staging.settleEach] using h
  | cons e es ih =>
    have step := ih h.settle
    have split : pairs (e :: es) = pairs [e] ++ pairs es := pairs_append [e] es
    simp only [List.append_assoc, ← updatesFor_append, ← split] at step
    exact step

end Sound

/-! ## A flush -/

/-- A flush empties the buffer and settles the changes it reaches. -/
theorem flush_eq (s : Staging) :
    (flush s).state =
        { buffer := { s.buffer with staged := [], lanes := ∅ }
          tree := settleEach s.tree (reached s.tree s.buffer.staged) } ∧
      (flush s).result = verdict s.tree s.buffer.staged := by
  obtain ⟨state, result⟩ := settleAll_eq s.buffer.staged s.tree
  exact ⟨congrArg (Staging.mk _) state, result⟩

/-- A flush that succeeds settles everything that is staged. -/
theorem flush_of_ok {s : Staging} (ok : (flush s).result = .ok ()) :
    (flush s).state =
      { buffer := { s.buffer with staged := [], lanes := ∅ }
        tree := settleEach s.tree s.buffer.staged } := by
  obtain ⟨state, result⟩ := flush_eq s
  have free : ∀ e ∈ s.buffer.staged, blocks s.tree e = false :=
    verdict_ok_iff.mp (result.symm.trans ok)
  rw [state, reached_eq_self free]

end Staging

end ConcurrentRender
