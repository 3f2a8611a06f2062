import Mathlib.Data.List.Chain
import Mathlib.Logic.Function.Basic
import ConcurrentRender.Proofs.Tree.Frame

/-!
# Rings of waiting updates

The rings of all queues share one arena of updates, and an update that was taken out of a
ring keeps its link. `Tree.Holds t q us` says what a queue means all the same: the links
lead from the newest update through all of `us` and back. `Tree.Rings t rings` says it of
all queues at once, and that no two of them have an update in common.

Results:
1. `Holds.visits`, `Holds.pending_eq`: the walk along a ring that stops at the newest update
   ends, and finds `us`.
2. `Rings.appendPending`, `Rings.takePending`: putting an update into a ring and taking a
   ring out change the list of that queue only.
3. `Rings.of_sameRings`: whatever leaves links and newest updates alone leaves rings alone.
-/

namespace ConcurrentRender

namespace Tree

/-- `v` is the next update after `u`. -/
def Linked (t : Tree) (u v : UpdateId) : Prop := (t.update u).next = some v

/-- The links lead from the last update of `us` to the first one, and from each one to the
next. -/
def ClosedRing (t : Tree) (us : List UpdateId) : Prop :=
  ∀ last ∈ us.getLast?, List.IsChain t.Linked (last :: us)

/-- `t.Visits last cursor us`: the walk along the links from `cursor` on visits `us` and
ends. It ends at `last`, or where a link is missing. -/
inductive Visits (t : Tree) (last : UpdateId) : Option UpdateId → List UpdateId → Prop
  | missing : Visits t last none []
  | last : Visits t last (some last) [last]
  | next {u : UpdateId} {us : List UpdateId} :
      u ≠ last → Visits t last (t.update u).next us → Visits t last (some u) (u :: us)

/-- The updates waiting in the queue are `us`, oldest first. -/
structure Holds (t : Tree) (q : QueueId) (us : List UpdateId) : Prop where
  newest : (t.queue q).newest = us.getLast?
  closed : t.ClosedRing us
  there : ∀ u ∈ us, t.updates.has u
  nodup : us.Nodup

/-- The updates waiting in each queue `q` are `rings q`, and no update waits twice. -/
structure Rings (t : Tree) (rings : QueueId → List UpdateId) : Prop where
  holds : ∀ q, t.Holds q (rings q)
  apart : ∀ q p, q ≠ p → (rings q).Disjoint (rings p)

variable {t t' t'' : Tree} {q : QueueId} {us : List UpdateId}

/-! ## Walking along a ring -/

/-- The bounded walk finds what the unbounded one does, if the bound is large enough. -/
theorem ringFrom_of_visits {last : UpdateId} {cursor : Option UpdateId}
    (h : t.Visits last cursor us) {fuel : Nat} (enough : us.length ≤ fuel) :
    t.ringFrom last fuel cursor = us := by
  induction h generalizing fuel with
  | missing => simp [ringFrom]
  | last =>
    obtain ⟨fuel, rfl⟩ : ∃ k, fuel = k + 1 := ⟨fuel - 1, by simp at enough; omega⟩
    simp [ringFrom]
  | next differs _ ih =>
    obtain ⟨fuel, rfl⟩ : ∃ k, fuel = k + 1 := ⟨fuel - 1, by simp at enough; omega⟩
    simp only [ringFrom, if_neg differs]
    rw [ih (by simpa using enough)]

/-- A walk along linked updates ends at the first one that is the last. -/
theorem visits_of_chain {u last : UpdateId} (chain : List.IsChain t.Linked (u :: us))
    (ends : (u :: us).getLast? = some last) (nodup : (u :: us).Nodup) :
    t.Visits last (some u) (u :: us) := by
  induction us generalizing u with
  | nil =>
    cases ends
    exact .last
  | cons v us ih =>
    obtain ⟨link, chain⟩ := List.isChain_cons_cons.mp chain
    rw [List.getLast?_cons_cons] at ends
    -- No update occurs twice, so the walk does not stop before the end of the list.
    have later : last ∈ v :: us := List.mem_of_getLast? ends
    have differs : u ≠ last := fun e => (List.nodup_cons.mp nodup).1 (e ▸ later)
    refine .next differs ?_
    rw [show (t.update u).next = some v from link]
    exact ih chain ends (List.nodup_cons.mp nodup).2

namespace Holds

/-- The walk from the update after the newest one visits the ring, and ends. -/
theorem visits (h : t.Holds q us) {last : UpdateId} (newest : (t.queue q).newest = some last) :
    t.Visits last (t.update last).next us := by
  have ends : us.getLast? = some last := h.newest ▸ newest
  have chain := h.closed last ends
  cases us with
  | nil => cases ends
  | cons u us =>
    obtain ⟨link, chain⟩ := List.isChain_cons_cons.mp chain
    rw [show (t.update last).next = some u from link]
    exact visits_of_chain chain ends h.nodup

theorem pending_eq (h : t.Holds q us) : t.pending q = us := by
  unfold pending
  cases newest : (t.queue q).newest with
  | none =>
    have : us.getLast? = none := h.newest ▸ newest
    exact (List.getLast?_eq_none_iff.mp this).symm
  | some last =>
    have enough := t.updates.length_le_size h.nodup h.there
    exact ringFrom_of_visits (h.visits newest) enough

end Holds

/-! ## Changing rings -/

namespace ClosedRing

/-- A ring is closed as long as no link of its updates is changed. -/
theorem of_same_links (h : t.ClosedRing us)
    (same : ∀ u ∈ us, (t'.update u).next = (t.update u).next) : t'.ClosedRing us := by
  intro last ends
  refine List.IsChain.imp_of_mem_imp (fun u v hu _ link => ?_) (h last ends)
  have member : u ∈ us := (List.mem_cons.mp hu).elim (· ▸ List.mem_of_getLast? ends) id
  exact (same u member).trans link

/-- An update alone is a ring if it is linked to itself. -/
theorem singleton {u : UpdateId} (link : t.Linked u u) : t.ClosedRing [u] := by
  intro last ends
  cases ends
  exact List.isChain_pair.mpr link

/-- A ring grows at its newest update: the new one takes over the link to the oldest. -/
theorem concat {last u : UpdateId} (h : t.ClosedRing us) (ends : us.getLast? = some last)
    (nodup : us.Nodup) (first : (t'.update u).next = (t.update last).next)
    (link : t'.Linked last u)
    (same : ∀ v ∈ us, v ≠ last → (t'.update v).next = (t.update v).next) :
    t'.ClosedRing (us ++ [u]) := by
  intro newest hn
  rw [List.getLast?_concat] at hn
  cases hn
  obtain ⟨before, rfl⟩ := List.getLast?_eq_some_iff.mp ends
  have chain := h last ends
  rw [← List.cons_append, List.isChain_append]
  -- The links that stay are those of all updates but the one that was newest.
  have kept : List.IsChain t'.Linked (before ++ [last]) := by
    refine List.isChain_iff_forall_rel_of_append_cons_cons.mpr fun a b front back split => ?_
    have old := List.isChain_iff_forall_rel_of_append_cons_cons.mp chain.tail split
    have member : a ∈ before := by
      have := congrArg List.dropLast split
      rw [List.dropLast_concat, List.dropLast_append_of_ne_nil (by simp)] at this
      simp [this]
    have differs : a ≠ last := by
      rintro rfl
      exact (List.nodup_append.mp nodup).2.2 a member a (by simp) rfl
    exact (same a (by simp [member]) differs).trans old
  refine ⟨kept.cons fun v hv => first.trans (chain.rel_head? hv), .singleton _, ?_⟩
  intro x hx y hy
  rw [← List.cons_append, List.getLast?_concat] at hx
  cases hx
  cases hy
  exact link

end ClosedRing

theorem newest_appendPending (t : Tree) (q p : QueueId) (u : UpdateId) :
    ((t.appendPending q u).queue p).newest =
      if q = p ∧ t.queues.has p then some u else (t.queue p).newest := by
  have queues : ∀ t' : Tree, t'.queues = t.queues → ((t'.setQueue q fun x =>
      { x with newest := some u }).queue p).newest =
        if q = p ∧ t.queues.has p then some u else (t.queue p).newest := by
    intro t' same
    rw [queue_setQueue]
    simp only [queue, same]
    split <;> rfl
  unfold appendPending
  dsimp only
  split <;> exact queues _ rfl

@[simp] theorem size_updates_appendPending (t : Tree) (q : QueueId) (u : UpdateId) :
    (t.appendPending q u).updates.size = t.updates.size := by
  unfold appendPending
  dsimp only
  split
  · exact size_setUpdate t u _
  · exact (size_setUpdate _ _ _).trans (size_setUpdate t u _)

@[simp] theorem size_queues_appendPending (t : Tree) (q : QueueId) (u : UpdateId) :
    (t.appendPending q u).queues.size = t.queues.size := by
  unfold appendPending
  dsimp only
  split <;> exact size_setQueue _ q _

/-- Only the new update and the one that was newest get another link. -/
theorem next_appendPending_of_ne {u v : UpdateId} (hu : v ≠ u)
    (hn : (t.queue q).newest ≠ some v) :
    ((t.appendPending q u).update v).next = (t.update v).next := by
  unfold appendPending
  dsimp only
  split
  next =>
    show ((t.setUpdate u _).update v).next = _
    rw [update_setUpdate, if_neg fun h => hu h.1.symm]
  next newest heq =>
    show (((t.setUpdate u _).setUpdate newest _).update v).next = _
    have differs : newest ≠ v := fun e => hn (e ▸ heq)
    rw [update_setUpdate, if_neg fun h => differs h.1, update_setUpdate,
      if_neg fun h => hu h.1.symm]

/-- Into an empty queue, the update is put as its own successor. -/
theorem linked_appendPending_of_empty {u : UpdateId} (hu : t.updates.has u)
    (empty : (t.queue q).newest = none) : (t.appendPending q u).Linked u u := by
  unfold appendPending
  dsimp only
  rw [empty]
  show ((t.setUpdate u _).update u).next = _
  rw [update_setUpdate, if_pos ⟨rfl, hu⟩]

/-- The new update takes over the link of the one that was newest, which leads to it. -/
theorem linked_appendPending {u last : UpdateId} (hu : t.updates.has u)
    (hl : t.updates.has last) (differs : u ≠ last) (newest : (t.queue q).newest = some last) :
    ((t.appendPending q u).update u).next = (t.update last).next ∧
      (t.appendPending q u).Linked last u := by
  unfold appendPending
  dsimp only
  rw [newest]
  constructor
  · show (((t.setUpdate u _).setUpdate last _).update u).next = _
    rw [update_setUpdate, if_neg fun h => differs h.1.symm, update_setUpdate, if_pos ⟨rfl, hu⟩]
  · show (((t.setUpdate u _).setUpdate last _).update last).next = _
    rw [update_setUpdate, if_pos ⟨rfl, by rw [has_setUpdate]; exact hl⟩]

/-- A new update joins the ring of its queue as the newest one. -/
theorem Holds.appendPending {u : UpdateId} (h : t.Holds q us) (hq : t.queues.has q)
    (hu : t.updates.has u) (fresh : u ∉ us) : (t.appendPending q u).Holds q (us ++ [u]) := by
  refine ⟨?_, ?_, ?_, ?_⟩
  · rw [newest_appendPending, if_pos ⟨rfl, hq⟩, List.getLast?_concat]
  · cases newest : (t.queue q).newest with
    | none =>
      obtain rfl : us = [] := List.getLast?_eq_none_iff.mp (h.newest ▸ newest)
      exact .singleton (linked_appendPending_of_empty hu newest)
    | some last =>
      have ends : us.getLast? = some last := h.newest ▸ newest
      have member : last ∈ us := List.mem_of_getLast? ends
      have differs : u ≠ last := fun e => fresh (e ▸ member)
      obtain ⟨first, link⟩ := linked_appendPending hu (h.there last member) differs newest
      refine h.closed.concat ends h.nodup first link fun v hv hl => ?_
      refine next_appendPending_of_ne (fun e => fresh (e ▸ hv)) fun e => hl ?_
      exact Option.some.inj (e.symm.trans newest)
  · intro v hv
    rw [Arena.has, size_updates_appendPending]
    rcases List.mem_append.mp hv with hv | hv
    · exact h.there v hv
    · exact List.mem_singleton.mp hv ▸ hu
  · refine List.nodup_append.mpr ⟨h.nodup, List.nodup_singleton u, fun a ha b hb e => ?_⟩
    exact fresh (List.mem_singleton.mp hb ▸ e ▸ ha)

/-- A queue keeps its ring when its newest update and the links of its ring stay. -/
theorem Holds.of_same (h : t.Holds q us) (newest : (t'.queue q).newest = (t.queue q).newest)
    (links : ∀ u ∈ us, (t'.update u).next = (t.update u).next)
    (size : t.updates.size ≤ t'.updates.size) : t'.Holds q us where
  newest := newest.trans h.newest
  closed := h.closed.of_same_links links
  there u hu := Arena.has_of_size_le size (h.there u hu)
  nodup := h.nodup

namespace Rings

variable {rings : QueueId → List UpdateId}

/-- An update that waits nowhere is put into the ring of its queue. The other rings stay. -/
theorem appendPending {u : UpdateId} (h : t.Rings rings) (hq : t.queues.has q)
    (hu : t.updates.has u) (fresh : ∀ p, u ∉ rings p) :
    (t.appendPending q u).Rings (Function.update rings q (rings q ++ [u])) := by
  refine ⟨fun p => ?_, fun p p' differs => ?_⟩
  · by_cases hp : p = q
    · subst hp
      rw [Function.update_self]
      exact (h.holds p).appendPending hq hu (fresh p)
    · rw [Function.update_of_ne hp]
      refine (h.holds p).of_same ?_ (fun v hv => ?_) (size_updates_appendPending t q u).ge
      · rw [newest_appendPending, if_neg fun e => hp e.1.symm]
      · -- The link that changes besides that of `u` is one of the ring of `q`.
        refine next_appendPending_of_ne (fun e => fresh p (e ▸ hv)) fun newest => ?_
        have elsewhere : v ∈ rings q := List.mem_of_getLast? ((h.holds q).newest ▸ newest)
        exact h.apart p q hp hv elsewhere
  · have joins : ∀ p, p ≠ q → (rings q ++ [u]).Disjoint (rings p) := by
      intro p hp v hv hv'
      rcases List.mem_append.mp hv with hv | hv
      · exact h.apart q p hp.symm hv hv'
      · exact fresh p (List.mem_singleton.mp hv ▸ hv')
    by_cases hp : p = q
    · subst hp
      rw [Function.update_self, Function.update_of_ne differs.symm]
      exact joins p' differs.symm
    · rw [Function.update_of_ne hp]
      by_cases hp' : p' = q
      · subst hp'
        rw [Function.update_self]
        exact List.disjoint_comm.mp (joins p hp)
      · rw [Function.update_of_ne hp']
        exact h.apart p p' differs

/-- Taking the updates out of a queue leaves it empty. The other rings stay. -/
theorem takePending (h : t.Rings rings) (q : QueueId) :
    (t.takePending q).1 = rings q ∧ (t.takePending q).2.Rings (Function.update rings q []) := by
  refine ⟨(h.holds q).pending_eq, fun p => ?_, fun p p' differs => ?_⟩
  · have read := queue_setQueue t q p fun x => { x with newest := none }
    by_cases hp : p = q
    · subst hp
      rw [Function.update_self]
      refine ⟨?_, nofun, nofun, List.nodup_nil⟩
      show ((t.setQueue p _).queue p).newest = none
      rw [read]
      split
      next => rfl
      next absent =>
        rw [queue_of_not_has (by simpa using absent)]
        rfl
    · rw [Function.update_of_ne hp]
      refine (h.holds p).of_same ?_ (fun _ _ => rfl) (Nat.le_refl _)
      show ((t.setQueue q _).queue p).newest = _
      rw [read, if_neg fun e => hp e.1.symm]
  · intro v hv hv'
    have shrinks : ∀ p, v ∈ Function.update rings q [] p → v ∈ rings p := by
      intro p hv
      by_cases hp : p = q
      · subst hp
        rw [Function.update_self] at hv
        cases hv
      · rwa [Function.update_of_ne hp] at hv
    exact h.apart p p' differs (shrinks p hv) (shrinks p' hv')

end Rings

/-! ## Changes that leave rings alone -/

/-- `t'` has the links and the newest updates of `t`, and everything that was there. -/
structure SameRings (t t' : Tree) : Prop where
  next : ∀ u, (t'.update u).next = (t.update u).next
  newest : ∀ q, (t'.queue q).newest = (t.queue q).newest
  updates : t.updates.size ≤ t'.updates.size
  queues : t.queues.size ≤ t'.queues.size

namespace SameRings

theorem refl (t : Tree) : SameRings t t :=
  ⟨fun _ => rfl, fun _ => rfl, Nat.le_refl _, Nat.le_refl _⟩

theorem trans (h : SameRings t t') (h' : SameRings t' t'') : SameRings t t'' :=
  ⟨fun u => (h'.next u).trans (h.next u), fun q => (h'.newest q).trans (h.newest q),
    h.updates.trans h'.updates, h.queues.trans h'.queues⟩

theorem of_onlyFibers (h : OnlyFibers t t') : SameRings t t' := by
  refine ⟨fun u => ?_, fun q => ?_, by rw [h.updates], by rw [h.queues]⟩
  · simp only [update, h.updates]
  · simp only [queue, h.queues]

/-- Changes of roots and boundaries do not touch updates and queues. -/
theorem of_eq (updates : t'.updates = t.updates) (queues : t'.queues = t.queues) :
    SameRings t t' := by
  refine ⟨fun u => ?_, fun q => ?_, by rw [updates], by rw [queues]⟩
  · simp only [update, updates]
  · simp only [queue, queues]

theorem setBoundary (t : Tree) (b : BoundaryId) (g : Boundary → Boundary) :
    SameRings t (t.setBoundary b g) :=
  of_eq rfl rfl

theorem setRoot (t : Tree) (r : RootId) (g : Root → Root) : SameRings t (t.setRoot r g) :=
  of_eq rfl rfl

theorem setUpdate {g : Update → Update} (hg : ∀ x, (g x).next = x.next) (t : Tree)
    (u : UpdateId) : SameRings t (t.setUpdate u g) := by
  refine ⟨fun v => ?_, fun _ => rfl, (size_setUpdate t u g).ge, Nat.le_refl _⟩
  rw [update_setUpdate]
  split
  · exact hg _
  · rfl

theorem setQueue {g : UpdateQueue → UpdateQueue} (hg : ∀ x, (g x).newest = x.newest) (t : Tree)
    (q : QueueId) : SameRings t (t.setQueue q g) := by
  refine ⟨fun _ => rfl, fun p => ?_, Nat.le_refl _, (size_setQueue t q g).ge⟩
  rw [queue_setQueue]
  split
  · exact hg _
  · rfl

/-- A new update is linked to nothing. -/
theorem createUpdate (t : Tree) (lane : LaneSet) (payload : Payload) :
    SameRings t (t.createUpdate lane payload).2 := by
  refine ⟨fun u => ?_, fun _ => rfl, ?_, Nat.le_refl _⟩
  · exact Arena.read_add Update.next t.updates { lane, payload } rfl u
  · exact (Arena.size_add ..).symm ▸ Nat.le_succ _

/-- A new queue is empty. -/
theorem createQueue (t : Tree) (owner : FiberId) : SameRings t (t.createQueue owner).2 := by
  refine ⟨fun _ => rfl, fun q => ?_, Nat.le_refl _, ?_⟩
  · exact Arena.read_add UpdateQueue.newest t.queues { owner } rfl q
  · exact (Arena.size_add ..).symm ▸ Nat.le_succ _

theorem createBoundary (t : Tree) (f : FiberId) (visible : Bool) :
    SameRings t (t.createBoundary f visible).2 := by
  unfold Tree.createBoundary
  have added : SameRings t { t with boundaries := t.boundaries.add { visible } } := of_eq rfl rfl
  exact added.trans (of_onlyFibers (.setTwins _ f _))

theorem park (t : Tree) (b : BoundaryId) (u : UpdateId) (lanes : LaneSet) :
    SameRings t (t.park b u lanes) := by
  unfold Tree.park
  exact (setBoundary t b _).trans (setUpdate (fun _ => by rfl) _ u)

theorem reveal (t : Tree) (b : BoundaryId) (lanes : LaneSet) :
    SameRings t (t.reveal b lanes).2 := by
  have steps : ∀ (us : List UpdateId) (t : Tree), SameRings t (us.foldl
      (fun t u => t.setUpdate u fun y => { y with lane := y.lane \ LaneSet.offscreenLane }) t) := by
    intro us
    induction us with
    | nil => exact refl
    | cons u us ih => exact fun t => (setUpdate (fun _ => by rfl) t u).trans (ih _)
  unfold Tree.reveal
  exact (setBoundary t b _).trans (steps _ _)

end SameRings

/-- Rings stay what they are under changes that leave links and newest updates alone. -/
theorem Rings.of_sameRings {rings : QueueId → List UpdateId} (h : t.Rings rings)
    (same : SameRings t t') : t'.Rings rings :=
  ⟨fun q => (h.holds q).of_same (same.newest q) (fun u _ => same.next u) same.updates, h.apart⟩

end Tree

end ConcurrentRender
