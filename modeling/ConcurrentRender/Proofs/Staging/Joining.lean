import ConcurrentRender.Proofs.Staging.Settle

/-!
# In which order updates join their rings

An update that joins a ring changes the links of two updates: its own, and that of the newest one so
far. Joins to two rings that have neither in common do not see each other. So of updates that join
several rings it only matters in which order those of each ring come.

* `Links`: the newest update of each queue, and the next one of each update.
* `Tree.join t l p`: the links after an update joined the ring of a queue of `t`.
* `Links.Apart l ps`: updates that join different rings do not meet.

Results:
1. `Tree.links_appendPending`: putting an update into a queue changes links like that.
2. `Links.join_comm`: two updates may join different rings in any order.
3. `Links.joinAll_of_updatesFor`: so many updates may, if those of each ring keep their order.
-/

namespace ConcurrentRender

/-- The newest update of each queue, and the next one of each update. -/
@[ext]
structure Links where
  newest : QueueId → Option UpdateId
  next : UpdateId → Option UpdateId

def Tree.links (t : Tree) : Links where
  newest q := (t.queue q).newest
  next u := (t.update u).next

namespace Links

/-- The links after an update joined the ring of a queue. Only those of `t` are changed. -/
def join (t : Tree) (l : Links) (p : QueueId × UpdateId) : Links where
  newest q := if p.1 = q ∧ t.queues.has q then some p.2 else l.newest q
  next v :=
    if t.updates.has v then
      match l.newest p.1 with
      | none => if p.2 = v then some p.2 else l.next v
      | some last => if last = v then some p.2 else if p.2 = v then l.next last else l.next v
    else l.next v

/-- Updates join the rings of their queues, one by one. -/
def joinAll (t : Tree) (l : Links) (ps : List (QueueId × UpdateId)) : Links := ps.foldl (join t) l

/-- Updates that join different rings differ. None is the newest one of the other ring so far, and
the two rings have different ones. -/
def Apart (l : Links) (ps : List (QueueId × UpdateId)) : Prop :=
  ∀ p ∈ ps, ∀ p' ∈ ps, p.1 ≠ p'.1 →
    p.2 ≠ p'.2 ∧ l.newest p.1 ≠ some p'.2 ∧
      ∀ last, l.newest p.1 = some last → l.newest p'.1 ≠ some last

variable {t t' : Tree} {l : Links} {p p' : QueueId × UpdateId} {ps ps' : List (QueueId × UpdateId)}

theorem Apart.subset (apart : l.Apart ps) (sub : ps' ⊆ ps) : l.Apart ps' :=
  fun p mem p' mem' => apart p (sub mem) p' (sub mem')

/-! ## Two updates -/

theorem newest_join_of_ne (t : Tree) (l : Links) (differs : p.1 ≠ p'.1) :
    (join t l p).newest p'.1 = l.newest p'.1 :=
  if_neg fun same => differs same.1

/-- The updates that still have to join do not meet either. -/
theorem Apart.join (apart : l.Apart (p :: ps)) : (Links.join t l p).Apart ps := by
  intro a ha b hb differs
  obtain ⟨other, fresh, disjoint⟩ := apart a (.tail _ ha) b (.tail _ hb) differs
  refine ⟨other, ?_⟩
  rcases eq_or_ne p.1 a.1 with first | first
  · have later : p.1 ≠ b.1 := first ▸ differs
    obtain ⟨new, -, -⟩ := apart p (.head _) b (.tail _ hb) later
    obtain ⟨-, old, -⟩ := apart b (.tail _ hb) p (.head _) later.symm
    rw [newest_join_of_ne t l later]
    simp only [Links.join]
    split
    next =>
      refine ⟨fun same => new (Option.some.inj same), fun last same => ?_⟩
      exact Option.some.inj same ▸ old
    next => exact ⟨fresh, disjoint⟩
  · rw [newest_join_of_ne t l first]
    refine ⟨fresh, fun last same => ?_⟩
    obtain ⟨-, old, -⟩ := apart a (.tail _ ha) p (.head _) (Ne.symm first)
    simp only [Links.join]
    split
    next => exact fun newest => old (same.trans newest.symm)
    next => exact disjoint last same

/-- Two updates may join different rings in any order. -/
theorem join_comm (apart : l.Apart [p, p']) (differs : p.1 ≠ p'.1) :
    join t (join t l p) p' = join t (join t l p') p := by
  obtain ⟨other, fresh, disjoint⟩ := apart p (by simp) p' (by simp) differs
  obtain ⟨-, fresh', -⟩ := apart p' (by simp) p (by simp) differs.symm
  ext1
  · funext q
    simp only [join]
    grind
  · -- Neither join is seen where the other one looks.
    funext v
    show (join t (join t l p) p').next v = (join t (join t l p') p).next v
    simp only [join, differs, differs.symm, false_and, if_false]
    cases newest : l.newest p.1 <;> cases newest' : l.newest p'.1 <;> grind

/-! ## Many updates -/

/-- An update may join before all those that join other rings. -/
theorem joinAll_middle (apart : l.Apart (ps ++ p :: ps'))
    (others : ∀ a ∈ ps, p.1 ≠ a.1) :
    joinAll t l (ps ++ p :: ps') = joinAll t l (p :: (ps ++ ps')) := by
  induction ps generalizing l with
  | nil => rfl
  | cons a ps ih =>
    have pair : l.Apart [a, p] := apart.subset (by simp)
    have rest := ih (l := join t l a) apart.join fun b mem => others b (.tail _ mem)
    show joinAll t (join t l a) (ps ++ p :: ps') = joinAll t (join t (join t l p) a) (ps ++ ps')
    rw [rest, ← join_comm pair (others a (.head _)).symm]
    rfl

theorem mem_of_updatesFor (order : ∀ q, Staging.updatesFor q ps' = Staging.updatesFor q ps) :
    p ∈ ps' ↔ p ∈ ps := by
  rw [← Staging.mem_updatesFor, ← Staging.mem_updatesFor, order]

/-- Of updates that join several rings, only those of each ring must keep their order. -/
theorem joinAll_of_updatesFor (apart : l.Apart ps)
    (order : ∀ q, Staging.updatesFor q ps' = Staging.updatesFor q ps) :
    joinAll t l ps' = joinAll t l ps := by
  induction ps generalizing l ps' with
  | nil =>
    obtain rfl : ps' = [] :=
      List.eq_nil_iff_forall_not_mem.mpr fun p mem => nomatch (mem_of_updatesFor order).mp mem
    rfl
  | cons p ps ih =>
    have apart' : l.Apart ps' := apart.subset fun a mem => (mem_of_updatesFor order).mp mem
    -- The first update for its queue is somewhere in `ps'`, after updates for other queues only.
    have first : Staging.updatesFor p.1 ps' = p.2 :: Staging.updatesFor p.1 ps :=
      (order p.1).trans (List.filterMap_cons_some (if_pos rfl))
    obtain ⟨before, a, after, rfl, none, found, rest⟩ := List.filterMap_eq_cons_iff.mp first
    obtain rfl : a = p := by
      split at found
      next same => exact Prod.ext same (Option.some.inj found)
      next => cases found
    have others : ∀ b ∈ before, a.1 ≠ b.1 := fun b mem same => by
      have none := none b mem
      rw [if_pos same.symm] at none
      cases none
    have order' : ∀ q, Staging.updatesFor q (before ++ after) = Staging.updatesFor q ps := by
      intro q
      rw [Staging.updatesFor_append]
      rcases eq_or_ne a.1 q with rfl | differs
      · rw [show Staging.updatesFor a.1 before = [] from List.filterMap_eq_nil_iff.mpr none]
        exact rest
      · have skip (xs : List (QueueId × UpdateId)) :
            Staging.updatesFor q (a :: xs) = Staging.updatesFor q xs :=
          List.filterMap_cons_none (if_neg differs)
        rw [← skip ps, ← order q, Staging.updatesFor_append, skip]
    exact (joinAll_middle apart' others).trans (ih apart.join order')

end Links

/-! ## Queues of a tree -/

namespace Tree

variable {t t' : Tree}

theorem links_appendPending (t : Tree) (q : QueueId) (u : UpdateId) :
    (t.appendPending q u).links = Links.join t t.links (q, u) := by
  ext1
  · funext p
    exact newest_appendPending t q p u
  · funext v
    show ((t.appendPending q u).update v).next = (Links.join t t.links (q, u)).next v
    unfold appendPending Links.join links
    dsimp only
    cases (t.queue q).newest with
    | none =>
      show ((t.setUpdate u _).update v).next = _
      rw [update_setUpdate]
      grind
    | some last =>
      show (((t.setUpdate u _).setUpdate last _).update v).next = _
      rw [update_setUpdate, update_setUpdate, has_setUpdate]
      grind

theorem SameRings.links_eq (same : t.SameRings t') : t'.links = t.links := by
  ext1
  · exact funext same.newest
  · exact funext same.next

end Tree

end ConcurrentRender
