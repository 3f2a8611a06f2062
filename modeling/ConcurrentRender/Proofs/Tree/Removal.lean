import ConcurrentRender.Proofs.Tree.Siblings

/-!
# Which lists a removed fiber leaves

The removal of a fiber redirects one link, the one that leads to the fiber in the list of its
parent, and then cuts the link from the fiber to its next sibling. Several lists may hold the fiber,
as twins share their children. Those that come to it by the redirected link leave it out. The others
still lead to it, and they end there.

* `Tree.SoleEntry t x`: all lists that hold `x` come to it by the link that is redirected.
* `Tree.Released t f`: so it is with `f`, and with its twin once `f` was removed.

Results:
1. `leads_detachOne`: what the removal of one fiber does to a list that holds it.
2. `soleEntry_iff`, `children_detachOne`: when the fiber is left out of all lists, and that nothing
   else is lost then.
3. `not_soleEntry_of_heads`: it is not if it is the first child of two fibers.
4. `detach_iff`: the same as in 2 for a fiber and its twin.
-/

namespace ConcurrentRender

namespace Tree

variable {t : Tree} {l m : Link} {f x p q : FiberId} {fs before after : List FiberId}
  {last : Option FiberId}

/-! ## Lists that hold the fiber, and others -/

theorem goes_detachOne_of_ne (own : m ≠ .next x) (other : t.goes m ≠ some x) :
    (t.detachOne x).goes m = t.goes m := by
  rw [goes_detachOne, if_neg own, if_neg fun link => other (goes_of_ownLink? link)]

theorem past_ne (own : l ≠ .next x) (apart : x ∉ before) : l.past before ≠ .next x := by
  induction before generalizing l with
  | nil => exact own
  | cons f before ih =>
    exact ih (fun same => apart (Link.next.inj same ▸ .head _)) fun mem => apart (.tail _ mem)

/-- A chain that comes to the fiber stays as it is up to there. -/
theorem leads_detachOne_before (own : l ≠ .next x) (apart : x ∉ before)
    (leads : t.Leads l before last) :
    (t.detachOne x).Leads l before ((t.detachOne x).goes (l.past before)) := by
  induction before generalizing l with
  | nil => rfl
  | cons f before ih =>
    have differs : f ≠ x := fun same => apart (same ▸ .head _)
    refine ⟨(goes_detachOne_of_ne own ?_).trans leads.1, ih ?_ ?_ leads.2⟩
    · exact fun same => differs (Option.some.inj (leads.1.symm.trans same))
    · exact fun same => differs (Link.next.inj same)
    · exact fun mem => apart (.tail _ mem)

/-- A chain that does not come to the fiber stays as it is. -/
theorem leads_detachOne_of_apart (own : l ≠ .next x) (apart : x ∉ fs) (other : last ≠ some x)
    (leads : t.Leads l fs last) : (t.detachOne x).Leads l fs last := by
  have ends := goes_past leads
  have upTo := leads_detachOne_before own apart leads
  rw [goes_detachOne_of_ne (past_ne own apart) (ends ▸ other), ends] at upTo
  exact upTo

/-- A chain that comes to the fiber by the link that is redirected leaves it out, and any other one
ends there. -/
theorem leads_detachOne (own : l ≠ .next x) (leads : t.Leads l (before ++ x :: after) none) :
    (t.detachOne x).Leads l
      (before ++ if t.ownLink? x = some (l.past before) then after else [x]) none := by
  obtain ⟨-, once, apart⟩ := List.nodup_append.mp (nodup_of_leads leads)
  have once := (List.nodup_cons.mp once).1
  have apart : x ∉ before := fun mem => apart x mem x (.head _) rfl
  obtain ⟨first, rest⟩ := leads_append.mp leads
  have upTo := leads_detachOne_before own apart first
  rw [goes_detachOne, if_neg (past_ne own apart), goes_past first] at upTo
  split at upTo
  next entry =>
    rw [if_pos entry]
    cases after with
    | nil =>
      rw [List.append_nil]
      exact (show t.goes (.next x) = none from rest) ▸ upTo
    | cons c after =>
      refine leads_append.mpr ⟨rest.1 ▸ upTo, ?_⟩
      refine leads_detachOne_of_apart (fun same => once (Link.next.inj same ▸ .head _)) ?_ nofun
        rest.2
      exact fun mem => once (.tail _ mem)
  next entry =>
    rw [if_neg entry]
    exact leads_append.mpr ⟨upTo, (goes_detachOne t x _).trans (if_pos rfl)⟩

theorem not_mem_before (ends : t.ListsEnd) (split : t.children q = before ++ x :: after) :
    x ∉ before := by
  have once := ends.nodup q
  rw [split] at once
  exact fun mem => (List.nodup_append.mp once).2.2 x mem x (.head _) rfl

theorem not_mem_after (ends : t.ListsEnd) (split : t.children q = before ++ x :: after) :
    x ∉ after := by
  have once := ends.nodup q
  rw [split] at once
  exact (List.nodup_cons.mp (List.nodup_append.mp once).2.1).1

theorem children_detachOne_of_mem (ends : t.ListsEnd)
    (split : t.children q = before ++ x :: after) :
    (t.detachOne x).children q =
      before ++ if t.ownLink? x = some ((Link.head q).past before) then after else [x] := by
  refine children_eq_of_leads (leads_detachOne nofun (split ▸ ends q)) ?_
  have short := length_children_le t q
  rw [split, List.length_append, List.length_cons] at short
  rw [size_detachOne, List.length_append]
  split
  · omega
  · rw [List.length_singleton]
    omega

theorem children_detachOne_of_not_mem (ends : t.ListsEnd) (apart : x ∉ t.children q) :
    (t.detachOne x).children q = t.children q := by
  refine children_eq_of_leads (leads_detachOne_of_apart nofun apart nofun (ends q)) ?_
  rw [size_detachOne]
  exact length_children_le t q

theorem ListsEnd.detachOne (ends : t.ListsEnd) (x : FiberId) : (t.detachOne x).ListsEnd := by
  intro q
  by_cases mem : x ∈ t.children q
  · obtain ⟨before, after, split⟩ := List.append_of_mem mem
    rw [children_detachOne_of_mem ends split]
    exact leads_detachOne nofun (split ▸ ends q)
  · rw [children_detachOne_of_not_mem ends mem]
    exact leads_detachOne_of_apart nofun mem nofun (ends q)

/-- The link that leads to a fiber of a list is the one after the fibers before it. -/
theorem link?_eq (ends : t.ListsEnd) (split : t.children q = before ++ x :: after) :
    t.link? q x = some ((Link.head q).past before) := by
  have leads := (leads_append.mp (split ▸ ends q)).1
  have apart := not_mem_before ends split
  rcases List.eq_nil_or_concat before with rfl | ⟨as, b, rfl⟩
  · exact if_pos leads
  · rw [List.concat_eq_append] at *
    obtain ⟨upTo, last⟩ := leads_append.mp leads
    have elsewhere {m : Link} (on : m = .head q ∨ ∃ a ∈ as, m = .next a) : t.goes m ≠ some x := by
      intro goes
      rcases mem_of_goes upTo goes on with mem | same
      · exact apart (List.mem_append_left _ mem)
      · exact apart (Option.some.inj same ▸ List.mem_append_right _ (.head _))
    have found : (t.children q).find? (fun f => t.goes (.next f) == some x) = some b := by
      refine List.find?_eq_some_iff_append.mpr ⟨beq_iff_eq.mpr last, as, x :: after, ?_, ?_⟩
      · rw [split, List.append_assoc]
        rfl
      · intro a mem
        simpa using elsewhere (.inr ⟨a, mem, rfl⟩)
    unfold link?
    rw [if_neg (elsewhere (.inl rfl)), found, Link.past_concat]
    rfl

/-- All lists that hold the fiber come to it by the link that its removal redirects. -/
def SoleEntry (t : Tree) (x : FiberId) : Prop := ∀ q, x ∈ t.children q → t.link? q x = t.ownLink? x

/-- A fiber that is removed is left out of all lists if and only if they come to it by one link. -/
theorem soleEntry_iff (ends : t.ListsEnd) :
    t.SoleEntry x ↔ ∀ q, x ∉ (t.detachOne x).children q := by
  refine forall_congr' fun q => ?_
  by_cases mem : x ∈ t.children q
  · obtain ⟨before, after, split⟩ := List.append_of_mem mem
    have apart := not_mem_before ends split
    have once := not_mem_after ends split
    rw [children_detachOne_of_mem ends split, link?_eq ends split, eq_comm]
    by_cases entry : t.ownLink? x = some ((Link.head q).past before) <;>
      simp [entry, mem, apart, once]
  · rw [children_detachOne_of_not_mem ends mem]
    exact iff_of_true (fun there => absurd there mem) mem

/-- Nothing else is lost from a list then. -/
theorem children_detachOne (ends : t.ListsEnd) (sole : t.SoleEntry x) (q : FiberId) :
    (t.detachOne x).children q = (t.children q).filter (· ≠ x) := by
  have kept {fs : List FiberId} (apart : x ∉ fs) : fs.filter (· ≠ x) = fs := by
    refine List.filter_eq_self.mpr fun f mem => decide_eq_true ?_
    rintro rfl
    exact apart mem
  by_cases mem : x ∈ t.children q
  · obtain ⟨before, after, split⟩ := List.append_of_mem mem
    have entry : t.ownLink? x = some ((Link.head q).past before) :=
      (sole q mem).symm.trans (link?_eq ends split)
    rw [children_detachOne_of_mem ends split, if_pos entry, split, List.filter_append,
      kept (not_mem_before ends split), List.filter_cons_of_neg (by simp),
      kept (not_mem_after ends split)]
  · rw [children_detachOne_of_not_mem ends mem, kept mem]

/-- A first child of two fibers is not left out of both lists. -/
theorem not_soleEntry_of_heads (ends : t.ListsEnd) (apart : p ≠ q)
    (first : t.goes (.head p) = some x) (first' : t.goes (.head q) = some x) :
    ¬ t.SoleEntry x := by
  intro sole
  have entry {r : FiberId} (leads : t.goes (.head r) = some x) : t.ownLink? x = some (.head r) := by
    have mem := (mem_of_goes (ends r) leads (.inl rfl)).resolve_right nofun
    exact (sole r mem).symm.trans (if_pos leads)
  exact apart (Link.head.inj (Option.some.inj ((entry first).symm.trans (entry first'))))

/-! ## A fiber and its twin -/

/-- A fiber that was removed has no link that its removal would redirect. -/
theorem ownLink?_detachOne (t : Tree) (x : FiberId) : (t.detachOne x).ownLink? x = none := by
  have own : ((t.detachOne x).kin x).parent = none := by
    rw [kin_detachOne]
    cases present : t.fibers.has x with
    | true => rw [if_pos ⟨rfl, rfl⟩]
    | false => rw [if_neg (fun h => nomatch h.2), kin_of_not_has present]
  unfold ownLink?
  rw [show ((t.detachOne x).fiber x).parent = none from own]
  rfl

/-- All lists that hold the fiber come to it by the link that its removal redirects, and so do those
that hold its twin then. -/
structure Released (t : Tree) (f : FiberId) : Prop where
  own : t.SoleEntry f
  twin : ∀ w, (t.fiber f).twin = some w → (t.detachOne f).SoleEntry w

theorem detach_of_no_twin (alone : (t.fiber f).twin = none) : t.detach f = t.detachOne f := by
  unfold detach
  rw [alone]

theorem detach_of_twin (twin : (t.fiber f).twin = some w) :
    t.detach f = (t.detachOne f).detachOne w := by
  unfold detach
  rw [twin]

theorem beside_of_no_twin (alone : (t.fiber f).twin = none) (h : FiberId) :
    t.Beside f h ↔ h = f := by
  simp [Beside, alone, eq_comm]

theorem beside_of_twin (twin : (t.fiber f).twin = some w) (h : FiberId) :
    t.Beside f h ↔ h = f ∨ h = w := by
  simp [Beside, twin, eq_comm]

/-- If both are released, nothing else is lost from a list. -/
theorem children_detach (ends : t.ListsEnd) (released : t.Released f) (p : FiberId) :
    (t.detach f).children p = (t.children p).filter fun h => ¬ t.Beside f h := by
  cases twin : (t.fiber f).twin with
  | none =>
    rw [detach_of_no_twin twin, children_detachOne ends released.own]
    exact List.filter_congr fun h _ => by simp [beside_of_no_twin twin]
  | some w =>
    rw [detach_of_twin twin, children_detachOne (ends.detachOne f) (released.twin w twin),
      children_detachOne ends released.own, List.filter_filter]
    exact List.filter_congr fun h _ => by simp [beside_of_twin twin, Bool.and_comm]

/-- If the two are in no list any more, then they were released. -/
theorem released_of_gone (ends : t.ListsEnd)
    (gone : ∀ p h, t.Beside f h → h ∉ (t.detach f).children p) : t.Released f := by
  have own : t.Beside f f := .inl rfl
  cases twin : (t.fiber f).twin with
  | none =>
    rw [detach_of_no_twin twin] at gone
    exact ⟨(soleEntry_iff ends).mpr fun p => gone p f own, by simp [twin]⟩
  | some w =>
    rw [detach_of_twin twin] at gone
    have ends₁ := ends.detachOne f
    have sole : (t.detachOne f).SoleEntry w :=
      (soleEntry_iff ends₁).mpr fun p => gone p w (.inr twin)
    refine ⟨(soleEntry_iff ends).mpr fun p mem => ?_, fun w' same => ?_⟩
    · by_cases alone : f = w
      · subst alone
        obtain ⟨before, after, split⟩ := List.append_of_mem mem
        have link := (link?_eq ends₁ split).symm.trans (sole p mem)
        exact nomatch link.trans (ownLink?_detachOne t f)
      · -- The removal of the twin leaves the fiber in the lists that still hold it.
        refine gone p f own ?_
        rw [children_detachOne ends₁ sole]
        exact List.mem_filter.mpr ⟨mem, decide_eq_true alone⟩
    · exact Option.some.inj (twin.symm.trans same) ▸ sole

/-- In a tree that was built step by step, a fiber and its twin are removed from all lists of
children if and only if the lists come to them by the links that are redirected. Nothing else is
lost from a list then. -/
theorem detach_iff (built : t.Built) (f : FiberId) :
    (t.detach f).ListsEnd ∧
    (t.Released f ↔ ∀ p h, t.Beside f h → h ∉ (t.detach f).children p) ∧
    (t.Released f →
      ∀ p, (t.detach f).children p = (t.children p).filter fun h => ¬ t.Beside f h) := by
  have ends := listsEnd_of_built built
  refine ⟨listsEnd_of_built (built.detach f), ⟨fun released p h near mem => ?_,
    released_of_gone ends⟩, children_detach ends⟩
  rw [children_detach ends released] at mem
  exact of_decide_eq_true (List.mem_filter.mp mem).2 near

/-- A root with two children and a twin. -/
def twinList : Tree :=
  let t := (((Tree.createRoot {} true).2.createChild ⟨0⟩ .functionComponent).2.createChild ⟨0⟩
    .functionComponent).2
  (t.startTwin ⟨0⟩ none).2

theorem built_twinList : twinList.Built :=
  .startTwin none (.createChild _ _ (.createChild _ _ (.createRoot true .start))) (by decide)

/-- Both lists lead to the second child by the link of the first. -/
example : twinList.children ⟨3⟩ = [⟨1⟩, ⟨2⟩] ∧ (twinList.detach ⟨2⟩).children ⟨3⟩ = [⟨1⟩] := by
  decide

/-- The twin has a link of its own to the first child. It still leads there, and the second child is
lost. -/
theorem twin_keeps_removed :
    twinList.Built ∧ (twinList.fiber ⟨1⟩).parent = some ⟨0⟩ ∧
      (twinList.detach ⟨1⟩).children ⟨0⟩ = [⟨2⟩] ∧
      (twinList.detach ⟨1⟩).children ⟨3⟩ = [⟨1⟩] ∧ ¬ twinList.Released ⟨1⟩ := by
  refine ⟨built_twinList, by decide, by decide, by decide, fun released => ?_⟩
  have gone := (detach_iff built_twinList ⟨1⟩).2.1.mp released
  exact absurd (by decide) (gone ⟨3⟩ ⟨1⟩ (.inl rfl))

end Tree

end ConcurrentRender
