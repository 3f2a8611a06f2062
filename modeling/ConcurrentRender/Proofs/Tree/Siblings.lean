import ConcurrentRender.Proofs.Tree.Kin

/-!
# Lists of children

The list of the children of a fiber is a chain of links: one from the fiber to its first child, and
one from each child to the next. Fibers share links: a twin that is started leads to the first child
of its fiber, and from there on both go the same way. Links of a tree might also run in circles, and
then a list has no end. In trees that are built step by step they do not, if only fibers without
links are appended.

* `Link` is a place from which a chain goes on, and `Tree.goes t l` is where it goes from there.
* `Tree.Leads t l fs last`: from `l` on, the chain goes over the fibers `fs`, and then to `last`.
* `Tree.ListsEnd t`: the list of children of every fiber comes to an end.
* `Tree.Built t`: the tree was built by adding, appending, twinning and removing fibers.

Results:
1. `leads_append`, `nodup_of_leads`: chains are put together, and one that ends does not come to a
   fiber twice.
2. `children_eq_of_leads`: the children are the fibers of the chain.
3. `listsEnd_of_built`: in trees that were built step by step, all lists end.
-/

namespace ConcurrentRender

/-- A place from which a chain of siblings goes on. -/
inductive Link where
  /-- From a fiber to its first child. -/
  | head (p : FiberId)
  /-- From a fiber to its next sibling. -/
  | next (f : FiberId)
deriving DecidableEq

namespace Link

def fiber : Link → FiberId
  | head p => p
  | next f => f

/-- Where the chain goes from the place, according to the fiber. -/
def target : Link → Fiber → Option FiberId
  | head _, x => x.child
  | next _, x => x.sibling

/-- The place from which the chain goes on after the fibers. -/
def past : Link → List FiberId → Link
  | l, [] => l
  | _, f :: fs => past (.next f) fs

theorem past_concat (l : Link) (fs : List FiberId) (f : FiberId) :
    l.past (fs ++ [f]) = .next f := by
  induction fs generalizing l with
  | nil => rfl
  | cons g fs ih => exact ih _

end Link

namespace Tree

variable {t t' : Tree} {l m : Link} {f g x p q c w : FiberId} {fs fs' before after : List FiberId}
  {last target : Option FiberId}

/-- Where the chain goes from the place. -/
def goes (t : Tree) (l : Link) : Option FiberId := l.target (t.fiber l.fiber)

/-- From the place on, the chain goes over the fibers, and then to the last one, if any. -/
def Leads (t : Tree) : Link → List FiberId → Option FiberId → Prop
  | l, [], last => t.goes l = last
  | l, f :: fs, last => t.goes l = some f ∧ t.Leads (.next f) fs last

theorem has_of_goes (goes : t.goes l = some x) : t.fibers.has l.fiber := by
  have goes : l.target (t.fiber l.fiber) = some x := goes
  refine has_of_ne_default l.target ?_
  rw [goes]
  cases l <;> nofun

theorem goes_setFiber (t : Tree) (f : FiberId) (g : Fiber → Fiber) (l : Link) :
    (t.setFiber f g).goes l =
      if f = l.fiber ∧ t.fibers.has f then l.target (g (t.fiber f)) else t.goes l := by
  unfold goes
  rw [fiber_setFiber]
  by_cases mine : f = l.fiber
  · subst mine
    split <;> simp_all
  · rw [if_neg (mine ·.1), if_neg (mine ·.1)]

/-! ## Chains -/

theorem leads_append :
    t.Leads l (before ++ x :: after) last ↔
      t.Leads l before (some x) ∧ t.Leads (.next x) after last := by
  induction before generalizing l with
  | nil => rfl
  | cons f before ih => simp only [List.cons_append, Leads, ih, and_assoc]

theorem goes_past (leads : t.Leads l fs last) : t.goes (l.past fs) = last := by
  induction fs generalizing l with
  | nil => exact leads
  | cons f fs ih => exact ih leads.2

/-- From the place and from its fibers, a chain leads to fibers of its own and to the last one. -/
theorem mem_of_goes {m : Link} (leads : t.Leads l fs last) (goes : t.goes m = some f)
    (on : m = l ∨ ∃ g ∈ fs, m = .next g) : f ∈ fs ∨ last = some f := by
  induction fs generalizing l with
  | nil =>
    rcases on with rfl | ⟨_, none, _⟩
    · exact .inr (leads.symm.trans goes)
    · cases none
  | cons g fs ih =>
    rcases on with rfl | ⟨h, mem, rfl⟩
    · exact .inl (Option.some.inj (leads.1.symm.trans goes) ▸ .head _)
    · refine (ih leads.2 ?_).imp_left (.tail _)
      rcases List.mem_cons.mp mem with rfl | later
      · exact .inl rfl
      · exact .inr ⟨h, later, rfl⟩

theorem exists_goes_of_leads (leads : t.Leads l fs last) (mem : f ∈ fs ∨ last = some f) :
    ∃ m, t.goes m = some f := by
  induction fs generalizing l with
  | nil => exact ⟨l, leads.trans (mem.resolve_left List.not_mem_nil)⟩
  | cons g fs ih =>
    rcases mem with mem | same
    · rcases List.mem_cons.mp mem with rfl | later
      · exact ⟨l, leads.1⟩
      · exact ih leads.2 (.inl later)
    · exact ih leads.2 (.inr same)

/-- From a place on, there is one chain to the end. -/
theorem leads_unique (leads : t.Leads l fs none) (leads' : t.Leads l fs' none) : fs = fs' := by
  induction fs generalizing l fs' with
  | nil =>
    cases fs' with
    | nil => rfl
    | cons f' fs' => cases leads.symm.trans leads'.1
  | cons f fs ih =>
    cases fs' with
    | nil => cases leads'.symm.trans leads.1
    | cons f' fs' =>
      obtain rfl := Option.some.inj (leads.1.symm.trans leads'.1)
      rw [ih leads.2 leads'.2]

/-- A chain that ends does not come to a fiber twice. -/
theorem nodup_of_leads (leads : t.Leads l fs none) : fs.Nodup := by
  induction fs generalizing l with
  | nil => exact List.nodup_nil
  | cons f fs ih =>
    refine List.nodup_cons.mpr ⟨fun again => ?_, ih leads.2⟩
    obtain ⟨before, after, rfl⟩ := List.append_of_mem again
    have shorter := leads_unique (leads_append.mp leads.2).2 leads.2
    have := congrArg List.length shorter
    simp only [List.length_append, List.length_cons] at this
    omega

/-! ## Children -/

theorem length_siblingsFrom_le (t : Tree) (fuel : Nat) (first : Option FiberId) :
    (t.siblingsFrom fuel first).length ≤ fuel := by
  induction fuel generalizing first with
  | zero => cases first <;> exact Nat.le_refl 0
  | succ fuel ih =>
    cases first with
    | none => exact Nat.zero_le _
    | some f => exact Nat.succ_le_succ (ih _)

theorem siblingsFrom_of_leads {fuel : Nat} (leads : t.Leads l fs none)
    (short : fs.length ≤ fuel) : t.siblingsFrom fuel (t.goes l) = fs := by
  induction fs generalizing l fuel with
  | nil =>
    rw [show t.goes l = none from leads]
    cases fuel <;> rfl
  | cons f fs ih =>
    cases fuel with
    | zero => cases short
    | succ fuel =>
      rw [leads.1]
      exact congrArg (f :: ·) (ih leads.2 (Nat.le_of_succ_le_succ short))

/-- Fibers are listed until the chain ends or the fuel does. -/
theorem leads_siblingsFrom (t : Tree) (fuel : Nat) (l : Link) :
    ∃ last, t.Leads l (t.siblingsFrom fuel (t.goes l)) last ∧
      (last = none ∨ (t.siblingsFrom fuel (t.goes l)).length = fuel) := by
  induction fuel generalizing l with
  | zero =>
    refine ⟨t.goes l, ?_, .inr ?_⟩ <;> cases first : t.goes l
    · exact first
    · exact first
    · rfl
    · rfl
  | succ fuel ih =>
    cases first : t.goes l with
    | none => exact ⟨none, first, .inl rfl⟩
    | some f =>
      obtain ⟨last, leads, ends⟩ := ih (.next f)
      exact ⟨last, ⟨first, leads⟩, ends.imp_right (congrArg Nat.succ)⟩

/-- The children of a fiber are those on the chain from it. -/
theorem children_eq_of_leads (leads : t.Leads (.head p) fs none)
    (short : fs.length ≤ t.fibers.size) : t.children p = fs := siblingsFrom_of_leads leads short

theorem length_children_le (t : Tree) (p : FiberId) : (t.children p).length ≤ t.fibers.size :=
  length_siblingsFrom_le t _ _

/-- The list of children of every fiber comes to an end. -/
def ListsEnd (t : Tree) : Prop := ∀ p, t.Leads (.head p) (t.children p) none

theorem ListsEnd.nodup (ends : t.ListsEnd) (p : FiberId) : (t.children p).Nodup :=
  nodup_of_leads (ends p)

/-! ## Redirecting links -/

/-- The link that leads to `x` in the list of `q`. -/
def link? (t : Tree) (q x : FiberId) : Option Link :=
  if t.goes (.head q) = some x then some (.head q)
  else ((t.children q).find? fun b => t.goes (.next b) == some x).map .next

def redirect (t : Tree) (l : Link) (target : Option FiberId) : Tree :=
  match l with
  | .head p => t.setFiber p fun x => { x with child := target }
  | .next b => t.setFiber b fun x => { x with sibling := target }

theorem unlinkChild_eq (t : Tree) (p x : FiberId) :
    t.unlinkChild p x = (t.link? p x).elim t fun l => t.redirect l (t.fiber x).sibling := by
  by_cases first : t.goes (.head p) = some x
  · rw [show t.link? p x = some (.head p) from if_pos first]
    exact if_pos first
  · rw [show t.link? p x = Option.map .next _ from if_neg first]
    refine (if_neg first : t.unlinkChild p x = _).trans ?_
    show _ = (((t.children p).find? fun f => (t.fiber f).sibling == some x).map Link.next).elim t _
    cases (t.children p).find? fun f => (t.fiber f).sibling == some x <;> rfl

theorem goes_of_link? (leads : t.link? q x = some l) : t.goes l = some x := by
  unfold link? at leads
  split at leads
  next first =>
    cases leads
    exact first
  next =>
    obtain ⟨b, found, rfl⟩ := Option.map_eq_some_iff.mp leads
    have link := List.find?_some found
    exact beq_iff_eq.mp link

/-- A link that is redirected is the only one to change. -/
theorem goes_redirect (t : Tree) (l : Link) (target : Option FiberId) (m : Link) :
    (t.redirect l target).goes m =
      if m = l ∧ t.fibers.has l.fiber then target else t.goes m := by
  cases l with
  | head p =>
    refine (goes_setFiber t p _ m).trans ?_
    cases m with
    | head q => simp only [Link.fiber, Link.target, Link.head.injEq, eq_comm]
    | next b => by_cases mine : p = b <;> simp [mine, Link.fiber, Link.target, goes]
  | next b =>
    refine (goes_setFiber t b _ m).trans ?_
    cases m with
    | head q => by_cases mine : b = q <;> simp [mine, Link.fiber, Link.target, goes]
    | next c => simp only [Link.fiber, Link.target, Link.next.injEq, eq_comm]

/-- A change that cuts the link from a fiber to its sibling changes no other link. -/
theorem goes_cut {h : Fiber → Fiber} (child : ∀ y, (h y).child = y.child)
    (sibling : ∀ y, (h y).sibling = none) (t : Tree) (x : FiberId) (m : Link) :
    (t.setFiber x h).goes m = if m = .next x then none else t.goes m := by
  rw [goes_setFiber]
  cases m with
  | head q => by_cases mine : x = q <;> simp [mine, Link.fiber, Link.target, goes, child]
  | next b =>
    by_cases mine : x = b
    · subst mine
      cases present : t.fibers.has x with
      | true => exact (if_pos ⟨rfl, rfl⟩).trans ((sibling _).trans (if_pos rfl).symm)
      | false =>
        rw [if_neg (fun h => nomatch h.2), if_pos rfl, goes]
        exact congrArg Fiber.sibling (fiber_of_not_has present)
    · exact (if_neg fun h => mine h.1).trans (if_neg fun h => mine (Link.next.inj h).symm).symm

/-- The link that leads to the fiber in the list of its parent. -/
def ownLink? (t : Tree) (x : FiberId) : Option Link := (t.fiber x).parent.bind (t.link? · x)

theorem goes_of_ownLink? (leads : t.ownLink? x = some l) : t.goes l = some x := by
  obtain ⟨p, -, leads⟩ := Option.bind_eq_some_iff.mp leads
  exact goes_of_link? leads

/-- The removal of a fiber cuts the link from it, and redirects one link that leads to it. -/
theorem goes_detachOne (t : Tree) (x : FiberId) (m : Link) :
    (t.detachOne x).goes m =
      if m = .next x then none
      else if t.ownLink? x = some m then t.goes (.next x)
      else t.goes m := by
  unfold detachOne ownLink?
  cases parent : (t.fiber x).parent with
  | none => exact goes_cut (fun _ => by rfl) (fun _ => by rfl) t x m
  | some p =>
    refine (goes_cut (fun _ => by rfl) (fun _ => by rfl) _ x m).trans ?_
    dsimp only
    rw [unlinkChild_eq]
    show _ = if m = .next x then none else if t.link? p x = some m then t.goes (.next x) else _
    cases link : t.link? p x with
    | none => rfl
    | some l =>
      have there := has_of_goes (goes_of_link? link)
      simp only [Option.elim, goes_redirect, there, and_true, Option.some.injEq, eq_comm]
      rfl

/-! ## Other changes of links -/

theorem goes_createFiber (t : Tree) (tag : Tag) (concurrent : Bool) (l : Link) :
    (t.createFiber tag concurrent).2.goes l = t.goes l := by
  refine Arena.read_add l.target t.fibers { tag, concurrent } ?_ l.fiber
  cases l <;> rfl

/-- A change that keeps links of the fiber keeps all links. -/
theorem goes_setFiber_of_same {h : Fiber → Fiber} (same : ∀ l y, Link.target l (h y) = l.target y)
    (t : Tree) (f : FiberId) (l : Link) : (t.setFiber f h).goes l = t.goes l := by
  rw [goes_setFiber]
  split
  next mine =>
    rw [same, mine.1]
    rfl
  next => rfl

theorem goes_createRoot (t : Tree) (concurrent : Bool) (l : Link) :
    (t.createRoot concurrent).2.goes l = t.goes l := by
  refine (goes_setFiber_of_same (fun l y => ?_) _ _ l).trans (goes_createFiber t _ _ l)
  cases l <;> rfl

/-- Only the last child of the list leads to a fiber that is appended, or the parent does if there
is none. -/
theorem goes_appendChild (leads : (t.appendChild p c).goes l = some g) :
    (t.goes l = some g ∧ l ≠ .next c) ∨ (g = c ∧ ∀ f, l = .next f → ∃ m, t.goes m = some f) := by
  obtain ⟨t₁, loosened⟩ :
    ∃ t₁, t.setFiber c (fun x => { x with parent := some p, sibling := none }) = t₁ := ⟨_, rfl⟩
  have cut (m : Link) : t₁.goes m = if m = .next c then none else t.goes m :=
    loosened ▸ goes_cut (fun _ => by rfl) (fun _ => by rfl) t c m
  have old {m : Link} {f : FiberId} (goes : t₁.goes m = some f) :
      t.goes m = some f ∧ m ≠ .next c := by
    rw [cut] at goes
    split at goes
    next => cases goes
    next other => exact ⟨goes, other⟩
  unfold appendChild at leads
  rw [loosened] at leads
  dsimp only at leads
  cases ends : (t₁.children p).getLast? with
  | none =>
    rw [ends] at leads
    have leads : (t₁.redirect (.head p) (some c)).goes l = some g := leads
    rw [goes_redirect] at leads
    split at leads
    next first =>
      rw [first.1]
      exact .inr ⟨(Option.some.inj leads).symm, nofun⟩
    next => exact .inl (old leads)
  | some last =>
    rw [ends] at leads
    have leads : (t₁.redirect (.next last) (some c)).goes l = some g := leads
    rw [goes_redirect] at leads
    split at leads
    next here =>
      refine .inr ⟨(Option.some.inj leads).symm, fun f same => ?_⟩
      obtain ⟨_, chain, -⟩ := t₁.leads_siblingsFrom t₁.fibers.size (.head p)
      obtain ⟨m, goes⟩ := exists_goes_of_leads chain (.inl (List.mem_of_getLast? ends))
      obtain rfl : f = last := Link.next.inj (same.symm.trans here.1)
      exact ⟨m, (old goes).1⟩
    next => exact .inl (old leads)

/-- A twin that is started has the links of its fiber. -/
theorem goes_startTwin (there : t.fibers.has f)
    (back : ∀ w, (t.kin f).twin = some w → (t.kin w).twin = some f) (value : Option Value)
    (l : Link) :
    (t.startTwin f value).2.goes l =
      if (t.startTwin f value).1 = l.fiber then l.target (t.fiber f) else t.goes l := by
  obtain ⟨w, t', origin, run, -, -, -, fiber⟩ := fiber_startTwin there back value
  rw [run]
  unfold goes
  rw [fiber]
  by_cases mine : l.fiber = w
  · rw [if_pos mine, if_pos mine.symm]
    cases l <;> rfl
  · rw [if_neg mine, if_neg (Ne.symm mine)]
    split
    next own =>
      rw [own]
      cases l <;> rfl
    next => rfl

/-! ## Trees that were built step by step -/

/-- No link leads to the fiber, and none to a sibling of it. -/
structure Loose (t : Tree) (f : FiberId) : Prop where
  entry : ∀ l, t.goes l ≠ some f
  next : t.goes (.next f) = none

/-- The tree was built step by step from none. Fibers that are appended are loose, and so are their
twins. -/
inductive Built : Tree → Prop
  | start : Built {}
  | createRoot {t : Tree} (concurrent : Bool) : Built t → Built (t.createRoot concurrent).2
  | createFiber {t : Tree} (tag : Tag) (concurrent : Bool) :
      Built t → Built (t.createFiber tag concurrent).2
  | createChild {t : Tree} (parent : FiberId) (tag : Tag) :
      Built t → Built (t.createChild parent tag).2
  | appendChild {t : Tree} (parent : FiberId) {child : FiberId} :
      Built t → t.fibers.has child → (∀ f, t.Beside child f → t.Loose f) →
      Built (t.appendChild parent child)
  | startTwin {t : Tree} {f : FiberId} (value : Option Value) :
      Built t → t.fibers.has f → Built (t.startTwin f value).2
  | detach {t : Tree} (f : FiberId) : Built t → Built (t.detach f)

/-- Links to siblings lead to fibers of a higher rank, and twins are of the same rank. -/
structure Ranked (t : Tree) (rank : FiberId → Nat) : Prop where
  rises : ∀ f g, t.goes (.next f) = some g → rank f < rank g
  twins : ∀ f w, (t.kin f).twin = some w → rank w = rank f
  back : ∀ f w, (t.kin f).twin = some w → (t.kin w).twin = some f
  there : ∀ l f, t.goes l = some f → t.fibers.has f

namespace Ranked

variable {rank : FiberId → Nat}

theorem rank_lt (ranked : t.Ranked rank) (leads : t.Leads (.next f) fs (some x)) :
    ∀ g ∈ fs ++ [x], rank f < rank g := by
  induction fs generalizing f with
  | nil =>
    intro g mem
    exact List.mem_singleton.mp mem ▸ ranked.rises f x leads
  | cons h fs ih =>
    intro g mem
    have first := ranked.rises f h leads.1
    rcases List.mem_cons.mp mem with rfl | later
    · exact first
    · exact Nat.lt_trans first (ih leads.2 g later)

/-- On a chain, every fiber is of a higher rank than those before. -/
theorem pairwise (ranked : t.Ranked rank) (leads : t.Leads l fs (some x)) :
    (fs ++ [x]).Pairwise (rank · < rank ·) := by
  induction fs generalizing l with
  | nil => exact List.pairwise_singleton ..
  | cons f fs ih => exact List.pairwise_cons.mpr ⟨ranked.rank_lt leads.2, ih leads.2⟩

/-- A list without end would have more fibers than there are. -/
theorem listsEnd (ranked : t.Ranked rank) : t.ListsEnd := by
  intro p
  obtain ⟨last, leads, ends⟩ := t.leads_siblingsFrom t.fibers.size (.head p)
  cases last with
  | none => exact leads
  | some x =>
    have long := ends.resolve_left nofun
    have once : (t.children p ++ [x]).Nodup :=
      (ranked.pairwise leads).imp fun rises => by
        rintro rfl
        exact Nat.lt_irrefl _ rises
    have short := t.fibers.length_le_size once fun f mem => by
      have mem := (List.mem_append.mp mem).imp_right fun own =>
        congrArg some (List.mem_singleton.mp own).symm
      obtain ⟨m, goes⟩ := exists_goes_of_leads leads mem
      exact ranked.there m f goes
    rw [List.length_append, List.length_singleton] at short
    exact absurd (long ▸ short : t.fibers.size + 1 ≤ t.fibers.size) (Nat.not_succ_le_self _)

theorem start (rank : FiberId → Nat) : Ranked {} rank where
  rises f g leads := nomatch leads
  twins f w twin := nomatch twin
  back f w twin := nomatch twin
  there l f leads := by cases l <;> cases leads

theorem of_same (ranked : t.Ranked rank) (kin : t.SameKin t')
    (goes : ∀ l, t'.goes l = t.goes l) : t'.Ranked rank where
  rises f g leads := ranked.rises f g (goes _ ▸ leads)
  twins f w twin := ranked.twins f w (kin.kin f ▸ twin)
  back f w twin := (congrArg Kin.twin (kin.kin w)).trans (ranked.back f w (kin.kin f ▸ twin))
  there l f leads := kin.has (ranked.there l f (goes l ▸ leads))

theorem exists_bound (t : Tree) (rank : FiberId → Nat) :
    ∃ bound, ∀ f, t.fibers.has f → rank f < bound := by
  have upTo (n : Nat) : ∃ bound, ∀ f : FiberId, f.index < n → rank f < bound := by
    induction n with
    | zero => exact ⟨0, fun f none => absurd none (Nat.not_lt_zero _)⟩
    | succ n ih =>
      obtain ⟨bound, below⟩ := ih
      refine ⟨max bound (rank ⟨n⟩ + 1), fun f early => ?_⟩
      rcases Nat.lt_succ_iff_lt_or_eq.mp early with earlier | last
      · exact Nat.lt_of_lt_of_le (below f earlier) (Nat.le_max_left ..)
      · obtain rfl : f = ⟨n⟩ := congrArg Id.mk last
        exact Nat.le_max_right ..
  obtain ⟨bound, below⟩ := upTo t.fibers.size
  exact ⟨bound, fun f there => below f (of_decide_eq_true there)⟩

/-- A loose fiber and its twin can be given any rank. -/
theorem appendChild (ranked : t.Ranked rank) (there : t.fibers.has c)
    (loose : ∀ f, t.Beside c f → t.Loose f) (p : FiberId) :
    ∃ rank, (t.appendChild p c).Ranked rank := by
  obtain ⟨bound, below⟩ := exists_bound t rank
  have twin (f : FiberId) : ((t.appendChild p c).kin f).twin = (t.kin f).twin := by
    rw [kin_appendChild]
    split <;> rfl
  have size := size_appendChild t p c
  have spared {l : Link} {f : FiberId} (leads : t.goes l = some f) : ¬ t.Beside c f :=
    fun near => (loose f near).entry l leads
  have beside {f w : FiberId} (twins : (t.kin f).twin = some w) (near : t.Beside c f) :
      t.Beside c w := by
    rcases near with rfl | other
    · exact .inr twins
    · exact .inl (Option.some.inj ((ranked.back c f other).symm.trans twins))
  refine ⟨fun f => if t.Beside c f then bound else rank f, ?_, ?_, ?_, ?_⟩
  · intro f g leads
    rcases goes_appendChild leads with ⟨old, other⟩ | ⟨rfl, before⟩
    · have far : ¬ t.Beside c f := fun near => by
        rw [(loose f near).next] at old
        cases old
      rw [if_neg far, if_neg (spared old)]
      exact ranked.rises f g old
    · obtain ⟨m, goes⟩ := before f rfl
      rw [if_neg (spared goes), if_pos (.inl rfl)]
      exact below f (ranked.there m f goes)
  · intro f w twins
    rw [twin] at twins
    by_cases near : t.Beside c f
    · rw [if_pos near, if_pos (beside twins near)]
    · rw [if_neg near, if_neg fun other => near (beside (ranked.back f w twins) other)]
      exact ranked.twins f w twins
  · intro f w twins
    rw [twin] at twins ⊢
    exact ranked.back f w twins
  · intro l f leads
    rcases goes_appendChild leads with ⟨old, -⟩ | ⟨rfl, -⟩
    · exact Arena.has_of_size_le (Nat.le_of_eq size.symm) (ranked.there l f old)
    · exact Arena.has_of_size_le (Nat.le_of_eq size.symm) there

/-- A fiber that was just created is loose. -/
theorem createChild (ranked : t.Ranked rank) (parent : FiberId) (tag : Tag) :
    ∃ rank, (t.createChild parent tag).2.Ranked rank := by
  let t₁ := (t.createFiber tag (t.fiber parent).concurrent).2
  have kin : t.SameKin t₁ := .createFiber t _ _
  have goes (l : Link) : t₁.goes l = t.goes l := goes_createFiber t _ _ l
  have absent : t.fibers.has t.fibers.next = false := Arena.not_has_next _
  refine appendChild (t := t₁) (ranked.of_same kin goes) (Arena.has_add.mpr (.inl rfl))
    (fun f near => ?_) parent
  have alone : (t₁.kin t.fibers.next).twin = none := by
    rw [kin.kin, kin_of_not_has absent]
  obtain rfl : t.fibers.next = f := near.resolve_right fun twin => nomatch alone.symm.trans twin
  refine ⟨fun l leads => ?_, ?_⟩
  · rw [goes] at leads
    exact nomatch absent.symm.trans (ranked.there l _ leads)
  · rw [goes]
    exact congrArg Fiber.sibling (fiber_of_not_has absent)

/-- A twin takes the links of its fiber, and the rank. -/
theorem startTwin (ranked : t.Ranked rank) (there : t.fibers.has f) (value : Option Value) :
    ∃ rank, (t.startTwin f value).2.Ranked rank := by
  have started := started_startTwin there (ranked.back f) value
  have goes := goes_startTwin there (ranked.back f) value
  generalize (t.startTwin f value).1 = w at started goes
  generalize (t.startTwin f value).2 = t' at started goes
  let rank' (h : FiberId) : Nat := if h = w then rank f else rank h
  have new : rank' w = rank f := if_pos rfl
  -- The twin that the fiber had is of its rank already.
  have old {h : FiberId} (present : t.fibers.has h) : rank' h = rank h := by
    by_cases own : h = w
    · subst own
      exact new.trans (ranked.twins f h (started.twin_of_has present)).symm
    · exact if_neg own
  refine ⟨rank', fun a g leads => ?_, fun a v twin => ?_, fun a v twin => ?_, fun l g leads => ?_⟩
  · rw [goes] at leads
    split at leads
    next own =>
      obtain rfl : w = a := own
      have leads : t.goes (.next f) = some g := leads
      rw [new, old (ranked.there _ g leads)]
      exact ranked.rises f g leads
    next =>
      have present : t.fibers.has a := has_of_goes leads
      rw [old present, old (ranked.there _ g leads)]
      exact ranked.rises a g leads
  · rcases started.twins ranked.back twin with ⟨rfl, rfl⟩ | ⟨rfl, rfl⟩ | ⟨-, -, twin⟩
    · rw [new, old there]
    · rw [new, old there]
    · rw [old (has_of_twin twin), old (has_of_twin (ranked.back a v twin))]
      exact ranked.twins a v twin
  · exact started.back ranked.back twin
  · rw [goes] at leads
    refine started.has ?_
    split at leads
    next =>
      cases l with
      | head _ => exact ranked.there (.head f) g leads
      | next _ => exact ranked.there (.next f) g leads
    next => exact ranked.there l g leads

theorem detachOne (ranked : t.Ranked rank) (x : FiberId) : (t.detachOne x).Ranked rank := by
  have twin (f : FiberId) : ((t.detachOne x).kin f).twin = (t.kin f).twin := by
    rw [kin_detachOne]
    split <;> rfl
  have cases_goes {l : Link} {g : FiberId} (leads : (t.detachOne x).goes l = some g) :
      (t.goes l = some x ∧ t.goes (.next x) = some g) ∨ t.goes l = some g := by
    rw [goes_detachOne] at leads
    split at leads
    next => cases leads
    next =>
      split at leads
      next entry => exact .inl ⟨goes_of_ownLink? entry, leads⟩
      next => exact .inr leads
  refine ⟨fun f g leads => ?_, fun f w twins => ?_, fun f w twins => ?_, fun l f leads => ?_⟩
  · rcases cases_goes leads with ⟨before, after⟩ | old
    · exact Nat.lt_trans (ranked.rises f x before) (ranked.rises x g after)
    · exact ranked.rises f g old
  · exact ranked.twins f w (twin f ▸ twins)
  · exact (twin w).trans (ranked.back f w (twin f ▸ twins))
  · have old : t.fibers.has f := by
      rcases cases_goes leads with ⟨-, after⟩ | old
      · exact ranked.there _ f after
      · exact ranked.there l f old
    exact Arena.has_of_size_le (Nat.le_of_eq (size_detachOne t x).symm) old

theorem detach (ranked : t.Ranked rank) (f : FiberId) : (t.detach f).Ranked rank := by
  unfold Tree.detach
  dsimp only
  split
  · exact ranked.detachOne f
  · exact (ranked.detachOne f).detachOne _

end Ranked

/-- In trees that are built step by step, all lists of children end. -/
theorem listsEnd_of_built (built : t.Built) : t.ListsEnd := by
  have exists_rank : ∃ rank, t.Ranked rank := by
    induction built with
    | start => exact ⟨fun _ => 0, .start _⟩
    | createRoot concurrent _ ih =>
      obtain ⟨rank, ranked⟩ := ih
      exact ⟨rank, ranked.of_same (.createRoot _ concurrent) (goes_createRoot _ concurrent)⟩
    | createFiber tag concurrent _ ih =>
      obtain ⟨rank, ranked⟩ := ih
      exact ⟨rank, ranked.of_same (.createFiber _ tag concurrent)
        (goes_createFiber _ tag concurrent)⟩
    | createChild parent tag _ ih =>
      obtain ⟨rank, ranked⟩ := ih
      exact ranked.createChild parent tag
    | appendChild parent _ there loose ih =>
      obtain ⟨rank, ranked⟩ := ih
      exact ranked.appendChild there loose parent
    | startTwin value _ there ih =>
      obtain ⟨rank, ranked⟩ := ih
      exact ranked.startTwin there value
    | detach f _ ih =>
      obtain ⟨rank, ranked⟩ := ih
      exact ⟨rank, ranked.detach f⟩
  obtain ⟨rank, ranked⟩ := exists_rank
  exact ranked.listsEnd

end Tree

end ConcurrentRender
