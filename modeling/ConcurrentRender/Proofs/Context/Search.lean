import ConcurrentRender.Context.Spread
import ConcurrentRender.Proofs.Tree.Below

/-!
# Searches without a bound

A search for readers walks along links, some of which it changes on the way. `Tree.search`
ends at the latest when its steps are used up, even if the links lead it round in a circle.
`Tree.Runs` has the same walk without any bound: a run is there only if the walk comes to
an end by itself.

* `Tree.Runs s c t looked t'`: the search `s`, which is at `c` in the tree `t`, looks at the
  fibers `looked` in this order, then ends, and leaves the tree `t'`.

Result: `search_eq_of_runs`, a search with as many steps as a run looks at fibers is that run.
-/

namespace ConcurrentRender

/-- Where a search is. -/
inductive Cursor where
  /-- The fiber is looked at next. -/
  | look (f : FiberId)
  /-- The fiber and everything below it are done. -/
  | behind (f : FiberId)

namespace Tree

variable {t t₁ t' : Tree} {s : Search} {f g p : FiberId} {fs : List FiberId}

/-- The walk of a search, for as long as it takes. -/
inductive Runs (s : Search) : Cursor → Tree → List FiberId → Tree → Prop
  | down {t t₁ t' : Tree} {f c : FiberId} {fs : List FiberId} :
      t.visit s f = (some c, t₁) → Runs s (.look c) (t₁.setParent c (some f)) fs t' →
      Runs s (.look f) t (f :: fs) t'
  | turn {t t₁ t' : Tree} {f : FiberId} {fs : List FiberId} :
      t.visit s f = (none, t₁) → Runs s (.behind f) t₁ fs t' → Runs s (.look f) t (f :: fs) t'
  | along {t t' : Tree} {f g : FiberId} {fs : List FiberId} :
      f ≠ s.start → (t.fiber f).sibling = some g →
      Runs s (.look g) (t.setParent g (t.fiber f).parent) fs t' → Runs s (.behind f) t fs t'
  | up {t t' : Tree} {f p : FiberId} {fs : List FiberId} :
      f ≠ s.start → (t.fiber f).sibling = none → (t.fiber f).parent = some p →
      Runs s (.behind p) t fs t' → Runs s (.behind f) t fs t'
  | arrive {t : Tree} : Runs s (.behind s.start) t [] t
  | leave {t : Tree} {f : FiberId} :
      f ≠ s.start → (t.fiber f).sibling = none → (t.fiber f).parent = none →
      Runs s (.behind f) t [] t

/-! ## The way up -/

/-- On the way up from `f`, the search passes the fibers `ups`, which have no sibling, and
finds `next?`: a fiber with a sibling, and that sibling. -/
inductive Rises (t : Tree) (stop : FiberId) :
    FiberId → List FiberId → Option (FiberId × FiberId) → Prop
  | arrive : Rises t stop stop [] none
  | leave {f : FiberId} : f ≠ stop → (t.fiber f).sibling = none → (t.fiber f).parent = none →
      Rises t stop f [] none
  | along {f g : FiberId} : f ≠ stop → (t.fiber f).sibling = some g →
      Rises t stop f [] (some (f, g))
  | up {f p : FiberId} {ups : List FiberId} {next? : Option (FiberId × FiberId)} :
      f ≠ stop → (t.fiber f).sibling = none → (t.fiber f).parent = some p →
      Rises t stop p ups next? → Rises t stop f (f :: ups) next?

namespace Rises

variable {stop : FiberId} {ups ups' : List FiberId} {next? next?' : Option (FiberId × FiberId)}

theorem unique (rise : Rises t stop f ups next?) (rise' : Rises t stop f ups' next?') :
    ups = ups' := by
  induction rise generalizing ups' with
  | arrive => cases rise' with
    | arrive => rfl
    | leave ne | along ne | up ne => exact absurd rfl ne
  | leave ne last top => cases rise' with
    | arrive => exact absurd rfl ne
    | leave | along => rfl
    | up _ _ parent => rw [top] at parent; cases parent
  | along ne next => cases rise' with
    | arrive => exact absurd rfl ne
    | leave | along => rfl
    | up _ last => rw [next] at last; cases last
  | up ne last parent _ ih => cases rise' with
    | arrive => exact absurd rfl ne
    | leave _ _ top => rw [parent] at top; cases top
    | along _ next => rw [last] at next; cases next
    | up _ _ parent' rise' =>
      obtain rfl := Option.some.inj (parent.symm.trans parent')
      rw [ih rise']

theorem suffix_of_mem (rise : Rises t stop f ups next?) (mem : g ∈ ups) :
    ∃ ups', Rises t stop g ups' next? ∧ ups'.length ≤ ups.length := by
  induction rise with
  | arrive | leave | along => cases mem
  | @up f p ups _ ne last parent rise ih =>
    rcases List.mem_cons.mp mem with rfl | mem
    · exact ⟨g :: ups, .up ne last parent rise, Nat.le_refl _⟩
    · obtain ⟨ups', rise', shorter⟩ := ih mem
      exact ⟨ups', rise', Nat.le_succ_of_le shorter⟩

/-- No fiber is passed twice: the way from it would be as long as the way that leads to it
and on. -/
theorem nodup (rise : Rises t stop f ups next?) : ups.Nodup := by
  induction rise with
  | arrive | leave | along => exact List.nodup_nil
  | @up f p ups _ ne last parent rise ih =>
    refine List.nodup_cons.mpr ⟨fun again => ?_, ih⟩
    obtain ⟨ups', rise', shorter⟩ := rise.suffix_of_mem again
    have same : ups' = f :: ups := rise'.unique (.up ne last parent rise)
    rw [same, List.length_cons] at shorter
    omega

theorem there (rise : Rises t stop f ups next?) (mem : g ∈ ups) : t.fibers.has g := by
  induction rise with
  | arrive | leave | along => cases mem
  | up _ _ parent _ ih =>
    rcases List.mem_cons.mp mem with rfl | mem
    · exact has_of_parent parent
    · exact ih mem

theorem found {n : Nat} (rise : Rises t stop f ups next?) (enough : ups.length ≤ n) :
    (((f :: t.climb n f).takeWhile fun g => g != stop).findSome? fun g =>
      (t.fiber g).sibling.map fun s => (g, s)) = next? := by
  induction rise generalizing n with
  | arrive => simp
  | leave ne last top =>
    cases n with
    | zero => simp [climb, ne, last]
    | succ n => simp [climb, ne, last, top]
  | along ne next => simp [ne, next]
  | @up f p ups next? ne last parent rise ih =>
    obtain ⟨n, rfl⟩ : ∃ m, n = m + 1 := ⟨n - 1, by rw [List.length_cons] at enough; omega⟩
    have rest := ih (Nat.le_of_succ_le_succ enough)
    rw [climb, parent]
    simpa [ne, last] using rest

/-- The way up is never cut short. -/
theorem afterSubtree? (rise : Rises t stop f ups next?) : t.afterSubtree? f stop = next? :=
  rise.found (t.fibers.length_le_size rise.nodup fun _ mem => rise.there mem)

end Rises

/-! ## Bounded and unbounded searches -/

/-- The search after the way up, with a bound. -/
def resume (s : Search) (fuel : Nat) (t : Tree) : Option (FiberId × FiberId) → Tree
  | none => t
  | some (g, sibling) => search s fuel sibling (t.setParent sibling (t.fiber g).parent)

theorem search_succ_of_down {n : Nat} {c : FiberId} (look : t.visit s f = (some c, t₁)) :
    search s (n + 1) f t = search s n c (t₁.setParent c (some f)) := by
  rw [search, look]

theorem search_succ_of_turn {n : Nat} (look : t.visit s f = (none, t₁)) :
    search s (n + 1) f t = resume s n t₁ (t₁.afterSubtree? f s.start) := by
  rw [search, look]
  dsimp only
  cases t₁.afterSubtree? f s.start <;> rfl

theorem bounded_of_runs {c : Cursor} (run : Runs s c t fs t') :
    match c with
    | .look f => ∀ n, fs.length ≤ n → search s n f t = t'
    | .behind f => ∃ ups next?, Rises t s.start f ups next? ∧
        ∀ n, fs.length ≤ n → resume s n t next? = t' := by
  induction run with
  | down look _ ih =>
    intro n enough
    obtain ⟨n, rfl⟩ : ∃ m, n = m + 1 := ⟨n - 1, by rw [List.length_cons] at enough; omega⟩
    rw [search_succ_of_down look, ih n (Nat.le_of_succ_le_succ enough)]
  | turn look _ ih =>
    intro n enough
    obtain ⟨n, rfl⟩ : ∃ m, n = m + 1 := ⟨n - 1, by rw [List.length_cons] at enough; omega⟩
    obtain ⟨ups, next?, rise, goesOn⟩ := ih
    rw [search_succ_of_turn look, rise.afterSubtree?, goesOn n (Nat.le_of_succ_le_succ enough)]
  | along ne next _ ih => exact ⟨[], _, .along ne next, fun n enough => ih n enough⟩
  | up ne last parent _ ih =>
    obtain ⟨ups, next?, rise, goesOn⟩ := ih
    exact ⟨_, next?, .up ne last parent rise, goesOn⟩
  | arrive => exact ⟨[], none, .arrive, fun _ _ => rfl⟩
  | leave ne last top => exact ⟨[], none, .leave ne last top, fun _ _ => rfl⟩

/-- A search with enough steps is the run, if the run ends. -/
theorem search_eq_of_runs {n : Nat} (run : Runs s (.look f) t fs t') (enough : fs.length ≤ n) :
    search s n f t = t' :=
  bounded_of_runs run n enough

/-- Everything that a spread does: nothing if there is no child, and else the search from the
first child on. -/
inductive Spreads (t : Tree) (s : Search) : List FiberId → Tree → Prop
  | nothing : (t.fiber s.start).child = none → Spreads t s [] t
  | run {first : FiberId} {fs : List FiberId} {t' : Tree} :
      (t.fiber s.start).child = some first →
      Runs s (.look first) (t.setParent first (some s.start)) fs t' → Spreads t s fs t'

theorem spread_eq_of_spreads (run : Spreads t s fs t') (enough : fs.length ≤ t.fibers.size) :
    t.spread s = t' := by
  cases run with
  | nothing none => rw [spread, none]
  | run some run =>
    rw [spread, some]
    refine search_eq_of_runs run (Nat.le_trans enough ?_)
    exact Nat.le_of_lt Nat.lt_two_pow_self

end Tree

end ConcurrentRender
