import ConcurrentRender.Proofs.Context.Changes
import ConcurrentRender.Proofs.Context.Sights

/-!
# The shortcut on the way up

A fiber that is not rendered spreads the changes above it to the readers below. Its way up
ends early at a fiber from where changes were spread before, so it does not know all changes.
It need not: what it does not know, that fiber has told the readers below, and on the way
between there was no reader that stopped it.

* `Tree.Grown t top F`: in `t`, the fibers from `top` down are `top` and those of `F`, and
  the links to parents agree with the others.
* `Tree.Told t lanes f`: the readers below `f` have been told of the changes at `f` and above,
  as far as a lazy spread from `f` would tell them.
* `Tree.Calls top lanes t₀ fs t`: lazy spreads from the fibers `fs`, the last one first, lead
  from `t₀` to `t`.

Results:
1. `told_of_ok`: a spread from `f` tells the readers below `f`, if every fiber from where
   changes were spread has told those below it.
2. `told_of_calls`: hence the shortcut misses no reader, in whatever order fibers spread.
-/

namespace ConcurrentRender

/-- The fiber without its lanes and marks. -/
def Fiber.core (x : Fiber) : Fiber := { x.stem with flags := {}, parent := x.parent }

namespace Tree

variable {t t' t'' : Tree} {top f g p x : FiberId} {F : Forest} {rest path : List FiberId}
  {k : ContextId} {lanes : LaneSet}

/-! ## Trees whose links agree -/

/-- In the forest below `p`, the links to parents lead to the fibers right above. -/
def Hangs (t : Tree) : FiberId → Forest → Prop
  | _, .nil => True
  | p, .cons f below rest => (t.fiber f).parent = some p ∧ t.Hangs f below ∧ t.Hangs p rest

instance decidableHangs (t : Tree) : (p : FiberId) → (F : Forest) → Decidable (t.Hangs p F)
  | _, .nil => inferInstanceAs (Decidable True)
  | p, .cons f below rest =>
    have := decidableHangs t f below
    have := decidableHangs t p rest
    inferInstanceAs (Decidable (_ ∧ _ ∧ _))

theorem Hangs.parent (hangs : t.Hangs p F) (found : F.At path f) :
    (t.fiber f).parent = (path ++ [p]).head? := by
  induction F generalizing p path with
  | nil => exact found.elim
  | cons g below rest ihBelow ihRest =>
    obtain ⟨up, hangsBelow, hangsRest⟩ := hangs
    rcases found with ⟨rfl, rfl⟩ | ⟨upper, rfl, found⟩ | found
    · exact up
    · rw [ihBelow hangsBelow found]
      cases upper <;> rfl
    · exact ihRest hangsRest found

theorem Hangs.congr (parent : ∀ f, (t'.fiber f).parent = (t.fiber f).parent)
    (hangs : t.Hangs p F) : t'.Hangs p F := by
  induction F generalizing p with
  | nil => trivial
  | cons g below rest ihBelow ihRest =>
    obtain ⟨up, hangsBelow, hangsRest⟩ := hangs
    exact ⟨(parent g).trans up, ihBelow hangsBelow, ihRest hangsRest⟩

/-- A finite tree from `top` down in which the links to parents agree with the others. -/
structure Grown (t : Tree) (top : FiberId) (F : Forest) : Prop where
  there : t.fibers.has top
  spans : t.Spans (t.fiber top).child F
  once : (top :: F.fibers).Nodup
  first : (t.fiber top).parent = none
  hangs : t.Hangs top F

theorem Within.below (within : t.Within p f) (lower : t.Below f g) : t.Below p g := by
  rcases within with rfl | below
  · exact lower
  · exact below.trans lower

theorem mem_line_iff_onWay (first : (t.fiber top).parent = none)
    (lined : t.Line top (f :: rest)) : p ∈ f :: rest ↔ t.OnWay f p := by
  induction rest generalizing f with
  | nil =>
    obtain rfl : f = top := lined
    simp [OnWay, Above.not_of_no_parent first]
  | cons q rest ih => rw [onWay_step lined.2.1, List.mem_cons, ih lined.2.2]

theorem climb_of_line (first : (t.fiber top).parent = none) {n : Nat}
    (lined : t.Line top (f :: rest)) (enough : rest.length ≤ n) : t.climb n f = rest := by
  induction rest generalizing f n with
  | nil =>
    obtain rfl : f = top := lined
    cases n with
    | zero => rfl
    | succ n => rw [climb_succ, first]
  | cons q rest ih =>
    obtain ⟨n, rfl⟩ : ∃ m, n = m + 1 := ⟨n - 1, by rw [List.length_cons] at enough; omega⟩
    rw [climb_succ, lined.2.1]
    exact congrArg (q :: ·) (ih lined.2.2 (Nat.le_of_succ_le_succ enough))

theorem Line.of_append {seen : List FiberId} (lined : t.Line top (seen ++ g :: rest)) :
    t.Line top (g :: rest) := by
  induction seen with
  | nil => exact lined
  | cons f seen ih =>
    cases seen with
    | nil => exact lined.2.2
    | cons q seen => exact ih lined.2.2

namespace Grown

variable (grown : t.Grown top F)
include grown

theorem agree {c : FiberId} (within : t.Within top p) (child : t.IsChild p c) :
    (t.fiber c).parent = some p := by
  rcases within with rfl | below
  · exact grown.hangs.parent ((listed_iff_at grown.spans).mp child)
  · obtain ⟨path, found⟩ := Forest.exists_at_of_mem ((below_iff_mem grown.spans).mp below)
    exact grown.hangs.parent ((at_cons_iff grown.spans).mpr ⟨found, child⟩)

theorem child_of_parent (within : t.Within top f) (up : (t.fiber f).parent = some p) :
    t.Within top p ∧ t.IsChild p f := by
  rcases within with rfl | below
  · rw [grown.first] at up
    cases up
  · cases below with
    | child child =>
      have up' := grown.agree (.inl rfl) child
      obtain rfl := Option.some.inj (up'.symm.trans up)
      exact ⟨.inl rfl, child⟩
    | step above child =>
      have up' := grown.agree (.inr above) child
      obtain rfl := Option.some.inj (up'.symm.trans up)
      exact ⟨.inr above, child⟩

/-- In such a tree, being above is the same as having the other below. -/
theorem above_iff (within : t.Within top f) : t.Above f p ↔ t.Within top p ∧ t.Below p f := by
  constructor
  · intro above
    induction above with
    | parent up =>
      exact (grown.child_of_parent within up).imp id .child
    | step up _ ih =>
      obtain ⟨within, child⟩ := grown.child_of_parent within up
      exact (ih within).imp id fun below => .step below child
  · rintro ⟨upper, below⟩
    induction below with
    | child child => exact .parent (grown.agree upper child)
    | step lower child ih =>
      have inTree : t.Within top _ := .inr (upper.below lower)
      exact .step (grown.agree inTree child) (ih inTree)

theorem within_of_onWay (within : t.Within top f) (way : t.OnWay f g) : t.Within top g := by
  rcases way with rfl | above
  · exact within
  · exact ((grown.above_iff within).mp above).1

theorem acyclic (within : t.Within top f) : ¬ t.Above f f := by
  intro circle
  rcases within with rfl | below
  · exact Above.not_of_no_parent grown.first circle
  · exact not_below_self grown.spans (List.nodup_cons.mp grown.once).2 below
      ((grown.above_iff (.inr below)).mp circle).2

theorem has (within : t.Within top f) : t.fibers.has f := by
  rcases within with rfl | below
  · exact grown.there
  · exact grown.spans.there ((below_iff_mem grown.spans).mp below)

theorem line_of_at (found : F.At path f) : t.Line top (f :: (path ++ [top])) := by
  obtain ⟨new, once⟩ := List.nodup_cons.mp grown.once
  have ne : f ≠ top := fun e => new (e ▸ Forest.mem_fibers_of_at found)
  induction path generalizing f with
  | nil =>
    exact ⟨ne, grown.agree (.inl rfl) ((listed_iff_at grown.spans).mpr found), rfl⟩
  | cons g path ih =>
    obtain ⟨up, child⟩ := (at_cons_iff grown.spans).mp found
    have mem := Forest.mem_fibers_of_at up
    exact ⟨ne, grown.agree (.inr ((below_iff_mem grown.spans).mpr mem)) child,
      ih up fun e => new (e ▸ mem)⟩

/-- The way up from a fiber of the tree is all there is above it. -/
theorem line (within : t.Within top f) : t.Line top (f :: t.ancestors f) := by
  obtain ⟨rest, lined, once⟩ : ∃ rest, t.Line top (f :: rest) ∧ (f :: rest).Nodup := by
    rcases within with rfl | below
    · exact ⟨[], rfl, List.nodup_singleton f⟩
    · obtain ⟨new, once⟩ := List.nodup_cons.mp grown.once
      obtain ⟨path, found⟩ := Forest.exists_at_of_mem ((below_iff_mem grown.spans).mp below)
      refine ⟨path ++ [top], grown.line_of_at found, ?_⟩
      rw [← List.cons_append]
      refine List.nodup_append.mpr
        ⟨Forest.nodup_of_at once found, List.nodup_singleton top, ?_⟩
      rintro a mem b hb rfl
      obtain rfl := List.mem_singleton.mp hb
      rcases List.mem_cons.mp mem with rfl | mem
      · exact new (Forest.mem_fibers_of_at found)
      · exact new (Forest.mem_fibers_of_mem_path found mem)
  have inTree : ∀ g ∈ f :: rest, t.fibers.has g := by
    intro g mem
    exact grown.has (grown.within_of_onWay within ((mem_line_iff_onWay grown.first lined).mp mem))
  rw [ancestors, climb_of_line grown.first lined
    (Nat.le_of_succ_le (t.fibers.length_le_size once inTree))]
  exact lined

/-- The fibers below a fiber of the tree form a forest. -/
theorem exists_spans (within : t.Within top f) :
    ∃ G : Forest, t.Spans (t.fiber f).child G ∧ (f :: G.fibers).Nodup := by
  rcases within with rfl | below
  · exact ⟨F, grown.spans, grown.once⟩
  · obtain ⟨G, spans, part⟩ :=
      exists_spans_of_mem grown.spans ((below_iff_mem grown.spans).mp below)
    exact ⟨G, spans, part.nodup (List.nodup_cons.mp grown.once).2⟩

end Grown

/-! ## Growing lanes -/

/-- `t'` is `t` with more lanes, and other marks perhaps. -/
structure Grows (t t' : Tree) : Prop where
  size : t'.fibers.size = t.fibers.size
  core : ∀ f, (t'.fiber f).core = (t.fiber f).core
  lanes : ∀ f, (t.fiber f).lanes ⊆ (t'.fiber f).lanes
  childLanes : ∀ f, (t.fiber f).childLanes ⊆ (t'.fiber f).childLanes

namespace Grows

theorem refl (t : Tree) : Grows t t :=
  ⟨rfl, fun _ => rfl, fun _ _ mem => mem, fun _ _ mem => mem⟩

theorem trans (grows : Grows t t') (grows' : Grows t' t'') : Grows t t'' :=
  ⟨grows'.size.trans grows.size, fun f => (grows'.core f).trans (grows.core f),
    fun f l mem => grows'.lanes f l (grows.lanes f l mem),
    fun f l mem => grows'.childLanes f l (grows.childLanes f l mem)⟩

theorem noteSpread (t : Tree) (f : FiberId) : Grows t (t.noteSpread f) := by
  have read : ∀ {α : Type} (read : Fiber → α), (∀ x b,
      read { x with flags := { x.flags with didPropagate := b } } = read x) → ∀ h,
      read ((t.noteSpread f).fiber h) = read (t.fiber h) := by
    intro α read hr h
    rw [Tree.noteSpread, fiber_setFiber]
    split
    · exact hr _ _
    · rfl
  refine ⟨size_setFiber t f _, read Fiber.core fun _ _ => rfl, fun h l mem => ?_, fun h l mem => ?_⟩
  · rwa [read Fiber.lanes fun _ _ => rfl]
  · rwa [read Fiber.childLanes fun _ _ => rfl]

variable (grows : Grows t t')
include grows

theorem read {α : Type} (read : Fiber → α) (f : FiberId) :
    read (t'.fiber f).core = read (t.fiber f).core := by
  rw [grows.core]

theorem child (f : FiberId) : (t'.fiber f).child = (t.fiber f).child :=
  grows.read Fiber.child f

theorem sibling (f : FiberId) : (t'.fiber f).sibling = (t.fiber f).sibling :=
  grows.read Fiber.sibling f

theorem parent (f : FiberId) : (t'.fiber f).parent = (t.fiber f).parent :=
  grows.read Fiber.parent f

theorem tag (f : FiberId) : (t'.fiber f).tag = (t.fiber f).tag :=
  grows.read Fiber.tag f

theorem offer (f : FiberId) : (t'.fiber f).offer = (t.fiber f).offer :=
  grows.read Fiber.offer f

theorem reads {contexts : List ContextId} : t'.Reads contexts f ↔ t.Reads contexts f := by
  have same : ∀ f, (t'.fiber f).readsAny? contexts = (t.fiber f).readsAny? contexts := by
    intro f
    rw [← Fiber.readsAny?_stem, ← Fiber.readsAny?_stem (t.fiber f)]
    exact grows.read (fun x => x.readsAny? contexts) f
  rw [Reads, same, Reads]

theorem below : t'.Below f g ↔ t.Below f g := below_congr grows.child grows.sibling

theorem within : t'.Within f g ↔ t.Within f g := or_congr_right grows.below

theorem changedFrom : t'.ChangedFrom f k ↔ t.ChangedFrom f k :=
  changedFrom_congr grows.parent grows.offer

theorem grown (grown : t.Grown top F) : t'.Grown top F where
  there := by simpa only [Arena.has, grows.size] using grown.there
  spans := by
    rw [grows.child]
    exact grown.spans.congr grows.size grows.child grows.sibling
  once := grown.once
  first := (grows.parent top).trans grown.first
  hangs := grown.hangs.congr grows.parent

end Grows

/-- In a tree whose links agree, a spread only adds lanes. -/
theorem Grown.grows_spread (grown : t.Grown top F) {s : Search} (within : t.Within top s.start) :
    Grows t (t.spread s) := by
  obtain ⟨G, spans, once⟩ := grown.exists_spans within
  have there := grown.has within
  have marked := (marked_spread there spans once).1
  have parent : ∀ f, ((t.spread s).fiber f).parent = (t.fiber f).parent := by
    intro f
    by_cases looks : t.Looks s f
    · obtain ⟨p, inSearch, child, repaired⟩ := parent_spread_of_looks there spans once looks
      have inTree : t.Within top p := by
        rcases inSearch with rfl | below
        · exact within
        · exact .inr (within.below below)
      rw [repaired, grown.agree inTree child]
    · exact parent_spread_of_not_looks there spans once looks
  refine ⟨marked.size, fun f => ?_, fun f l mem => ?_, fun f l mem => ?_⟩
  · rw [Fiber.core, marked.stem, parent, Fiber.core]
  · exact (marked.lanes f l).mpr (.inl mem)
  · exact (marked.childLanes f l).mpr (.inl mem)

/-! ## Telling the readers below -/

/-- The readers below `f` have been told of the changes at `f` and above, if there is no other
such reader and no fragment between, and so have the fibers between. -/
def Told (t : Tree) (lanes : LaneSet) (f : FiberId) : Prop :=
  ∀ x k, t.Below f x → t.Reads [k] x → t.ChangedFrom f k →
    (∀ y, t.Below f y → t.Below y x → (t.fiber y).tag ≠ .dehydratedFragment ∧
      ∀ k', t.ChangedFrom f k' → ¬ t.Reads [k'] y) →
    lanes ⊆ (t.fiber x).lanes ∧
      ∀ y, t.Within f y → t.Below y x → lanes ⊆ (t.fiber y).childLanes

theorem Told.mono (grows : Grows t t') (told : t.Told lanes f) : t'.Told lanes f := by
  intro x k below reads changed between
  simp only [grows.below, grows.tag, grows.changedFrom, grows.reads] at below reads changed between
  obtain ⟨own, path⟩ := told x k below reads changed between
  refine ⟨fun l mem => grows.lanes x l (own l mem), fun y within lower l mem => ?_⟩
  exact grows.childLanes y l (path y (grows.within.mp within) (grows.below.mp lower) l mem)

/-- On the way up from `f` there is no fragment, and a reader of what changed above it needs
propagation. -/
def Open (t : Tree) (f : FiberId) : Prop :=
  ∀ y, t.OnWay f y → (t.fiber y).tag ≠ .dehydratedFragment ∧
    ∀ k p, t.Above y p → t.ChangedAt p k → t.Reads [k] y → (t.fiber y).flags.needsPropagation

/-- A lazy spread of changed contexts tells the readers of these contexts. -/
theorem told_of_spread (lanes : LaneSet) (there : t.fibers.has f)
    (spans : t.Spans (t.fiber f).child F) (once : (f :: F.fibers).Nodup)
    {contexts : List ContextId} (changed : ∀ k ∈ contexts, t.ChangedFrom f k)
    (below : t.Below f x) (reads : t.Reads contexts x)
    (between : ∀ y, t.Below f y → t.Below y x → (t.fiber y).tag ≠ .dehydratedFragment ∧
      ∀ k', t.ChangedFrom f k' → ¬ t.Reads [k'] y) :
    let t' := t.spread { start := f, contexts, lanes, forced := false }
    lanes ⊆ (t'.fiber x).lanes ∧
      ∀ y, t.Within f y → t.Below y x → lanes ⊆ (t'.fiber y).childLanes := by
  let s : Search := { start := f, contexts, lanes, forced := false }
  refine raised_of_looks (s := s) there spans once ⟨below, fun y upper lower => ?_⟩ reads
  obtain ⟨unsealed, silent⟩ := between y upper lower
  refine ⟨fun fragment => unsealed fragment.2, fun _ hit => ?_⟩
  obtain ⟨k, mem, hit⟩ := reads_iff.mp hit
  exact silent k (changed k mem) hit

/-- What the walk up from a fiber misses was spread from a fiber above, and no fiber on the way
there needs propagation. -/
theorem Grown.missed (grown : t.Grown top F) (within : t.Within top f) {contexts : List ContextId}
    (ok : t.changedAbove f = .ok contexts) :
    (∀ k ∈ contexts, t.ChangedFrom f k) ∧ ∀ k, t.ChangedFrom f k → k ∈ contexts ∨
      ∃ g, t.OnWay f g ∧ (t.fiber g).flags.didPropagate ∧ t.ChangedFrom g k ∧
        ∀ y, t.OnWay f y → t.Above y g → (t.fiber y).flags.needsPropagation = false := by
  have lined := grown.line within
  obtain ⟨seen, rest, split, collected, stops⟩ := changedAlong_split ok
  have onWay : ∀ p, t.OnWay f p ↔ p ∈ seen ∨ p ∈ rest := fun p => by
    rw [← mem_line_iff_onWay grown.first lined, split, List.mem_append]
  refine ⟨fun k mem => ?_, fun k ⟨p, way, changed⟩ => ?_⟩
  · obtain ⟨p, mem, changed⟩ := (collected k).mp mem
    exact ⟨p, (onWay p).mpr (.inl mem), changed⟩
  · rcases (onWay p).mp way with mem | mem
    · exact .inl ((collected k).mpr ⟨p, mem, changed⟩)
    · cases rest with
      | nil => cases mem
      | cons g above =>
        have upper := mem_line_iff_onWay grown.first (Line.of_append (split ▸ lined)) (p := p)
        obtain ⟨-, did, -, before⟩ := stops g above rfl
        have wayUp : t.OnWay f g := (onWay g).mpr (.inr (.head _))
        refine .inr ⟨g, wayUp, did, ⟨p, upper.mp mem, changed⟩, fun y way lower => ?_⟩
        rcases (onWay y).mp way with mem | mem
        · exact before y mem
        · have circle := OnWay.above
            ((mem_line_iff_onWay grown.first (Line.of_append (split ▸ lined))).mp mem) lower
          exact absurd circle (grown.acyclic (grown.within_of_onWay within wayUp))

theorem Grown.below_of_onWay (grown : t.Grown top F) (within : t.Within top f)
    (way : t.OnWay f g) (below : t.Below f x) : t.Below g x := by
  have inTree : t.Within top x := .inr (within.below below)
  have above : t.Above x f := (grown.above_iff inTree).mpr ⟨within, below⟩
  exact ((grown.above_iff inTree).mp (above.onWay way)).2

/-- What a fiber above `f` has told the readers below, it has told those below `f`, if no fiber
on an open way from `f` up to there needs propagation. No reader between can have stopped the
changes, since it would need propagation. -/
theorem Told.of_onWay (grown : t.Grown top F) (within : t.Within top f) (isOpen : t.Open f)
    (way : t.OnWay f g)
    (quiet : ∀ y, t.OnWay f y → t.Above y g → (t.fiber y).flags.needsPropagation = false)
    (told : t.Told lanes g) (below : t.Below f x) (reads : t.Reads [k] x)
    (changed : t.ChangedFrom g k)
    (between : ∀ y, t.Below f y → t.Below y x → (t.fiber y).tag ≠ .dehydratedFragment ∧
      ∀ k', t.ChangedFrom f k' → ¬ t.Reads [k'] y) :
    lanes ⊆ (t.fiber x).lanes ∧
      ∀ y, t.Within f y → t.Below y x → lanes ⊆ (t.fiber y).childLanes := by
  have withinG := grown.within_of_onWay within way
  have quietUp : ∀ y, t.OnWay f y → t.Above y g → (t.fiber y).tag ≠ .dehydratedFragment ∧
      ∀ k', t.ChangedFrom g k' → ¬ t.Reads [k'] y := by
    intro y wayUp lower
    refine ⟨(isOpen y wayUp).1, fun k' ⟨p, upper, changed⟩ reads => ?_⟩
    have needs := (isOpen y wayUp).2 k' p (lower.onWay upper) changed reads
    rw [quiet y wayUp lower] at needs
    cases needs
  have belowG := grown.below_of_onWay within way below
  obtain ⟨own, path⟩ := told x k belowG reads changed fun y upper lower => by
    -- A fiber below `g` and above `x` is below `f`, or it is `f` or above.
    have inTree : t.Within top y := .inr (withinG.below upper)
    have aboveG := (grown.above_iff inTree).mpr ⟨withinG, upper⟩
    have inTreeX : t.Within top x := .inr (within.below below)
    have aboveX := (grown.above_iff inTreeX).mpr ⟨inTree, lower⟩
    have aboveF := (grown.above_iff inTreeX).mpr ⟨within, below⟩
    obtain (rfl | lowerF) | wayUp := aboveX.linear aboveF
    · exact quietUp f (.inl rfl) aboveG
    · obtain ⟨unsealed, silent⟩ := between y ((grown.above_iff inTree).mp lowerF).2 lower
      exact ⟨unsealed, fun k' changed => silent k' (.of_onWay way changed)⟩
    · exact quietUp y (.inr wayUp) aboveG
  refine ⟨own, fun y upper lower => path y ?_ lower⟩
  rcases upper with rfl | upper
  · exact way.imp Eq.symm fun above => ((grown.above_iff within).mp above).2
  · exact .inr (grown.below_of_onWay within way upper)

/-- A successful lazy spread tells the readers below, if every fiber from where changes were
spread before has told those below it. A reader of a context that the walk collects is told by
the spread itself. Another one was told before, by the fiber at which the walk stopped. -/
theorem told_of_ok (grown : t.Grown top F)
    (told : ∀ g, t.Within top g → (t.fiber g).flags.didPropagate → t.Told lanes g)
    (within : t.Within top f) (isOpen : t.Open f) {contexts : List ContextId}
    (ok : t.changedAbove f = .ok contexts) :
    let t' := if contexts.isEmpty then t
      else t.spread { start := f, contexts, lanes, forced := false }
    Grows t t' ∧ (∀ h, (t'.fiber h).flags = (t.fiber h).flags) ∧ t'.Told lanes f := by
  intro t'
  have grows : Grows t t' := by
    simp only [t']
    split
    · exact .refl t
    · exact grown.grows_spread within
  obtain ⟨G, spans, once⟩ := grown.exists_spans within
  have flags : ∀ h, (t'.fiber h).flags = (t.fiber h).flags := by
    simp only [t']
    split
    · exact fun _ => rfl
    · exact (marked_spread (grown.has within) spans once).1.flags
  refine ⟨grows, flags, fun x k below reads changed between => ?_⟩
  simp only [grows.below, grows.tag, grows.changedFrom, grows.reads] at below reads changed between
  simp only [grows.within, grows.below]
  obtain ⟨known, missed⟩ := grown.missed within ok
  by_cases hit : t.Reads contexts x
  · obtain ⟨k', mem, -⟩ := reads_iff.mp hit
    have spread : t' = t.spread { start := f, contexts, lanes, forced := false } :=
      if_neg fun none => by simp_all
    rw [spread]
    exact told_of_spread lanes (grown.has within) spans once known below hit between
  · obtain mem | ⟨g, way, did, changed, quiet⟩ := missed k changed
    · exact absurd (reads_iff.mpr ⟨k, mem, reads⟩) hit
    obtain ⟨own, path⟩ := (told g (grown.within_of_onWay within way) did).of_onWay grown within
      isOpen way quiet below reads changed between
    exact ⟨fun l mem => grows.lanes x l (own l mem), fun y upper lower l mem =>
      grows.childLanes y l (path y upper lower l mem)⟩

/-! ## Calls in any order -/

/-- Lazy spreads from fibers of the tree, each successful and from a fiber with an open way
up, lead from `t₀` to `t`. Between them lanes may be added, but nothing else happens. -/
inductive Calls (top : FiberId) (lanes : LaneSet) (t₀ : Tree) : List FiberId → Tree → Prop
  | none : Calls top lanes t₀ [] t₀
  | call {fs : List FiberId} {t : Tree} {f : FiberId} : Calls top lanes t₀ fs t →
      t.Within top f → t.Open f → (spreadFromAbove f lanes false t).result = .ok () →
      Calls top lanes t₀ (f :: fs) (spreadFromAbove f lanes false t).state
  | grow {fs : List FiberId} {t t' : Tree} : Calls top lanes t₀ fs t → Grows t t' →
      (∀ f, (t'.fiber f).flags = (t.fiber f).flags) → Calls top lanes t₀ fs t'

theorem flags_noteSpread (t : Tree) (f h : FiberId) :
    ((t.noteSpread f).fiber h).flags.didPropagate =
      ((t.fiber h).flags.didPropagate || decide (f = h ∧ t.fibers.has h)) := by
  rw [noteSpread, fiber_setFiber]
  split
  next here => simp [here]
  next away => simp [away]

theorem needs_noteSpread (t : Tree) (f h : FiberId) :
    ((t.noteSpread f).fiber h).flags.needsPropagation = (t.fiber h).flags.needsPropagation := by
  rw [noteSpread, fiber_setFiber]
  split <;> rfl

/-- What all calls keep: every fiber from where changes were spread has told those below. -/
structure AllTold (t : Tree) (top : FiberId) (F : Forest) (lanes : LaneSet) (fs : List FiberId) :
    Prop where
  grown : t.Grown top F
  told : ∀ g, t.Within top g → (t.fiber g).flags.didPropagate → t.Told lanes g
  called : ∀ f ∈ fs, t.Within top f ∧ (t.fiber f).flags.didPropagate

theorem AllTold.call {fs : List FiberId} (all : t.AllTold top F lanes fs)
    (within : t.Within top f) (isOpen : t.Open f)
    (ok : (spreadFromAbove f lanes false t).result = .ok ()) :
    (spreadFromAbove f lanes false t).state.AllTold top F lanes (f :: fs) := by
  obtain ⟨contexts, above⟩ := ok_of_spreadFromAbove ok
  rw [(spreadFromAbove_of_ok above).2]
  obtain ⟨grows, flags, toldF⟩ := told_of_ok all.grown all.told within isOpen above
  generalize (if contexts.isEmpty then t
    else t.spread { start := f, contexts, lanes, forced := false }) = t₁ at grows flags toldF
  have noted := Grows.noteSpread t₁ f
  have both := grows.trans noted
  have here : t₁.fibers.has f := by
    simpa only [Arena.has, grows.size] using all.grown.has within
  refine ⟨both.grown all.grown, fun g inTree did => ?_, fun g mem => ?_⟩
  · rw [flags_noteSpread, flags, Bool.or_eq_true, decide_eq_true_eq] at did
    rcases did with did | ⟨rfl, -⟩
    · exact (all.told g (both.within.mp inTree) did).mono both
    · exact toldF.mono noted
  · rw [flags_noteSpread, flags, Bool.or_eq_true, decide_eq_true_eq]
    rcases List.mem_cons.mp mem with rfl | mem
    · exact ⟨both.within.mpr within, .inr ⟨rfl, here⟩⟩
    · obtain ⟨inTree, did⟩ := all.called g mem
      exact ⟨both.within.mpr inTree, .inl did⟩

theorem AllTold.grow {fs : List FiberId} (all : t.AllTold top F lanes fs) (grows : Grows t t')
    (flags : ∀ f, (t'.fiber f).flags = (t.fiber f).flags) : t'.AllTold top F lanes fs where
  grown := grows.grown all.grown
  told := fun g inTree did =>
    (all.told g (grows.within.mp inTree) (flags g ▸ did)).mono grows
  called := fun g mem =>
    (all.called g mem).imp grows.within.mpr fun did => (flags g).symm ▸ did

/-- The shortcut misses no reader. Where changes were spread from no fiber yet, and lazy
spreads then start from any fibers in any order, each of them tells the readers below. -/
theorem told_of_calls {t₀ : Tree} {fs : List FiberId} (grown : t₀.Grown top F)
    (clear : ∀ g, t₀.Within top g → (t₀.fiber g).flags.didPropagate = false)
    (calls : Calls top lanes t₀ fs t) : ∀ f ∈ fs, t.Told lanes f := by
  have all : t.AllTold top F lanes fs := by
    induction calls with
    | none =>
      refine ⟨grown, fun g inTree did => ?_, by simp⟩
      rw [clear g inTree] at did
      cases did
    | call _ within isOpen ok ih => exact ih.call within isOpen ok
    | grow _ grows flags ih => exact ih.grow grows flags
  intro f mem
  obtain ⟨inTree, did⟩ := all.called f mem
  exact all.told f inTree did

/-- A way up is open if each fiber on it read nothing or needs propagation. -/
theorem open_of_line (grown : t.Grown top F) (within : t.Within top f)
    (line : ∀ y ∈ f :: t.ancestors f, (t.fiber y).tag ≠ .dehydratedFragment ∧
      ((t.fiber y).dependencies = none ∨ (t.fiber y).flags.needsPropagation)) : t.Open f := by
  intro y way
  obtain ⟨unsealed, quiet⟩ :=
    line y ((mem_line_iff_onWay grown.first (grown.line within)).mpr way)
  refine ⟨unsealed, fun k p _ _ reads => quiet.resolve_left fun nothing => ?_⟩
  simp [Reads, Fiber.readsAny?, nothing] at reads

/-- Below a provider with a new value, the changes are spread from a fiber and then from its
child, whose way up ends at once. The reader below has been told of the change. -/
theorem told_of_calls_of_child :
    let root := (({} : Tree).createRoot true).2
    let provider := (root.createChild ⟨0⟩ (.contextProvider ⟨2⟩)).2
    let inner := (((provider.createChild ⟨1⟩ .fragment).2.createChild ⟨2⟩ .fragment).2.createChild
      ⟨3⟩ .functionComponent).2
    let t₀ := ((((inner.ensureTwin ⟨1⟩).2.setFiber ⟨5⟩
      fun x => { x with committedValue := some (.unit 0) }).setFiber ⟨1⟩
      fun x => { x with pendingValue := some (.unit 1) }).setFiber ⟨4⟩ fun x =>
        { x with dependencies := some { contexts := [{ context := ⟨2⟩, seen := .unit 0 }] } })
    let F := Forest.cons ⟨1⟩ (.cons ⟨2⟩ (.cons ⟨3⟩ (.cons ⟨4⟩ .nil .nil) .nil) .nil) .nil
    let lanes := LaneSet.single 3
    let t₁ := (spreadFromAbove ⟨2⟩ lanes false t₀).state
    let t₂ := (spreadFromAbove ⟨3⟩ lanes false t₁).state
    t₀.Grown ⟨0⟩ F ∧ (∀ g, t₀.Within ⟨0⟩ g → (t₀.fiber g).flags.didPropagate = false) ∧
      Calls ⟨0⟩ lanes t₀ [⟨3⟩, ⟨2⟩] t₂ ∧ t₂.Told lanes ⟨3⟩ := by
  intro root provider inner t₀ F lanes t₁ t₂
  have grown₀ : t₀.Grown ⟨0⟩ F := ⟨by decide +kernel, by decide +kernel, by decide +kernel,
    by decide +kernel, by decide +kernel⟩
  have grown₁ : t₁.Grown ⟨0⟩ F := ⟨by decide +kernel, by decide +kernel, by decide +kernel,
    by decide +kernel, by decide +kernel⟩
  have clear : ∀ g, t₀.Within ⟨0⟩ g → (t₀.fiber g).flags.didPropagate = false := by
    intro g within
    have mem : g ∈ (⟨0⟩ : FiberId) :: F.fibers :=
      List.mem_cons.mpr (within.imp id (below_iff_mem grown₀.spans).mp)
    have all : ∀ g ∈ (⟨0⟩ : FiberId) :: F.fibers, (t₀.fiber g).flags.didPropagate = false := by
      decide +kernel
    exact all g mem
  have within₀ : t₀.Within ⟨0⟩ ⟨2⟩ := .inr ((below_iff_mem grown₀.spans).mpr (by decide +kernel))
  have within₁ : t₁.Within ⟨0⟩ ⟨3⟩ := .inr ((below_iff_mem grown₁.spans).mpr (by decide +kernel))
  have open₀ : t₀.Open ⟨2⟩ := open_of_line grown₀ within₀ (by decide +kernel)
  have open₁ : t₁.Open ⟨3⟩ := open_of_line grown₁ within₁ (by decide +kernel)
  have first : Calls ⟨0⟩ lanes t₀ [⟨2⟩] t₁ :=
    .call .none within₀ open₀ (StepM.ok_of_isOk (by decide +kernel))
  have calls : Calls ⟨0⟩ lanes t₀ [⟨3⟩, ⟨2⟩] t₂ :=
    .call first within₁ open₁ (StepM.ok_of_isOk (by decide +kernel))
  exact ⟨grown₀, clear, calls, told_of_calls grown₀ clear calls ⟨3⟩ (.head _)⟩

end Tree

end ConcurrentRender
