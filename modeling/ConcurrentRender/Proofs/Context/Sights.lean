import ConcurrentRender.Proofs.Context.Marks

/-!
# What a search looks at

Where the fibers below the start of a search form a forest, the search comes to an end. It
looks at a fiber exactly if it passes all fibers between the start and the fiber
(`Tree.Passes`), and at no fiber twice.

Results:
1. `marked_spread`: a spread ends, and leaves the marks of what it looks at.
2. `looks_iff`: it looks at the fibers that it gets to.
3. `spread_exact`: hence which fibers it raises, and that all else stays.
-/

namespace ConcurrentRender

namespace Forest

variable {F : Forest} {passes : FiberId → Bool} {line : List FiberId} {v : Sight}

/-- The sights of a search that comes to the forest from the fibers of `line`. -/
def sights (passes : FiberId → Bool) (line : List FiberId) : Forest → List Sight
  | nil => []
  | cons f below rest =>
    ⟨f, line⟩ :: ((if passes f then below.sights passes (f :: line) else []) ++
      rest.sights passes line)

theorem mem_sights : v ∈ F.sights passes line ↔
    ∃ path, F.At path v.fiber ∧ v.line = path ++ line ∧ ∀ g ∈ path, passes g := by
  induction F generalizing line with
  | nil => simp [sights, At]
  | cons f below rest ihBelow ihRest =>
    simp only [sights, List.mem_cons, List.mem_append, ihRest]
    constructor
    · rintro (rfl | inner | ⟨path, found, split, open_⟩)
      · exact ⟨[], .inl ⟨rfl, rfl⟩, rfl, by simp⟩
      · split at inner
        next pass =>
          obtain ⟨path, found, split, open_⟩ := ihBelow.mp inner
          refine ⟨path ++ [f], .inr (.inl ⟨path, rfl, found⟩), by simp [split], ?_⟩
          simpa [or_imp, forall_and, pass] using open_
        next => cases inner
      · exact ⟨path, .inr (.inr found), split, open_⟩
    · rintro ⟨path, ⟨rfl, same⟩ | ⟨upper, rfl, found⟩ | found, split, open_⟩
      · left
        cases v
        simp_all
      · have pass : passes f := open_ f (by simp)
        rw [if_pos pass, ihBelow]
        exact .inr (.inl ⟨upper, found, by simp [split], fun g hg => open_ g (by simp [hg])⟩)
      · exact .inr (.inr ⟨path, found, split, open_⟩)

/-- The search keeps to the order of the forest and leaves out fibers. -/
theorem sublist_sights : ((F.sights passes line).map Sight.fiber).Sublist F.fibers := by
  induction F generalizing line with
  | nil => exact .slnil
  | cons f below rest ihBelow ihRest =>
    rw [sights, List.map_cons, List.map_append, fibers]
    refine (List.Sublist.append ?_ ihRest).cons_cons f
    split
    · exact ihBelow
    · exact List.nil_sublist _

theorem mem_fibers_of_mem_sights (mem : v ∈ F.sights passes line) : v.fiber ∈ F.fibers :=
  sublist_sights.subset (List.mem_map_of_mem mem)

end Forest

namespace Tree

variable {t t₁ t' : Tree} {s : Search} {F : Forest} {first next? : Option FiberId}
  {f g p : FiberId} {rest fs : List FiberId} {passes : FiberId → Bool}

/-! ## A run through a forest -/

/-- Where a search stands, and in which tree, when it turns to the children of `p`. -/
def enter (t : Tree) (p : FiberId) : Option FiberId → Cursor × Tree
  | none => (.behind p, t)
  | some c => (.look c, t.setParent c (some p))

theorem Runs.look (look : t.visit s f = (next?, t₁))
    (run : Runs s (t₁.enter f next?).1 (t₁.enter f next?).2 fs t') :
    Runs s (.look f) t (f :: fs) t' := by
  cases next? with
  | none => exact .turn look run
  | some c => exact .down look run

theorem Runs.behind (ne : f ≠ s.start) (up : (t.fiber f).parent = some p)
    (run : Runs s (t.enter p (t.fiber f).sibling).1 (t.enter p (t.fiber f).sibling).2 fs t') :
    Runs s (.behind f) t fs t' := by
  cases next : (t.fiber f).sibling with
  | none =>
    rw [next] at run
    exact .up ne next up run
  | some g =>
    rw [next] at run
    exact .along ne next (up.symm ▸ run)

/-- The way up from where the search is: it ends at the start of the search, and nowhere
before, and comes to no fiber twice. -/
structure Ladder (t : Tree) (stop : FiberId) (line : List FiberId) : Prop where
  lined : t.Line stop line
  there : ∀ g ∈ line, t.fibers.has g
  once : line.Nodup

/-- Marks of fibers that are not on the way up leave it as it is. -/
theorem Ladder.keep {vs : List Sight} {line : List FiberId} (ladder : t.Ladder s.start line)
    (marked : Marked s t vs t') (away : ∀ v ∈ vs, v.fiber ∉ line) : t'.Ladder s.start line where
  lined := ladder.lined.congr fun g hg => marked.parent g fun v mem e => away v mem (e ▸ hg)
  there := fun g hg => (marked.has g).trans (ladder.there g hg)
  once := ladder.once

/-- A fiber that was looked at is the next on the way up. -/
theorem Ladder.push (ladder : t.Ladder s.start (p :: rest)) (here : t.fibers.has f)
    (new : f ∉ p :: rest) (marked : Marked s t [⟨f, p :: rest⟩] t') :
    t'.Ladder s.start (f :: p :: rest) := by
  have kept := ladder.keep marked fun v mem => List.mem_singleton.mp mem ▸ new
  refine ⟨⟨fun e => new (e ▸ ladder.lined.stop_mem), marked.repaired _ (.head _), kept.lined⟩,
    fun g hg => ?_, List.nodup_cons.mpr ⟨new, ladder.once⟩⟩
  rcases List.mem_cons.mp hg with rfl | hg
  · exact (marked.has g).trans here
  · exact kept.there g hg

/-- A search that turns to the children of `p`, from `first` on, leaves the marks of the sights
`vs` and is then done with `p`. -/
structure Walks (s : Search) (t : Tree) (p : FiberId) (first : Option FiberId) (vs : List Sight)
    (t₁ : Tree) : Prop where
  marked : Marked s t vs t₁
  run : ∀ fs t', Runs s (.behind p) t₁ fs t' →
    Runs s (t.enter p first).1 (t.enter p first).2 (vs.map Sight.fiber ++ fs) t'

theorem Walks.none (s : Search) (t : Tree) (p : FiberId) : Walks s t p none [] t :=
  ⟨.refl s t, fun _ _ run => run⟩

/-- The search looks at the first child, walks through what is below, and then through the
siblings. -/
theorem Walks.cons {t₂ t₃ : Tree} {ws us : List Sight} {line : List FiberId} (ne : f ≠ s.start)
    (visit : (t.setParent f (some p)).visit s f = (next?, t₁))
    (marked : Marked s t [⟨f, line⟩] t₁) (inner : Walks s t₁ f next? ws t₂)
    (up : (t₂.fiber f).parent = some p) (after : Walks s t₂ p (t.fiber f).sibling us t₃)
    (new : ∀ v ∈ ws ++ us, v.fiber ≠ f) (apart : ∀ w ∈ ws, ∀ u ∈ us, u.fiber ≠ w.fiber) :
    Walks s t p (some f) (⟨f, line⟩ :: (ws ++ us)) t₃ := by
  refine ⟨marked.trans (inner.marked.trans after.marked apart) fun v hv w hw =>
    List.mem_singleton.mp hv ▸ new w hw, fun fs t' run => ?_⟩
  have next : (t₂.fiber f).sibling = (t.fiber f).sibling :=
    (inner.marked.sibling f).trans (marked.sibling f)
  have later := inner.run _ _ (Runs.behind ne up (next.symm ▸ after.run fs t' run))
  simpa only [List.map_cons, List.map_append, List.cons_append, List.append_assoc, enter] using
    Runs.look visit later

/-- A search that comes to a forest walks through it. The induction is on the forest: first
what is below the first child, in the tree with the marks of the child, then its siblings. -/
theorem walks_forest (agrees : ∀ f, passes f = true ↔ t.Passes s f) (spans : t.Spans first F)
    (ladder : t.Ladder s.start (p :: rest)) (once : F.fibers.Nodup)
    (apart : ∀ g ∈ F.fibers, g ∉ p :: rest) :
    ∃ t₁, Walks s t p first (F.sights passes (p :: rest)) t₁ := by
  induction F generalizing t p rest first with
  | nil =>
    obtain rfl : first = none := spans
    exact ⟨t, .none s t p⟩
  | cons f below after ihBelow ihAfter =>
    obtain ⟨rfl, here, belowSpans, afterSpans⟩ := spans
    simp only [Forest.fibers, List.nodup_cons, List.nodup_append, List.mem_append, not_or] at once
    have apart : ∀ g, g = f ∨ g ∈ below.fibers ∨ g ∈ after.fibers → g ∉ p :: rest :=
      fun g hg => apart g (by simpa [Forest.fibers] using hg)
    obtain ⟨⟨notBelow, notAfter⟩, onceBelow, onceAfter, parts⟩ := once
    have new : f ∉ p :: rest := apart f (.inl rfl)
    -- The child itself.
    let t₁ := (t.setParent f (some p)).mark s f
    have marked₁ : Marked s t [⟨f, p :: rest⟩] t₁ :=
      marked_visit here ladder.lined (List.nodup_cons.mpr ⟨new, ladder.once⟩) ladder.there
    have ladder₁ : t₁.Ladder s.start (f :: p :: rest) := ladder.push here new marked₁
    have visit : (t.setParent f (some p)).visit s f =
        (if passes f then (t.fiber f).child else none, t₁) := by
      have same := SameStem.setParent t f (some p)
      rw [visit_eq, same.child]
      simp only [agrees, same.passes, t₁]
    -- What is below the child, if the search goes there.
    let inner := if passes f then below.sights passes (f :: p :: rest) else []
    obtain ⟨t₂, walks₂⟩ :
        ∃ t₂, Walks s t₁ f (if passes f then (t.fiber f).child else none) inner t₂ := by
      cases pass : passes f with
      | true =>
        simp only [inner, pass, if_true]
        refine ihBelow (fun g => (agrees g).trans marked₁.passes.symm) (marked₁.spans belowSpans)
          ladder₁ onceBelow fun g hg => ?_
        exact List.not_mem_cons_of_ne_of_not_mem (fun e => notBelow (e ▸ hg))
          (apart g (.inr (.inl hg)))
      | false =>
        simp only [inner, pass, Bool.false_eq_true, if_false]
        exact ⟨t₁, .none s t₁ f⟩
    have innerBelow : ∀ v ∈ inner, v.fiber ∈ below.fibers := by
      intro v mem
      simp only [inner] at mem
      split at mem
      · exact Forest.mem_fibers_of_mem_sights mem
      · cases mem
    -- The siblings.
    have ladder₂ : t₂.Ladder s.start (p :: rest) :=
      (ladder.keep marked₁ fun v mem => List.mem_singleton.mp mem ▸ new).keep walks₂.marked
        fun v mem => apart _ (.inr (.inl (innerBelow v mem)))
    obtain ⟨t₃, walks₃⟩ := ihAfter
      (fun g => (agrees g).trans (walks₂.marked.passes.trans marked₁.passes).symm)
      (walks₂.marked.spans (marked₁.spans afterSpans)) ladder₂ onceAfter
      fun g hg => apart g (.inr (.inr hg))
    have up₂ : (t₂.fiber f).parent = some p :=
      (walks₂.marked.parent f fun v mem e => notBelow (e ▸ innerBelow v mem)).trans
        ladder₁.lined.2.1
    refine ⟨t₃, .cons ladder₁.lined.1 visit marked₁ walks₂ up₂ walks₃ (fun v mem => ?_)
      fun w hw u hu => ?_⟩
    · rcases List.mem_append.mp mem with mem | mem
      · exact fun e => notBelow (e ▸ innerBelow v mem)
      · exact fun e => notAfter (e ▸ Forest.mem_fibers_of_mem_sights mem)
    · exact (parts _ (innerBelow w hw) _ (Forest.mem_fibers_of_mem_sights hu)).symm

/-! ## A spread -/

/-- The sights of a spread over the forest below its start. -/
def sights (t : Tree) (s : Search) (F : Forest) : List Sight :=
  F.sights (fun f => t.Passes s f) [s.start]

/-- A spread comes to an end by itself, and leaves the marks of what it looks at. -/
theorem marked_spread (there : t.fibers.has s.start) (spans : t.Spans (t.fiber s.start).child F)
    (once : (s.start :: F.fibers).Nodup) :
    Marked s t (t.sights s F) (t.spread s) ∧
      t.Spreads s ((t.sights s F).map Sight.fiber) (t.spread s) := by
  obtain ⟨new, once⟩ := List.nodup_cons.mp once
  have agrees : ∀ f, decide (t.Passes s f) = true ↔ t.Passes s f := by simp
  have ladder : t.Ladder s.start [s.start] := ⟨rfl, by simpa using there, by simp⟩
  obtain ⟨t', marked, run⟩ := walks_forest agrees spans ladder once fun g hg => by
    simpa using fun e : g = s.start => new (e ▸ hg)
  have run : Runs s (t.enter s.start (t.fiber s.start).child).1
      (t.enter s.start (t.fiber s.start).child).2 ((t.sights s F).map Sight.fiber) t' := by
    have run := run [] t' .arrive
    rwa [List.append_nil] at run
  have ran : t.Spreads s ((t.sights s F).map Sight.fiber) t' := by
    generalize (t.sights s F).map Sight.fiber = fs at run
    cases first : (t.fiber s.start).child with
    | none =>
      rw [first] at run
      cases run with
      | along ne | up ne | leave ne => exact absurd rfl ne
      | arrive => exact .nothing first
    | some c =>
      rw [first] at run
      exact .run first run
  have enough : ((t.sights s F).map Sight.fiber).length ≤ t.fibers.size :=
    Nat.le_trans Forest.sublist_sights.length_le
      (t.fibers.length_le_size once fun f mem => spans.there mem)
  rw [spread_eq_of_spreads ran enough]
  exact ⟨marked, ran⟩

/-- The search gets to the fiber: it passes all fibers between its start and the fiber. -/
def Looks (t : Tree) (s : Search) (f : FiberId) : Prop :=
  t.Below s.start f ∧ ∀ g, t.Below s.start g → t.Below g f → t.Passes s g

section Spread

variable {v : Sight} {a h : FiberId} {l : Lane}
variable (there : t.fibers.has s.start) (spans : t.Spans (t.fiber s.start).child F)
  (once : (s.start :: F.fibers).Nodup)

section Sights

include spans once

theorem path_of_mem_sights (mem : v ∈ t.sights s F) :
    ∃ path, F.At path v.fiber ∧ v.line = path ++ [s.start] ∧
      (∀ g, g ∈ path ↔ t.Below s.start g ∧ t.Below g v.fiber) ∧ ∀ g ∈ path, t.Passes s g := by
  obtain ⟨path, found, split, passed⟩ := Forest.mem_sights.mp mem
  exact ⟨path, found, split, fun g => mem_path_iff spans (List.nodup_cons.mp once).2 found,
    by simpa using passed⟩

theorem looks_iff : t.Looks s f ↔ f ∈ (t.sights s F).map Sight.fiber := by
  constructor
  · rintro ⟨below, passed⟩
    obtain ⟨path, found⟩ := Forest.exists_at_of_mem ((below_iff_mem spans).mp below)
    refine List.mem_map.mpr ⟨⟨f, path ++ [s.start]⟩, Forest.mem_sights.mpr ?_, rfl⟩
    refine ⟨path, found, rfl, fun g mem => decide_eq_true ?_⟩
    obtain ⟨upper, lower⟩ := (mem_path_iff spans (List.nodup_cons.mp once).2 found).mp mem
    exact passed g upper lower
  · intro mem
    obtain ⟨v, sight, rfl⟩ := List.mem_map.mp mem
    obtain ⟨path, found, -, between, passed⟩ := path_of_mem_sights spans once sight
    exact ⟨(below_iff_mem spans).mpr (Forest.mem_fibers_of_at found),
      fun g upper lower => passed g ((between g).mpr ⟨upper, lower⟩)⟩

theorem looks_of_mem_sights (mem : v ∈ t.sights s F) : t.Looks s v.fiber :=
  (looks_iff spans once).mpr (List.mem_map_of_mem mem)

/-- The line of a sight is the way from the start to the fiber. -/
theorem mem_line_iff (mem : v ∈ t.sights s F) :
    a ∈ v.line ↔ t.Within s.start a ∧ t.Below a v.fiber := by
  obtain ⟨path, found, split, between, -⟩ := path_of_mem_sights spans once mem
  have below := (looks_of_mem_sights spans once mem).1
  rw [split, List.mem_append, between, List.mem_singleton]
  constructor
  · rintro (⟨upper, lower⟩ | rfl)
    · exact ⟨.inr upper, lower⟩
    · exact ⟨.inl rfl, below⟩
  · rintro ⟨rfl | upper, lower⟩
    · exact .inr rfl
    · exact .inl ⟨upper, lower⟩

/-- The line of a sight begins with the parent. -/
theorem head_line_iff (mem : v ∈ t.sights s F) :
    v.line.head? = some p ↔ t.Within s.start p ∧ t.IsChild p v.fiber := by
  obtain ⟨path, found, split, -, -⟩ := path_of_mem_sights spans once mem
  have unique : ∀ q, t.Below s.start q → t.IsChild q v.fiber → ∃ upper, path = q :: upper := by
    intro q below child
    obtain ⟨upper, up⟩ := Forest.exists_at_of_mem ((below_iff_mem spans).mp below)
    exact ⟨upper, Forest.at_unique (List.nodup_cons.mp once).2 found
      ((at_cons_iff spans).mpr ⟨up, child⟩)⟩
  have top : t.IsChild s.start v.fiber → path = [] := fun child =>
    Forest.at_unique (List.nodup_cons.mp once).2 found ((listed_iff_at spans).mp child)
  rw [split]
  cases path with
  | nil =>
    have child : t.IsChild s.start v.fiber := (listed_iff_at spans).mpr found
    constructor
    · intro head
      obtain rfl : s.start = p := by simpa using head
      exact ⟨.inl rfl, child⟩
    · rintro ⟨rfl | below, child⟩
      · rfl
      · obtain ⟨_, more⟩ := unique p below child
        cases more
  | cons g upper =>
    obtain ⟨up, child⟩ := (at_cons_iff spans).mp found
    constructor
    · intro head
      obtain rfl : g = p := by simpa using head
      exact ⟨.inr ((below_iff_mem spans).mpr (Forest.mem_fibers_of_at up)), child⟩
    · rintro ⟨rfl | below, child⟩
      · cases top child
      · obtain ⟨_, same⟩ := unique p below child
        rw [List.cons.inj same |>.1]
        rfl

end Sights

include there spans once

/-- A spread raises the readers that it gets to, with their twins, and the parents of the
fragments that it gets to, with theirs. -/
theorem mem_lanes_spread : l ∈ ((t.spread s).fiber h).lanes ↔ l ∈ (t.fiber h).lanes ∨
    l ∈ s.lanes ∧ t.fibers.has h ∧ ∃ f, t.Looks s f ∧
      (t.Reads s.contexts f ∧ t.Beside f h ∨ t.Sealed f ∧
        ∃ p, t.Within s.start p ∧ t.IsChild p f ∧ t.Beside p h) := by
  rw [(marked_spread there spans once).1.lanes]
  refine or_congr_right (and_congr_right fun _ => and_congr_right fun _ => ?_)
  constructor
  · rintro ⟨v, mem, a, ⟨reads, rfl⟩ | ⟨sealed, head⟩, beside⟩
    · exact ⟨_, looks_of_mem_sights spans once mem, .inl ⟨reads, beside⟩⟩
    · obtain ⟨upper, child⟩ := (head_line_iff spans once mem).mp head
      exact ⟨_, looks_of_mem_sights spans once mem, .inr ⟨sealed, a, upper, child, beside⟩⟩
  · rintro ⟨f, looks, raised⟩
    obtain ⟨v, mem, rfl⟩ := List.mem_map.mp ((looks_iff spans once).mp looks)
    rcases raised with ⟨reads, beside⟩ | ⟨sealed, p, upper, child, beside⟩
    · exact ⟨v, mem, _, .inl ⟨reads, rfl⟩, beside⟩
    · exact ⟨v, mem, p, .inr ⟨sealed, (head_line_iff spans once mem).mpr ⟨upper, child⟩⟩, beside⟩

/-- A spread tells the fibers above those that it raises, up to its start. -/
theorem mem_childLanes_spread : l ∈ ((t.spread s).fiber h).childLanes ↔
    l ∈ (t.fiber h).childLanes ∨ l ∈ s.lanes ∧ t.fibers.has h ∧ ∃ f, t.Looks s f ∧
      (t.Reads s.contexts f ∨ t.Sealed f) ∧
        ∃ a, t.Within s.start a ∧ t.Below a f ∧ t.Beside a h := by
  rw [(marked_spread there spans once).1.childLanes]
  refine or_congr_right (and_congr_right fun _ => and_congr_right fun _ => ?_)
  constructor
  · rintro ⟨v, mem, a, ⟨stops, above⟩, beside⟩
    obtain ⟨upper, lower⟩ := (mem_line_iff spans once mem).mp above
    exact ⟨_, looks_of_mem_sights spans once mem, stops, a, upper, lower, beside⟩
  · rintro ⟨f, looks, stops, a, upper, lower, beside⟩
    obtain ⟨v, mem, rfl⟩ := List.mem_map.mp ((looks_iff spans once).mp looks)
    exact ⟨v, mem, a, ⟨stops, (mem_line_iff spans once mem).mpr ⟨upper, lower⟩⟩, beside⟩

theorem mem_arrived_spread : l ∈ ((t.spread s).fiber h).arrived ↔
    l ∈ (t.fiber h).arrived ∨ l ∈ s.lanes ∧ t.Looks s h ∧ t.Reads s.contexts h := by
  rw [(marked_spread there spans once).1.arrived]
  refine or_congr_right (and_congr_right fun _ => ?_)
  constructor
  · rintro ⟨-, v, mem, reads, rfl⟩
    exact ⟨looks_of_mem_sights spans once mem, reads⟩
  · rintro ⟨looks, reads⟩
    obtain ⟨v, mem, rfl⟩ := List.mem_map.mp ((looks_iff spans once).mp looks)
    exact ⟨spans.there ((below_iff_mem spans).mp looks.1), v, mem, reads, rfl⟩

/-- A spread sets the parents of what it gets to right. -/
theorem parent_spread_of_looks (looks : t.Looks s f) :
    ∃ p, t.Within s.start p ∧ t.IsChild p f ∧
      ((t.spread s).fiber f).parent = some p := by
  obtain ⟨v, mem, rfl⟩ := List.mem_map.mp ((looks_iff spans once).mp looks)
  obtain ⟨path, -, split, -⟩ := path_of_mem_sights spans once mem
  obtain ⟨p, head⟩ : ∃ p, v.line.head? = some p := by
    rw [split]
    cases path <;> exact ⟨_, rfl⟩
  obtain ⟨upper, child⟩ := (head_line_iff spans once mem).mp head
  exact ⟨p, upper, child, ((marked_spread there spans once).1.repaired v mem).trans head⟩

theorem parent_spread_of_not_looks (away : ¬ t.Looks s h) :
    ((t.spread s).fiber h).parent = (t.fiber h).parent :=
  (marked_spread there spans once).1.parent h fun _ mem e =>
    away (e ▸ looks_of_mem_sights spans once mem)

/-- A reader that the spread gets to is raised, and the fibers above it are told. -/
theorem raised_of_looks (looks : t.Looks s f) (reads : t.Reads s.contexts f) :
    s.lanes ⊆ ((t.spread s).fiber f).lanes ∧
      ∀ y, t.Within s.start y → t.Below y f → s.lanes ⊆ ((t.spread s).fiber y).childLanes := by
  have inTree : ∀ y, t.Within s.start y → t.fibers.has y := by
    rintro y (rfl | below)
    · exact there
    · exact spans.there ((below_iff_mem spans).mp below)
  refine ⟨fun l mem => ?_, fun y upper lower l mem => ?_⟩
  · exact (mem_lanes_spread there spans once).mpr
      (.inr ⟨mem, inTree f (.inr looks.1), f, looks, .inl ⟨reads, .inl rfl⟩⟩)
  · exact (mem_childLanes_spread there spans once).mpr
      (.inr ⟨mem, inTree y upper, f, looks, .inl reads, y, upper, lower, .inl rfl⟩)

end Spread

/-- That a search passes a fiber can be said in terms of what it gets to: it is stopped by the
fragments and, if it is lazy, by the readers that it gets to itself. -/
theorem looks_of_not_stopped (spans : t.Spans (t.fiber s.start).child F)
    (once : (s.start :: F.fibers).Nodup) (below : t.Below s.start f)
    (between : ∀ g, t.Below s.start g → t.Below g f →
      ¬ t.Sealed g ∧ (s.forced = false → ¬ (t.Looks s g ∧ t.Reads s.contexts g))) :
    t.Looks s f := by
  obtain ⟨path, found⟩ := Forest.exists_at_of_mem ((below_iff_mem spans).mp below)
  have onPath : ∀ {f path g}, F.At path f → t.Below s.start g → t.Below g f → g ∈ path :=
    fun found upper lower =>
      (mem_path_iff spans (List.nodup_cons.mp once).2 found).mpr ⟨upper, lower⟩
  -- The fiber right above is reached first, and then it is known not to be a hit.
  induction path generalizing f with
  | nil => exact ⟨below, fun g upper lower => nomatch onPath found upper lower⟩
  | cons h upper ih =>
    obtain ⟨up, child⟩ := (at_cons_iff spans).mp found
    have above : t.Below s.start h := (below_iff_mem spans).mpr (Forest.mem_fibers_of_at up)
    have looks : t.Looks s h :=
      ih above (fun g upper lower => between g upper (lower.step child)) up
    refine ⟨below, fun g upper lower => ?_⟩
    rcases List.mem_cons.mp (onPath found upper lower) with rfl | mem
    · obtain ⟨unsealed, missed⟩ := between g upper lower
      exact ⟨unsealed, fun lazy reads => missed lazy ⟨looks, reads⟩⟩
    · obtain ⟨upper, lower⟩ :=
        (mem_path_iff spans (List.nodup_cons.mp once).2 up).mp mem
      exact looks.2 g upper lower

/-- Where the fibers below the start form a forest, a spread comes to an end by itself. It
looks at the fibers that are not below a fragment, or below a hit if it is lazy. The hits get
the lanes, and so do the parents of the fragments that it looks at. The fibers from the
parents up to the start get them as child lanes. Nothing else changes but parents. -/
theorem spread_exact (there : t.fibers.has s.start) (spans : t.Spans (t.fiber s.start).child F)
    (once : (s.start :: F.fibers).Nodup) :
    ∃ looked : List FiberId, t.Spreads s looked (t.spread s) ∧ looked.Nodup ∧
      let hit := fun f => f ∈ looked ∧ t.Reads s.contexts f
      let fragment := fun f => f ∈ looked ∧ t.Sealed f
      (∀ f, f ∈ looked ↔ t.Below s.start f ∧ ∀ g, t.Below s.start g → t.Below g f →
        ¬ t.Sealed g ∧ (s.forced = false → ¬ hit g)) ∧
      (∀ h l, l ∈ ((t.spread s).fiber h).lanes ↔ l ∈ (t.fiber h).lanes ∨
        l ∈ s.lanes ∧ t.fibers.has h ∧ ((∃ f, hit f ∧ t.Beside f h) ∨
          ∃ f p, fragment f ∧ t.Within s.start p ∧ t.IsChild p f ∧ t.Beside p h)) ∧
      (∀ h l, l ∈ ((t.spread s).fiber h).childLanes ↔ l ∈ (t.fiber h).childLanes ∨
        l ∈ s.lanes ∧ t.fibers.has h ∧
          ∃ f a, (hit f ∨ fragment f) ∧ t.Within s.start a ∧ t.Below a f ∧ t.Beside a h) ∧
      (∀ h l, l ∈ ((t.spread s).fiber h).arrived ↔ l ∈ (t.fiber h).arrived ∨
        l ∈ s.lanes ∧ hit h) ∧
      SameStem t (t.spread s) ∧ OnlyFibers t (t.spread s) := by
  obtain ⟨marked, ran⟩ := marked_spread there spans once
  refine ⟨_, ran, Forest.sublist_sights.nodup (List.nodup_cons.mp once).2, ?_⟩
  simp only [← looks_iff spans once]
  refine ⟨fun f => ⟨?_, ?_⟩, fun h l => ?_, fun h l => ?_, fun h l => ?_,
    marked.toSameStem, marked.only⟩
  · rintro ⟨below, passed⟩
    exact ⟨below, fun g upper lower => (passed g upper lower).imp id
      fun missed lazy hit => missed lazy hit.2⟩
  · rintro ⟨below, between⟩
    exact looks_of_not_stopped spans once below between
  · rw [mem_lanes_spread there spans once]
    refine or_congr_right (and_congr_right fun _ => and_congr_right fun _ => ?_)
    constructor
    · rintro ⟨f, looks, ⟨reads, beside⟩ | ⟨sealed, p, upper, child, beside⟩⟩
      · exact .inl ⟨f, ⟨looks, reads⟩, beside⟩
      · exact .inr ⟨f, p, ⟨looks, sealed⟩, upper, child, beside⟩
    · rintro (⟨f, ⟨looks, reads⟩, beside⟩ | ⟨f, p, ⟨looks, sealed⟩, upper, child, beside⟩)
      · exact ⟨f, looks, .inl ⟨reads, beside⟩⟩
      · exact ⟨f, looks, .inr ⟨sealed, p, upper, child, beside⟩⟩
  · rw [mem_childLanes_spread there spans once]
    refine or_congr_right (and_congr_right fun _ => and_congr_right fun _ => ?_)
    simp only [← and_or_left, and_assoc, exists_and_left]
  · rw [mem_arrived_spread there spans once]

/-- Below the start are a reader with another one below it, and a fragment. The lazy spread
raises the first reader, and the start in place of the fragment. -/
theorem spread_exact_of_two_readers :
    let reader := fun x : Fiber =>
      { x with dependencies := some { contexts := [{ context := ⟨2⟩, seen := .unit 0 }] } }
    let root := (({} : Tree).createRoot true).2
    let upper := (root.createChild ⟨0⟩ .functionComponent).2.setFiber ⟨1⟩ reader
    let lower := (upper.createChild ⟨1⟩ .functionComponent).2.setFiber ⟨2⟩ reader
    let t := (lower.createChild ⟨0⟩ .dehydratedFragment).2
    let s : Search := { start := ⟨0⟩, contexts := [⟨2⟩], lanes := .single 3, forced := false }
    let F := Forest.cons ⟨1⟩ (.cons ⟨2⟩ .nil .nil) (.cons ⟨3⟩ .nil .nil)
    t.fibers.has s.start ∧ t.Spans (t.fiber s.start).child F ∧ (s.start :: F.fibers).Nodup ∧
      (∃ looked, t.Spreads s looked (t.spread s) ∧ looked.Nodup) ∧
      [⟨0⟩, ⟨1⟩, ⟨2⟩, ⟨3⟩].map (fun f => ((t.spread s).fiber f).lanes) =
        [.single 3, .single 3, ∅, ∅] := by
  intro reader root upper lower t s F
  have there : t.fibers.has s.start := by decide +kernel
  have spans : t.Spans (t.fiber s.start).child F := by decide +kernel
  have once : (s.start :: F.fibers).Nodup := by decide +kernel
  obtain ⟨looked, ran, apart, -⟩ := spread_exact there spans once
  exact ⟨there, spans, once, ⟨looked, ran, apart⟩, by decide +kernel⟩

end Tree

end ConcurrentRender
