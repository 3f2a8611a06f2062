import ConcurrentRender.Proofs.Tree.Frame

/-!
# The fibers below a fiber

`Tree.Below t p f` says that links to children and siblings lead from `p` down to `f`. Such
links may run in circles or together. Where they do not, the fibers below form a `Forest`:
`Tree.Spans t first F` says that from `first` on, the links are those of `F`. A fiber of a
forest is found on a path of it (`Forest.At`).

Results:
1. `below_iff_mem`: the fibers of the forest are the fibers below.
2. `mem_path_iff`: if no fiber occurs twice, the path to a fiber holds the fibers between.
3. `exists_spans_of_mem`: below a fiber of a forest there is a smaller one.
-/

namespace ConcurrentRender

/-- Fibers below one fiber: a child with the fibers below it, and the children after it. -/
inductive Forest where
  | nil
  | cons (f : FiberId) (below rest : Forest)

namespace Forest

/-- The fibers, each before those below it. -/
def fibers : Forest → List FiberId
  | nil => []
  | cons f below rest => f :: (below.fibers ++ rest.fibers)

/-- `F.At path f`: in the forest `F`, the fibers above `f` are those of `path`, nearest
first. -/
def At : Forest → List FiberId → FiberId → Prop
  | nil, _, _ => False
  | cons g below rest, path, f =>
    path = [] ∧ f = g ∨ (∃ upper, path = upper ++ [g] ∧ below.At upper f) ∨ rest.At path f

variable {F : Forest} {path path' : List FiberId} {f g : FiberId}

theorem mem_fibers_of_at (found : F.At path f) : f ∈ F.fibers := by
  induction F generalizing path with
  | nil => exact found.elim
  | cons h below rest ihBelow ihRest =>
    simp only [fibers, List.mem_cons, List.mem_append]
    rcases found with ⟨-, rfl⟩ | ⟨upper, -, found⟩ | found
    · exact .inl rfl
    · exact .inr (.inl (ihBelow found))
    · exact .inr (.inr (ihRest found))

theorem exists_at_of_mem (mem : f ∈ F.fibers) : ∃ path, F.At path f := by
  induction F with
  | nil => cases mem
  | cons h below rest ihBelow ihRest =>
    simp only [fibers, List.mem_cons, List.mem_append] at mem
    rcases mem with rfl | mem | mem
    · exact ⟨[], .inl ⟨rfl, rfl⟩⟩
    · obtain ⟨path, found⟩ := ihBelow mem
      exact ⟨path ++ [h], .inr (.inl ⟨path, rfl, found⟩)⟩
    · obtain ⟨path, found⟩ := ihRest mem
      exact ⟨path, .inr (.inr found)⟩

theorem mem_fibers_of_mem_path (found : F.At path f) (mem : g ∈ path) : g ∈ F.fibers := by
  induction F generalizing path with
  | nil => exact found.elim
  | cons h below rest ihBelow ihRest =>
    simp only [fibers, List.mem_cons, List.mem_append]
    rcases found with ⟨rfl, -⟩ | ⟨upper, rfl, found⟩ | found
    · cases mem
    · rcases List.mem_append.mp mem with mem | mem
      · exact .inr (.inl (ihBelow found mem))
      · exact .inl (List.mem_singleton.mp mem)
    · exact .inr (.inr (ihRest found mem))

/-- Where no fiber occurs twice, a path does not come to a fiber again. -/
theorem nodup_of_at (once : F.fibers.Nodup) (found : F.At path f) : (f :: path).Nodup := by
  induction F generalizing path with
  | nil => exact found.elim
  | cons h below rest ihBelow ihRest =>
    simp only [fibers, List.nodup_cons, List.mem_append, not_or, List.nodup_append] at once
    obtain ⟨⟨notBelow, notRest⟩, onceBelow, onceRest, apart⟩ := once
    rcases found with ⟨rfl, -⟩ | ⟨upper, rfl, found⟩ | found
    · exact List.nodup_singleton f
    · rw [← List.cons_append]
      refine List.nodup_append.mpr ⟨ihBelow onceBelow found, List.nodup_singleton h, ?_⟩
      rintro a mem b hb rfl
      obtain rfl := List.mem_singleton.mp hb
      rcases List.mem_cons.mp mem with rfl | mem
      · exact notBelow (mem_fibers_of_at found)
      · exact notBelow (mem_fibers_of_mem_path found mem)
    · exact ihRest onceRest found

/-- Where no fiber occurs twice, it is found on one path only. -/
theorem at_unique (once : F.fibers.Nodup) (found : F.At path f) (found' : F.At path' f) :
    path = path' := by
  induction F generalizing path path' with
  | nil => exact found.elim
  | cons h below rest ihBelow ihRest =>
    simp only [fibers, List.nodup_cons, List.mem_append, not_or, List.nodup_append] at once
    obtain ⟨⟨notBelow, notRest⟩, onceBelow, onceRest, apart⟩ := once
    rcases found with ⟨rfl, rfl⟩ | ⟨upper, rfl, found⟩ | found <;>
      rcases found' with ⟨rfl, same⟩ | ⟨upper', rfl, found'⟩ | found'
    · rfl
    · exact absurd (mem_fibers_of_at found') notBelow
    · exact absurd (mem_fibers_of_at found') notRest
    · exact absurd (same ▸ mem_fibers_of_at found) notBelow
    · rw [ihBelow onceBelow found found']
    · exact absurd rfl (apart f (mem_fibers_of_at found) f (mem_fibers_of_at found'))
    · exact absurd (same ▸ mem_fibers_of_at found) notRest
    · exact absurd rfl (apart f (mem_fibers_of_at found') f (mem_fibers_of_at found))
    · exact ihRest onceRest found found'

end Forest

namespace Tree

variable {t t' : Tree} {first : Option FiberId} {F : Forest} {p f g c : FiberId}
  {path : List FiberId}

/-- `t.Listed first c`: the links to siblings lead from `first` to `c`. -/
inductive Listed (t : Tree) : Option FiberId → FiberId → Prop
  | here {c : FiberId} : Listed t (some c) c
  | later {f c : FiberId} : Listed t (t.fiber f).sibling c → Listed t (some f) c

/-- `t.IsChild p c`: links lead from `p` to `c`, which is one level below. -/
def IsChild (t : Tree) (p c : FiberId) : Prop := t.Listed (t.fiber p).child c

/-- `t.Below p f`: links lead from `p` to `f`, which is any number of levels below. -/
inductive Below (t : Tree) (p : FiberId) : FiberId → Prop
  | child {c : FiberId} : t.IsChild p c → Below t p c
  | step {g c : FiberId} : Below t p g → t.IsChild g c → Below t p c

/-- `t.Within p f`: the fiber `f` is `p` or below it. -/
def Within (t : Tree) (p f : FiberId) : Prop := f = p ∨ t.Below p f

theorem Below.trans (upper : t.Below p g) (lower : t.Below g f) : t.Below p f := by
  induction lower with
  | child below => exact .step upper below
  | step _ below ih => exact .step ih below

/-- From `first` on, the links to children and siblings are those of the forest. -/
def Spans (t : Tree) : Option FiberId → Forest → Prop
  | first, .nil => first = none
  | first, .cons f below rest =>
    first = some f ∧ t.fibers.has f ∧ t.Spans (t.fiber f).child below ∧
      t.Spans (t.fiber f).sibling rest

instance decidableSpans (t : Tree) :
    (first : Option FiberId) → (F : Forest) → Decidable (t.Spans first F)
  | first, .nil => inferInstanceAs (Decidable (first = none))
  | first, .cons f below rest =>
    have := decidableSpans t (t.fiber f).child below
    have := decidableSpans t (t.fiber f).sibling rest
    inferInstanceAs (Decidable (first = some f ∧ _ ∧ _ ∧ _))

theorem Spans.there (spans : t.Spans first F) (mem : f ∈ F.fibers) : t.fibers.has f := by
  induction F generalizing first with
  | nil => cases mem
  | cons h below rest ihBelow ihRest =>
    obtain ⟨-, there, below, rest⟩ := spans
    simp only [Forest.fibers, List.mem_cons, List.mem_append] at mem
    rcases mem with rfl | mem | mem
    · exact there
    · exact ihBelow below mem
    · exact ihRest rest mem

/-- Two trees with the same links have the same forests. -/
theorem Spans.congr (size : t'.fibers.size = t.fibers.size)
    (child : ∀ f, (t'.fiber f).child = (t.fiber f).child)
    (sibling : ∀ f, (t'.fiber f).sibling = (t.fiber f).sibling) (spans : t.Spans first F) :
    t'.Spans first F := by
  induction F generalizing first with
  | nil => exact spans
  | cons h below rest ihBelow ihRest =>
    obtain ⟨rfl, there, below, rest⟩ := spans
    refine ⟨rfl, ?_, ihBelow (child h ▸ below), ihRest (sibling h ▸ rest)⟩
    simpa only [Arena.has, size] using there

theorem listed_congr (sibling : ∀ f, (t'.fiber f).sibling = (t.fiber f).sibling) :
    t'.Listed first c ↔ t.Listed first c := by
  constructor <;> intro listed
  · induction listed with
    | here => exact .here
    | later _ ih => exact .later (sibling _ ▸ ih)
  · induction listed with
    | here => exact .here
    | later _ ih => exact .later ((sibling _).symm ▸ ih)

theorem isChild_congr (child : ∀ f, (t'.fiber f).child = (t.fiber f).child)
    (sibling : ∀ f, (t'.fiber f).sibling = (t.fiber f).sibling) :
    t'.IsChild p c ↔ t.IsChild p c := by
  rw [IsChild, child, listed_congr sibling, IsChild]

theorem below_congr (child : ∀ f, (t'.fiber f).child = (t.fiber f).child)
    (sibling : ∀ f, (t'.fiber f).sibling = (t.fiber f).sibling) :
    t'.Below p f ↔ t.Below p f := by
  constructor <;> intro below
  · induction below with
    | child below => exact .child ((isChild_congr child sibling).mp below)
    | step _ below ih => exact .step ih ((isChild_congr child sibling).mp below)
  · induction below with
    | child below => exact .child ((isChild_congr child sibling).mpr below)
    | step _ below ih => exact .step ih ((isChild_congr child sibling).mpr below)

/-! ## Paths and links -/

theorem listed_iff_at (spans : t.Spans first F) : t.Listed first c ↔ F.At [] c := by
  induction F generalizing first with
  | nil =>
    obtain rfl : first = none := spans
    exact ⟨fun listed => (nomatch listed), False.elim⟩
  | cons h below rest _ ihRest =>
    obtain ⟨rfl, -, -, restSpans⟩ := spans
    constructor
    · intro listed
      cases listed with
      | here => exact .inl ⟨rfl, rfl⟩
      | later listed => exact .inr (.inr ((ihRest restSpans).mp listed))
    · rintro (⟨-, rfl⟩ | ⟨upper, none, -⟩ | found)
      · exact .here
      · simp at none
      · exact .later ((ihRest restSpans).mpr found)

/-- A path goes on with the children of the fiber to which it leads. -/
theorem at_cons_iff (spans : t.Spans first F) :
    F.At (g :: path) c ↔ F.At path g ∧ t.IsChild g c := by
  induction F generalizing first path with
  | nil => exact ⟨False.elim, fun found => found.1⟩
  | cons h below rest ihBelow ihRest =>
    obtain ⟨-, -, belowSpans, restSpans⟩ := spans
    constructor
    · rintro (⟨none, -⟩ | ⟨upper, split, found⟩ | found)
      · cases none
      · cases upper with
        | nil =>
          obtain ⟨rfl, rfl⟩ : g = h ∧ path = [] := by simpa using split
          exact ⟨.inl ⟨rfl, rfl⟩, (listed_iff_at belowSpans).mpr found⟩
        | cons _ upper =>
          obtain ⟨rfl, rfl⟩ : g = _ ∧ path = upper ++ [h] := by simpa using split
          obtain ⟨found, child⟩ := (ihBelow belowSpans).mp found
          exact ⟨.inr (.inl ⟨upper, rfl, found⟩), child⟩
      · obtain ⟨found, child⟩ := (ihRest restSpans).mp found
        exact ⟨.inr (.inr found), child⟩
    · rintro ⟨⟨rfl, rfl⟩ | ⟨upper, rfl, found⟩ | found, child⟩
      · exact .inr (.inl ⟨[], rfl, (listed_iff_at belowSpans).mp child⟩)
      · exact .inr (.inl ⟨g :: upper, rfl, (ihBelow belowSpans).mpr ⟨found, child⟩⟩)
      · exact .inr (.inr ((ihRest restSpans).mpr ⟨found, child⟩))

/-- The fibers of the forest below `p` are the fibers below `p`. -/
theorem below_iff_mem (spans : t.Spans (t.fiber p).child F) : t.Below p f ↔ f ∈ F.fibers := by
  constructor
  · intro below
    induction below with
    | child below => exact Forest.mem_fibers_of_at ((listed_iff_at spans).mp below)
    | step _ below ih =>
      obtain ⟨path, found⟩ := Forest.exists_at_of_mem ih
      exact Forest.mem_fibers_of_at ((at_cons_iff spans).mpr ⟨found, below⟩)
  · intro mem
    obtain ⟨path, found⟩ := Forest.exists_at_of_mem mem
    clear mem
    induction path generalizing f with
    | nil => exact .child ((listed_iff_at spans).mpr found)
    | cons g path ih =>
      obtain ⟨upper, below⟩ := (at_cons_iff spans).mp found
      exact .step (ih upper) below

/-- The path to a fiber holds the fibers between. -/
theorem mem_path_iff (spans : t.Spans (t.fiber p).child F) (once : F.fibers.Nodup)
    (found : F.At path f) : g ∈ path ↔ t.Below p g ∧ t.Below g f := by
  constructor
  · intro mem
    induction path generalizing f with
    | nil => cases mem
    | cons h path ih =>
      obtain ⟨upper, below⟩ := (at_cons_iff spans).mp found
      rcases List.mem_cons.mp mem with rfl | mem
      · exact ⟨(below_iff_mem spans).mpr (Forest.mem_fibers_of_at upper), .child below⟩
      · exact (ih upper mem).imp id fun lower => .step lower below
  · rintro ⟨upper, lower⟩
    induction lower generalizing path with
    | child below =>
      obtain ⟨path', found'⟩ := Forest.exists_at_of_mem ((below_iff_mem spans).mp upper)
      rw [Forest.at_unique once found ((at_cons_iff spans).mpr ⟨found', below⟩)]
      exact List.mem_cons_self
    | @step h f lower below ih =>
      obtain ⟨path', found'⟩ :=
        Forest.exists_at_of_mem ((below_iff_mem spans).mp (upper.trans lower))
      rw [Forest.at_unique once found ((at_cons_iff spans).mpr ⟨found', below⟩)]
      exact List.mem_cons_of_mem _ (ih found')

/-- In a forest in which no fiber occurs twice, links do not run in a circle. -/
theorem not_below_self (spans : t.Spans (t.fiber p).child F) (once : F.fibers.Nodup)
    (below : t.Below p f) : ¬ t.Below f f := by
  intro circle
  obtain ⟨path, found⟩ := Forest.exists_at_of_mem ((below_iff_mem spans).mp below)
  exact (List.nodup_cons.mp (Forest.nodup_of_at once found)).1
    ((mem_path_iff spans once found).mpr ⟨below, circle⟩)

/-- The fibers below a fiber of a forest form a forest, whose fibers are among the former. -/
theorem exists_spans_of_mem (spans : t.Spans first F) (mem : f ∈ F.fibers) :
    ∃ G : Forest, t.Spans (t.fiber f).child G ∧ (f :: G.fibers).Sublist F.fibers := by
  induction F generalizing first with
  | nil => cases mem
  | cons h below rest ihBelow ihRest =>
    obtain ⟨-, -, belowSpans, restSpans⟩ := spans
    simp only [Forest.fibers, List.mem_cons, List.mem_append] at mem
    rcases mem with rfl | mem | mem
    · exact ⟨below, belowSpans, (List.sublist_append_left _ _).cons_cons f⟩
    · obtain ⟨G, inner, part⟩ := ihBelow belowSpans mem
      exact ⟨G, inner, (part.trans (List.sublist_append_left _ _)).cons h⟩
    · obtain ⟨G, inner, part⟩ := ihRest restSpans mem
      exact ⟨G, inner, (part.trans (List.sublist_append_right _ _)).cons h⟩

end Tree

end ConcurrentRender
