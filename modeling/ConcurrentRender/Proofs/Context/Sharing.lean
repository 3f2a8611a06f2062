import Mathlib.Logic.Function.Basic
import ConcurrentRender.Proofs.Context.Unwinding
import ConcurrentRender.Proofs.Tree.Frame

/-!
# Renderers that share contexts

Renderers in one process share their contexts. A context has one value in force for each slot.
A provider that is entered replaces the value of its renderer's slot and keeps the one from
before, and when it is left, that one is put back. However two renderers take turns, each of
them reads what its own innermost provider of a context provides, and finds a fiber out of date
exactly if one of the values that were read is no longer the one to be read.

* `SharedView`: two renderers that share contexts, and the trees that they render.
* `Account`: what one renderer has entered and renders, as its calls say.
* `Chronicle`: the accounts of both, and what was read for each fiber.
* `Agrees`: the contexts and the trees are as a chronicle says.

Results:
1. `Account.Covers.run`: the calls of a renderer keep to its account.
2. `ContextCall.spares_run`: they leave the values of the other slot alone.
3. `Account.Covers.note`: what is read for a fiber is noted in its dependencies.
4. `Agrees.call`: so contexts and trees stay as the chronicle says, whoever makes a call.
5. `reads_own_providers`: hence what is read, and what has changed.
-/

namespace ConcurrentRender

/-- What a renderer does with its contexts. -/
inductive ContextCall where
  | push (owner : FiberId) (context : ContextId) (value : Value)
  | pop (fiber : FiberId) (context : ContextId)
  | prepare (fiber : FiberId) (lanes : LaneSet)
  | read (context : ContextId)
  | finish

namespace ContextCall

/-- Makes the call on the contexts as the renderer sees them, and on the tree that it renders. -/
def run (x : ContextCall) (p : ContextView × Tree) : ContextView × Tree :=
  match x with
  | push owner context value => (p.1.push owner context value, p.2)
  | pop fiber context => ((ContextView.pop fiber context p.1).state, p.2)
  | prepare fiber lanes => (p.1.prepare p.2 fiber lanes).2
  | read context => (ContextView.read context p).state
  | finish => (p.1.finish, p.2)

/-- Contexts and fibers are there when they are named, and a provider that is left is the
innermost one. -/
def allowed (x : ContextCall) (p : ContextView × Tree) : Bool :=
  match x with
  | push _ context _ | read context => p.1.registry.contexts.has context
  | pop fiber context => (ContextView.pop fiber context p.1).result.isOk
  | prepare fiber _ => p.2.fibers.has fiber
  | finish => true

end ContextCall

namespace ContextRegistry

variable {r : ContextRegistry} {c d : ContextId} {slot : Slot}

/-- A registry in which contexts were made, and nothing was provided. -/
inductive Fresh : ContextRegistry → Prop
  | start : Fresh start
  | create {r : ContextRegistry} (name : String) (default : Value) :
      Fresh r → Fresh (r.create name default).2

/-- What the innermost provider of the context provides, or else its default. -/
def provided (r : ContextRegistry) (entered : List (ContextId × Value)) (c : ContextId) : Value :=
  (entered.lookup c).getD (r.contexts.get c).default

theorem exists_value? (there : r.contexts.has c) (slot : Slot) : ∃ x, r.value? c slot = some x := by
  have bound : c.index < r.contexts.items.size := of_decide_eq_true there
  refine ⟨(r.contexts.items[c.index]).value slot, ?_⟩
  simp [value?, Arena.get?, bound]

theorem valueOrUnit_eq {x : Value} (there : r.value? c slot = some x) :
    r.valueOrUnit c slot = (x, r) := by
  unfold valueOrUnit
  rw [there]

/-- The values of the other slot stay. -/
theorem value?_install_of_ne {slot' : Slot} (other : slot' ≠ slot) (v : Value) :
    (r.install d slot v).value? c slot' = r.value? c slot' := by
  have kept : ∀ x : Context, (x.install slot v).value slot' = x.value slot' := by
    intro x
    cases slot <;> cases slot' <;> first | rfl | exact absurd rfl other
  unfold value? install
  rw [Arena.get?_modify]
  split
  · cases r.contexts.get? c with
    | none => rfl
    | some x => exact congrArg some (kept x)
  · rfl

theorem value?_of_fresh (fresh : r.Fresh) (there : r.contexts.has c) (slot : Slot) :
    r.value? c slot = some (r.provided [] c) := by
  have rest : ∀ x, r.contexts.get? c = some x → x.value slot = x.default := by
    intro x found
    clear there
    induction fresh with
    | start =>
      have mem : x ∈ start.contexts.items := Array.mem_of_getElem? found
      have all : ∀ y ∈ start.contexts.items, y.primary = y.default ∧ y.secondary = y.default := by
        decide +kernel
      cases slot
      · exact (all x mem).1
      · exact (all x mem).2
    | @create r name default fresh ih =>
      have there : (r.create name default).2.contexts.has c := by
        obtain ⟨bound, _⟩ := Array.getElem?_eq_some_iff.mp found
        exact decide_eq_true bound
      rcases Arena.has_add.mp there with rfl | old
      · have added : (r.create name default).2.contexts.get? r.contexts.next =
            some { name, default, primary := default, secondary := default } :=
          Array.getElem?_push_size
        cases added.symm.trans found
        cases slot <;> rfl
      · rw [create, Arena.get?_add_of_lt _ _ _ old] at found
        exact ih found
  obtain ⟨x, value⟩ := exists_value? there slot
  obtain ⟨y, found, rfl⟩ := Option.map_eq_some_iff.mp value
  rw [value, rest y found]
  simp [provided, Arena.get, found]

/-- The kept values are those that the providers further out provide. -/
def Saved (r : ContextRegistry) : List ProviderFrame → List (ContextId × Value) → Prop
  | [], [] => True
  | frame :: frames, (c, _) :: entered =>
    frame.context = c ∧ r.contexts.has c ∧ frame.saved = r.provided entered c ∧
      r.Saved frames entered
  | _, _ => False

theorem provided_cons (r : ContextRegistry) (entered : List (ContextId × Value))
    (d c : ContextId) (v : Value) :
    r.provided ((d, v) :: entered) c = if d = c then v else r.provided entered c := by
  unfold provided
  rw [List.lookup_cons]
  rcases eq_or_ne d c with rfl | ne
  · simp
  · have apart : (c == d) = false := beq_eq_false_iff_ne.mpr ne.symm
    simp [ne, apart]

end ContextRegistry

/-! ## One renderer -/

/-- What a renderer has entered and renders, as its calls say. -/
structure Account where
  /-- The providers still entered, innermost first. -/
  entered : List (ContextId × Value) := []
  rendering : Option FiberId := none
  hasRead : Bool := false

namespace Account

def call (a : Account) : ContextCall → Account
  | .push _ context value => { a with entered := (context, value) :: a.entered }
  | .pop .. => { a with entered := a.entered.tail }
  | .prepare fiber _ => { a with rendering := some fiber, hasRead := false }
  | .read _ => { a with hasRead := a.hasRead || a.rendering.isSome }
  | .finish => { a with rendering := none, hasRead := false }

/-- The account of a renderer that made these calls. -/
def of (calls : List ContextCall) : Account := calls.foldl call {}

variable {a : Account} {r : ContextRegistry} {slot : Slot} {v : ContextView}

/-- The view of the renderer in this slot is as its account says. -/
structure Covers (r : ContextRegistry) (slot : Slot) (a : Account) (v : ContextView) : Prop where
  slot : v.path.slot = slot
  value : ∀ c, r.contexts.has c → v.value? c = some (r.provided a.entered c)
  saved : r.Saved v.path.providers a.entered
  rendering : v.path.rendering = a.rendering
  hasRead : v.path.hasRead = a.hasRead

namespace Covers

variable (covers : a.Covers r slot v)
include covers

theorem push (owner : FiberId) {c : ContextId} (there : r.contexts.has c) (value : Value) :
    (a.call (.push owner c value)).Covers r slot (v.push owner c value) := by
  have saved := ContextRegistry.valueOrUnit_eq (covers.value c there)
  unfold ContextView.push
  rw [saved]
  refine ⟨covers.slot, fun d hd => ?_, ⟨rfl, there, rfl, covers.saved⟩, covers.rendering,
    covers.hasRead⟩
  have inForce : v.registry.value? d v.path.slot = _ := covers.value d hd
  show (v.registry.install c v.path.slot value).value? d v.path.slot = _
  rw [ContextRegistry.value?_install, inForce]
  simp only [call, ContextRegistry.provided_cons]
  split <;> rfl

theorem pop {fiber : FiberId} {c : ContextId}
    (done : (ContextView.pop fiber c v).result.isOk = true) :
    (a.call (.pop fiber c)).Covers r slot (ContextView.pop fiber c v).state := by
  cases inside : v.path.providers with
  | nil =>
    unfold ContextView.pop at done
    rw [inside] at done
    cases done
  | cons frame rest =>
    rcases ContextView.pop_of_cons fiber c inside with ⟨_, failed⟩ | ⟨left, _⟩
    · cases failed.symm.trans done
    have saved := covers.saved
    rw [inside] at saved
    cases entered : a.entered with
    | nil =>
      rw [entered] at saved
      exact saved.elim
    | cons provider further =>
      rw [entered] at saved
      obtain ⟨same, _, kept, saved⟩ := saved
      have left' : (a.call (.pop fiber c)).entered = further := by
        simp only [call, entered, List.tail_cons]
      rw [left]
      refine ⟨covers.slot, fun d hd => ?_, left' ▸ saved, covers.rendering, covers.hasRead⟩
      have inForce : v.registry.value? d v.path.slot = _ := covers.value d hd
      show (v.registry.install frame.context v.path.slot frame.saved).value? d v.path.slot = _
      rw [ContextRegistry.value?_install, inForce, left', entered, same,
        ContextRegistry.provided_cons]
      split
      next mine => rw [kept, mine]; rfl
      next => rfl

/-- What a read does and answers: the fiber that is rendered takes a note of it. -/
theorem run_read (t : Tree) {c : ContextId} (there : r.contexts.has c) :
    ContextView.read c (v, t) =
      match a.rendering with
      | none => { state := (v, t), result := .error .contextReadOutsideRender }
      | some fiber =>
        let seen := r.provided a.entered c
        { state :=
            ({ v with path := { v.path with hasRead := true } },
              t.setFiber fiber (ContextView.noteRead (!a.hasRead) { context := c, seen }))
          result := .ok seen } := by
  have inForce := ContextRegistry.valueOrUnit_eq (covers.value c there)
  unfold ContextView.read
  simp only [covers.rendering, covers.hasRead]
  cases a.rendering with
  | none => rfl
  | some fiber => simp only [inForce]

theorem read (t : Tree) {c : ContextId} (there : r.contexts.has c) :
    (a.call (.read c)).Covers r slot (ContextView.read c (v, t)).state.1 := by
  rw [covers.run_read t there]
  cases rendering : a.rendering with
  | none =>
    have same : a.call (.read c) = a := by cases a; simp_all [call]
    rw [same]
    exact covers
  | some fiber =>
    refine ⟨covers.slot, covers.value, covers.saved, covers.rendering, ?_⟩
    simp [call, rendering]

theorem run {x : ContextCall} {t : Tree} (same : ∀ c, v.registry.contexts.has c → r.contexts.has c)
    (allowed : x.allowed (v, t)) : (a.call x).Covers r slot (x.run (v, t)).1 := by
  cases x with
  | push owner c value => exact covers.push owner (same c allowed) value
  | pop fiber c => exact covers.pop allowed
  | prepare fiber lanes =>
    have begun : (v.prepare t fiber lanes).2.1 =
        { v with path := { v.path with rendering := some fiber, hasRead := false } } := by
      unfold ContextView.prepare
      dsimp only
      split <;> rfl
    show Covers r slot _ (v.prepare t fiber lanes).2.1
    rw [begun]
    exact ⟨covers.slot, covers.value, covers.saved, rfl, rfl⟩
  | read c => exact covers.read t (same c allowed)
  | finish => exact ⟨covers.slot, covers.value, covers.saved, rfl, rfl⟩

end Covers

end Account

/-! ## What a call leaves alone -/

namespace ContextRegistry

/-- The registries have the same contexts, with the same values in a slot. -/
structure Spares (slot : Slot) (r r' : ContextRegistry) : Prop where
  has : ∀ c, r'.contexts.has c = r.contexts.has c
  value : ∀ c, r'.value? c slot = r.value? c slot

variable {r r' r'' : ContextRegistry} {slot slot' : Slot}

namespace Spares

theorem refl (slot : Slot) (r : ContextRegistry) : Spares slot r r := ⟨fun _ => rfl, fun _ => rfl⟩

theorem trans (h : Spares slot r r') (h' : Spares slot r' r'') : Spares slot r r'' :=
  ⟨fun c => (h'.has c).trans (h.has c), fun c => (h'.value c).trans (h.value c)⟩

theorem install (other : slot ≠ slot') (r : ContextRegistry) (c : ContextId) (v : Value) :
    Spares slot r (r.install c slot' v) where
  has d := by simp only [Arena.has, ContextRegistry.install, Arena.size_modify]
  value _ := value?_install_of_ne other v

theorem valueOrUnit (slot : Slot) (r : ContextRegistry) (c : ContextId) (slot' : Slot) :
    Spares slot r (r.valueOrUnit c slot').2 := by
  unfold ContextRegistry.valueOrUnit
  split
  · exact refl slot r
  · exact ⟨fun _ => rfl, fun _ => rfl⟩

end Spares

end ContextRegistry

/-- An account stands while the other renderer makes calls. -/
theorem Account.Covers.aside {a : Account} {r r' : ContextRegistry} {slot : Slot}
    {v : ContextView} (covers : a.Covers r slot v)
    (spares : ContextRegistry.Spares slot v.registry r') :
    a.Covers r slot { v with registry := r' } := by
  refine ⟨covers.slot, fun c there => ?_, covers.saved, covers.rendering, covers.hasRead⟩
  have inForce : v.registry.value? c v.path.slot = _ := covers.value c there
  show r'.value? c v.path.slot = _
  rw [covers.slot] at inForce ⊢
  rw [spares.value, inForce]

theorem ContextCall.spares_run (x : ContextCall) (v : ContextView) (t : Tree) {slot : Slot}
    (other : slot ≠ v.path.slot) :
    ContextRegistry.Spares slot v.registry (x.run (v, t)).1.registry := by
  cases x with
  | push owner c value => exact (ContextRegistry.Spares.valueOrUnit ..).trans (.install other ..)
  | pop fiber c =>
    show ContextRegistry.Spares slot _ (ContextView.pop fiber c v).state.registry
    cases inside : v.path.providers with
    | nil => rw [ContextView.pop_of_nil inside]; exact .refl ..
    | cons frame rest =>
      rcases ContextView.pop_of_cons fiber c inside with ⟨left, _⟩ | ⟨left, _⟩ <;> rw [left]
      · exact .refl ..
      · exact .install other ..
  | prepare fiber lanes =>
    show ContextRegistry.Spares slot _ (v.prepare t fiber lanes).2.1.registry
    unfold ContextView.prepare
    dsimp only
    split <;> exact .refl ..
  | read c =>
    show ContextRegistry.Spares slot _ (ContextView.read c (v, t)).state.1.registry
    unfold ContextView.read
    dsimp only
    split
    · exact .refl ..
    · exact .valueOrUnit ..
  | finish => exact .refl ..

namespace Tree

/-- What a fiber has read, as far as its dependencies tell. -/
def readings (t : Tree) (f : FiberId) : List ContextRead :=
  ((t.fiber f).dependencies.getD {}).contexts

/-- Nothing differs in what fibers have read, but that `f` has read `reads`. -/
structure Notes (t t' : Tree) (f : FiberId) (reads : List ContextRead) : Prop where
  has : ∀ g, t'.fibers.has g = t.fibers.has g
  own : t'.readings f = reads
  other : ∀ g, g ≠ f → t'.readings g = t.readings g
  kept : ∀ g, (t.fiber g).dependencies.isSome → (t'.fiber g).dependencies.isSome

variable {t : Tree} {f : FiberId}

theorem notes_setFiber {g : Fiber → Fiber} (there : t.fibers.has f)
    (kept : (t.fiber f).dependencies.isSome → (g (t.fiber f)).dependencies.isSome) :
    t.Notes (t.setFiber f g) f ((g (t.fiber f)).dependencies.getD {}).contexts where
  has h := by rw [has_setFiber]
  own := by rw [readings, fiber_setFiber, if_pos ⟨rfl, there⟩]
  other h ne := by rw [readings, fiber_setFiber, if_neg fun e => ne e.1.symm, readings]
  kept h some := by
    rw [fiber_setFiber]
    split
    next mine =>
      obtain ⟨rfl, _⟩ := mine
      exact kept some
    next => exact some

theorem notes_prepare (v : ContextView) (lanes : LaneSet) (there : t.fibers.has f) :
    t.Notes (v.prepare t f lanes).2.2 f [] := by
  unfold ContextView.prepare
  dsimp only
  split
  next none => exact ⟨fun _ => rfl, by simp [readings, none], fun _ _ => rfl, fun _ => id⟩
  next => exact notes_setFiber there fun _ => rfl

/-- The first reading replaces what there was, and later ones are added to it. -/
theorem notes_noteRead (first : Bool) (read : ContextRead) (there : t.fibers.has f)
    (again : first = false → (t.fiber f).dependencies.isSome) :
    let t' := t.setFiber f (ContextView.noteRead first read)
    t.Notes t' f ((if first then [] else t.readings f) ++ [read]) ∧
      (t'.fiber f).dependencies.isSome := by
  intro t'
  have own : t'.fiber f = ContextView.noteRead first read (t.fiber f) :=
    (fiber_setFiber ..).trans (if_pos ⟨rfl, there⟩)
  cases first with
  | true => exact ⟨notes_setFiber there fun _ => rfl, by rw [own]; rfl⟩
  | false =>
    obtain ⟨d, some⟩ := Option.isSome_iff_exists.mp (again rfl)
    have noted : (ContextView.noteRead false read (t.fiber f)).dependencies =
        Option.some { d with contexts := d.contexts ++ [read] } := by
      simp [ContextView.noteRead, some]
    have notes := notes_setFiber (g := ContextView.noteRead false read) there fun _ => by
      rw [noted]; rfl
    rw [noted] at notes
    refine ⟨?_, by rw [own, noted]; rfl⟩
    simpa [readings, some] using notes

/-- The record of what was read for fibers is what they have read. Readings are of contexts that
are there. -/
def Bears (r : ContextRegistry) (t : Tree) (recorded : FiberId → Option (List ContextRead)) :
    Prop :=
  ∀ f reads, recorded f = some reads →
    t.fibers.has f ∧ t.readings f = reads ∧ ∀ read ∈ reads, r.contexts.has read.context

theorem Bears.note {r : ContextRegistry} {t' : Tree} {reads : List ContextRead}
    {recorded : FiberId → Option (List ContextRead)} (bears : t.Bears r recorded)
    (notes : t.Notes t' f reads) (there : t.fibers.has f)
    (named : ∀ read ∈ reads, r.contexts.has read.context) :
    t'.Bears r (Function.update recorded f (some reads)) := by
  intro g reads' found
  rw [notes.has]
  rcases eq_or_ne g f with rfl | ne
  · rw [Function.update_self] at found
    cases found
    exact ⟨there, notes.own, named⟩
  · rw [Function.update_of_ne ne] at found
    rw [notes.other g ne]
    exact bears g reads' found

end Tree

namespace Account

variable {a : Account} {r : ContextRegistry} {t t' : Tree} {f : FiberId}
  {recorded : FiberId → Option (List ContextRead)}

/-- What is recorded for fibers after a call. The first read for a fiber begins its record anew,
also if the other renderer has read for it meanwhile. -/
def record (r : ContextRegistry) (a : Account) (recorded : FiberId → Option (List ContextRead)) :
    ContextCall → FiberId → Option (List ContextRead)
  | .prepare fiber _ => Function.update recorded fiber (some [])
  | .read context =>
    match a.rendering with
    | none => recorded
    | some fiber =>
      let before := if a.hasRead then (recorded fiber).getD [] else []
      Function.update recorded fiber
        (some (before ++ [{ context, seen := r.provided a.entered context }]))
  | _ => recorded

/-- The fiber that is rendered has a record, and dependencies once something was read for it. -/
structure Renders (a : Account) (recorded : FiberId → Option (List ContextRead)) (t : Tree) :
    Prop where
  prepared : ∀ f, a.rendering = some f → (recorded f).isSome
  begun : ∀ f, a.rendering = some f → a.hasRead = true → (t.fiber f).dependencies.isSome

theorem Renders.note {reads : List ContextRead} (renders : a.Renders recorded t)
    (notes : t.Notes t' f reads) : a.Renders (Function.update recorded f (some reads)) t' where
  prepared g rendering := by
    rcases eq_or_ne g f with rfl | ne
    · rw [Function.update_self]
      rfl
    · rw [Function.update_of_ne ne]
      exact renders.prepared g rendering
  begun g rendering hasRead := notes.kept g (renders.begun g rendering hasRead)

/-- A call keeps to the record, and so does a renderer of the same tree that does not make it. -/
theorem Covers.note {slot : Slot} {v : ContextView} {x : ContextCall} (covers : a.Covers r slot v)
    (same : ∀ c, v.registry.contexts.has c → r.contexts.has c) (allowed : x.allowed (v, t))
    (bears : t.Bears r recorded) (renders : a.Renders recorded t) :
    let t' := (x.run (v, t)).2
    t'.Bears r (a.record r recorded x) ∧ (a.call x).Renders (a.record r recorded x) t' ∧
      ∀ b : Account, b.Renders recorded t → b.Renders (a.record r recorded x) t' := by
  intro t'
  cases x with
  | push | pop => exact ⟨bears, ⟨renders.prepared, renders.begun⟩, fun _ => id⟩
  | finish => exact ⟨bears, ⟨nofun, nofun⟩, fun _ => id⟩
  | prepare fiber lanes =>
    have notes : t.Notes t' fiber [] := Tree.notes_prepare v lanes allowed
    refine ⟨bears.note notes allowed nofun, ⟨fun f rendering => ?_, nofun⟩, fun _ => (·.note notes)⟩
    obtain rfl := Option.some.inj rendering
    simp [record]
  | read c =>
    have there := same c allowed
    have ran := congrArg (·.state.2) (covers.run_read t there)
    cases rendering : a.rendering with
    | none =>
      rw [rendering] at ran
      have kept : t' = t := ran
      have unchanged : a.call (.read c) = a := by cases a; simp_all [call]
      simp only [record, rendering]
      rw [kept, unchanged]
      exact ⟨bears, renders, fun _ => id⟩
    | some fiber =>
      obtain ⟨reads, found⟩ := Option.isSome_iff_exists.mp (renders.prepared fiber rendering)
      obtain ⟨has, own, named⟩ := bears fiber reads found
      rw [rendering] at ran
      let seen : ContextRead := { context := c, seen := r.provided a.entered c }
      have noted : t' = t.setFiber fiber (ContextView.noteRead (!a.hasRead) seen) := ran
      obtain ⟨notes, depends⟩ := Tree.notes_noteRead (!a.hasRead) seen has fun again =>
        renders.begun fiber rendering (by simpa using again)
      rw [← noted] at notes depends
      have before : (if (!a.hasRead) = true then [] else t.readings fiber) =
          if a.hasRead then (recorded fiber).getD [] else [] := by
        rw [own, found]
        cases a.hasRead <;> rfl
      rw [before] at notes
      simp only [record, rendering]
      refine ⟨bears.note notes has fun read mem => ?_, ⟨?_, fun f now _ => ?_⟩,
        fun _ => (·.note notes)⟩
      · rw [found] at mem
        rcases List.mem_append.mp mem with old | new
        · exact named read (by simpa using old : a.hasRead = true ∧ read ∈ reads).2
        · obtain rfl := List.mem_singleton.mp new
          exact there
      · exact (renders.note notes).prepared
      · cases rendering.symm.trans now
        exact depends

end Account

/-! ## Two renderers -/

/-- Two renderers that share contexts, one for each slot, and the trees that are rendered. -/
structure SharedView (ι : Type) where
  registry : ContextRegistry
  path : Slot → ContextPath
  tree : ι → Tree

/-- What both renderers have done, as their calls say. -/
structure Chronicle (ι : Type) where
  account : Slot → Account := fun _ => {}
  /-- What was read for a fiber of a tree since it was prepared, if it was. -/
  recorded : ι → FiberId → Option (List ContextRead) := fun _ _ => none

section

variable {ι : Type} [DecidableEq ι]

namespace SharedView

/-- At the beginning no provider is entered. -/
def start (registry : ContextRegistry) (tree : ι → Tree) : SharedView ι where
  registry
  path slot := { slot }
  tree

/-- What the renderer of a slot sees of the contexts. -/
def view (v : SharedView ι) (slot : Slot) : ContextView where
  registry := v.registry
  path := v.path slot

/-- The renderer of a slot makes a call. It renders fibers of the tree that is its home. -/
def call (home : Slot → ι) (v : SharedView ι) : Slot × ContextCall → SharedView ι
  | (slot, x) =>
    let (w, t) := x.run (v.view slot, v.tree (home slot))
    { registry := w.registry
      path := Function.update v.path slot w.path
      tree := Function.update v.tree (home slot) t }

theorem view_call_self (v : SharedView ι) (home : Slot → ι) {slot : Slot} {x : ContextCall} :
    (v.call home (slot, x)).view slot = (x.run (v.view slot, v.tree (home slot))).1 := by
  simp only [call, view, Function.update_self]

theorem view_call_of_ne (v : SharedView ι) (home : Slot → ι) {slot s : Slot} {x : ContextCall}
    (other : s ≠ slot) : (v.call home (slot, x)).view s =
      { v.view s with registry := (x.run (v.view slot, v.tree (home slot))).1.registry } := by
  simp only [call, view, Function.update_of_ne other]

theorem tree_call (v : SharedView ι) (home : Slot → ι) {slot : Slot} {x : ContextCall} (i : ι) :
    (v.call home (slot, x)).tree i = if i = home slot then
      (x.run (v.view slot, v.tree (home slot))).2 else v.tree i :=
  Function.update_apply ..

def after (home : Slot → ι) (v : SharedView ι) (calls : List (Slot × ContextCall)) :
    SharedView ι :=
  calls.foldl (call home) v

/-- Every call is allowed where it is made. -/
def allowsAll (home : Slot → ι) (v : SharedView ι) : List (Slot × ContextCall) → Bool
  | [] => true
  | (slot, x) :: calls =>
    x.allowed (v.view slot, v.tree (home slot)) && (v.call home (slot, x)).allowsAll home calls

end SharedView

namespace Chronicle

def call (r : ContextRegistry) (home : Slot → ι) (h : Chronicle ι) :
    Slot × ContextCall → Chronicle ι
  | (slot, x) =>
    let a := h.account slot
    { account := Function.update h.account slot (a.call x)
      recorded :=
        Function.update h.recorded (home slot) (a.record r (h.recorded (home slot)) x) }

def of (r : ContextRegistry) (home : Slot → ι) (calls : List (Slot × ContextCall)) :
    Chronicle ι :=
  calls.foldl (call r home) {}

/-- The calls of the renderer of one slot. -/
def callsOf (slot : Slot) (calls : List (Slot × ContextCall)) : List ContextCall :=
  (calls.filter fun c => c.1 = slot).map (·.2)

/-- An account is made of the renderer's own calls. -/
theorem account_of (r : ContextRegistry) (home : Slot → ι) (calls : List (Slot × ContextCall))
    (slot : Slot) : (of r home calls).account slot = .of (callsOf slot calls) := by
  have fold : ∀ (calls : List (Slot × ContextCall)) (h : Chronicle ι),
      (calls.foldl (call r home) h).account slot =
        (callsOf slot calls).foldl Account.call (h.account slot) := by
    intro calls
    induction calls with
    | nil => exact fun _ => rfl
    | cons c calls ih =>
      intro h
      rw [List.foldl_cons, ih]
      obtain ⟨s, x⟩ := c
      rcases eq_or_ne s slot with rfl | ne
      · simp [callsOf, call]
      · simp [callsOf, call, ne, Function.update_of_ne ne.symm]
  exact fold calls {}

end Chronicle

/-- The contexts and the trees are as the chronicle says. -/
structure Agrees (r : ContextRegistry) (home : Slot → ι) (v : SharedView ι) (h : Chronicle ι) :
    Prop where
  has : ∀ c, v.registry.contexts.has c = r.contexts.has c
  covers : ∀ slot, (h.account slot).Covers r slot (v.view slot)
  bears : ∀ i, (v.tree i).Bears r (h.recorded i)
  renders : ∀ slot, (h.account slot).Renders (h.recorded (home slot)) (v.tree (home slot))

namespace Agrees

variable {r : ContextRegistry} {home : Slot → ι} {v : SharedView ι} {h : Chronicle ι}

omit [DecidableEq ι] in
theorem start (fresh : r.Fresh) (home : Slot → ι) (trees : ι → Tree) :
    Agrees r home (.start r trees) {} where
  has _ := rfl
  covers slot :=
    ⟨rfl, fun _ there => ContextRegistry.value?_of_fresh fresh there slot, trivial, rfl, rfl⟩
  bears _ := nofun
  renders _ := ⟨nofun, nofun⟩

theorem call {slot : Slot} {x : ContextCall} (agrees : Agrees r home v h)
    (allowed : x.allowed (v.view slot, v.tree (home slot))) :
    Agrees r home (v.call home (slot, x)) (h.call r home (slot, x)) := by
  have own := agrees.covers slot
  have same : ∀ c, (v.view slot).registry.contexts.has c → r.contexts.has c :=
    fun c there => agrees.has c ▸ there
  obtain ⟨bears, renders, beside⟩ :=
    own.note same allowed (agrees.bears (home slot)) (agrees.renders slot)
  have spares : ∀ s, s ≠ slot → ContextRegistry.Spares s v.registry
      (x.run (v.view slot, v.tree (home slot))).1.registry :=
    fun s other => x.spares_run _ _ (own.slot ▸ other)
  have account : ∀ s, (h.call r home (slot, x)).account s =
      if s = slot then (h.account slot).call x else h.account s :=
    fun s => Function.update_apply ..
  have recorded : ∀ i, (h.call r home (slot, x)).recorded i = if i = home slot then
      (h.account slot).record r (h.recorded (home slot)) x else h.recorded i :=
    fun i => Function.update_apply ..
  refine ⟨fun c => ?_, fun s => ?_, fun i => ?_, fun s => ?_⟩
  · obtain ⟨s, other⟩ : ∃ s, s ≠ slot := by
      cases slot with
      | primary => exact ⟨.secondary, nofun⟩
      | secondary => exact ⟨.primary, nofun⟩
    exact ((spares s other).has c).trans (agrees.has c)
  · rw [account]
    split
    next mine =>
      subst mine
      rw [SharedView.view_call_self]
      exact own.run same allowed
    next other =>
      rw [SharedView.view_call_of_ne _ _ other]
      exact (agrees.covers s).aside (spares s other)
  · rw [SharedView.tree_call, recorded]
    split
    · exact bears
    · exact agrees.bears i
  · rw [account, SharedView.tree_call, recorded]
    rcases eq_or_ne s slot with rfl | other
    · rwa [if_pos rfl, if_pos rfl, if_pos rfl]
    · rw [if_neg other]
      split
      next shared => exact beside _ (shared ▸ agrees.renders s)
      next => exact agrees.renders s

theorem after {calls : List (Slot × ContextCall)} (agrees : Agrees r home v h)
    (allowed : v.allowsAll home calls) :
    Agrees r home (v.after home calls) (calls.foldl (Chronicle.call r home) h) := by
  induction calls generalizing v h with
  | nil => exact agrees
  | cons c calls ih =>
    obtain ⟨now, later⟩ := Bool.and_eq_true_iff.mp allowed
    exact ih (agrees.call now) later

end Agrees

/-- Two renderers share contexts that are new, and take turns in any way. Whatever one of them
reads is what its own innermost provider of the context provides, or else the default of the
context. A fiber has read what was read for it since it was prepared, and one of its values has
changed if and only if one of the contexts that were read provides another value now than when it
was read. What is provided follows from the renderer's own calls alone. -/
theorem reads_own_providers {r : ContextRegistry} (fresh : r.Fresh) (home : Slot → ι)
    (trees : ι → Tree) {calls : List (Slot × ContextCall)}
    (allowed : (SharedView.start r trees).allowsAll home calls) (slot : Slot) :
    let v := (SharedView.start r trees).after home calls
    let a := Account.of (Chronicle.callsOf slot calls)
    (∀ c, r.contexts.has c → (ContextView.read c (v.view slot, v.tree (home slot))).result =
      match a.rendering with
      | none => .error .contextReadOutsideRender
      | some _ => .ok (r.provided a.entered c)) ∧
    ∀ i f reads, (Chronicle.of r home calls).recorded i f = some reads →
      let d := ((v.tree i).fiber f).dependencies.getD {}
      d.contexts = reads ∧ ((v.view slot).changed d = true ↔
        ∃ read ∈ reads, r.provided a.entered read.context ≠ read.seen) := by
  intro v a
  have agrees : Agrees r home v (.of r home calls) := (Agrees.start fresh home trees).after allowed
  have covers : a.Covers r slot (v.view slot) := by
    have := agrees.covers slot
    rwa [Chronicle.account_of] at this
  refine ⟨fun c there => ?_, fun i f reads recorded => ?_⟩
  · rw [covers.run_read _ there]
    cases a.rendering <;> rfl
  · intro d
    obtain ⟨_, own, named⟩ := agrees.bears i f reads recorded
    have contexts : d.contexts = reads := own
    refine ⟨contexts, ?_⟩
    rw [ContextView.changed, contexts, List.any_eq_true]
    refine exists_congr fun read => and_congr_right fun mem => ?_
    have inForce : (v.view slot).registry.value? read.context (v.view slot).path.slot = _ :=
      covers.value read.context (named read mem)
    rw [inForce]
    simp

end

/-- Two renderers provide values of one context and read it. Then the first one enters a further
provider. It now reads the value of that one, and finds what it has read before changed. The
second one reads what its own provider provides, and finds nothing changed. -/
theorem reads_own_providers_of_two :
    let locale (s : String) : Value := .text s s
    let r := (ContextRegistry.start.create "Locale" (locale "en")).2
    let trees : Slot → Tree := fun _ => (({} : Tree).createRoot true).2
    let calls : List (Slot × ContextCall) :=
      [(.primary, .push ⟨0⟩ ⟨2⟩ (locale "fr")), (.secondary, .push ⟨0⟩ ⟨2⟩ (locale "de")),
        (.primary, .prepare ⟨0⟩ ∅), (.secondary, .prepare ⟨0⟩ ∅), (.primary, .read ⟨2⟩),
        (.secondary, .read ⟨2⟩), (.primary, .push ⟨1⟩ ⟨2⟩ (locale "it"))]
    let v := (SharedView.start r trees).after id calls
    let read slot := (ContextView.read ⟨2⟩ (v.view slot, v.tree slot)).result
    let changed slot :=
      (v.view slot).changed (((v.tree slot).fiber ⟨0⟩).dependencies.getD {})
    r.Fresh ∧ (SharedView.start r trees).allowsAll id calls ∧ r.contexts.has ⟨2⟩ ∧
      read .primary = .ok (locale "it") ∧ read .secondary = .ok (locale "de") ∧
      changed .primary = true ∧ changed .secondary = false := by
  intro locale r trees calls v read changed
  have fresh : r.Fresh := .create "Locale" (locale "en") .start
  have allowed : (SharedView.start r trees).allowsAll id calls := by decide +kernel
  have there : r.contexts.has ⟨2⟩ := by decide +kernel
  have first := reads_own_providers fresh id trees allowed .primary
  have second := reads_own_providers fresh id trees allowed .secondary
  have french : (Chronicle.of r id calls).recorded .primary ⟨0⟩ =
      some [{ context := ⟨2⟩, seen := locale "fr" }] := by rfl
  have german : (Chronicle.of r id calls).recorded .secondary ⟨0⟩ =
      some [{ context := ⟨2⟩, seen := locale "de" }] := by rfl
  refine ⟨fresh, allowed, there, first.1 ⟨2⟩ there, second.1 ⟨2⟩ there, ?_, ?_⟩
  · exact (first.2 .primary ⟨0⟩ _ french).2.mpr ⟨_, .head _, by decide +kernel⟩
  · refine Bool.eq_false_iff.mpr fun differs => ?_
    obtain ⟨read, mem, other⟩ := (second.2 .secondary ⟨0⟩ _ german).2.mp differs
    cases List.mem_singleton.mp mem
    exact other rfl

end ConcurrentRender
