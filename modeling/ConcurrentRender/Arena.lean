/-!
# Arenas

Everything that lives long and is referred to from several places is kept in an arena: a
growing table whose entries are named by their position. Entries are never removed, so an
identifier stays valid. There is one kind of identifier for each kind of thing.

* `Arena.get`, `Arena.modify` and `Arena.add` read, change and add entries.
* Changing an entry leaves all others alone (`Arena.get_modify`), and adding one leaves the
  earlier ones alone (`Arena.get_add_of_lt`).
-/

namespace ConcurrentRender

inductive Kind where
  | fiber
  | root
  | queue
  | update
  | boundary
  | context
  | cache
  | controller
  | scope
  | action
  | retainer
  | renderer
deriving DecidableEq

def Kind.word : Kind → String
  | fiber => "FiberId"
  | root => "RootId"
  | queue => "QueueId"
  | update => "UpdateId"
  | boundary => "OffscreenId"
  | context => "ContextId"
  | cache => "CacheId"
  | controller => "ControllerId"
  | scope => "ScopeId"
  | action => "ActionId"
  | retainer => "RetainerId"
  | renderer => "RendererId"

/-- The position of a thing in its arena. -/
structure Id (k : Kind) where
  index : Nat
deriving DecidableEq, Inhabited

/-- An identifier in texts: what it names and its position. -/
def Id.text {k : Kind} (i : Id k) : String := k.word ++ "(" ++ toString i.index ++ ")"

abbrev FiberId := Id .fiber

abbrev RootId := Id .root

abbrev QueueId := Id .queue

abbrev UpdateId := Id .update

abbrev BoundaryId := Id .boundary

abbrev ContextId := Id .context

abbrev CacheId := Id .cache

/-- A table of things of one kind. -/
structure Arena (k : Kind) (α : Type) where
  items : Array α := #[]

namespace Arena

variable {k : Kind} {α : Type}

instance : Inhabited (Arena k α) := ⟨{}⟩

def size (a : Arena k α) : Nat := a.items.size

def has (a : Arena k α) (i : Id k) : Bool := decide (i.index < a.size)

def get? (a : Arena k α) (i : Id k) : Option α := a.items[i.index]?

/-- The entry, or the default one if the identifier names none. -/
def get [Inhabited α] (a : Arena k α) (i : Id k) : α := (a.get? i).getD default

def modify (a : Arena k α) (i : Id k) (f : α → α) : Arena k α :=
  { items := a.items.modify i.index f }

/-- The name of the next entry. -/
def next (a : Arena k α) : Id k := ⟨a.size⟩

/-- Adds an entry, which `next` names. -/
def add (a : Arena k α) (x : α) : Arena k α := { items := a.items.push x }

def ids (a : Arena k α) : List (Id k) := (List.range a.size).map Id.mk

/-! ## What the operations do to the entries -/

@[simp] theorem size_modify (a : Arena k α) (i : Id k) (f : α → α) :
    (a.modify i f).size = a.size := by
  simp [modify, size]

@[simp] theorem size_add (a : Arena k α) (x : α) : (a.add x).size = a.size + 1 := by
  simp [add, size]

theorem get?_modify (a : Arena k α) (i j : Id k) (f : α → α) :
    (a.modify i f).get? j = if i = j then (a.get? j).map f else a.get? j := by
  cases i with | mk i => cases j with | mk j =>
  simp [modify, get?, Array.getElem?_modify]

/-- A change is seen at the changed entry only. -/
theorem get_modify [Inhabited α] (a : Arena k α) (i j : Id k) (f : α → α) :
    (a.modify i f).get j = if i = j ∧ a.has j then f (a.get j) else a.get j := by
  simp only [get, get?_modify, has, size]
  by_cases h : i = j
  · by_cases hj : j.index < a.items.size
    · simp [h, hj, get?]
    · simp [h, hj, get?]
  · simp [h]

theorem get?_add_of_lt (a : Arena k α) (x : α) (i : Id k) (h : a.has i) :
    (a.add x).get? i = a.get? i := by
  have h : i.index < a.items.size := of_decide_eq_true h
  simp [add, get?, Array.getElem?_push, Nat.ne_of_lt h]

theorem get_add_of_lt [Inhabited α] (a : Arena k α) (x : α) (i : Id k) (h : a.has i) :
    (a.add x).get i = a.get i := by
  simp [get, get?_add_of_lt a x i h]

@[simp] theorem get_add_next [Inhabited α] (a : Arena k α) (x : α) :
    (a.add x).get a.next = x := by
  simp [get, add, get?, next, size]

end Arena

end ConcurrentRender
