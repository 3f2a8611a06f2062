/-!
# Lanes and sets of lanes

A lane is one of 31 priority levels, numbered from the most urgent to the least
urgent one. Work is scheduled on lanes, so almost every value of the library is a
set of lanes.

* `LaneSet` holds a set as 31 bits. `LaneSet.members` lists it from the most
  urgent lane on, and `LaneSet.first` keeps the most urgent lane alone.
* A set is determined by its members (`LaneSet.ext_mem`), and every operation is
  described by membership (`LaneSet.mem_union`, `LaneSet.mem_diff`, and so on).
-/

namespace ConcurrentRender

/-- A priority level. A smaller number is more urgent. -/
abbrev Lane := Fin 31

/-- A set of lanes. Bit `l` says whether lane `l` is a member. -/
structure LaneSet where
  bits : BitVec 31
deriving DecidableEq

namespace LaneSet

def empty : LaneSet := ⟨0⟩

/-- The set whose members are the bits of `n` below the 31st. Higher bits are dropped. -/
def ofNat (n : Nat) : LaneSet := ⟨BitVec.ofNat 31 n⟩

def toNat (s : LaneSet) : Nat := s.bits.toNat

def single (l : Lane) : LaneSet := ⟨BitVec.twoPow 31 l⟩

/-- The set of lane number `n`, if there is such a lane. -/
def ofIndex? (n : Nat) : Option LaneSet :=
  if h : n < 31 then some (single ⟨n, h⟩) else none

def contains (s : LaneSet) (l : Lane) : Bool := s.bits.getLsbD l

instance : Inhabited LaneSet := ⟨empty⟩
instance : EmptyCollection LaneSet := ⟨empty⟩
instance : Union LaneSet := ⟨fun s t => ⟨s.bits ||| t.bits⟩⟩
instance : Inter LaneSet := ⟨fun s t => ⟨s.bits &&& t.bits⟩⟩
instance : SDiff LaneSet := ⟨fun s t => ⟨s.bits &&& ~~~t.bits⟩⟩
instance : Membership Lane LaneSet := ⟨fun s l => s.contains l = true⟩
instance : HasSubset LaneSet := ⟨fun s t => ∀ l : Lane, l ∈ s → l ∈ t⟩

instance (l : Lane) (s : LaneSet) : Decidable (l ∈ s) :=
  inferInstanceAs (Decidable (s.contains l = true))

def isEmpty (s : LaneSet) : Bool := s == ∅

def meets (s t : LaneSet) : Bool := !(s ∩ t).isEmpty

def within (s t : LaneSet) : Bool := (t ∩ s) == s

/-- The lanes of the set, most urgent first. -/
def members (s : LaneSet) : List Lane := (List.finRange 31).filter s.contains

def first? (s : LaneSet) : Option Lane := s.members.head?

def last? (s : LaneSet) : Option Lane := s.members.getLast?

/-- The most urgent lane as a set. It is empty only for the empty set. -/
def first (s : LaneSet) : LaneSet :=
  match s.first? with
  | some l => single l
  | none => ∅

/-- The more urgent of two sets of one lane. An empty set loses against any other. -/
def moreUrgent (s t : LaneSet) : LaneSet :=
  if !s.isEmpty && (t.isEmpty || decide (s.toNat < t.toNat)) then s else t

/-! ## Membership -/

theorem mem_def {l : Lane} {s : LaneSet} : l ∈ s ↔ s.bits.getLsbD l = true := Iff.rfl

theorem ext_mem {s t : LaneSet} (h : ∀ l : Lane, l ∈ s ↔ l ∈ t) : s = t := by
  cases s with | mk a => cases t with | mk b =>
  congr 1
  apply BitVec.eq_of_getLsbD_eq
  intro i hi
  have := h ⟨i, hi⟩
  simp only [mem_def] at this
  exact Bool.eq_iff_iff.mpr this

@[simp] theorem not_mem_empty (l : Lane) : ¬ l ∈ (∅ : LaneSet) := by
  intro h
  have : (0#31).getLsbD l = true := h
  simp at this

theorem forall_mem_empty {P : Lane → Prop} : ∀ l ∈ (∅ : LaneSet), P l :=
  fun l mem => absurd mem (not_mem_empty l)

@[simp] theorem mem_union {l : Lane} {s t : LaneSet} : l ∈ s ∪ t ↔ l ∈ s ∨ l ∈ t := by
  have : (s ∪ t).bits = s.bits ||| t.bits := rfl
  simp [mem_def, this]

@[simp] theorem mem_inter {l : Lane} {s t : LaneSet} : l ∈ s ∩ t ↔ l ∈ s ∧ l ∈ t := by
  have : (s ∩ t).bits = s.bits &&& t.bits := rfl
  simp [mem_def, this]

@[simp] theorem mem_diff {l : Lane} {s t : LaneSet} : l ∈ s \ t ↔ l ∈ s ∧ ¬ l ∈ t := by
  have : (s \ t).bits = s.bits &&& ~~~t.bits := rfl
  simp [mem_def, this]

@[simp] theorem mem_single {l m : Lane} : l ∈ single m ↔ l = m := by
  have : (single m).bits = BitVec.twoPow 31 m := rfl
  simp only [mem_def, this, BitVec.getLsbD_twoPow]
  constructor
  · intro h
    simp at h
    exact Fin.ext h.symm
  · rintro rfl
    simp

@[simp] theorem mem_members {l : Lane} {s : LaneSet} : l ∈ s.members ↔ l ∈ s := by
  simp only [members, List.mem_filter, List.mem_finRange, true_and]
  rfl

theorem isEmpty_iff {s : LaneSet} : s.isEmpty ↔ ∀ l : Lane, ¬ l ∈ s := by
  constructor
  · intro empty l
    simp [beq_iff_eq.mp empty]
  · intro none
    exact beq_iff_eq.mpr (ext_mem fun l => by simp [none l])

theorem meets_iff {s t : LaneSet} : s.meets t ↔ ∃ l : Lane, l ∈ s ∧ l ∈ t := by
  rw [meets, Bool.not_eq_true', Bool.eq_false_iff, ne_eq, isEmpty_iff]
  simp

theorem within_iff {s t : LaneSet} : s.within t ↔ s ⊆ t := by
  rw [within, beq_iff_eq]
  constructor
  · intro same l hl
    rw [← same] at hl
    exact (mem_inter.mp hl).1
  · intro sub
    exact ext_mem fun l => mem_inter.trans ⟨And.right, fun hl => ⟨sub l hl, hl⟩⟩

theorem mem_of_mem_first {l : Lane} {s : LaneSet} (h : l ∈ s.first) : l ∈ s := by
  unfold first first? at h
  cases least : s.members.head? with
  | none => simp [least] at h
  | some m =>
    rw [least] at h
    rw [mem_single.mp h]
    exact mem_members.mp (List.mem_of_mem_head? least)

end LaneSet

end ConcurrentRender
