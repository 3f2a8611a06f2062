import Mathlib.Data.List.Induction
import Mathlib.Data.List.Infix
import ConcurrentRender.Cache.Basic

/-!
# How the references to a cache are counted

A cache that is retained counts one reference more, and one less when it is released. A release
counts for nothing when there are none. The count is a word. It tells how many references there are
until there are `2 ^ 32` of them, and then starts again from 0.

* `CacheCall`: what is done to the caches of a host.
* `CacheCall.count c n x`: the count of `c` after a call, if it was `n`, in words or without bound.
* `CacheCall.Balanced c calls`: `c` is never released more often than it was retained.
* `Fits count n steps`: counted without bound, nothing on the way is too much for a word.

Results:
1. `toNat_foldl_of_fits`: a count that fits is the same in words.
2. `foldl_count_of_balanced`: without bound, the references are those that were not given back.
-/

namespace ConcurrentRender

/-! ## Words -/

section Words

variable {σ : Type} {wide : Nat → σ → Nat} {narrow : UInt32 → σ → UInt32} {steps : List σ}

/-- A count from `n` on never gets too large for a word. -/
def Fits (count : Nat → σ → Nat) (n : Nat) (steps : List σ) : Prop :=
  ∀ earlier, earlier <+: steps → earlier.foldl count n < UInt32.size

theorem fits_cons {n : Nat} {x : σ} :
    Fits wide n (x :: steps) ↔ n < UInt32.size ∧ Fits wide (wide n x) steps := by
  constructor
  · intro fits
    refine ⟨fits [] List.nil_prefix, fun earlier part => ?_⟩
    exact fits (x :: earlier) ((List.prefix_cons_inj x).mpr part)
  · rintro ⟨small, fits⟩ earlier part
    rcases List.prefix_cons_iff.mp part with rfl | ⟨rest, rfl, part⟩
    · exact small
    · exact fits rest ((List.prefix_cons_inj x).mp part)

theorem Fits.head {n : Nat} (fits : Fits wide n steps) : n < UInt32.size :=
  fits [] List.nil_prefix

theorem Fits.of_prefix {n : Nat} {earlier : List σ} (fits : Fits wide n steps)
    (part : earlier <+: steps) : Fits wide n earlier :=
  fun first start => fits first (start.trans part)

/-- A count that fits is the same in words. -/
theorem toNat_foldl_of_fits
    (step : ∀ n x, wide n.toNat x < UInt32.size → (narrow n x).toNat = wide n.toNat x) {n : UInt32}
    (fits : Fits wide n.toNat steps) :
    (steps.foldl narrow n).toNat = steps.foldl wide n.toNat := by
  induction steps generalizing n with
  | nil => rfl
  | cons x steps ih =>
    have later := (fits_cons.mp fits).2
    have same := step n x later.head
    rw [← same] at later
    rw [List.foldl_cons, List.foldl_cons, ih later, same]

end Words

/-! ## Calls -/

/-- What is done to the caches of a host. -/
inductive CacheCall where
  | create
  | retain (c : CacheId)
  | release (c : CacheId) (priority : TaskPriority)
  /-- Runs the most urgent task. -/
  | run
deriving DecidableEq

namespace CacheCall

variable {c : CacheId} {calls earlier : List CacheCall}

section Count

variable {α : Type} [OfNat α 0] [OfNat α 1] [Add α] [Sub α] [DecidableEq α]

/-- The references to the cache after a call, if there were `n`. A release of none counts for
nothing. -/
def count (c : CacheId) (n : α) : CacheCall → α
  | retain d => if d = c then n + 1 else n
  | release d _ => if d = c ∧ n ≠ 0 then n - 1 else n
  | _ => n

end Count

/-- The first reference, and the last one given back. -/
theorem count_retain_zero (c : CacheId) : (retain c).count c (0 : UInt32) = 1 := if_pos rfl

theorem count_release_one (c : CacheId) (priority : TaskPriority) :
    (release c priority).count c (1 : UInt32) = 0 := if_pos ⟨rfl, by decide⟩

theorem toNat_count (n : UInt32) (x : CacheCall) (small : x.count c n.toNat < UInt32.size) :
    (x.count c n).toNat = x.count c n.toNat := by
  cases x with
  | create => rfl
  | run => rfl
  | retain d =>
    simp only [count] at small ⊢
    split at small
    next own => rw [if_pos own, if_pos own, UInt32.toNat_add, UInt32.toNat_one, Nat.mod_eq_of_lt small]
    next other => rw [if_neg other, if_neg other]
  | release d priority =>
    have none : n.toNat = 0 ↔ n = 0 := UInt32.toNat_inj (b := 0)
    simp only [count, ne_eq, none]
    split
    next own =>
      have one : 1 ≤ n.toNat := Nat.one_le_iff_ne_zero.mpr (mt none.mp own.2)
      exact UInt32.toNat_sub_of_le n 1 (UInt32.le_iff_toNat_le.mpr one)
    next => rfl

def isRetain (c : CacheId) : CacheCall → Bool
  | retain d => d == c
  | _ => false

def isRelease (c : CacheId) : CacheCall → Bool
  | release d _ => d == c
  | _ => false

/-- How often a cache is retained. -/
def retained (c : CacheId) (calls : List CacheCall) : Nat := calls.countP (isRetain c)

/-- How often a cache is released. -/
def released (c : CacheId) (calls : List CacheCall) : Nat := calls.countP (isRelease c)

/-- At no point a cache was released more often than it was retained. -/
def Balanced (c : CacheId) (calls : List CacheCall) : Prop :=
  ∀ earlier, earlier <+: calls → released c earlier ≤ retained c earlier

instance (c : CacheId) (calls : List CacheCall) : Decidable (Balanced c calls) :=
  decidable_of_iff (∀ earlier ∈ calls.inits, released c earlier ≤ retained c earlier)
    (forall_congr' fun _ => imp_congr_left (List.mem_inits ..))

theorem Balanced.of_prefix (balanced : Balanced c calls) (part : earlier <+: calls) :
    Balanced c earlier :=
  fun first start => balanced first (start.trans part)

theorem retained_append (c : CacheId) (calls later : List CacheCall) :
    retained c (calls ++ later) = retained c calls + retained c later :=
  List.countP_append

theorem released_append (c : CacheId) (calls later : List CacheCall) :
    released c (calls ++ later) = released c calls + released c later :=
  List.countP_append

/-- Without bound, a call counts what it retains and what it releases. -/
theorem count_eq (n : Nat) (x : CacheCall) :
    x.count c n = n + retained c [x] - released c [x] := by
  cases x with
  | create => rfl
  | run => rfl
  | retain d => by_cases own : d = c <;> simp [count, retained, released, isRetain, isRelease, own]
  | release d priority =>
    by_cases own : d = c
    · cases n <;> simp [count, retained, released, isRetain, isRelease, own]
    · simp [count, retained, released, isRetain, isRelease, own]

/-- Without bound, the references are those that were not given back. -/
theorem foldl_count_of_balanced (balanced : Balanced c calls) :
    calls.foldl (count c) 0 + released c calls = retained c calls := by
  induction calls using List.reverseRecOn with
  | nil => rfl
  | append_singleton calls x ih =>
    have before := ih (balanced.of_prefix (List.prefix_append ..))
    have bound := balanced _ List.prefix_rfl
    rw [retained_append, released_append] at bound ⊢
    rw [List.foldl_concat, count_eq]
    omega

end CacheCall

end ConcurrentRender
