import Mathlib.Data.Nat.Find
import ConcurrentRender.Proofs.Tree.Frame

/-!
# The fibers above a fiber

`Tree.Above t f p` says that the links to parents lead from `f` to `p`. The walk that the
operations take (`Tree.ancestors`) has a bounded number of steps. Where parents are there
at all, the bound is no restriction.

Results:
1. `climb_nodup_of_new`: as long as a longer climb finds new fibers it has not come back to
   one, also where links go round in a circle.
2. `mem_ancestors_iff`: the walk finds the fibers above and no others.
-/

namespace ConcurrentRender

namespace Tree

/-- `t.Above f p`: the links to parents lead from `f` to `p`, in one step or more. -/
inductive Above (t : Tree) : FiberId → FiberId → Prop
  | parent {f p : FiberId} : (t.fiber f).parent = some p → Above t f p
  | step {f g p : FiberId} : (t.fiber f).parent = some g → Above t g p → Above t f p

/-- Every fiber that is a parent is there. -/
def ParentsThere (t : Tree) : Prop :=
  ∀ f p, (t.fiber f).parent = some p → t.fibers.has p

variable {t : Tree} {f g p : FiberId}

/-- It is enough to look at the fibers that are there. -/
theorem parentsThere_iff :
    t.ParentsThere ↔ ∀ f ∈ t.fibers.ids, ∀ p ∈ (t.fiber f).parent, t.fibers.has p := by
  constructor
  · exact fun h f _ p hp => h f p hp
  · intro h f p hp
    refine h f ?_ p hp
    have there : f.index < t.fibers.size := of_decide_eq_true (has_of_parent hp)
    exact List.mem_map.mpr ⟨f.index, List.mem_range.mpr there, rfl⟩

instance (t : Tree) : Decidable t.ParentsThere := decidable_of_iff _ parentsThere_iff.symm

namespace Above

/-- The fibers above `f` are its parent and those above the parent. -/
theorem cases_parent (hp : (t.fiber f).parent = some g) : t.Above f p ↔ p = g ∨ t.Above g p := by
  constructor
  · intro h
    cases h with
    | parent hf => exact .inl (Option.some.inj (hf.symm.trans hp))
    | step hf h => exact .inr (Option.some.inj (hf.symm.trans hp) ▸ h)
  · rintro (rfl | h)
    · exact .parent hp
    · exact .step hp h

theorem not_of_no_parent (hp : (t.fiber f).parent = none) : ¬ t.Above f p := by
  intro h
  cases h with
  | parent hf => rw [hp] at hf; cases hf
  | step hf _ => rw [hp] at hf; cases hf

theorem there (valid : t.ParentsThere) (h : t.Above f p) : t.fibers.has p := by
  induction h with
  | parent hf => exact valid _ _ hf
  | step _ _ ih => exact ih

/-- Two trees with the same parents have the same fibers above. -/
theorem congr {t' : Tree} (same : ∀ f, (t'.fiber f).parent = (t.fiber f).parent) :
    t'.Above f p ↔ t.Above f p := by
  constructor <;> intro h
  · induction h with
    | parent hf => exact .parent (same _ ▸ hf)
    | step hf _ ih => exact .step (same _ ▸ hf) ih
  · induction h with
    | parent hf => exact .parent ((same _).trans hf)
    | step hf _ ih => exact .step ((same _).trans hf) ih

end Above

/-! ## Climbing -/

theorem climb_succ (t : Tree) (n : Nat) (f : FiberId) :
    t.climb (n + 1) f = match (t.fiber f).parent with
      | none => []
      | some p => p :: t.climb n p := rfl

theorem above_of_mem_climb {n : Nat} (h : p ∈ t.climb n f) : t.Above f p := by
  induction n generalizing f with
  | zero => simp [climb] at h
  | succ n ih =>
    rw [climb_succ] at h
    cases hf : (t.fiber f).parent with
    | none => simp [hf] at h
    | some g =>
      simp only [hf, List.mem_cons] at h
      exact (Above.cases_parent hf).mpr (h.imp id ih)

theorem climb_length_le (t : Tree) (n : Nat) (f : FiberId) : (t.climb n f).length ≤ n := by
  induction n generalizing f with
  | zero => simp [climb]
  | succ n ih =>
    rw [climb_succ]
    split
    · exact Nat.zero_le _
    · exact Nat.succ_le_succ (ih _)

/-- A longer climb goes on where a shorter one stopped. -/
theorem climb_eq_take {n m : Nat} (h : n ≤ m) (f : FiberId) :
    t.climb n f = (t.climb m f).take n := by
  induction n generalizing f m with
  | zero => rfl
  | succ n ih =>
    obtain ⟨m, rfl⟩ : ∃ k, m = k + 1 := ⟨m - 1, by omega⟩
    rw [climb_succ, climb_succ]
    split
    · rfl
    · rw [List.take_succ_cons, ih (Nat.le_of_succ_le_succ h)]

theorem mem_climb_of_le {n m : Nat} (h : n ≤ m) (hp : p ∈ t.climb n f) : p ∈ t.climb m f :=
  List.mem_of_mem_take (climb_eq_take h f ▸ hp)

/-- From a fiber on the way up, the climb is the climb from that fiber. -/
theorem climb_split {n : Nat} (h : g ∈ t.climb n f) :
    ∃ before m, t.climb n f = before ++ g :: t.climb m g ∧ before.length + m + 1 = n := by
  induction n generalizing f with
  | zero => simp [climb] at h
  | succ n ih =>
    rw [climb_succ] at h ⊢
    cases hf : (t.fiber f).parent with
    | none => simp [hf] at h
    | some q =>
      simp only [hf, List.mem_cons] at h ⊢
      rcases h with rfl | h
      · exact ⟨[], n, rfl, by simp⟩
      · obtain ⟨before, m, split, length⟩ := ih h
        exact ⟨q :: before, m, by rw [split]; rfl, by simp; omega⟩

/-- A climb that comes back to its start finds nothing new in its last step. -/
theorem mem_climb_of_circle {n : Nat} (circle : g ∈ t.climb n g) (h : p ∈ t.climb n g)
    (hp : p ≠ g) : p ∈ t.climb (n - 1) g := by
  obtain ⟨before, m, split, length⟩ := climb_split circle
  have shorter : t.climb (n - 1) g = before ++ (g :: t.climb m g).take (n - 1 - before.length) := by
    rw [climb_eq_take (Nat.sub_le n 1) g, split, List.take_append,
      List.take_of_length_le (by omega)]
  rw [split, List.mem_append, List.mem_cons] at h
  rcases h with h | h | h
  · rw [shorter]
    exact List.mem_append_left _ h
  · exact absurd h hp
  · exact mem_climb_of_le (by omega) h

/-- As long as one more step finds a new fiber, the climb has come back to none. -/
theorem climb_nodup_of_new {n : Nat} (new : p ∈ t.climb (n + 1) f) (old : p ∉ t.climb n f) :
    (t.climb (n + 1) f).Nodup := by
  induction n generalizing f with
  | zero =>
    rw [climb_succ]
    split <;> simp [climb]
  | succ n ih =>
    rw [climb_succ] at new old ⊢
    cases hf : (t.fiber f).parent with
    | none => simp [hf] at new
    | some g =>
      simp only [hf, List.mem_cons, not_or] at new old ⊢
      have above : p ∈ t.climb (n + 1) g := new.resolve_left old.1
      -- If the climb came back to `g`, it would have found `p` one step earlier.
      refine List.nodup_cons.mpr ⟨fun circle => ?_, ih above old.2⟩
      exact old.2 (mem_climb_of_circle circle above old.1)

theorem exists_mem_climb (h : t.Above f p) : ∃ n, p ∈ t.climb n f := by
  induction h with
  | parent hf => exact ⟨1, by rw [climb_succ, hf]; exact List.mem_cons_self⟩
  | step hf _ ih =>
    obtain ⟨n, hn⟩ := ih
    exact ⟨n + 1, by rw [climb_succ, hf]; exact List.mem_cons_of_mem _ hn⟩

/-- A fiber above is found within as many steps as there are fibers, if all above are there. -/
theorem mem_ancestors_of_there (there : ∀ q, t.Above f q → t.fibers.has q) (h : t.Above f p) :
    p ∈ t.ancestors f := by
  have found := exists_mem_climb h
  classical
  -- The least number of steps that finds `p`. With one step less it is not found, so the climb
  -- has come back to no fiber, and there are no more steps than fibers.
  have first := Nat.find_spec found
  cases hn : Nat.find found with
  | zero => simp [hn, climb] at first
  | succ n =>
    rw [hn] at first
    have old : p ∉ t.climb n f := Nat.find_min found (by omega)
    have nodup := climb_nodup_of_new first old
    have full : (t.climb (n + 1) f).length = n + 1 := by
      refine Nat.le_antisymm (climb_length_le t _ f) ?_
      by_contra short
      refine old ?_
      have all : (t.climb (n + 1) f).length ≤ n := by
        have := climb_length_le t (n + 1) f
        omega
      rw [climb_eq_take (Nat.le_succ n) f, List.take_of_length_le all]
      exact first
    have bound := t.fibers.length_le_size nodup fun a ha => there a (above_of_mem_climb ha)
    exact mem_climb_of_le (full ▸ bound) first

theorem mem_ancestors_of_above (valid : t.ParentsThere) (h : t.Above f p) : p ∈ t.ancestors f :=
  mem_ancestors_of_there (fun _ above => above.there valid) h

/-- The walk finds the fibers above and no others. -/
theorem mem_ancestors_iff (valid : t.ParentsThere) : p ∈ t.ancestors f ↔ t.Above f p :=
  ⟨above_of_mem_climb, mem_ancestors_of_above valid⟩

end Tree

end ConcurrentRender
