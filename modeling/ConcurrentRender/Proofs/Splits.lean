import Mathlib.Data.List.Basic

/-!
# Where a run can be split

Results about runs say what was done before an entry of a list, and what after it. A longer list
can be split at its last entry, and wherever the shorter one can.
-/

namespace ConcurrentRender

variable {α : Type} {xs before after : List α} {x y : α}

/-- A list is split at its last entry or before it. -/
theorem concat_eq_split :
    xs ++ [x] = before ++ y :: after ↔
      (xs = before ∧ x = y ∧ after = []) ∨
        ∃ later, after = later ++ [x] ∧ xs = before ++ y :: later := by
  rcases List.eq_nil_or_concat after with rfl | ⟨later, z, rfl⟩
  · simp
  · rw [List.concat_eq_append, ← List.cons_append, ← List.append_assoc]
    simp only [List.append_singleton_inj, List.append_eq_nil_iff, List.cons_ne_self, and_false,
      false_or]
    constructor
    · rintro ⟨rfl, rfl⟩
      exact ⟨later, ⟨rfl, rfl⟩, rfl⟩
    · rintro ⟨_, ⟨rfl, rfl⟩, rfl⟩
      exact ⟨rfl, rfl⟩

theorem forall_concat_split {P : List α → α → List α → Prop} :
    (∀ before y after, xs ++ [x] = before ++ y :: after → P before y after) ↔
      P xs x [] ∧ ∀ before y later, xs = before ++ y :: later → P before y (later ++ [x]) := by
  constructor
  · refine fun all => ⟨all _ _ _ rfl, fun before y later split => all _ _ _ ?_⟩
    exact concat_eq_split.mpr (.inr ⟨later, rfl, split⟩)
  · rintro ⟨last, rest⟩ before y after split
    rcases concat_eq_split.mp split with ⟨rfl, rfl, rfl⟩ | ⟨later, rfl, shorter⟩
    · exact last
    · exact rest before y later shorter

end ConcurrentRender
