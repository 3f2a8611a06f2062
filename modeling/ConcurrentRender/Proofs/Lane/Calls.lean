import ConcurrentRender.Lane.Ledger

/-!
# Calls on a ledger

A `LedgerCall` is one change of a ledger, with its arguments, and `LaneLedger.after` makes
several of them. Only two kinds of calls touch what is entangled with what: entangling lanes
adds to rows, and finishing lanes empties theirs. The row of a lane that stays pending only
grows.

Results:
1. `mem_withPartners`: what is rendered together with a set of lanes.
2. `mem_partners_markEntangled`, `mem_partners_markFinished`: what the two kinds of calls do
   to rows, and `partners_call` that no other call touches them.
3. `mem_partners_call`, `mem_entangled_call`, `mem_pending_call`: what stays.
-/

namespace ConcurrentRender

theorem LaneSet.single_meets {s : LaneSet} {l : Lane} : (single l).meets s = true ↔ l ∈ s := by
  simp [meets_iff]

/-- One change of a ledger. -/
inductive LedgerCall where
  | updated (lanes : LaneSet)
  | suspended (lanes : LaneSet)
  | pinged (lanes : LaneSet)
  | entangled (lanes : LaneSet)
  | starved (now : Nat) (t : Timeouts)
  | finished (remaining : LaneSet)

namespace LedgerCall

/-- The lanes that the call entangles. -/
def entangles? : LedgerCall → Option LaneSet
  | entangled lanes => some lanes
  | _ => none

def finishes : LedgerCall → Bool
  | finished _ => true
  | _ => false

end LedgerCall

namespace LaneLedger

variable {g : LaneLedger} {c : LedgerCall} {l m : Lane} {lanes : LaneSet}

def call (g : LaneLedger) : LedgerCall → LaneLedger
  | .updated lanes => g.markUpdated lanes
  | .suspended lanes => g.markSuspended lanes
  | .pinged lanes => g.markPinged lanes
  | .entangled lanes => g.markEntangled lanes
  | .starved now t => (g.markStarved now t).1
  | .finished remaining => g.markFinished remaining

def after (g : LaneLedger) (calls : List LedgerCall) : LaneLedger := calls.foldl call g

@[simp] theorem after_nil (g : LaneLedger) : g.after [] = g := rfl

@[simp] theorem after_cons (g : LaneLedger) (c : LedgerCall) (calls : List LedgerCall) :
    g.after (c :: calls) = (g.call c).after calls := rfl

/-- What every one of the calls keeps holds after all of them. -/
theorem after_of_call {P : LaneLedger → Prop} {calls : List LedgerCall} (start : P g)
    (keeps : ∀ g, P g → ∀ c ∈ calls, P (g.call c)) : P (g.after calls) :=
  List.foldlRecOn calls call start keeps

/-! ## Rows -/

theorem get_fill {α : Type} (rows : Vector α 31) (lanes : LaneSet) (value : α) (l : Lane) :
    (fill rows lanes value).get l = if l ∈ lanes then value else rows.get l :=
  Vector.getElem_ofFn l.isLt

theorem get_set {α : Type} (rows : Vector α 31) (m : Lane) (value : α) (l : Lane) :
    (rows.set m.val value m.isLt).get l = if l = m then value else rows.get l := by
  refine (Vector.getElem_set m.isLt l.isLt).trans ?_
  simp only [Fin.ext_iff, eq_comm]
  rfl

theorem mem_withPartners : l ∈ g.withPartners lanes ↔
    l ∈ lanes ∨ ∃ m ∈ lanes, m ∈ g.entangled ∧ l ∈ g.partners.get m := by
  have step : ∀ (ms : List Lane) (s : LaneSet),
      l ∈ ms.foldl (fun s m => s ∪ g.partners.get m) s ↔
        l ∈ s ∨ ∃ m ∈ ms, l ∈ g.partners.get m := by
    intro ms
    induction ms with
    | nil => simp
    | cons m ms ih =>
      intro s
      simp [ih, or_assoc]
  simp [withPartners, step, and_assoc]

/-- Entangled lanes join the rows of their own, and of all entangled lanes in whose rows one
of them is. -/
theorem mem_partners_markEntangled : l ∈ (g.markEntangled lanes).partners.get m ↔
    l ∈ g.partners.get m ∨ l ∈ lanes ∧
      (m ∈ lanes ∨ m ∈ g.entangled ∧ ∃ k, k ∈ g.partners.get m ∧ k ∈ lanes) := by
  have row : (g.markEntangled lanes).partners.get m =
      if (g.entangled ∪ lanes).contains m &&
          (lanes.contains m || (g.partners.get m).meets lanes) then
        g.partners.get m ∪ lanes
      else g.partners.get m :=
    Vector.getElem_ofFn m.isLt
  have joins : ((g.entangled ∪ lanes).contains m &&
      (lanes.contains m || (g.partners.get m).meets lanes)) = true ↔
        m ∈ lanes ∨ m ∈ g.entangled ∧ ∃ k, k ∈ g.partners.get m ∧ k ∈ lanes := by
    rw [Bool.and_eq_true, Bool.or_eq_true, LaneSet.meets_iff]
    show m ∈ g.entangled ∪ lanes ∧ (m ∈ lanes ∨ _) ↔ _
    rw [LaneSet.mem_union]
    by_cases mine : m ∈ lanes <;> simp [mine]
  rw [row]
  split
  next join => simp [joins.mp join]
  next apart => simp [mt joins.mpr apart]

theorem mem_partners_markFinished : l ∈ (g.markFinished lanes).partners.get m ↔
    l ∈ g.partners.get m ∧ ¬ (m ∈ g.pending ∧ ¬ m ∈ lanes) := by
  show l ∈ (fill g.partners (g.finishedBy lanes) ∅).get m ↔ _
  rw [get_fill]
  split
  next done => simp [LaneSet.mem_diff.mp done]
  next kept => simp only [mt LaneSet.mem_diff.mpr kept, not_false_eq_true, and_true]

/-! ## What a call leaves alone -/

/-- The ledgers differ in nothing but what waited too long. -/
structure SameWork (g g' : LaneLedger) : Prop where
  pending : g'.pending = g.pending
  suspended : g'.suspended = g.suspended
  pinged : g'.pinged = g.pinged
  entangled : g'.entangled = g.entangled
  partners : g'.partners = g.partners

theorem SameWork.refl (g : LaneLedger) : SameWork g g := ⟨rfl, rfl, rfl, rfl, rfl⟩

theorem SameWork.trans {g g' g'' : LaneLedger} (h : SameWork g g') (h' : SameWork g' g'') :
    SameWork g g'' :=
  ⟨h'.pending.trans h.pending, h'.suspended.trans h.suspended, h'.pinged.trans h.pinged,
    h'.entangled.trans h.entangled, h'.partners.trans h.partners⟩

theorem sameWork_markStarvedLane {g' : LaneLedger} {now : Nat} {t : Timeouts}
    (answer : g.markStarvedLane now t l = .ok g') : SameWork g g' := by
  unfold markStarvedLane at answer
  split at answer
  · split at answer
    · cases deadline : t.deadline? (LaneSet.single l) now with
      | ok d =>
        rw [deadline] at answer
        cases answer
        exact ⟨rfl, rfl, rfl, rfl, rfl⟩
      | error e =>
        rw [deadline] at answer
        cases answer
    · cases answer
      exact .refl g
  · split at answer
    · cases answer
      exact ⟨rfl, rfl, rfl, rfl, rfl⟩
    · cases answer
      exact .refl g

theorem sameWork_markStarved (g : LaneLedger) (now : Nat) (t : Timeouts) :
    SameWork g (g.markStarved now t).1 := by
  have lanes : ∀ (ls : List Lane) (g : LaneLedger),
      SameWork g (markStarvedLanes now t ls g).1 := by
    intro ls
    induction ls with
    | nil => exact .refl
    | cons l ls ih =>
      intro g
      unfold markStarvedLanes
      split
      next g' answer => exact (sameWork_markStarvedLane answer).trans (ih g')
      next => exact .refl g
  exact lanes _ g

/-- Only entangling and finishing lanes touches rows. -/
theorem partners_call (entangles : c.entangles? = none) (lasting : c.finishes = false) :
    (g.call c).partners = g.partners ∧ (g.call c).entangled = g.entangled := by
  cases c with
  | entangled | finished => contradiction
  | starved now t =>
    have same := sameWork_markStarved g now t
    exact ⟨same.partners, same.entangled⟩
  | updated lanes =>
    show (g.markUpdated lanes).partners = _ ∧ (g.markUpdated lanes).entangled = _
    unfold markUpdated
    dsimp only
    split <;> exact ⟨rfl, rfl⟩
  | suspended | pinged => exact ⟨rfl, rfl⟩

theorem mem_pending_markUpdated :
    l ∈ (g.markUpdated lanes).pending ↔ l ∈ g.pending ∨ l ∈ lanes := by
  unfold markUpdated
  dsimp only
  split <;> exact LaneSet.mem_union

/-- A lane stays pending unless it is finished. -/
theorem mem_pending_call (pends : l ∈ g.pending)
    (left : ∀ remaining, c = .finished remaining → l ∈ remaining) : l ∈ (g.call c).pending := by
  cases c with
  | finished remaining => exact left remaining rfl
  | updated lanes => exact mem_pending_markUpdated.mpr (.inl pends)
  | starved now t => exact (sameWork_markStarved g now t).pending ▸ pends
  | suspended | pinged | entangled => exact pends

/-- The row of a lane that is left pending only grows. -/
theorem mem_partners_call (partner : l ∈ g.partners.get m)
    (left : ∀ remaining, c = .finished remaining → m ∈ remaining) :
    l ∈ (g.call c).partners.get m := by
  cases c with
  | entangled lanes => exact mem_partners_markEntangled.mpr (.inl partner)
  | finished remaining =>
    exact mem_partners_markFinished.mpr ⟨partner, fun done => done.2 (left remaining rfl)⟩
  | updated | suspended | pinged | starved => rwa [(partners_call rfl rfl).1]

theorem mem_entangled_call (entangled : l ∈ g.entangled)
    (left : ∀ remaining, c = .finished remaining → l ∈ remaining) :
    l ∈ (g.call c).entangled := by
  cases c with
  | entangled lanes => exact LaneSet.mem_union.mpr (.inl entangled)
  | finished remaining => exact LaneSet.mem_inter.mpr ⟨entangled, left remaining rfl⟩
  | updated | suspended | pinged | starved => rwa [(partners_call rfl rfl).2]

end LaneLedger

end ConcurrentRender
