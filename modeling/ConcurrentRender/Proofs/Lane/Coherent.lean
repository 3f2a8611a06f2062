import ConcurrentRender.Proofs.Lane.Calls

/-!
# A coherent ledger

A ledger keeps five sets of lanes and two tables with a row for each lane, and every call touches
some of them only. What they say about a lane fits together all the same, whatever lanes the calls
are about: lanes that are not pending, or that nobody suspended, included.

* `LaneLedger.Coherent g`: what the ledger says about each lane fits together.

Results:
1. `Coherent.markUpdated` to `Coherent.markFinished`: each kind of call keeps a ledger coherent.
2. `coherent_after_calls`: hence every sequence of calls does.
-/

namespace ConcurrentRender

/-- The lanes on which work can wait too long. -/
def LaneSet.impatient : LaneSet := blocking ∪ transitions

open LaneSet (single impatient)

/-- Only lanes on which work can wait too long have a timeout. -/
theorem Timeouts.impatient_of_timeout {t : Timeouts} {l : Lane} {ms : Nat}
    (waits : t.timeout? (single l) = some ms) : l ∈ impatient := by
  unfold timeout? at waits
  split at waits
  next urgent =>
    obtain ⟨m, same, mem⟩ := LaneSet.meets_iff.mp urgent
    rw [LaneSet.mem_single.mp same] at mem
    exact LaneSet.mem_union.mpr (.inl (LaneSet.mem_union.mpr (.inl mem)))
  next =>
    split at waits
    next later =>
      obtain ⟨m, same, mem⟩ := LaneSet.meets_iff.mp later
      rw [LaneSet.mem_single.mp same] at mem
      refine LaneSet.mem_union.mpr ((LaneSet.mem_union.mp mem).imp_left fun default => ?_)
      exact LaneSet.mem_union.mpr (.inr default)
    next => cases waits

theorem Timeouts.impatient_of_deadline {t : Timeouts} {l : Lane} {now d : Nat}
    (due : t.deadline? (single l) now = .ok (some d)) : l ∈ impatient := by
  unfold deadline? at due
  split at due
  next => cases due
  next ms waits => exact impatient_of_timeout waits

namespace LaneLedger

variable {g g' : LaneLedger} {l : Lane} {now : Nat} {t : Timeouts}

/-- What the ledger says about each lane fits together. -/
structure Coherent (g : LaneLedger) : Prop where
  /-- Data arrives for lanes that wait for it. -/
  pinged : g.pinged ⊆ g.suspended
  expired : g.expired ⊆ g.pending
  deadline : ∀ l d, g.deadlines.get l = some d → l ∈ g.pending ∧ l ∈ impatient
  /-- A lane that waits for data cannot wait too long. -/
  waiting : ∀ l, l ∈ g.suspended → l ∉ g.pinged → g.deadlines.get l = none
  own : ∀ l, l ∈ g.entangled → l ∈ g.partners.get l

namespace Coherent

theorem start : ({} : LaneLedger).Coherent where
  pinged _ mem := absurd mem (LaneSet.not_mem_empty _)
  expired _ mem := absurd mem (LaneSet.not_mem_empty _)
  deadline l d due := by
    rw [show ({} : LaneLedger).deadlines.get l = none from Vector.getElem_replicate l.isLt] at due
    cases due
  waiting _ mem := absurd mem (LaneSet.not_mem_empty _)
  own _ mem := absurd mem (LaneSet.not_mem_empty _)

theorem markUpdated (fits : g.Coherent) (lanes : LaneSet) : (g.markUpdated lanes).Coherent := by
  have grows : g.pending ⊆ g.pending ∪ lanes := fun _ mem => LaneSet.mem_union.mpr (.inl mem)
  have expired : g.expired ⊆ g.pending ∪ lanes := fun l mem => grows l (fits.expired l mem)
  have deadline : ∀ l d, g.deadlines.get l = some d → l ∈ g.pending ∪ lanes ∧ l ∈ impatient :=
    fun l d due => (fits.deadline l d due).imp_left (grows l)
  unfold LaneLedger.markUpdated
  dsimp only
  split
  · exact ⟨fits.pinged, expired, deadline, fits.waiting, fits.own⟩
  · exact ⟨LaneSet.forall_mem_empty, expired, deadline, LaneSet.forall_mem_empty, fits.own⟩

theorem markSuspended (fits : g.Coherent) (lanes : LaneSet) : (g.markSuspended lanes).Coherent where
  pinged l mem := LaneSet.mem_union.mpr (.inl (fits.pinged l (LaneSet.mem_diff.mp mem).1))
  expired := fits.expired
  deadline l d due := by
    have row : (fill g.deadlines lanes none).get l = some d := due
    rw [get_fill] at row
    split at row
    · cases row
    · exact fits.deadline l d row
  waiting l mem quiet := by
    show (fill g.deadlines lanes none).get l = none
    rw [get_fill]
    split
    next => rfl
    next other =>
      have before := (LaneSet.mem_union.mp mem).resolve_right other
      exact fits.waiting l before fun pinged => quiet (LaneSet.mem_diff.mpr ⟨pinged, other⟩)
  own := fits.own

theorem markPinged (fits : g.Coherent) (lanes : LaneSet) : (g.markPinged lanes).Coherent where
  pinged l mem :=
    (LaneSet.mem_union.mp mem).elim (fits.pinged l) fun new => (LaneSet.mem_inter.mp new).1
  expired := fits.expired
  deadline := fits.deadline
  waiting l mem quiet :=
    fits.waiting l mem fun pinged => quiet (LaneSet.mem_union.mpr (.inl pinged))
  own := fits.own

theorem markEntangled (fits : g.Coherent) (lanes : LaneSet) : (g.markEntangled lanes).Coherent where
  pinged := fits.pinged
  expired := fits.expired
  deadline := fits.deadline
  waiting := fits.waiting
  own l mem := by
    rcases LaneSet.mem_union.mp mem with before | new
    · exact mem_partners_markEntangled.mpr (.inl (fits.own l before))
    · exact mem_partners_markEntangled.mpr (.inr ⟨new, .inl new⟩)

/-- A lane that is given a deadline is pending, and it does not wait for data. -/
theorem markStarvedLane (fits : g.Coherent) (pends : l ∈ g.pending)
    (answer : g.markStarvedLane now t l = .ok g') : g'.Coherent := by
  unfold LaneLedger.markStarvedLane at answer
  split at answer
  next =>
    split at answer
    next free =>
      cases due : t.deadline? (single l) now with
      | error e =>
        rw [due] at answer
        cases answer
      | ok d =>
        rw [due] at answer
        cases answer
        have free : l ∈ g.suspended → l ∈ g.pinged := fun mem => by
          rcases Bool.or_eq_true_iff.mp free with unblocked | pinged
          · rw [show g.suspended.contains l = true from mem] at unblocked
            cases unblocked
          · exact pinged
        refine ⟨fits.pinged, fits.expired, fun m d' known => ?_, fun m mem quiet => ?_, fits.own⟩
        · rw [get_set] at known
          split at known
          next mine =>
            subst mine known
            exact ⟨pends, Timeouts.impatient_of_deadline due⟩
          next => exact fits.deadline m d' known
        · rw [get_set]
          split
          next mine => exact absurd (free (mine ▸ mem)) (mine ▸ quiet)
          next => exact fits.waiting m mem quiet
    next =>
      cases answer
      exact fits
  next =>
    split at answer
    next =>
      cases answer
      refine ⟨fits.pinged, fun m mem => ?_, fits.deadline, fits.waiting, fits.own⟩
      exact (LaneSet.mem_union.mp mem).elim (fits.expired m) fun new =>
        LaneSet.mem_single.mp new ▸ pends
    next =>
      cases answer
      exact fits

/-- A starvation check keeps a ledger coherent also where it stops before its end. -/
theorem markStarved (fits : g.Coherent) (now : Nat) (t : Timeouts) :
    (g.markStarved now t).1.Coherent := by
  have lanes : ∀ (ls : List Lane) (g : LaneLedger), g.Coherent → (∀ l ∈ ls, l ∈ g.pending) →
      (markStarvedLanes now t ls g).1.Coherent := by
    intro ls
    induction ls with
    | nil => exact fun g fits _ => fits
    | cons l ls ih =>
      intro g fits pend
      unfold markStarvedLanes
      split
      next g' answer =>
        have same := (sameWork_markStarvedLane answer).pending
        refine ih g' (fits.markStarvedLane (pend l (.head _)) answer) fun m mem => ?_
        exact same ▸ pend m (.tail _ mem)
      next => exact fits
  refine lanes _ g fits fun l mem => ?_
  exact (LaneSet.mem_diff.mp (LaneSet.mem_members.mp mem)).1

theorem markFinished (fits : g.Coherent) (remaining : LaneSet) :
    (g.markFinished remaining).Coherent where
  pinged := LaneSet.forall_mem_empty
  expired l mem := (LaneSet.mem_inter.mp mem).2
  deadline l d due := by
    have row : (fill g.deadlines (g.finishedBy remaining) none).get l = some d := due
    rw [get_fill] at row
    split at row
    next => cases row
    next kept =>
      obtain ⟨pends, impatient⟩ := fits.deadline l d row
      refine ⟨Decidable.not_not.mp fun gone => kept (LaneSet.mem_diff.mpr ⟨pends, gone⟩), impatient⟩
  waiting := LaneSet.forall_mem_empty
  own l mem := by
    obtain ⟨before, left⟩ := LaneSet.mem_inter.mp mem
    exact mem_partners_markFinished.mpr ⟨fits.own l before, fun done => done.2 left⟩

theorem call (fits : g.Coherent) (c : LedgerCall) : (g.call c).Coherent := by
  cases c with
  | updated lanes => exact fits.markUpdated lanes
  | suspended lanes => exact fits.markSuspended lanes
  | pinged lanes => exact fits.markPinged lanes
  | entangled lanes => exact fits.markEntangled lanes
  | starved now t => exact fits.markStarved now t
  | finished remaining => exact fits.markFinished remaining

end Coherent

/-- After every sequence of calls, with whatever lanes and at whatever times, only lanes that wait
are pinged, only pending ones have expired, deadlines belong to pending lanes on which work can wait
too long and that do not wait for data, and every entangled lane is among its own partners. -/
theorem coherent_after_calls (calls : List LedgerCall) : (({} : LaneLedger).after calls).Coherent :=
  after_of_call .start fun _ fits c _ => fits.call c

end LaneLedger

end ConcurrentRender
