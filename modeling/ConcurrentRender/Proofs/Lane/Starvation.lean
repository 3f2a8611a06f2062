import Mathlib.Data.List.FinRange
import Mathlib.Data.List.Induction
import ConcurrentRender.Proofs.Lane.Coherent
import ConcurrentRender.Proofs.Splits

/-!
# When a lane has waited too long

A starvation check gives a deadline to each pending lane that has none and does not wait for data,
and a later check expires the lanes past theirs. In between, a lane loses its deadline when it is
suspended and when it is finished. So a lane has expired if and only if it was given a deadline by
one check, kept it until another one that came too late, and was not finished since.

* `Timeouts.patience? t l`: how long lane `l` may wait.
* `LaneLedger.Due g l`: a check gives lane `l` a deadline, if lane `l` can wait too long.
* `LaneLedger.Drops g l calls`: one of the calls takes lane `l` out of those that are pending.
* `LaneLedger.Waits g t l now d calls`: a check at `now` gives lane `l` the deadline `d`, and the
  lane keeps it through the calls that follow.

Results:
1. `deadline_markStarved`, `mem_expired_markStarved`: what a check does if the clock can show all
   deadlines.
2. `deadline_call`, `mem_expired_call`: what each call does to the deadline of a lane, and to the
   lanes that have expired.
3. `deadline_after`: a lane has a deadline if a check gave it and the lane has kept it since.
4. `expired_after_iff`: hence which lanes have expired.
-/

namespace ConcurrentRender

open LaneSet (single impatient)

namespace Timeouts

/-- How long work on the lane may wait: on the sync and the input lane one time, on the default lane
and the transition lanes another one, and on all others without end. -/
def patience? (t : Timeouts) (l : Lane) : Option Nat :=
  if l ∈ LaneSet.syncLane ∪ LaneSet.inputLane then some t.sync
  else if l ∈ LaneSet.defaultLane ∪ LaneSet.transitions then some t.transition
  else none

/-- The clock can show every deadline that is given at the time. -/
def Shown (t : Timeouts) (now : Nat) : Prop :=
  now + t.sync < clockEnd ∧ now + t.transition < clockEnd

variable {t : Timeouts} {l : Lane} {now : Nat}

theorem timeout?_single (t : Timeouts) (l : Lane) : t.timeout? (single l) = t.patience? l := by
  unfold timeout? patience?
  simp only [LaneSet.single_meets]

theorem impatient_of_patience {ms : Nat} (waits : t.patience? l = some ms) : l ∈ impatient :=
  impatient_of_timeout ((timeout?_single t l).trans waits)

theorem deadline?_single (shown : t.Shown now) :
    t.deadline? (single l) now = .ok ((t.patience? l).map (now + ·)) := by
  unfold deadline?
  rw [timeout?_single]
  unfold patience?
  split_ifs
  · exact if_pos shown.1
  · exact if_pos shown.2
  · rfl

end Timeouts

namespace LaneLedger

variable {g g' : LaneLedger} {c : LedgerCall} {calls later : List LedgerCall} {l m : Lane}
  {t : Timeouts} {now d : Nat}

/-- The lane has work that does not wait for data, and no deadline. -/
structure Due (g : LaneLedger) (l : Lane) : Prop where
  pending : l ∈ g.pending
  none : g.deadlines.get l = none
  ready : l ∉ g.suspended ∨ l ∈ g.pinged

/-- One of the calls takes the lane out of those that are pending. -/
def Drops (g : LaneLedger) (l : Lane) : List LedgerCall → Prop
  | [] => False
  | c :: calls => (l ∈ g.pending ∧ l ∉ (g.call c).pending) ∨ (g.call c).Drops l calls

/-- The checks among the calls use the timeouts, and the clock can show their deadlines. -/
def Timely (t : Timeouts) (calls : List LedgerCall) : Prop :=
  ∀ now t', LedgerCall.starved now t' ∈ calls → t' = t ∧ t.Shown now

theorem timely_append :
    Timely t (calls ++ later) ↔ Timely t calls ∧ Timely t later := by
  unfold Timely
  simp only [List.mem_append]
  exact ⟨fun h => ⟨fun now t' mem => h now t' (.inl mem), fun now t' mem => h now t' (.inr mem)⟩,
    fun h now t' mem => mem.elim (h.1 now t') (h.2 now t')⟩

instance decidableDrops (g : LaneLedger) (l : Lane) :
    ∀ calls : List LedgerCall, Decidable (g.Drops l calls)
  | [] => inferInstanceAs (Decidable False)
  | c :: calls =>
    have := decidableDrops (g.call c) l calls
    inferInstanceAs (Decidable (_ ∨ _))

theorem drops_append :
    g.Drops l (calls ++ later) ↔ g.Drops l calls ∨ (g.after calls).Drops l later := by
  induction calls generalizing g with
  | nil => simp [Drops]
  | cons c calls ih => simp [Drops, ih, or_assoc]

/-! ## A starvation check -/

/-- The deadline of a lane after a check. -/
def checked (g : LaneLedger) (now : Nat) (t : Timeouts) (l : Lane) : Option Nat :=
  (g.deadlines.get l).or
    (if l ∉ g.suspended ∨ l ∈ g.pinged then (t.patience? l).map (now + ·) else none)

theorem checked_congr (same : SameWork g g') (row : g'.deadlines.get l = g.deadlines.get l) :
    g'.checked now t l = g.checked now t l := by
  unfold checked
  rw [row, same.suspended, same.pinged]

/-- The check of one lane changes the deadline of this lane only, and expires no other one. -/
theorem markStarvedLane_of_shown (shown : t.Shown now) (g : LaneLedger) (l : Lane) :
    ∃ g', g.markStarvedLane now t l = .ok g' ∧
      (∀ m, g'.deadlines.get m = if m = l then g.checked now t l else g.deadlines.get m) ∧
      ∀ m, m ∈ g'.expired ↔
        m ∈ g.expired ∨ m = l ∧ ∃ d, g.deadlines.get l = some d ∧ d ≤ now := by
  have waits : (!g.suspended.contains l || g.pinged.contains l) = true ↔
      l ∉ g.suspended ∨ l ∈ g.pinged := by
    rw [Bool.or_eq_true, Bool.not_eq_true', Bool.eq_false_iff]
    rfl
  unfold markStarvedLane checked
  cases row : g.deadlines.get l with
  | none =>
    dsimp only
    by_cases ready : l ∉ g.suspended ∨ l ∈ g.pinged
    · rw [if_pos (waits.mpr ready), Timeouts.deadline?_single shown, if_pos ready]
      exact ⟨_, rfl, fun m => get_set _ l _ m, fun m => by simp⟩
    · rw [if_neg (mt waits.mp ready), if_neg ready]
      refine ⟨g, rfl, fun m => ?_, fun m => by simp⟩
      split
      next same => rw [same, row]; rfl
      next => rfl
  | some d =>
    dsimp only
    have kept : ∀ m, g.deadlines.get m = if m = l then some d else g.deadlines.get m := by
      intro m
      split
      next same => rw [same, row]
      next => rfl
    by_cases late : d ≤ now
    · rw [if_pos late]
      exact ⟨_, rfl, kept, fun m => by simp [late]⟩
    · rw [if_neg late]
      exact ⟨_, rfl, kept, fun m => by simp [late]⟩

/-- Lanes that are checked in turn do not affect each other. -/
theorem markStarvedLanes_of_shown (shown : t.Shown now) (ls : List Lane) (once : ls.Nodup)
    (g : LaneLedger) :
    (∀ m, (markStarvedLanes now t ls g).1.deadlines.get m =
      if m ∈ ls then g.checked now t m else g.deadlines.get m) ∧
    ∀ m, m ∈ (markStarvedLanes now t ls g).1.expired ↔
      m ∈ g.expired ∨ m ∈ ls ∧ ∃ d, g.deadlines.get m = some d ∧ d ≤ now := by
  induction ls generalizing g with
  | nil => simp [markStarvedLanes]
  | cons l ls ih =>
    obtain ⟨fresh, once⟩ := List.nodup_cons.mp once
    obtain ⟨g', answer, row, late⟩ := markStarvedLane_of_shown shown g l
    obtain ⟨rows, lates⟩ := ih once g'
    have same := sameWork_markStarvedLane answer
    unfold markStarvedLanes
    rw [answer]
    have apart : ∀ m ∈ ls, m ≠ l := fun m mem same => fresh (same ▸ mem)
    refine ⟨fun m => ?_, fun m => ?_⟩
    · rw [rows]
      by_cases mem : m ∈ ls
      · have old : g'.deadlines.get m = g.deadlines.get m := by rw [row, if_neg (apart m mem)]
        simp [mem, checked_congr same old]
      · by_cases mine : m = l <;> simp [mem, row, mine, fresh]
    · rw [lates, late]
      by_cases mem : m ∈ ls
      · simp [mem, row, apart m mem]
      · by_cases mine : m = l <;> simp [mem, mine, fresh]

/-- What a check that the clock allows does to deadlines, and which lanes it expires. -/
theorem markStarved_of_shown (shown : t.Shown now) (g : LaneLedger) (l : Lane) :
    ((g.markStarved now t).1.deadlines.get l =
      if l ∈ g.pending \ LaneSet.retries then g.checked now t l else g.deadlines.get l) ∧
    (l ∈ (g.markStarved now t).1.expired ↔ l ∈ g.expired ∨
      l ∈ g.pending \ LaneSet.retries ∧ ∃ d, g.deadlines.get l = some d ∧ d ≤ now) := by
  have once : (g.pending \ LaneSet.retries).members.Nodup := (List.nodup_finRange 31).filter _
  obtain ⟨rows, lates⟩ := markStarvedLanes_of_shown shown _ once g
  have row := rows l
  have late := lates l
  simp only [LaneSet.mem_members] at row late
  exact ⟨row, late⟩

theorem not_mem_retries (mem : l ∈ impatient) : l ∉ LaneSet.retries := by
  have apart : ∀ l : Lane, l ∈ impatient → l ∉ LaneSet.retries := by decide
  exact apart l mem

/-- A check gives a deadline to each lane that is due, and leaves the others as they are. -/
theorem deadline_markStarved (shown : t.Shown now) :
    (g.markStarved now t).1.deadlines.get l = some d ↔
      (g.Due l ∧ ∃ ms, t.patience? l = some ms ∧ d = now + ms) ∨ g.deadlines.get l = some d := by
  rw [(markStarved_of_shown shown g l).1, checked]
  cases row : g.deadlines.get l with
  | some d' =>
    have later : ¬ g.Due l := fun due => nomatch row.symm.trans due.none
    simp [later]
  | none =>
    simp only [Option.none_or, reduceCtorEq, or_false]
    constructor
    · intro given
      split at given
      next mem =>
        split at given
        next ready =>
          obtain ⟨ms, waits, rfl⟩ := Option.map_eq_some_iff.mp given
          exact ⟨⟨(LaneSet.mem_diff.mp mem).1, row, ready⟩, ms, waits, rfl⟩
        next => cases given
      next => cases given
    · rintro ⟨due, ms, waits, rfl⟩
      have mem := LaneSet.mem_diff.mpr
        ⟨due.pending, not_mem_retries (Timeouts.impatient_of_patience waits)⟩
      rw [if_pos mem, if_pos due.ready, waits]
      rfl

/-- A check expires the lanes past their deadlines. -/
theorem mem_expired_markStarved (shown : t.Shown now) (fits : g.Coherent) :
    l ∈ (g.markStarved now t).1.expired ↔
      l ∈ g.expired ∨ ∃ d, g.deadlines.get l = some d ∧ d ≤ now := by
  rw [(markStarved_of_shown shown g l).2]
  refine or_congr_right ⟨And.right, fun ⟨d, row, late⟩ => ⟨?_, d, row, late⟩⟩
  obtain ⟨pends, impatient⟩ := fits.deadline l d row
  exact LaneSet.mem_diff.mpr ⟨pends, not_mem_retries impatient⟩

/-! ## One call -/

/-- A call that does not finish lanes drops none. -/
theorem not_drops (lasting : c.finishes = false) : ¬ g.Drops l [c] := by
  rintro (⟨pends, gone⟩ | none)
  · refine gone (mem_pending_call pends ?_)
    rintro remaining rfl
    cases lasting
  · exact none

theorem clock_markUpdated (g : LaneLedger) (lanes : LaneSet) :
    (g.markUpdated lanes).deadlines = g.deadlines ∧ (g.markUpdated lanes).expired = g.expired := by
  unfold markUpdated
  dsimp only
  split <;> exact ⟨rfl, rfl⟩

/-- A lane gets a deadline by a check, and keeps it unless it is suspended or dropped. -/
theorem deadline_call (timely : Timely t [c]) :
    (g.call c).deadlines.get l = some d ↔
      (∃ now, c = .starved now t ∧ g.Due l ∧ ∃ ms, t.patience? l = some ms ∧ d = now + ms) ∨
      (g.deadlines.get l = some d ∧ (∀ lanes, c = .suspended lanes → l ∉ lanes) ∧
        ¬ g.Drops l [c]) := by
  cases c with
  | updated lanes =>
    have same : (g.call (.updated lanes)).deadlines = g.deadlines := (clock_markUpdated g lanes).1
    have kept : ¬ g.Drops l [.updated lanes] := not_drops rfl
    simp [same, kept]
  | pinged lanes =>
    have same : (g.call (.pinged lanes)).deadlines = g.deadlines := rfl
    have kept : ¬ g.Drops l [.pinged lanes] := not_drops rfl
    simp [same, kept]
  | entangled lanes =>
    have same : (g.call (.entangled lanes)).deadlines = g.deadlines := rfl
    have kept : ¬ g.Drops l [.entangled lanes] := not_drops rfl
    simp [same, kept]
  | suspended lanes =>
    have row : (g.call (.suspended lanes)).deadlines.get l =
        if l ∈ lanes then none else g.deadlines.get l := get_fill ..
    have kept : ¬ g.Drops l [.suspended lanes] := not_drops rfl
    by_cases mem : l ∈ lanes <;> simp [row, mem, kept]
  | starved now t' =>
    obtain ⟨rfl, shown⟩ := timely now t' (.head _)
    have kept : ¬ g.Drops l [.starved now t'] := not_drops rfl
    have given : (g.call (.starved now t')).deadlines.get l = some d ↔ _ :=
      deadline_markStarved shown
    simpa [kept] using given
  | finished remaining =>
    have row : (g.call (.finished remaining)).deadlines.get l =
        if l ∈ g.finishedBy remaining then none else g.deadlines.get l := get_fill ..
    have done : g.Drops l [.finished remaining] ↔ l ∈ g.finishedBy remaining := by
      simp [Drops, finishedBy, call, markFinished]
    by_cases mem : l ∈ g.finishedBy remaining <;> simp [row, done, mem]

/-- A lane expires by a check after its deadline, and stays expired unless it is dropped. -/
theorem mem_expired_call (fits : g.Coherent) (timely : Timely t [c]) :
    l ∈ (g.call c).expired ↔ (l ∈ g.expired ∧ ¬ g.Drops l [c]) ∨
      ∃ now d, c = .starved now t ∧ g.deadlines.get l = some d ∧ d ≤ now := by
  cases c with
  | updated lanes =>
    have same : (g.call (.updated lanes)).expired = g.expired := (clock_markUpdated g lanes).2
    have kept : ¬ g.Drops l [.updated lanes] := not_drops rfl
    simp [same, kept]
  | pinged lanes =>
    have same : (g.call (.pinged lanes)).expired = g.expired := rfl
    have kept : ¬ g.Drops l [.pinged lanes] := not_drops rfl
    simp [same, kept]
  | entangled lanes =>
    have same : (g.call (.entangled lanes)).expired = g.expired := rfl
    have kept : ¬ g.Drops l [.entangled lanes] := not_drops rfl
    simp [same, kept]
  | suspended lanes =>
    have same : (g.call (.suspended lanes)).expired = g.expired := rfl
    have kept : ¬ g.Drops l [.suspended lanes] := not_drops rfl
    simp [same, kept]
  | starved now t' =>
    obtain ⟨rfl, shown⟩ := timely now t' (.head _)
    have kept : ¬ g.Drops l [.starved now t'] := not_drops rfl
    have late : l ∈ (g.call (.starved now t')).expired ↔ _ := mem_expired_markStarved shown fits
    simpa [kept] using late
  | finished remaining =>
    have left : l ∈ (g.call (.finished remaining)).expired ↔ l ∈ g.expired ∧ l ∈ remaining :=
      LaneSet.mem_inter
    have done : g.Drops l [.finished remaining] ↔ l ∈ g.pending ∧ l ∉ remaining := by
      simp [Drops, call, markFinished]
    have pends := fits.expired l
    simp only [left, done, reduceCtorEq, false_and, exists_false, or_false]
    tauto

/-! ## Many calls -/

/-- A check at `now` gives the lane the deadline, and the lane keeps it through the calls that
follow. -/
structure Waits (g : LaneLedger) (t : Timeouts) (l : Lane) (now d : Nat)
    (calls : List LedgerCall) : Prop where
  due : g.Due l
  deadline : ∃ ms, t.patience? l = some ms ∧ d = now + ms
  stays : ∀ lanes, LedgerCall.suspended lanes ∈ calls → l ∉ lanes
  kept : ¬ g.Drops l (.starved now t :: calls)

theorem waits_nil :
    g.Waits t l now d [] ↔ g.Due l ∧ ∃ ms, t.patience? l = some ms ∧ d = now + ms := by
  have kept : ¬ g.Drops l [.starved now t] := not_drops rfl
  exact ⟨fun wait => ⟨wait.due, wait.deadline⟩, fun h => ⟨h.1, h.2, by simp, kept⟩⟩

theorem waits_concat : g.Waits t l now d (calls ++ [c]) ↔
    g.Waits t l now d calls ∧ (∀ lanes, c = .suspended lanes → l ∉ lanes) ∧
      ¬ (g.after (.starved now t :: calls)).Drops l [c] := by
  have drops : g.Drops l (.starved now t :: (calls ++ [c])) ↔
      g.Drops l (.starved now t :: calls) ∨ (g.after (.starved now t :: calls)).Drops l [c] := by
    rw [← List.cons_append, drops_append]
  constructor
  · rintro ⟨due, deadline, stays, kept⟩
    rw [drops, not_or] at kept
    refine ⟨⟨due, deadline, fun lanes mem => ?_, kept.1⟩, fun lanes same => ?_, kept.2⟩
    · exact stays lanes (List.mem_append_left _ mem)
    · exact stays lanes (by simp [same])
  · rintro ⟨⟨due, deadline, stays, kept⟩, last, still⟩
    refine ⟨due, deadline, fun lanes mem => ?_, by rw [drops, not_or]; exact ⟨kept, still⟩⟩
    rcases List.mem_append.mp mem with mem | mem
    · exact stays lanes mem
    · exact last lanes (List.mem_singleton.mp mem).symm

theorem after_append (g : LaneLedger) (calls later : List LedgerCall) :
    g.after (calls ++ later) = (g.after calls).after later :=
  List.foldl_append ..

/-- A lane has the deadline that a check gave to it and that it has kept since. -/
theorem deadline_after (none : g.deadlines.get l = none) (timely : Timely t calls) :
    (g.after calls).deadlines.get l = some d ↔
      ∃ before now between, calls = before ++ .starved now t :: between ∧
        (g.after before).Waits t l now d between := by
  induction calls using List.reverseRecOn with
  | nil => simp [none]
  | append_singleton calls c ih =>
    obtain ⟨timely, last⟩ := timely_append.mp timely
    rw [after_append]
    show ((g.after calls).call c).deadlines.get l = _ ↔ _
    rw [deadline_call last, ih timely]
    constructor
    · rintro (⟨now, rfl, wait⟩ | ⟨⟨before, now, between, rfl, wait⟩, stays, kept⟩)
      · exact ⟨calls, now, [], rfl, waits_nil.mpr wait⟩
      · refine ⟨before, now, between ++ [c], by simp, waits_concat.mpr ⟨wait, stays, ?_⟩⟩
        rwa [← after_append]
    · rintro ⟨before, now, between, split, wait⟩
      rcases concat_eq_split.mp split with ⟨rfl, rfl, rfl⟩ | ⟨between, rfl, rfl⟩
      · exact .inl ⟨now, rfl, waits_nil.mp wait⟩
      · obtain ⟨wait, stays, kept⟩ := waits_concat.mp wait
        rw [← after_append] at kept
        exact .inr ⟨⟨before, now, between, rfl, wait⟩, stays, kept⟩

/-- A lane has expired if a check came after its deadline and the lane was not dropped since. -/
theorem expired_after (fits : g.Coherent) (fresh : l ∉ g.expired) (timely : Timely t calls) :
    l ∈ (g.after calls).expired ↔
      ∃ before now later d, calls = before ++ .starved now t :: later ∧
        (g.after before).deadlines.get l = some d ∧ d ≤ now ∧
          ¬ (g.after before).Drops l (.starved now t :: later) := by
  induction calls using List.reverseRecOn with
  | nil => simp [fresh]
  | append_singleton calls c ih =>
    obtain ⟨timely, last⟩ := timely_append.mp timely
    have fits : (g.after calls).Coherent := after_of_call fits fun _ fits c _ => fits.call c
    rw [after_append]
    show l ∈ ((g.after calls).call c).expired ↔ _
    rw [mem_expired_call fits last, ih timely]
    constructor
    · rintro (⟨⟨before, now, later, d, rfl, row, late, kept⟩, still⟩ | ⟨now, d, rfl, row, late⟩)
      · refine ⟨before, now, later ++ [c], d, by simp, row, late, ?_⟩
        rw [← List.cons_append, drops_append, ← after_append]
        exact not_or.mpr ⟨kept, still⟩
      · exact ⟨calls, now, [], d, rfl, row, late, not_drops rfl⟩
    · rintro ⟨before, now, later, d, split, row, late, kept⟩
      rcases concat_eq_split.mp split with ⟨rfl, rfl, rfl⟩ | ⟨later, rfl, rfl⟩
      · exact .inr ⟨now, d, rfl, row, late⟩
      · rw [← List.cons_append, drops_append, ← after_append, not_or] at kept
        exact .inl ⟨⟨before, now, later, d, rfl, row, late, kept.1⟩, kept.2⟩

/-- After every sequence of calls whose checks share their timeouts, at whatever times the clock
can show, a lane has expired if and only if there are two checks, at `t₁` and later in the sequence
at `t₂`, such that the first one found the lane due, the time that the lane may wait was over at the
second one, the lane was not suspended in between, and it was not dropped since the first one. Only
lanes on which work can wait too long ever expire. -/
theorem expired_after_iff (t : Timeouts) (l : Lane) (calls : List LedgerCall)
    (timely : Timely t calls) :
    (l ∈ (({} : LaneLedger).after calls).expired ↔
      ∃ before t₁ between t₂ later,
        calls = before ++ .starved t₁ t :: (between ++ .starved t₂ t :: later) ∧
        (({} : LaneLedger).after before).Due l ∧
        (∃ ms, t.patience? l = some ms ∧ t₁ + ms ≤ t₂) ∧
        (∀ lanes, LedgerCall.suspended lanes ∈ between → l ∉ lanes) ∧
        ¬ (({} : LaneLedger).after before).Drops l
          (.starved t₁ t :: (between ++ .starved t₂ t :: later))) ∧
    (l ∈ (({} : LaneLedger).after calls).expired → l ∈ impatient) := by
  have none : ({} : LaneLedger).deadlines.get l = none := Vector.getElem_replicate l.isLt
  have life : l ∈ (({} : LaneLedger).after calls).expired ↔ _ :=
    expired_after .start (LaneSet.not_mem_empty l) timely
  have row {before : List LedgerCall} {d : Nat} (timely : Timely t before) :
      (({} : LaneLedger).after before).deadlines.get l = some d ↔ _ := deadline_after none timely
  constructor
  · rw [life]
    constructor
    · rintro ⟨_, t₂, later, d, rfl, known, late, kept⟩
      obtain ⟨before, t₁, between, rfl, wait⟩ := (row (timely_append.mp timely).1).mp known
      obtain ⟨ms, waits, rfl⟩ := wait.deadline
      refine ⟨before, t₁, between, t₂, later, by simp, wait.due, ⟨ms, waits, late⟩, wait.stays, ?_⟩
      rw [← List.cons_append, drops_append, ← after_append]
      exact not_or.mpr ⟨wait.kept, kept⟩
    · rintro ⟨before, t₁, between, t₂, later, rfl, due, ⟨ms, waits, late⟩, stays, kept⟩
      rw [← List.cons_append, drops_append, not_or] at kept
      rw [← List.cons_append, ← List.append_assoc] at timely ⊢
      have given := (row (timely_append.mp timely).1).mpr
        ⟨before, t₁, between, rfl, due, ⟨ms, waits, rfl⟩, stays, kept.1⟩
      exact ⟨_, t₂, later, t₁ + ms, rfl, given, late, by rw [after_append]; exact kept.2⟩
  · intro expired
    obtain ⟨_, _, _, _, rfl, known, -⟩ := life.mp expired
    obtain ⟨_, _, _, _, wait⟩ := (row (timely_append.mp timely).1).mp known
    obtain ⟨ms, waits, -⟩ := wait.deadline
    exact Timeouts.impatient_of_patience waits

/-- The default lane waited for data that arrived. It is given a deadline at 10, and it has waited
too long at 5010. -/
theorem default_expires :
    let calls : List LedgerCall := [.updated (single 2), .suspended (single 2), .pinged (single 2),
      .starved 10 {}, .updated (single 0), .starved 5010 {}]
    Timely {} calls ∧ 2 ∈ (({} : LaneLedger).after calls).expired := by
  intro calls
  have timely : Timely {} calls := by
    intro now t check
    have check : (now = 10 ∧ t = {}) ∨ (now = 5010 ∧ t = {}) := by simpa [calls] using check
    rcases check with ⟨rfl, rfl⟩ | ⟨rfl, rfl⟩ <;> exact ⟨rfl, by decide, by decide⟩
  refine ⟨timely, (expired_after_iff {} 2 calls timely).1.mpr ?_⟩
  have due : (({} : LaneLedger).after (calls.take 3)).Due 2 := ⟨by decide, by decide, by decide⟩
  exact ⟨calls.take 3, 10, [.updated (single 0)], 5010, [], rfl, due, ⟨5000, rfl, by decide⟩,
    by simp, by decide⟩

end LaneLedger

end ConcurrentRender
