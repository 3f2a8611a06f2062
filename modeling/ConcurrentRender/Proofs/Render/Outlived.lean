import ConcurrentRender.Proofs.Lane.Entangled
import ConcurrentRender.Proofs.Render.Together
import ConcurrentRender.Proofs.Render.UnderWay

/-!
# Finished lanes in a render

A commit empties the rows of the lanes that it finishes, and leaves them in the rows of the lanes
that they were entangled with. A lane that outlives the commit brings them back into the next
render. So a finished lane is rendered if and only if one of the lanes to do next has outlived it.

* `Renderer.Outlives r root m l ops`: in the run, a commit finished lane `l`, which was rendered
  together with `m`, and that commit and every later one left `m` pending.

Results:
1. `LaneLedger.Tidy`, `Renderer.Steady`: only pending lanes have partners, and what is being
   rendered is pending or is a partner of what is.
2. `outlives_of_row`, `row_of_outlives`: the finished lanes in the row of a lane are those that it
   outlived.
3. `finished_in_render_iff`: hence which finished lanes a render gets, and when it gets none.
-/

namespace ConcurrentRender

open LaneSet (single)

namespace LaneLedger

variable {g : LaneLedger} {c : LedgerCall} {calls : List LedgerCall} {l m : Lane}

/-- Only pending lanes have partners. -/
structure Tidy (g : LaneLedger) : Prop where
  rooted : g.Rooted
  pending : ∀ l m, l ∈ g.partners.get m → m ∈ g.pending

/-- The calls entangle pending lanes only. -/
def Known (g : LaneLedger) : List LedgerCall → Prop
  | [] => True
  | c :: calls => (∀ lanes, c = .entangled lanes → lanes ⊆ g.pending) ∧ (g.call c).Known calls

theorem Known.cons_of_none (none : c.entangles? = none) (rest : (g.call c).Known calls) :
    g.Known (c :: calls) := by
  refine ⟨fun lanes same => ?_, rest⟩
  rw [same] at none
  cases none

theorem Tidy.call (tidy : g.Tidy) (known : ∀ lanes, c = .entangled lanes → lanes ⊆ g.pending) :
    (g.call c).Tidy := by
  cases c with
  | entangled lanes =>
    refine ⟨tidy.rooted.markEntangled lanes, fun l m partner => ?_⟩
    rcases mem_partners_markEntangled.mp partner with before | ⟨_, mine | ⟨_, k, shared, _⟩⟩
    · exact tidy.pending l m before
    · exact known lanes rfl m mine
    · exact tidy.pending k m shared
  | finished remaining =>
    have left : ∀ l m, l ∈ (g.markFinished remaining).partners.get m →
        m ∈ g.entangled ∧ m ∈ remaining := by
      intro l m partner
      obtain ⟨before, kept⟩ := mem_partners_markFinished.mp partner
      have pends := tidy.pending l m before
      exact ⟨tidy.rooted l m before, Decidable.not_not.mp fun gone => kept ⟨pends, gone⟩⟩
    exact ⟨fun l m partner => LaneSet.mem_inter.mpr (left l m partner),
      fun l m partner => (left l m partner).2⟩
  | updated | suspended | pinged | starved =>
    refine ⟨fun l m partner => ?_, fun l m partner => ?_⟩
    · rw [(partners_call rfl rfl).1] at partner
      rw [(partners_call rfl rfl).2]
      exact tidy.rooted l m partner
    · rw [(partners_call rfl rfl).1] at partner
      exact mem_pending_call (tidy.pending l m partner) nofun

theorem Tidy.after (tidy : g.Tidy) (known : g.Known calls) : (g.after calls).Tidy := by
  induction calls generalizing g with
  | nil => exact tidy
  | cons c calls ih => exact ih (tidy.call known.1) known.2

/-- Only lanes that are being entangled come into rows. -/
theorem row_of_call (row : l ∈ (g.call c).partners.get m)
    (apart : ∀ lanes, c = .entangled lanes → l ∉ lanes) : l ∈ g.partners.get m := by
  cases c with
  | entangled lanes =>
    exact (mem_partners_markEntangled.mp row).resolve_right fun new => apart lanes rfl new.1
  | finished remaining => exact (mem_partners_markFinished.mp row).1
  | updated | suspended | pinged | starved => rwa [(partners_call rfl rfl).1] at row

theorem row_of_after (row : l ∈ (g.after calls).partners.get m)
    (apart : ∀ lanes, .entangled lanes ∈ calls → l ∉ lanes) : l ∈ g.partners.get m := by
  induction calls generalizing g with
  | nil => exact row
  | cons c calls ih =>
    have first := ih row fun lanes mem => apart lanes (.tail _ mem)
    exact row_of_call first fun lanes same => apart lanes (same ▸ .head _)

/-- No lane waits for data. -/
structure Unblocked (g : LaneLedger) : Prop where
  suspended : g.suspended = ∅
  pinged : g.pinged = ∅

theorem Unblocked.call (free : g.Unblocked) (going : ∀ lanes, c ≠ .suspended lanes) :
    (g.call c).Unblocked := by
  cases c with
  | suspended lanes => exact absurd rfl (going lanes)
  | pinged lanes =>
    refine ⟨free.suspended, LaneSet.ext_mem fun l => ?_⟩
    show l ∈ g.pinged ∪ (g.suspended ∩ lanes) ↔ _
    rw [free.suspended, free.pinged]
    simp
  | starved now t =>
    have same := sameWork_markStarved g now t
    exact ⟨same.suspended.trans free.suspended, same.pinged.trans free.pinged⟩
  | updated lanes =>
    show (g.markUpdated lanes).Unblocked
    unfold markUpdated
    dsimp only
    split
    · exact ⟨free.suspended, free.pinged⟩
    · exact ⟨rfl, rfl⟩
  | entangled => exact ⟨free.suspended, free.pinged⟩
  | finished => exact ⟨rfl, rfl⟩

theorem Unblocked.after (free : g.Unblocked) (going : ∀ lanes, .suspended lanes ∉ calls) :
    (g.after calls).Unblocked :=
  after_of_call free fun _ free _ mem => free.call fun lanes same => going lanes (same ▸ mem)

theorem pending_of_choose (free : g.Unblocked) (mem : l ∈ g.choose) : l ∈ g.pending := by
  unfold choose at mem
  dsimp only at mem
  split at mem
  · exact absurd mem (LaneSet.not_mem_empty l)
  · split at mem
    · split at mem
      · exact (LaneSet.mem_inter.mp (LaneSet.mem_inter.mp (LaneSet.mem_of_mem_batch mem)).1).1
      · exact (LaneSet.mem_inter.mp (LaneSet.mem_diff.mp (LaneSet.mem_of_mem_batch mem)).1).1
    · split at mem
      · rw [free.pinged] at mem
        exact absurd (LaneSet.mem_of_mem_batch mem) (LaneSet.not_mem_empty l)
      · exact (LaneSet.mem_diff.mp (LaneSet.mem_of_mem_batch mem)).1

/-- The lanes to do next are those under way, or pending ones. -/
theorem cases_next (free : g.Unblocked) (rendering : LaneSet) :
    g.next rendering = rendering ∨ ∀ l ∈ g.next rendering, l ∈ g.pending := by
  unfold next
  dsimp only
  split
  · exact .inr LaneSet.forall_mem_empty
  · split
    · exact .inl rfl
    · exact .inr fun l mem => pending_of_choose free mem

end LaneLedger

namespace Renderer

variable {r : Renderer} {root : RootId} {op : Operation} {ops : List Operation} {l m : Lane}

/-! ## One call -/

theorem known_ledgerCalls (r : Renderer) (root : RootId) (op : Operation) :
    (r.tree.root root).lanes.Known (r.ledgerCalls root op) := by
  unfold ledgerCalls
  split
  · cases op with
    | dispatch fiber queue payload =>
      have bond := r.bond_subset root queue (r.laneFor fiber)
      simp only [tells]
      split
      · split
        · exact .cons_of_none rfl ⟨fun lanes same => LedgerCall.entangled.inj same ▸ bond, trivial⟩
        · exact .cons_of_none rfl trivial
      · trivial
    | forceUpdate | suspended | pinged | starved | commit =>
      simp only [tells]
      split
      · exact .cons_of_none rfl trivial
      · trivial
    | _ => trivial
  · trivial

/-- Only a transition is entangled, with those on its queue, and the root was told of it before. -/
theorem entangled_of_ledgerCalls {lanes : LaneSet}
    (mem : .entangled lanes ∈ r.ledgerCalls root op) :
    ∃ fiber queue payload, op = .dispatch fiber queue payload ∧
      (r.laneFor fiber).meets LaneSet.transitions ∧
      lanes = r.bond root queue (r.laneFor fiber) ∧
      r.ledgerCalls root op = [.updated (r.laneFor fiber), .entangled lanes] := by
  unfold ledgerCalls at mem ⊢
  split at mem
  next there =>
    cases op with
    | dispatch fiber queue payload =>
      simp only [tells] at mem ⊢
      split at mem
      next mine =>
        split at mem
        next transition =>
          obtain rfl : lanes = r.bond root queue (r.laneFor fiber) := by simpa using mem
          refine ⟨fiber, queue, payload, rfl, transition, rfl, ?_⟩
          rw [if_pos there, if_pos mine, if_pos transition]
        next => simp at mem
      next => simp at mem
    | _ => simp [tells] at mem
  next => exact absurd mem List.not_mem_nil

/-- What a call entangles on the root is pending after it. -/
theorem pending_of_entangled {lanes : LaneSet}
    (mem : .entangled lanes ∈ r.ledgerCalls root op) :
    lanes ⊆ ((r.next op).tree.root root).lanes.pending := by
  obtain ⟨fiber, queue, _, _, _, rfl, told⟩ := entangled_of_ledgerCalls mem
  rw [(ledgers_next r op).1 root, told]
  exact r.bond_subset root queue (r.laneFor fiber)

theorem suspended_of_ledgerCalls {lanes : LaneSet}
    (mem : .suspended lanes ∈ r.ledgerCalls root op) : op = .suspended root lanes := by
  unfold ledgerCalls at mem
  split at mem
  · cases op with
    | suspended about waiting =>
      simp only [tells] at mem
      split at mem
      next mine =>
        cases List.mem_singleton.mp mem
        rw [mine]
      next => exact absurd mem List.not_mem_nil
    | _ => simp [tells] at mem
  · exact absurd mem List.not_mem_nil

theorem pending_next (pends : l ∈ (r.tree.root root).lanes.pending)
    (left : op.commits root → l ∈ ((r.next op).tree.root root).lanes.pending) :
    l ∈ ((r.next op).tree.root root).lanes.pending := by
  rw [(ledgers_next r op).1]
  refine LaneLedger.after_of_call (P := (l ∈ ·.pending)) pends fun g pends c mem => ?_
  refine LaneLedger.mem_pending_call pends fun remaining finish => ?_
  obtain ⟨commits, same⟩ := finished_of_ledgerCalls (finish ▸ mem)
  exact same ▸ left commits

/-- The row of a lane that the call leaves pending only grows. -/
theorem row_next (row : l ∈ (r.tree.root root).lanes.partners.get m)
    (left : op.commits root → m ∈ ((r.next op).tree.root root).lanes.pending) :
    l ∈ ((r.next op).tree.root root).lanes.partners.get m := by
  rw [(ledgers_next r op).1]
  refine LaneLedger.after_of_call (P := (l ∈ ·.partners.get m)) row fun g row c mem => ?_
  refine LaneLedger.mem_partners_call row fun remaining finish => ?_
  obtain ⟨commits, same⟩ := finished_of_ledgerCalls (finish ▸ mem)
  exact same ▸ left commits

/-- A lane that is not pending after the call did not come into a row in the call. -/
theorem row_of_next (row : l ∈ ((r.next op).tree.root root).lanes.partners.get m)
    (done : l ∉ ((r.next op).tree.root root).lanes.pending) :
    l ∈ (r.tree.root root).lanes.partners.get m := by
  rw [(ledgers_next r op).1] at row
  exact LaneLedger.row_of_after row fun lanes mem hl => done (pending_of_entangled mem l hl)

/-! ## What is being rendered -/

/-- Rows belong to pending lanes, nothing waits for data, and what is being rendered on the root
is pending or is a partner of a pending lane that is being rendered. -/
structure Steady (r : Renderer) (root : RootId) : Prop where
  tidy : (r.tree.root root).lanes.Tidy
  unblocked : (r.tree.root root).lanes.Unblocked
  founded : ∀ l ∈ r.underWay root, l ∈ (r.tree.root root).lanes.pending ∨
    ∃ m ∈ r.underWay root, l ∈ (r.tree.root root).lanes.partners.get m

namespace Steady

/-- What is said of the lanes under way holds of the lanes to do next, too. -/
theorem founded_nextLanes (steady : r.Steady root) : ∀ l ∈ r.nextLanes root,
    l ∈ (r.tree.root root).lanes.pending ∨
      ∃ m ∈ r.nextLanes root, l ∈ (r.tree.root root).lanes.partners.get m := by
  rw [nextLanes_eq]
  rcases LaneLedger.cases_next steady.unblocked (r.underWay root) with kept | chosen
  · rw [kept]
    exact steady.founded
  · exact fun l mem => .inl (chosen l mem)

/-- Lanes that pend, and rows, are not taken away in a call that is no commit. -/
theorem founded_next (lasting : op.commits root = false) {lanes : LaneSet}
    (founded : ∀ l ∈ lanes, l ∈ (r.tree.root root).lanes.pending ∨
      ∃ m ∈ lanes, l ∈ (r.tree.root root).lanes.partners.get m) :
    ∀ l ∈ lanes, l ∈ ((r.next op).tree.root root).lanes.pending ∨
      ∃ m ∈ lanes, l ∈ ((r.next op).tree.root root).lanes.partners.get m := by
  intro l mem
  rcases founded l mem with pends | ⟨m, hm, row⟩
  · exact .inl (pending_next pends fun commits => nomatch lasting.symm.trans commits)
  · exact .inr ⟨m, hm, row_next row fun commits => nomatch lasting.symm.trans commits⟩

theorem founded_prepare (steady : r.Steady root) (about : RootId) :
    ∀ l ∈ (r.next (.prepare about)).underWay root,
      l ∈ (r.tree.root root).lanes.pending ∨
        ∃ m ∈ (r.next (.prepare about)).underWay root,
          l ∈ (r.tree.root root).lanes.partners.get m := by
  by_cases idle : (r.nextLanes about).isEmpty
  · have same : r.next (.prepare about) = r := (prepare_of_idle idle).1
    rw [same]
    exact steady.founded
  · rw [underWay_prepare idle]
    split
    next mine =>
      subst mine
      intro l mem
      -- Lanes to do next are founded, and each of the others is in the row of one of them.
      rcases LaneLedger.mem_withPartners.mp mem with next | ⟨m, next, _, row⟩
      · rcases steady.founded_nextLanes l next with pends | ⟨m, next, row⟩
        · exact .inl pends
        · exact .inr ⟨m, LaneLedger.mem_withPartners.mpr (.inl next), row⟩
      · exact .inr ⟨m, LaneLedger.mem_withPartners.mpr (.inl next), row⟩
    next => exact LaneSet.forall_mem_empty

theorem next (steady : r.Steady root) (going : ∀ lanes, op ≠ .suspended root lanes) :
    (r.next op).Steady root := by
  have ledger := (ledgers_next r op).1 root
  refine ⟨?_, ?_, ?_⟩
  · rw [ledger]
    exact steady.tidy.after (known_ledgerCalls r root op)
  · rw [ledger]
    exact steady.unblocked.after fun lanes mem => going lanes (suspended_of_ledgerCalls mem)
  · cases between : op.startsOrEnds with
    | false =>
      have lasting : op.commits root = false := by
        cases op with
        | commit => cases between
        | _ => rfl
      rw [(sameRender_next between r).underWay]
      exact founded_next lasting steady.founded
    | true =>
      cases op with
      | prepare about => exact founded_next rfl (steady.founded_prepare about)
      | commit about remaining =>
        rw [underWay_commit]
        exact LaneSet.forall_mem_empty
      | _ => cases between

theorem after (steady : r.Steady root) (going : ∀ lanes, .suspended root lanes ∉ ops) :
    (r.after ops).Steady root := by
  induction ops generalizing r with
  | nil => exact steady
  | cons op ops ih =>
    have first := steady.next fun lanes same => going lanes (same ▸ .head _)
    exact ih first fun lanes mem => going lanes (.tail _ mem)

/-- At the beginning there are no rows, and nothing is being rendered. -/
theorem start {settings : Settings} {registry : ContextRegistry}
    (begins : Renderer.start settings registry = .ok r) (root : RootId) :
    r.Steady root ∧ ∀ l m, ¬ l ∈ (r.tree.root root).lanes.partners.get m := by
  have ledger : (r.tree.root root).lanes = {} := by
    have tree : r.tree = {} := congrArg Staging.tree (staging_start begins)
    rw [tree]
    exact congrArg Root.lanes (Arena.get_of_not_has (decide_eq_false (Nat.not_lt_zero _)))
  have rows : ∀ l m, ¬ l ∈ (r.tree.root root).lanes.partners.get m := by
    intro l m row
    have bare : ({} : LaneLedger).partners.get m = ∅ := Vector.getElem_replicate ..
    rw [ledger, bare] at row
    exact absurd row (LaneSet.not_mem_empty l)
  refine ⟨⟨⟨fun l m row => absurd row (rows l m), fun l m row => absurd row (rows l m)⟩, ?_, ?_⟩,
    rows⟩
  · rw [ledger]
    exact ⟨rfl, rfl⟩
  · have resting : r.underWay root = ∅ := by
      rw [eq_of_start begins]
      exact if_neg nofun
    rw [resting]
    exact LaneSet.forall_mem_empty

end Steady

/-! ## Outliving -/

/-- Every commit of the root leaves the lanes pending. -/
def leaves (r : Renderer) (root : RootId) (lanes : LaneSet) : List Operation → Bool
  | [] => true
  | op :: ops =>
    (!op.commits root || lanes.within ((r.next op).tree.root root).lanes.pending) &&
      (r.next op).leaves root lanes ops

theorem leaves_cons {lanes : LaneSet} : r.leaves root lanes (op :: ops) ↔
    (op.commits root → lanes ⊆ ((r.next op).tree.root root).lanes.pending) ∧
      (r.next op).leaves root lanes ops := by
  rw [leaves, Bool.and_eq_true, Bool.or_eq_true, LaneSet.within_iff]
  cases op.commits root <;> simp

/-- A commit of the root finished lane `l`, which was to be rendered together with lane `m`. That
commit and every later one left `m` pending. -/
def Outlives (r : Renderer) (root : RootId) (m l : Lane) : List Operation → Prop
  | [] => False
  | op :: ops =>
    let g := (r.tree.root root).lanes
    (op.commits root ∧ l ∈ g.pending ∧ l ∈ g.withPartners (single m) ∧
      ¬ l ∈ ((r.next op).tree.root root).lanes.pending ∧ r.leaves root (single m) (op :: ops)) ∨
    (r.next op).Outlives root m l ops

/-- Rows persist as long as their lanes are left pending. -/
theorem row_after (row : l ∈ (r.tree.root root).lanes.partners.get m)
    (leaves : r.leaves root (single m) ops) :
    l ∈ ((r.after ops).tree.root root).lanes.partners.get m := by
  induction ops generalizing r with
  | nil => exact row
  | cons op ops ih =>
    obtain ⟨left, later⟩ := leaves_cons.mp leaves
    exact ih (row_next row fun commits => left commits m (LaneSet.mem_single.mpr rfl)) later

theorem row_of_outlives (outlives : r.Outlives root m l ops) :
    l ∈ ((r.after ops).tree.root root).lanes.partners.get m := by
  induction ops generalizing r with
  | nil => exact absurd outlives id
  | cons op ops ih =>
    rcases outlives with ⟨commits, _, together, done, leaves⟩ | later
    · have pends := (leaves_cons.mp leaves).1 commits m (LaneSet.mem_single.mpr rfl)
      refine row_after ?_ leaves
      rcases LaneLedger.mem_withPartners.mp together with same | ⟨k, hk, _, row⟩
      · exact absurd (LaneSet.mem_single.mp same ▸ pends) done
      · exact LaneSet.mem_single.mp hk ▸ row
    · exact ih later

/-- A finished lane is in a row because the lane of the row outlived it, or since the beginning. -/
theorem outlives_of_row (steady : r.Steady root) (going : ∀ lanes, .suspended root lanes ∉ ops)
    (row : l ∈ ((r.after ops).tree.root root).lanes.partners.get m)
    (done : ¬ l ∈ ((r.after ops).tree.root root).lanes.pending) :
    r.Outlives root m l ops ∨ l ∈ (r.tree.root root).lanes.partners.get m ∧
      ¬ l ∈ (r.tree.root root).lanes.pending ∧ r.leaves root (single m) ops := by
  induction ops generalizing r with
  | nil => exact .inr ⟨row, done, rfl⟩
  | cons op ops ih =>
    have steady' := steady.next fun lanes same => going lanes (same ▸ .head _)
    rcases ih steady' (fun lanes mem => going lanes (.tail _ mem)) row done with
      later | ⟨row', done', leaves⟩
    · exact .inl (.inr later)
    · have before := row_of_next row' done'
      have pends : m ∈ ((r.next op).tree.root root).lanes.pending := steady'.tidy.pending l m row'
      have leaves' : r.leaves root (single m) (op :: ops) :=
        leaves_cons.mpr ⟨fun _ k hk => LaneSet.mem_single.mp hk ▸ pends, leaves⟩
      by_cases now : l ∈ (r.tree.root root).lanes.pending
      · -- Only a commit takes the lane away.
        have commits : op.commits root := by
          cases lasting : op.commits root with
          | true => rfl
          | false =>
            refine absurd (pending_next now fun commits => ?_) done'
            cases lasting.symm.trans commits
        have together := LaneLedger.mem_withPartners.mpr
          (.inr ⟨m, LaneSet.mem_single.mpr rfl, steady.tidy.rooted l m before, before⟩)
        exact .inl (.inl ⟨commits, now, together, done', leaves'⟩)
      · exact .inr ⟨before, now, leaves'⟩

instance decidableOutlives (root : RootId) (m l : Lane) :
    (r : Renderer) → (ops : List Operation) → Decidable (r.Outlives root m l ops)
  | _, [] => inferInstanceAs (Decidable False)
  | r, op :: ops =>
    have := decidableOutlives root m l (r.next op) ops
    inferInstanceAs (Decidable (_ ∨ _))

end Renderer

open Renderer in
/-- A lane that is not pending is rendered if and only if it was finished by a commit that a lane
to do next, which was entangled with it, has outlived. So what is started to be rendered is all
pending if and only if the lanes to do next outlived no lanes, or only such as came back. -/
theorem finished_in_render_iff {settings : Settings} {registry : ContextRegistry} {r₀ : Renderer}
    (begins : start settings registry = .ok r₀) {ops : List Operation} {root : RootId}
    (going : ∀ lanes, .suspended root lanes ∉ ops) {lanes : LaneSet}
    (answer : (prepare root (r₀.after ops)).result = .ok lanes) :
    let r := r₀.after ops
    let pending := ((r.next (.prepare root)).tree.root root).lanes.pending
    (∀ l, ¬ l ∈ pending → (l ∈ lanes ↔ ∃ m ∈ r.nextLanes root, r₀.Outlives root m l ops)) ∧
    (lanes ⊆ pending ↔ ∀ m ∈ r.nextLanes root, ∀ l, r₀.Outlives root m l ops → l ∈ pending) := by
  intro r pending
  obtain ⟨first, bare⟩ := Steady.start begins root
  have steady : r.Steady root := first.after going
  have same : pending = (r.tree.root root).lanes.pending := by
    have told := (ledgers_next r (.prepare root)).1 root
    simp only [ledgerCalls, tells, ite_self] at told
    exact congrArg LaneLedger.pending told
  have outlived : ∀ l m, ¬ l ∈ pending →
      (l ∈ (r.tree.root root).lanes.partners.get m ↔ r₀.Outlives root m l ops) := by
    intro l m done
    refine ⟨fun row => ?_, row_of_outlives⟩
    exact (outlives_of_row first going row (same ▸ done)).resolve_right fun old => bare l m old.1
  have rendered : ∀ l, ¬ l ∈ pending →
      (l ∈ lanes ↔ ∃ m ∈ r.nextLanes root, r₀.Outlives root m l ops) := by
    intro l done
    rw [result_prepare answer, LaneLedger.mem_withPartners]
    constructor
    · rintro (next | ⟨m, next, _, row⟩)
      · rcases steady.founded_nextLanes l next with pends | ⟨m, next, row⟩
        · exact absurd (same ▸ pends) done
        · exact ⟨m, next, (outlived l m done).mp row⟩
      · exact ⟨m, next, (outlived l m done).mp row⟩
    · rintro ⟨m, next, outlives⟩
      have row := (outlived l m done).mpr outlives
      exact .inr ⟨m, next, steady.tidy.rooted l m row, row⟩
  refine ⟨rendered, fun all m next l outlives => ?_, fun back l mem => ?_⟩
  · by_cases done : l ∈ pending
    · exact done
    · exact all l ((rendered l done).mpr ⟨m, next, outlives⟩)
  · by_cases done : l ∈ pending
    · exact done
    · obtain ⟨m, next, outlives⟩ := (rendered l done).mp mem
      exact back m next l outlives

/-- Two transitions are made for one queue and rendered, and the commit leaves the second one
pending. The next render gets the first one, too, although it is finished. -/
theorem finished_in_render_of_two_transitions :
    let transition : List Operation :=
      [.enter .transition, .dispatch ⟨1⟩ ⟨0⟩ .unit, .leave .transition]
    let work := [.edit (.createRoot true), .edit (.createChild ⟨0⟩ .functionComponent),
      .edit (.createQueue ⟨1⟩)] ++ transition ++ transition ++ [.prepare ⟨0⟩]
    let pending := fun r : Renderer => (r.tree.root ⟨0⟩).lanes.pending
    let worked := (default : Renderer).after work
    let r := worked.next (.commit ⟨0⟩ (single 4))
    single 4 ⊆ pending worked ∧ (Renderer.prepare ⟨0⟩ r).result = .ok (single 3 ∪ single 4) ∧
      ¬ single 3 ∪ single 4 ⊆ pending (r.next (.prepare ⟨0⟩)) := by
  intro transition work pending worked r
  have begins : Renderer.start {} .start = .ok default := by rfl
  have answer : (Renderer.prepare ⟨0⟩ r).result = .ok (single 3 ∪ single 4) := by decide +kernel
  refine ⟨LaneSet.within_iff.mp (by decide +kernel), answer, fun all => ?_⟩
  let ops := work ++ [.commit ⟨0⟩ (single 4)]
  have going : ∀ lanes, .suspended ⟨0⟩ lanes ∉ ops := by simp [ops, work, transition]
  have run : (default : Renderer).after ops = r := List.foldl_append
  have outlived := (finished_in_render_iff begins going (run ▸ answer)).2.mp (run ▸ all)
    4 (by decide +kernel) 3 (by decide +kernel)
  exact absurd outlived (by decide +kernel)

end ConcurrentRender
