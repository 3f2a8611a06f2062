import ConcurrentRender.Proofs.Lane.Calls

/-!
# Chains of entangled lanes

Entangling a set of lanes looks at each row once. A row that shares a lane with the set takes
the set in, but the rows of the set do not take in what was entangled with it before. So what
is rendered together with a lane depends on the order in which sets arrive: from a lane one
gets to the lanes of a chain of sets that were entangled one after the other, and not to
those of a chain in another order.

* `LaneSet.Connects chain i j`: the sets of the chain lead from lane `i` to lane `j`.

Results:
1. `mem_withPartners_after`: from a lane one gets along the chains in order of arrival.
2. `chained_iff_idempotent`: being rendered together is being connected by any chain, and so an
   equivalence, if and only if it is enough to look for partners once.
-/

namespace ConcurrentRender

/-- The first set has `i`, each one shares a lane with the next one, and the last one has `j`.
No sets lead from a lane to itself. -/
def LaneSet.Connects : List LaneSet → Lane → Lane → Prop
  | [], i, j => i = j
  | s :: rest, i, j => i ∈ s ∧ ∃ k, k ∈ s ∧ Connects rest k j

open LaneSet (single Connects)

theorem LaneSet.connects_append {chain rest : List LaneSet} {i j : Lane} :
    Connects (chain ++ rest) i j ↔ ∃ k, Connects chain i k ∧ Connects rest k j := by
  induction chain generalizing i with
  | nil => exact ⟨fun h => ⟨i, rfl, h⟩, fun ⟨_, same, h⟩ => same ▸ h⟩
  | cons s chain ih =>
    simp only [List.cons_append, Connects, ih]
    constructor
    · rintro ⟨hi, k, hk, m, first, second⟩
      exact ⟨m, ⟨hi, k, hk, first⟩, second⟩
    · rintro ⟨m, ⟨hi, k, hk, first⟩, second⟩
      exact ⟨hi, k, hk, m, first, second⟩

/-- A chain that leaves a lane for another one ends in a set with that one. -/
theorem LaneSet.Connects.mem_of_subset {chain sets : List LaneSet} {i j : Lane}
    (sub : chain ⊆ sets) (connects : Connects chain i j) : i = j ∨ ∃ s ∈ sets, j ∈ s := by
  induction chain generalizing i with
  | nil => exact .inl connects
  | cons s chain ih =>
    obtain ⟨_, k, hk, rest⟩ := connects
    obtain ⟨first, later⟩ := List.cons_subset.mp sub
    rcases ih later rest with rfl | last
    · exact .inr ⟨s, first, hk⟩
    · exact .inr last

namespace LaneLedger

variable {g : LaneLedger} {calls : List LedgerCall} {sets : List LaneSet} {i j k l : Lane}

/-- Only entangled lanes have partners. -/
def Rooted (g : LaneLedger) : Prop := ∀ l m, l ∈ g.partners.get m → m ∈ g.entangled

theorem mem_withPartners_single (rooted : g.Rooted) :
    l ∈ g.withPartners (single i) ↔ l = i ∨ l ∈ g.partners.get i := by
  rw [mem_withPartners]
  constructor
  · rintro (same | ⟨m, hm, _, partner⟩)
    · exact .inl (LaneSet.mem_single.mp same)
    · exact .inr (LaneSet.mem_single.mp hm ▸ partner)
  · rintro (same | partner)
    · exact .inl (LaneSet.mem_single.mpr same)
    · exact .inr ⟨i, LaneSet.mem_single.mpr rfl, rooted l i partner, partner⟩

/-- A set is rendered together with all that one of its lanes is rendered together with. -/
theorem mem_withPartners_iff {s : LaneSet} :
    l ∈ g.withPartners s ↔ ∃ i, i ∈ s ∧ l ∈ g.withPartners (single i) := by
  simp only [mem_withPartners, LaneSet.mem_single]
  constructor
  · rintro (mem | ⟨m, hm, partner⟩)
    · exact ⟨l, mem, .inl rfl⟩
    · exact ⟨m, hm, .inr ⟨m, rfl, partner⟩⟩
  · rintro ⟨i, hi, rfl | ⟨m, rfl, partner⟩⟩
    · exact .inl hi
    · exact .inr ⟨m, hi, partner⟩

/-! ## One call -/

theorem Rooted.markEntangled (rooted : g.Rooted) (lanes : LaneSet) :
    (g.markEntangled lanes).Rooted := by
  intro l m partner
  show m ∈ g.entangled ∪ lanes
  rw [LaneSet.mem_union]
  rcases mem_partners_markEntangled.mp partner with before | ⟨_, mine | ⟨entangled, _⟩⟩
  · exact .inl (rooted l m before)
  · exact .inr mine
  · exact .inl entangled

/-- Entangled lanes join all that shares a lane with them. -/
theorem mem_withPartners_markEntangled (rooted : g.Rooted) (lanes : LaneSet) :
    l ∈ (g.markEntangled lanes).withPartners (single i) ↔
      ∃ k, k ∈ g.withPartners (single i) ∧ (k = l ∨ k ∈ lanes ∧ l ∈ lanes) := by
  simp only [mem_withPartners_single rooted, mem_withPartners_single (rooted.markEntangled lanes),
    mem_partners_markEntangled]
  constructor
  · rintro (same | partner | ⟨mine, shared⟩)
    · exact ⟨i, .inl rfl, .inl same.symm⟩
    · exact ⟨l, .inr partner, .inl rfl⟩
    · rcases shared with hi | ⟨_, k, partner, hk⟩
      · exact ⟨i, .inl rfl, .inr ⟨hi, mine⟩⟩
      · exact ⟨k, .inr partner, .inr ⟨hk, mine⟩⟩
  · rintro ⟨k, same | partner, rfl | ⟨hk, mine⟩⟩
    · exact .inl same
    · exact .inr (.inr ⟨mine, .inl (same ▸ hk)⟩)
    · exact .inr (.inl partner)
    · exact .inr (.inr ⟨mine, .inr ⟨rooted k i partner, k, partner, hk⟩⟩)

/-! ## Several calls -/

/-- From a lane one gets to the lanes of the chains of sets in the order in which they were
entangled. -/
theorem mem_withPartners_after (rooted : g.Rooted) (lasting : ∀ c ∈ calls, c.finishes = false) :
    l ∈ (g.after calls).withPartners (single i) ↔
      ∃ k, k ∈ g.withPartners (single i) ∧
        ∃ chain, chain.Sublist (calls.filterMap LedgerCall.entangles?) ∧ Connects chain k l := by
  induction calls generalizing g with
  | nil =>
    constructor
    · exact fun mem => ⟨l, mem, [], .refl _, rfl⟩
    · rintro ⟨k, mem, chain, sub, connects⟩
      cases sub
      exact connects ▸ mem
  | cons c calls ih =>
    have later := fun c hc => lasting c (.tail _ hc)
    rw [after_cons]
    cases entangles : c.entangles? with
    | none =>
      have same := partners_call (g := g) entangles (lasting c (.head _))
      have rooted' : (g.call c).Rooted := fun l m => by simpa only [same.1, same.2] using rooted l m
      rw [ih rooted' later, List.filterMap_cons_none entangles]
      simp only [mem_withPartners, same.1, same.2]
    | some lanes =>
      have called : g.call c = g.markEntangled lanes := by
        cases c <;> cases entangles
        rfl
      rw [called, ih (rooted.markEntangled lanes) later, List.filterMap_cons_some entangles]
      simp only [mem_withPartners_markEntangled rooted]
      constructor
      · rintro ⟨m, ⟨k, hk, same | ⟨first, next⟩⟩, chain, sub, connects⟩
        · exact ⟨k, hk, chain, sub.cons _, same ▸ connects⟩
        · exact ⟨k, hk, lanes :: chain, sub.cons_cons _, first, m, next, connects⟩
      · rintro ⟨k, hk, chain, sub, connects⟩
        cases sub with
        | cons _ sub => exact ⟨k, ⟨k, hk, .inl rfl⟩, chain, sub, connects⟩
        | cons_cons _ sub =>
          obtain ⟨first, m, next, connects⟩ := connects
          exact ⟨m, ⟨k, hk, .inr ⟨first, next⟩⟩, _, sub, connects⟩

/-- Where nothing is entangled, the order of arrival decides what is rendered together. -/
theorem mem_withPartners_of_fresh (fresh : ∀ l, g.partners.get l = ∅)
    (lasting : ∀ c ∈ calls, c.finishes = false) :
    j ∈ (g.after calls).withPartners (single i) ↔
      ∃ chain, chain.Sublist (calls.filterMap LedgerCall.entangles?) ∧ Connects chain i j := by
  have rooted : g.Rooted := fun l m partner => absurd (fresh m ▸ partner) (LaneSet.not_mem_empty l)
  simp [mem_withPartners_after rooted lasting, mem_withPartners_single rooted, fresh]

/-- Lanes that are rendered together by any chain are found, if looking for partners a second time
finds no more. -/
theorem mem_withPartners_of_connects {chain : List LaneSet}
    (step : ∀ s ∈ sets, ∀ i k, i ∈ s → k ∈ s → k ∈ g.withPartners (single i))
    (closed : ∀ s ∈ sets, ∀ i, i ∈ s →
      g.withPartners (g.withPartners (single i)) = g.withPartners (single i))
    (sub : chain ⊆ sets) (connects : Connects chain i j) : j ∈ g.withPartners (single i) := by
  induction chain generalizing i with
  | nil => exact mem_withPartners.mpr (.inl (LaneSet.mem_single.mpr connects.symm))
  | cons s chain ih =>
    -- The lane in which the set meets the next one is found, and from there the rest.
    obtain ⟨first, k, hk, rest⟩ := connects
    obtain ⟨mem, sub⟩ := List.cons_subset.mp sub
    rw [← closed s mem i first]
    exact mem_withPartners_iff.mpr ⟨k, step s mem i k first hk, ih sub rest⟩

/-- Lanes are rendered together with a lane if a chain of entangled sets, in the order of their
arrival, leads to them. Chains in other orders count too, and so being rendered together is the
equivalence that the entangled sets generate, if and only if looking for partners a second time
finds no more. -/
theorem chained_iff_idempotent (fresh : ∀ l, g.partners.get l = ∅)
    (lasting : ∀ c ∈ calls, c.finishes = false) :
    let g' := g.after calls
    let sets := calls.filterMap LedgerCall.entangles?
    let marked := fun l => ∃ s ∈ sets, l ∈ s
    (∀ i j, j ∈ g'.withPartners (single i) ↔
      ∃ chain, chain.Sublist sets ∧ Connects chain i j) ∧
    ((∀ i j, marked i → marked j →
        (j ∈ g'.withPartners (single i) ↔ ∃ chain, chain ⊆ sets ∧ Connects chain i j)) ↔
      ∀ s : LaneSet, (∀ l, l ∈ s → marked l) →
        g'.withPartners (g'.withPartners s) = g'.withPartners s) := by
  intro g' sets marked
  have inOrder : ∀ i j, j ∈ g'.withPartners (single i) ↔
      ∃ chain, chain.Sublist sets ∧ Connects chain i j :=
    fun i j => mem_withPartners_of_fresh fresh lasting
  have marked_of_mem : ∀ i j, marked i → j ∈ g'.withPartners (single i) → marked j := by
    intro i j hi mem
    obtain ⟨chain, sub, connects⟩ := (inOrder i j).mp mem
    rcases connects.mem_of_subset sub.subset with rfl | last
    · exact hi
    · exact last
  refine ⟨inOrder, fun chained s all => LaneSet.ext_mem fun l => ?_, fun closed i j hi hj => ?_⟩
  · constructor
    · intro mem
      obtain ⟨m, hm, second⟩ := mem_withPartners_iff.mp mem
      obtain ⟨i, hi, first⟩ := mem_withPartners_iff.mp hm
      have hm := marked_of_mem i m (all i hi) first
      have hl := marked_of_mem m l hm second
      obtain ⟨chain, sub, connects⟩ := (chained i m (all i hi) hm).mp first
      obtain ⟨rest, sub', connects'⟩ := (chained m l hm hl).mp second
      refine mem_withPartners_iff.mpr ⟨i, hi, (chained i l (all i hi) hl).mpr ⟨chain ++ rest, ?_, ?_⟩⟩
      · exact List.append_subset.mpr ⟨sub, sub'⟩
      · exact LaneSet.connects_append.mpr ⟨m, connects, connects'⟩
    · exact fun mem => mem_withPartners.mpr (.inl mem)
  · constructor
    · intro mem
      obtain ⟨chain, sub, connects⟩ := (inOrder i j).mp mem
      exact ⟨chain, sub.subset, connects⟩
    · rintro ⟨chain, sub, connects⟩
      refine mem_withPartners_of_connects (fun s mem i k first next => ?_)
        (fun s mem i first => ?_) sub connects
      · exact (inOrder i k).mpr ⟨[s], List.singleton_sublist.mpr mem, first, k, next, rfl⟩
      · exact closed (single i) fun l hl => ⟨s, mem, LaneSet.mem_single.mp hl ▸ first⟩

/-- Two lanes are entangled, and then one of them with a third one. From the third one the other
one is not found, although the first one is found from there. -/
theorem not_chained_of_overlap :
    let calls := [LedgerCall.entangled (single 3 ∪ single 4), .entangled (single 4 ∪ single 5)]
    let g := ({} : LaneLedger).after calls
    let sets := calls.filterMap LedgerCall.entangles?
    let marked := fun l => ∃ s ∈ sets, l ∈ s
    ¬ ∀ i j, marked i → marked j →
      (j ∈ g.withPartners (single i) ↔ ∃ chain, chain ⊆ sets ∧ Connects chain i j) := by
  intro calls g sets marked chained
  have lasting : ∀ c ∈ calls, c.finishes = false := by simp [calls, LedgerCall.finishes]
  have closed := (chained_iff_idempotent (g := {}) (by decide +kernel) lasting).2.mp chained
    (single 5) (by decide +kernel)
  exact absurd closed (by decide +kernel)

end LaneLedger

end ConcurrentRender
