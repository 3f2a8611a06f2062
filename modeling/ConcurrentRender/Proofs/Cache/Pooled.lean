import ConcurrentRender.Cache.Pool
import ConcurrentRender.Proofs.Cache.Aborting
import ConcurrentRender.Proofs.StepLaws

/-!
# How long a pooled cache is kept

A root keeps its pooled cache for the lanes of the request that made it. Every commit takes away
the lanes that are done, and the cache is released with the last of them. A later request is
handed the same cache, but its lanes are not noted. So they do not keep the cache, unless they
are lanes for which it is kept anyway.

* `PoolCall.Spares calls lanes`: one of the lanes is left by every release.
* `Pool.Keeps p c`: the cache is pooled, and the pool has the only reference to it.
* `Pool.Holds p c lanes`: it is kept for these lanes.
* `Pool.Lacks p c`: the pool has given it back.
* `Pool.Bare p`: lanes are noted only while there is a pooled cache.

Results:
1. `Holds.release`: a release leaves the lanes that are not done, or gives the cache back.
2. `Lacks.call`: a cache that was given back is never pooled again.
3. `Holds.after`: how long a cache is kept for the lanes that are noted.
4. `outlives_iff`: hence which requests a cache outlives.
-/

namespace ConcurrentRender

/-- What is asked of the pool of a root. -/
inductive PoolCall where
  | request (lanes : LaneSet)
  | release (remaining : LaneSet) (priority : TaskPriority)

namespace PoolCall

/-- The lanes that each of the releases leaves. -/
def released : List PoolCall → List LaneSet
  | [] => []
  | request _ :: calls => released calls
  | release remaining _ :: calls => remaining :: released calls

/-- Some of the lanes is left by all releases. -/
def Spares (calls : List PoolCall) (lanes : LaneSet) : Prop :=
  ∃ l ∈ lanes, ∀ remaining ∈ released calls, l ∈ remaining

/-- What all releases leave of some lanes. -/
def left (calls : List PoolCall) (lanes : LaneSet) : LaneSet := (released calls).foldl (· ∩ ·) lanes

theorem mem_left {lanes : LaneSet} {calls : List PoolCall} {l : Lane} :
    l ∈ left calls lanes ↔ l ∈ lanes ∧ ∀ remaining ∈ released calls, l ∈ remaining := by
  unfold left
  induction released calls generalizing lanes with
  | nil => simp
  | cons remaining rest ih => simp [ih, and_assoc]

theorem spares_release {lanes remaining : LaneSet} {priority : TaskPriority}
    {calls : List PoolCall} :
    Spares (release remaining priority :: calls) lanes ↔ Spares calls (lanes ∩ remaining) := by
  simp [Spares, released, and_assoc]

theorem spares_of_released_nil {lanes : LaneSet} {calls : List PoolCall}
    (none : released calls = []) (some : ¬ lanes.isEmpty) : Spares calls lanes := by
  rw [LaneSet.isEmpty_iff, not_forall_not] at some
  obtain ⟨l, mem⟩ := some
  exact ⟨l, mem, none ▸ nofun⟩

end PoolCall

namespace Pool

open PoolCall (released left Spares)

variable {p : Pool} {c : CacheId} {lanes remaining : LaneSet} {priority : TaskPriority}
  {calls : List PoolCall}

def call (p : Pool) : PoolCall → Pool
  | .request lanes => (request lanes p).state
  | .release remaining priority => (release remaining priority p).state

def after (p : Pool) (calls : List PoolCall) : Pool := calls.foldl call p

/-! ## Single calls -/

theorem request_of_some (pooled : p.root.pooledCache = some c) :
    request lanes p = { state := p, result := .ok c } := by
  unfold request
  rw [StepM.run_look_bind, pooled]
  rfl

theorem request_of_none (vacant : p.root.pooledCache = none) :
    (request lanes p).result = .ok p.host.caches.next ∧
    (request lanes p).state =
      { root :=
          { p.root with
            pooledCache := some p.host.caches.next
            pooledCacheLanes := p.root.pooledCacheLanes ∪ lanes }
        host := (p.host.call .create).call (.retain p.host.caches.next) } := by
  unfold request
  rw [StepM.run_look_bind, vacant]
  exact ⟨rfl, rfl⟩

theorem release_of_kept (kept : ¬ (p.root.pooledCacheLanes ∩ remaining).isEmpty) :
    (release remaining priority p).state =
      { p with
        root := { p.root with pooledCacheLanes := p.root.pooledCacheLanes ∩ remaining } } := by
  unfold release
  rw [StepM.run_change_bind, StepM.run_look_bind, Bool.eq_false_iff.mpr kept]
  rfl

theorem release_of_none (vacant : p.root.pooledCache = none) :
    (release remaining priority p).state =
      { p with
        root := { p.root with pooledCacheLanes := p.root.pooledCacheLanes ∩ remaining } } := by
  unfold release
  rw [StepM.run_change_bind, StepM.run_look_bind]
  dsimp only
  rw [vacant]
  cases (p.root.pooledCacheLanes ∩ remaining).isEmpty
  all_goals rfl

theorem release_of_done (done : (p.root.pooledCacheLanes ∩ remaining).isEmpty)
    (pooled : p.root.pooledCache = some c) :
    (release remaining priority p).state =
      { root :=
          { p.root with
            pooledCache := none
            pooledCacheLanes := p.root.pooledCacheLanes ∩ remaining }
        host := p.host.call (.release c priority) } := by
  unfold release
  rw [StepM.run_change_bind, StepM.run_look_bind]
  dsimp only
  rw [done, pooled]
  rfl

/-! ## A cache in the pool -/

def Keeps (p : Pool) (c : CacheId) : Prop :=
  p.root.pooledCache = some c ∧ (p.host.cache c).refs = 1

/-- The cache is kept until none of these lanes is left to do. -/
structure Holds (p : Pool) (c : CacheId) (lanes : LaneSet) : Prop where
  keeps : p.Keeps c
  noted : p.root.pooledCacheLanes = lanes
  there : p.host.caches.has c

/-- The pool has given the cache back. -/
structure Lacks (p : Pool) (c : CacheId) : Prop where
  gone : p.root.pooledCache ≠ some c
  freed : (p.host.cache c).refs = 0
  there : p.host.caches.has c

/-- Lanes are noted only while there is a pooled cache. -/
def Bare (p : Pool) : Prop := p.root.pooledCache = none → p.root.pooledCacheLanes = ∅

theorem Lacks.not_keeps (lacks : p.Lacks c) : ¬ p.Keeps c := fun keeps => lacks.gone keeps.1

theorem Bare.call (bare : p.Bare) (x : PoolCall) : (p.call x).Bare := by
  intro vacant
  cases x with
  | request lanes =>
    cases before : p.root.pooledCache with
    | none =>
      simp only [Pool.call, (request_of_none before).2] at vacant
      cases vacant
    | some d =>
      simp only [Pool.call, request_of_some before, before] at vacant
      cases vacant
  | release remaining priority =>
    cases before : p.root.pooledCache with
    | none =>
      simp only [Pool.call, release_of_none before, bare before]
      exact LaneSet.ext_mem fun l => by simp
    | some d =>
      cases done : (p.root.pooledCacheLanes ∩ remaining).isEmpty with
      | true =>
        simp only [Pool.call, release_of_done done before]
        exact beq_iff_eq.mp done
      | false =>
        simp only [Pool.call, release_of_kept (Bool.eq_false_iff.mp done), before] at vacant
        cases vacant

theorem Bare.after (bare : p.Bare) (calls : List PoolCall) : (p.after calls).Bare := by
  induction calls generalizing p with
  | nil => exact bare
  | cons x calls ih => exact ih (bare.call x)

/-- The request that finds no pooled cache makes one and holds it for its lanes. -/
theorem holds_request (bare : p.Bare) (vacant : p.root.pooledCache = none) (lanes : LaneSet) :
    (p.call (.request lanes)).Holds p.host.caches.next lanes := by
  have made : p.call (.request lanes) = _ := (request_of_none vacant).2
  have new : (p.host.call .create).caches.has p.host.caches.next := Arena.has_add.mpr (.inl rfl)
  have unused : ((p.host.call .create).cache p.host.caches.next).refs = 0 :=
    congrArg Cache.refs (Arena.get_add_next ..)
  rw [made]
  refine ⟨⟨rfl, ?_⟩, ?_, CacheHost.has_call new _⟩
  · exact (CacheHost.refs_call new _).trans (unused ▸ CacheCall.count_retain_zero _)
  · show p.root.pooledCacheLanes ∪ lanes = lanes
    rw [bare vacant]
    exact LaneSet.ext_mem fun l => by simp

/-- The cache is held for the lanes that a release leaves, or is given back. -/
theorem Holds.release (holds : p.Holds c lanes) (remaining : LaneSet) (priority : TaskPriority) :
    if (lanes ∩ remaining).isEmpty then (p.call (.release remaining priority)).Lacks c
    else (p.call (.release remaining priority)).Holds c (lanes ∩ remaining) := by
  obtain ⟨⟨pooled, refs⟩, rfl, there⟩ := holds
  split
  next done =>
    rw [call, release_of_done done pooled]
    have freed := (CacheHost.refs_call there (.release c priority)).trans
      (refs ▸ CacheCall.count_release_one c priority)
    exact ⟨nofun, freed, CacheHost.has_call there _⟩
  next kept =>
    rw [call, release_of_kept kept]
    exact ⟨⟨pooled, refs⟩, rfl, there⟩

/-- A cache that was given back is never pooled again. -/
theorem Lacks.call (lacks : p.Lacks c) (x : PoolCall) : (p.call x).Lacks c := by
  obtain ⟨gone, freed, there⟩ := lacks
  cases x with
  | request lanes =>
    cases before : p.root.pooledCache with
    | some d =>
      simp only [Pool.call, request_of_some before]
      exact ⟨gone, freed, there⟩
    | none =>
      have new : p.host.caches.next ≠ c := fun same =>
        Bool.false_ne_true ((Arena.not_has_next _).symm.trans (same ▸ there))
      have there' := CacheHost.has_call there .create
      have freed' := CacheHost.unused_call there freed (x := .create) rfl
      simp only [Pool.call, (request_of_none before).2]
      exact ⟨fun same => new (Option.some.inj same),
        CacheHost.unused_call there' freed' (beq_false_of_ne new), CacheHost.has_call there' _⟩
  | release remaining priority =>
    cases before : p.root.pooledCache with
    | none =>
      simp only [Pool.call, release_of_none before]
      exact ⟨gone, freed, there⟩
    | some d =>
      cases done : (p.root.pooledCacheLanes ∩ remaining).isEmpty with
      | true =>
        simp only [Pool.call, release_of_done done before]
        exact ⟨nofun, CacheHost.unused_call there freed rfl, CacheHost.has_call there _⟩
      | false =>
        simp only [Pool.call, release_of_kept (Bool.eq_false_iff.mp done)]
        exact ⟨gone, freed, there⟩

/-! ## Several calls -/

theorem Lacks.after (lacks : p.Lacks c) (calls : List PoolCall) : (p.after calls).Lacks c := by
  induction calls generalizing p with
  | nil => exact lacks
  | cons x calls ih => exact ih (lacks.call x)

/-- A cache is held as long as one of its lanes is left. Requests change nothing about that. -/
theorem Holds.after (holds : p.Holds c lanes) (calls : List PoolCall) :
    (released calls = [] ∨ Spares calls lanes → (p.after calls).Holds c (left calls lanes)) ∧
      (¬ (released calls = [] ∨ Spares calls lanes) → (p.after calls).Lacks c) := by
  induction calls generalizing p lanes with
  | nil => exact ⟨fun _ => holds, fun lost => absurd (.inl rfl) lost⟩
  | cons x calls ih =>
    cases x with
    | request more =>
      have same : p.call (.request more) = p := by rw [call, request_of_some holds.keeps.1]
      have later := ih holds
      rw [← same] at later
      exact later
    | release remaining priority =>
      have first := holds.release remaining priority
      split at first
      next done =>
        refine ⟨?_, fun _ => first.after calls⟩
        rintro (none | ⟨l, mem, all⟩)
        · cases none
        · have both := LaneSet.mem_inter.mpr ⟨mem, all _ (.head _)⟩
          exact absurd both (LaneSet.isEmpty_iff.mp done l)
      next kept =>
        have spared : released calls = [] ∨ Spares calls (lanes ∩ remaining) ↔
            released (.release remaining priority :: calls) = [] ∨
              Spares (.release remaining priority :: calls) lanes := by
          rw [PoolCall.spares_release]
          exact ⟨fun h => .inr (h.elim (PoolCall.spares_of_released_nil · kept) id),
            fun h => h.elim nofun .inr⟩
        rw [← spared]
        exact ih first

/-- A cache that was given back is not handed out. -/
theorem Lacks.request_ne (lacks : p.Lacks c) (lanes : LaneSet) :
    (request lanes p).result ≠ .ok c := by
  intro handed
  cases pooled : p.root.pooledCache with
  | some d =>
    rw [request_of_some pooled] at handed
    cases handed
    exact lacks.gone pooled
  | none =>
    rw [(request_of_none pooled).1] at handed
    cases handed
    exact Bool.false_ne_true ((Arena.not_has_next _).symm.trans lacks.there)

/-- A cache that is held is kept for other lanes only as long as it is held anyway. -/
theorem Holds.promises_iff (holds : p.Holds c lanes) (more : LaneSet) :
    (∀ later, Spares later more → (p.after later).Keeps c) ↔ more ⊆ lanes := by
  constructor
  · intro promised l mem
    by_contra outside
    -- A commit that leaves this lane alone.
    let later : List PoolCall := [.release (LaneSet.single l) .low]
    have kept := promised later ⟨l, mem, by simp [later, released]⟩
    refine ((holds.after later).2 ?_).not_keeps kept
    rintro (none | ⟨m, mine, all⟩)
    · cases none
    · obtain rfl := LaneSet.mem_single.mp (all _ (.head _))
      exact outside mine
  · intro sub later ⟨l, mem, all⟩
    exact ((holds.after later).1 (.inr ⟨l, sub l mem, all⟩)).keeps

/-- The pooled cache is kept for the request that made it as long as some lane of that request
is left, and is then given back for good. A later request is handed it just the same, but can
rely on it in that way only if each of its lanes is one for which the cache is held already. -/
theorem outlives_iff (bare : p.Bare) (earlier : List PoolCall)
    (vacant : (p.after earlier).root.pooledCache = none) (lanes : LaneSet)
    (calls : List PoolCall) :
    let made := p.after earlier
    let c := made.host.caches.next
    let q := (made.call (.request lanes)).after calls
    (request lanes made).result = .ok c ∧
    (q.Keeps c ↔ released calls = [] ∨ Spares calls lanes) ∧
    (¬ q.Keeps c → q.root.pooledCache ≠ some c ∧ (q.host.cache c).refs = 0 ∧
      ∀ more, (request more q).result ≠ .ok c) ∧
    (q.Keeps c → ∀ more, (request more q).result = .ok c ∧
      ((∀ later, Spares later more → ((q.call (.request more)).after later).Keeps c) ↔
        ∀ l ∈ more, l ∈ lanes ∧ ∀ remaining ∈ released calls, l ∈ remaining)) := by
  intro made c q
  have holds : (made.call (.request lanes)).Holds c lanes :=
    holds_request (bare.after earlier) vacant lanes
  have run : (_ → q.Holds c (left calls lanes)) ∧ (_ → q.Lacks c) := holds.after calls
  have keeps_iff : q.Keeps c ↔ released calls = [] ∨ Spares calls lanes :=
    ⟨fun keeps => by_contra fun lost => (run.2 lost).not_keeps keeps,
      fun kept => (run.1 kept).keeps⟩
  refine ⟨(request_of_none vacant).1, keeps_iff, fun lost => ?_, fun keeps more => ?_⟩
  · have lacks := run.2 fun kept => lost (keeps_iff.mpr kept)
    exact ⟨lacks.gone, lacks.freed, lacks.request_ne⟩
  · have handed : request more q = { state := q, result := .ok c } := request_of_some keeps.1
    have held := run.1 (keeps_iff.mp keeps)
    refine ⟨congrArg Outcome.result handed, ?_⟩
    rw [call, handed, held.promises_iff more]
    exact forall_congr' fun l => imp_congr_right fun _ => PoolCall.mem_left

/-- The lanes of a request that found a cache do not keep it. -/
theorem not_outlives_of_joined :
    let p : Pool := { root := { current := ⟨0⟩ }, host := {} }
    let calls : List PoolCall := [.request (.single 3), .release (.single 3) .low]
    (request (.single 3) (p.call (.request (.single 2)))).result = .ok ⟨0⟩ ∧
      Spares calls (.single 3) ∧ ¬ ((p.call (.request (.single 2))).after calls).Keeps ⟨0⟩ := by
  intro p calls
  obtain ⟨_, keeps_iff, _⟩ :=
    outlives_iff (p := p) (fun _ => rfl) [] rfl (.single 2) calls
  refine ⟨rfl, ⟨3, by decide, by simp [calls, released]⟩, fun kept => ?_⟩
  rcases keeps_iff.mp kept with none | ⟨l, mem, all⟩
  · cases none
  · obtain rfl := LaneSet.mem_single.mp mem
    exact absurd (LaneSet.mem_single.mp (all _ (.head _))) (by decide)

end Pool

end ConcurrentRender
