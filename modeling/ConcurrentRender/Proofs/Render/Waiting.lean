import ConcurrentRender.Proofs.Render.Calls
import ConcurrentRender.Proofs.Staging.Settle

/-!
# Which updates wait in a queue

An update that was made is staged first. The next flush puts it into its queue, where it
waits until the queue is taken. So the history of a run says which updates wait in a queue:
those made for it that were flushed since it was last taken (`waiting`). It also says which
are still staged: those made since the last flush (`unflushed`).

Results:
1. `Delivered.next`: whatever a renderer does, its queues and its buffer keep in step with
   the history.
2. `waiting_of_run`: in every run whose flushes succeed, each queue holds a closed ring of
   exactly the updates that should wait in it, in the order in which they were made, the
   rings have nothing in common, and what is staged are the other updates.
-/

namespace ConcurrentRender

/-- What happens to the updates of queues. -/
inductive QueueEvent where
  /-- The update was made for the queue. -/
  | dispatched (queue : QueueId) (update : UpdateId)
  | flushed
  | taken (queue : QueueId)
deriving DecidableEq

namespace QueueEvent

/-- An update for the queue that was made before the events of `h` waits after them: there
is a flush, and the queue is not taken after the first one. -/
def stays (q : QueueId) : List QueueEvent → Bool
  | [] => false
  | flushed :: h => taken q ∉ h
  | _ :: h => stays q h

/-- The updates that wait in the queue after the events of `h`, oldest first. -/
def waiting (q : QueueId) : List QueueEvent → List UpdateId
  | [] => []
  | dispatched p u :: h => if p = q ∧ stays q h then u :: waiting q h else waiting q h
  | _ :: h => waiting q h

/-- The updates that were not flushed, each with its queue, oldest first. -/
def unflushed : List QueueEvent → List (QueueId × UpdateId)
  | [] => []
  | dispatched q u :: h => if flushed ∈ h then unflushed h else (q, u) :: unflushed h
  | _ :: h => unflushed h

variable {q p : QueueId} {u : UpdateId} {h : List QueueEvent}

/-! ## One more event -/

theorem stays_append_dispatched : stays q (h ++ [dispatched p u]) = stays q h := by
  induction h with
  | nil => rfl
  | cons e h ih => cases e <;> simp [stays, ih]

theorem stays_append_flushed : stays q (h ++ [flushed]) = (stays q h || flushed ∉ h) := by
  induction h with
  | nil => rfl
  | cons e h ih => cases e <;> simp [stays, ih]

theorem stays_append_taken : stays q (h ++ [taken p]) = (stays q h && q ≠ p) := by
  induction h with
  | nil => rfl
  | cons e h ih => cases e <;> simp [stays, ih, Bool.and_comm]

/-- Nothing waits anywhere before the first flush. -/
theorem waiting_of_no_flush (never : flushed ∉ h) : stays q h = false ∧ waiting q h = [] := by
  induction h with
  | nil => exact ⟨rfl, rfl⟩
  | cons e h ih =>
    obtain ⟨first, later⟩ := List.ne_and_not_mem_of_not_mem_cons never
    obtain ⟨stays_eq, waiting_eq⟩ := ih later
    cases e with
    | flushed => exact absurd rfl first
    | dispatched => simp [stays, waiting, stays_eq, waiting_eq]
    | taken => exact ⟨stays_eq, waiting_eq⟩

theorem waiting_append_dispatched : waiting q (h ++ [dispatched p u]) = waiting q h := by
  induction h with
  | nil => simp [waiting, stays]
  | cons e h ih => cases e <;> simp [waiting, stays_append_dispatched, ih]

/-- A flush adds the updates that were not flushed before, in order. -/
theorem waiting_append_flushed :
    waiting q (h ++ [flushed]) = waiting q h ++ Staging.updatesFor q (unflushed h) := by
  induction h with
  | nil => rfl
  | cons e h ih =>
    cases e with
    | flushed => exact ih
    | taken => exact ih
    | dispatched p u =>
      -- This flush lets the update in if there was none before.
      by_cases before : flushed ∈ h
      · simp only [List.cons_append, waiting, unflushed, stays_append_flushed, before, ih]
        by_cases hp : p = q <;> by_cases hs : stays q h <;> simp [hp, hs]
      · obtain ⟨stays_eq, waiting_eq⟩ := waiting_of_no_flush (q := q) before
        simp only [List.cons_append, waiting, unflushed, stays_append_flushed, before, ih,
          stays_eq, waiting_eq]
        by_cases hp : p = q <;> simp [hp, Staging.updatesFor]

theorem waiting_append_taken :
    waiting q (h ++ [taken p]) = if q = p then [] else waiting q h := by
  induction h with
  | nil => simp [waiting]
  | cons e h ih =>
    cases e with
    | flushed => exact ih
    | taken => exact ih
    | dispatched p' u =>
      simp only [List.cons_append, waiting, stays_append_taken, ih]
      by_cases hp : q = p <;> simp [hp]

theorem unflushed_append_dispatched :
    unflushed (h ++ [dispatched p u]) = unflushed h ++ [(p, u)] := by
  induction h with
  | nil => rfl
  | cons e h ih =>
    cases e with
    | flushed => exact ih
    | taken => exact ih
    | dispatched q v => by_cases before : flushed ∈ h <;> simp [unflushed, before, ih]

theorem unflushed_append_flushed : unflushed (h ++ [flushed]) = [] := by
  induction h with
  | nil => rfl
  | cons e h ih => cases e <;> simp [unflushed, ih]

theorem unflushed_append_taken : unflushed (h ++ [taken p]) = unflushed h := by
  induction h with
  | nil => rfl
  | cons e h ih => cases e <;> simp [unflushed, ih]

end QueueEvent

/-! ## Moves -/

open QueueEvent

namespace Move

/-- What a move lets happen to the updates of queues. -/
def events (s : Staging) : Move → List QueueEvent
  | schedule _ queue _ _ _ => [dispatched queue s.tree.updates.next]
  | flush => [flushed]
  | take queue => [taken queue]
  | _ => []

def allEvents (s : Staging) : List Move → List QueueEvent
  | [] => []
  | m :: ms => m.events s ++ allEvents (m.apply s) ms

theorem events_of_idle {s : Staging} {m : Move} (h : m.idle) : m.events s = [] := by
  cases m with
  | schedule | flush | take => cases h
  | _ => rfl

theorem allEvents_of_idle {s : Staging} {ms : List Move} (h : ∀ m ∈ ms, m.idle) :
    allEvents s ms = [] := by
  induction ms generalizing s with
  | nil => rfl
  | cons m ms ih =>
    rw [allEvents, events_of_idle (h m (.head _)), ih fun m' hm => h m' (.tail _ hm)]
    rfl

/-- Changes of the tree alone leave rings alone. -/
theorem sameRings_edit (e : TreeEdit) (t : Tree) : t.SameRings (e.apply t) := by
  cases e with
  | createRoot => exact .of_eq rfl rfl
  | createFiber => exact .of_onlyFibers (.createFiber t _ _)
  | createChild => exact .of_onlyFibers (.createChild t _ _)
  | appendChild => exact .of_onlyFibers (.appendChild t _ _)
  | startTwin => exact .of_onlyFibers (.startTwin t _ _)
  | detach => exact .of_onlyFibers (.detach t _)
  | clearLanes => exact .of_onlyFibers (.setFiber t _ _)
  | createQueue => exact .createQueue t _
  | createBoundary => exact .createBoundary t _ _
  | setVisible => exact .setBoundary t _ _
  | reveal => exact .reveal t _ _

theorem sameRings_of_idle {s : Staging} {m : Move} (h : m.idle) :
    s.tree.SameRings (m.apply s).tree := by
  cases m with
  | schedule | force | flush | take => cases h
  | edit e => exact sameRings_edit e s.tree
  | ledger | current | pooled => exact .setRoot s.tree _ _
  | entangle root queue lane =>
    simp only [apply]
    split
    · exact (Tree.SameRings.setQueue (fun _ => by rfl) s.tree queue).trans (.setRoot _ root _)
    · exact .refl _
  | notes fiber => exact .of_onlyFibers (.setFiber s.tree fiber _)
  | streak => exact .refl _

end Move

/-- The queues and the buffer are in step with the history `h`. -/
structure Delivered (s : Staging) (h : List QueueEvent) : Prop where
  sound : Staging.Sound s.tree (waiting · h) s.buffer.staged
  staged : Staging.pairs s.buffer.staged = unflushed h

namespace Delivered

variable {s : Staging} {h : List QueueEvent} {m : Move}

/-- A new update is staged. It has a name that no update had before. -/
theorem schedule (d : Delivered s h) {fiber : FiberId} {queue : QueueId} {payload : Payload}
    {made lane : LaneSet} (there : s.tree.queues.has queue) :
    Delivered (Move.apply s (.schedule fiber queue payload made lane))
      (h ++ [dispatched queue s.tree.updates.next]) := by
  have created := Tree.SameRings.createUpdate s.tree made payload
  have absent := Arena.not_has_next s.tree.updates
  constructor
  · simp only [waiting_append_dispatched]
    refine Staging.Sound.of_sameRings ?_ (.of_onlyFibers (.setTwins _ fiber _))
    refine (d.sound.of_sameRings created).stage fun q u own => ?_
    cases own
    -- All updates that wait or are staged were there before the new one.
    refine ⟨there, ?_, fun p waits => ?_, fun p staged => ?_⟩
    · exact Arena.has_add.mpr (.inl rfl)
    · rw [(d.sound.held.holds p).there _ waits] at absent
      cases absent
    · rw [d.sound.update p _ staged] at absent
      cases absent
  · rw [unflushed_append_dispatched, ← d.staged]
    exact Staging.pairs_append ..

theorem force (d : Delivered s h) (fiber : FiberId) (lane : LaneSet) :
    Delivered (Move.apply s (.force fiber lane)) h := by
  constructor
  · exact Staging.Sound.of_sameRings (d.sound.stage nofun) (.of_onlyFibers (.setTwins _ fiber _))
  · refine (Staging.pairs_append s.buffer.staged [{ fiber, lane }]).trans ?_
    rw [d.staged]
    exact List.append_nil _

/-- A flush that succeeds puts everything staged into the rings. -/
theorem flush (d : Delivered s h) (ok : (Staging.flush s).result = .ok ()) :
    Delivered (Move.apply s .flush) (h ++ [flushed]) := by
  have split : s.buffer.staged = s.buffer.staged ++ [] := (List.append_nil _).symm
  have sound := Staging.Sound.settleEach (split ▸ d.sound)
  show Delivered (Staging.flush s).state _
  rw [Staging.flush_of_ok ok]
  constructor
  · simp only [waiting_append_flushed, ← d.staged]
    exact sound
  · rw [unflushed_append_flushed]
    rfl

theorem take (d : Delivered s h) (queue : QueueId) :
    Delivered (Move.apply s (.take queue)) (h ++ [taken queue]) := by
  constructor
  · have emptied : (waiting · (h ++ [taken queue])) = Function.update (waiting · h) queue [] := by
      funext p
      rw [waiting_append_taken]
      by_cases hp : p = queue <;> simp [hp]
    rw [emptied]
    exact d.sound.takePending queue
  · rw [unflushed_append_taken]
    exact d.staged

theorem idle (d : Delivered s h) (idle : m.idle) : Delivered (m.apply s) h := by
  constructor
  · rw [(Move.buffer_of_idle idle).1]
    exact d.sound.of_sameRings (Move.sameRings_of_idle idle)
  · rw [(Move.buffer_of_idle idle).1]
    exact d.staged

/-- A move keeps queues and buffer in step with what happened. -/
theorem apply (d : Delivered s h) (fits : m.Fits s) :
    Delivered (m.apply s) (h ++ m.events s) := by
  cases m with
  | schedule => exact d.schedule fits
  | force fiber lane => exact (List.append_nil h).symm ▸ d.force fiber lane
  | flush => exact d.flush fits
  | take queue => exact d.take queue
  | _ => exact (List.append_nil h).symm ▸ d.idle rfl

theorem applyAll {ms : List Move} (d : Delivered s h) (fit : Move.AllFit s ms) :
    Delivered (Move.applyAll s ms) (h ++ Move.allEvents s ms) := by
  induction ms generalizing s h with
  | nil => exact (List.append_nil h).symm ▸ d
  | cons m ms ih =>
    have rest := ih (d.apply fit.1) fit.2
    rw [List.append_assoc] at rest
    exact rest

end Delivered

/-! ## Runs -/

namespace Renderer

/-- What a call lets happen to the updates of queues. -/
def events (r : Renderer) : Operation → List QueueEvent
  | .dispatch _ queue _ => [dispatched queue r.tree.updates.next]
  | .dispatchQuietly _ queue _ =>
    dispatched queue r.tree.updates.next :: if r.isRendering then [] else [flushed]
  | .flush => [flushed]
  | .takePending queue => [taken queue]
  | .prepare root => if (r.nextLanes root).isEmpty then [] else [flushed]
  | _ => []

/-- What a run lets happen to the updates of queues, in order. -/
def history (r : Renderer) : List Operation → List QueueEvent
  | [] => []
  | op :: ops => r.events op ++ (r.next op).history ops

theorem events_moves (r : Renderer) (op : Operation) :
    Move.allEvents r.staging (r.moves op) = r.events op := by
  cases op with
  | dispatch fiber queue payload =>
    refine congrArg (List.cons _) (Move.allEvents_of_idle (idle_tellMoves r fiber ?_))
    simp [Move.idle]
  | dispatchQuietly fiber queue payload =>
    refine congrArg (List.cons _) ?_
    split <;> rfl
  | forceUpdate fiber =>
    refine (List.nil_append _).trans (Move.allEvents_of_idle (idle_tellMoves r fiber ?_))
    simp [Move.idle]
  | prepare root =>
    simp only [moves, events]
    split <;> rfl
  | begin fiber => exact Move.allEvents_of_idle (idle_begin r fiber)
  | readContext context => exact Move.allEvents_of_idle (idle_readContext r context)
  | commit root remaining => exact Move.allEvents_of_idle (idle_commit r root remaining)
  | _ => rfl

end Renderer

namespace Delivered

variable {r : Renderer} {h : List QueueEvent} {op : Operation} {ops : List Operation}

/-- A call keeps queues and buffer in step with what happened. -/
theorem next (d : Delivered r.staging h) (fits : r.fits op) (flushes : r.flushes op) :
    Delivered (r.next op).staging (h ++ r.events op) := by
  rw [Renderer.staging_next, ← Renderer.events_moves]
  exact d.applyAll (Renderer.fit_moves fits flushes)

theorem after (d : Delivered r.staging h) (smooth : r.Smooth ops) :
    Delivered (r.after ops).staging (h ++ r.history ops) := by
  induction ops generalizing r h with
  | nil => exact (List.append_nil h).symm ▸ d
  | cons op ops ih =>
    obtain ⟨fits, flushes, smooth⟩ := smooth
    have rest := ih (d.next fits flushes) smooth
    rw [List.append_assoc] at rest
    exact rest

/-- At the beginning nothing waits and nothing is staged. -/
theorem start {settings : Settings} {registry : ContextRegistry}
    (start : Renderer.start settings registry = .ok r) : Delivered r.staging [] := by
  rw [Renderer.staging_start start]
  refine ⟨⟨⟨fun q => ⟨rfl, nofun, nofun, List.nodup_nil⟩, fun _ _ _ => nofun⟩, nofun, nofun, nofun,
    List.nodup_nil⟩, rfl⟩

end Delivered

/-- In every run whose flushes succeed, the queues hold what should wait in them, and the
buffer what was not flushed. -/
theorem waiting_of_run {settings : Settings} {registry : ContextRegistry} {r : Renderer}
    (start : Renderer.start settings registry = .ok r) (ops : List Operation)
    (smooth : r.Smooth ops) :
    let t := (r.after ops).tree
    let h := r.history ops
    (∀ q, t.pending q = waiting q h ∧ t.Holds q (waiting q h) ∧
      ∀ last, (t.queue q).newest = some last →
        t.Visits last (t.update last).next (waiting q h)) ∧
    (∀ q p, q ≠ p → (waiting q h).Disjoint (waiting p h)) ∧
    Staging.pairs (r.after ops).staging.buffer.staged = unflushed h := by
  intro t h
  have d : Delivered (r.after ops).staging h := (Delivered.start start).after smooth
  have held : ∀ q, t.Holds q (waiting q h) := d.sound.held.holds
  exact ⟨fun q => ⟨(held q).pending_eq, held q, fun _ => (held q).visits⟩, d.sound.held.apart,
    d.staged⟩

/-- Of three updates that are made for a queue, the first one is flushed and taken, the
second one is flushed by the start of a render, and the third one comes after that. -/
theorem waiting_of_three_updates :
    ((default : Renderer).after
      [.edit (.createRoot true), .edit (.createChild ⟨0⟩ .functionComponent),
        .edit (.createQueue ⟨1⟩), .dispatch ⟨1⟩ ⟨0⟩ .unit, .flush, .takePending ⟨0⟩,
        .dispatch ⟨1⟩ ⟨0⟩ .unit, .prepare ⟨0⟩, .dispatch ⟨1⟩ ⟨0⟩ .unit]).tree.pending ⟨0⟩ =
      [⟨1⟩] :=
  ((waiting_of_run (show Renderer.start {} .start = .ok default from rfl) _
    (by decide +kernel)).1 ⟨0⟩).1.trans (by decide +kernel)

end ConcurrentRender
