import ConcurrentRender.Proofs.Action.Display

/-!
# What becomes of cleanups

However the phases of calls follow each other, the indicator is shown only for a reason, and every
cleanup is in one place: it was run, or is about to be run, or is kept while the indicator is shown.

* `Actions.Justified a names`: the indicator is shown for a reason, `names` having been registered.
* `Actions.Takes a p`: a phase keeps the cleanup that is kept, or answers it.
* `Display.Even s`: every cleanup is in one place.

Results:
1. `Display.justified_call`, `Display.Even.call`: what each phase keeps.
2. `cleanups_balanced`: hence when the indicator is shown, and what becomes of cleanups.
-/

namespace ConcurrentRender

def ActionEvent.shown? : ActionEvent → Option Ticket
  | shown ticket => some ticket
  | _ => none

def ActionEvent.hidden? : ActionEvent → Option Ticket
  | hidden ticket => some ticket
  | _ => none

theorem Indicator.stored_eq_some {i : Indicator} {t : Ticket} :
    i.stored = some t ↔ i.showing = .shown t := by
  unfold stored
  cases i.showing <;> simp

/-- The registration is what it must be after `names` were registered. -/
def Registration.Fits (names : List String) : Registration → Prop
  | unset => names = []
  | unique name => name ∈ names ∧ ∀ n ∈ names, n = name
  | ambiguous => ∃ n ∈ names, ∃ n' ∈ names, n ≠ n'

def DisplayCall.callback? : DisplayCall → Option String
  | register callback _ => some callback
  | _ => none

namespace Actions

variable {a : Actions}

/-- The callbacks that were called to show the indicator. -/
def shown (a : Actions) : List Ticket := a.log.filterMap ActionEvent.shown?

/-- The cleanups that were run. -/
def hidden (a : Actions) : List Ticket := a.log.filterMap ActionEvent.hidden?

theorem shown_note (a : Actions) (events : List ActionEvent) :
    (a.note events).shown = a.shown ++ events.filterMap ActionEvent.shown? :=
  List.filterMap_append

theorem hidden_note (a : Actions) (events : List ActionEvent) :
    (a.note events).hidden = a.hidden ++ events.filterMap ActionEvent.hidden? :=
  List.filterMap_append

end Actions

/-! ## Why the indicator is shown -/

/-- A registration is the first one, or changes nothing, or stops the indicator for ever. -/
theorem Indicator.register_cases (i : Indicator) (callback : String) :
    i.registration = .unset ∧
        i.register callback = (none, { i with registration := .unique callback }) ∨
      (i.registration = .unique callback ∨ i.registration = .ambiguous) ∧
        i.register callback = (none, i) ∨
      ∃ existing, i.registration = .unique existing ∧ existing ≠ callback ∧
        i.register callback =
          (i.stored, { i with registration := .ambiguous, showing := .idle }) := by
  unfold register
  cases i.registration with
  | unset => exact .inl ⟨rfl, rfl⟩
  | unique existing =>
    rcases eq_or_ne existing callback with rfl | other
    · exact .inr (.inl ⟨.inl rfl, if_pos rfl⟩)
    · exact .inr (.inr ⟨existing, rfl, other, if_neg other⟩)
  | ambiguous => exact .inr (.inl ⟨.inr rfl, rfl⟩)

/-- A claim succeeds only if the indicator is needed, is not shown, and has one callback. -/
theorem Indicator.of_claim {i i' : Indicator} {ticket : Ticket}
    (claimed : i.claim = some (ticket, i')) :
    i.needed ∧ i.showing = .idle ∧ i.registration = .unique ticket.callback ∧
      ticket.serial = i.tickets ∧
      i' = { i with showing := .starting, tickets := i.tickets + 1 } := by
  unfold claim at claimed
  split at claimed
  next needed showing registration =>
    cases claimed
    exact ⟨needed, showing, registration, rfl, rfl⟩
  next => cases claimed

namespace Actions

variable {a : Actions} {names : List String}

/-- After `names` were registered, the indicator is shown only for a reason. -/
structure Justified (a : Actions) (names : List String) : Prop where
  fits : a.indicator.registration.Fits names
  unique : a.isShowing → ∃ name, a.indicator.registration = .unique name
  held : a.isShowing → a.scope.isSome ∨ a.retained
  /-- Only an open scope calls for the indicator. -/
  needed : a.indicator.needed → a.scope.isSome

namespace Justified

theorem start (usesIndicator : Bool) : Justified { usesIndicator } [] :=
  ⟨rfl, nofun, nofun, nofun⟩

/-- An indicator that is not shown needs no reason. -/
theorem halt (fits : a.indicator.registration.Fits names)
    (needed : a.indicator.needed → a.scope.isSome) : a.halt.2.Justified names :=
  ⟨fits, nofun, nofun, needed⟩

theorem entangle (j : a.Justified names) (runtime : Bool) (lane : LaneSet) :
    (Actions.entangle runtime lane a).state.Justified names := by
  cases runtime with
  | false => exact j
  | true =>
    cases scope : a.scope with
    | some s =>
      rw [entangle_of_some scope]
      exact ⟨j.fits, j.unique, fun _ => .inl rfl, fun _ => rfl⟩
    | none =>
      rw [entangle_of_none scope]
      exact ⟨j.fits, j.unique, fun _ => .inl rfl, fun _ => rfl⟩

theorem enroll (j : a.Justified names) (callback : String) (script : List CallbackStep) :
    (a.enroll callback script).2.Justified (names ++ [callback]) := by
  have registered : ({ a with indicator := (a.indicator.register callback).2 }).Justified
      (names ++ [callback]) := by
    have fits := j.fits
    rcases a.indicator.register_cases callback with ⟨unset, made⟩ | ⟨known, made⟩ |
      ⟨existing, unique, other, made⟩
    · rw [unset] at fits
      obtain rfl : names = [] := fits
      rw [made]
      refine ⟨⟨.head _, fun n mem => List.mem_singleton.mp mem⟩, fun _ => ⟨callback, rfl⟩, j.held,
        j.needed⟩
    · rw [made]
      refine ⟨?_, j.unique, j.held, j.needed⟩
      show a.indicator.registration.Fits _
      rcases known with unique | ambiguous
      · rw [unique] at fits ⊢
        refine ⟨List.mem_append_left _ fits.1, fun n mem => ?_⟩
        exact (List.mem_append.mp mem).elim (fits.2 n) List.mem_singleton.mp
      · rw [ambiguous] at fits ⊢
        obtain ⟨n, mem, n', mem', other⟩ := fits
        exact ⟨n, List.mem_append_left _ mem, n', List.mem_append_left _ mem', other⟩
    · rw [unique] at fits
      rw [made]
      have second : callback ∈ names ++ [callback] := List.mem_append_right _ (.head _)
      exact ⟨⟨existing, List.mem_append_left _ fits.1, callback, second, other⟩, nofun, nofun,
        j.needed⟩
  -- What a callback does plays no part.
  unfold Actions.enroll
  split
  · exact registered
  · exact ⟨registered.fits, registered.unique, registered.held, registered.needed⟩

theorem markHandled (j : a.Justified names) : a.markHandled.Justified names :=
  ⟨j.fits, j.unique, j.held, nofun⟩

theorem retain (j : a.Justified names) : a.retain.2.Justified names := by
  refine ⟨j.fits, j.unique, fun _ => .inr ?_, j.needed⟩
  show (a.retainers.items.push true).any id
  simp

theorem note (j : a.Justified names) (events : List ActionEvent) :
    (a.note events).Justified names :=
  ⟨j.fits, j.unique, j.held, j.needed⟩

/-- Listeners play no part. -/
theorem setThenables (j : a.Justified names) (thenables : Arena .scope Thenable) :
    { a with thenables }.Justified names :=
  ⟨j.fits, j.unique, j.held, j.needed⟩

/-- Who ends the scope stops the indicator, unless it is retained. -/
theorem shut (j : a.Justified names) : a.shut.2.Justified names := by
  unfold Actions.shut
  dsimp only
  split
  next retained => exact ⟨j.fits, j.unique, fun _ => .inr retained, nofun⟩
  next => exact halt j.fits nofun

theorem countedOut (j : a.Justified names) (n : Id .action) :
    (a.countedOut n).2.2.Justified names := by
  unfold Actions.countedOut
  split
  next =>
    have counted : { a with started := a.started.modify n fun _ => false }.Justified names :=
      ⟨j.fits, j.unique, j.held, j.needed⟩
    unfold part
    split
    next => exact counted
    next s scope =>
      split
      next => exact counted.shut
      next => exact ⟨j.fits, j.unique, fun _ => .inl rfl, fun _ => rfl⟩
  next => exact j

/-- Who lets go of the last retainer stops the indicator, unless a scope is open. -/
theorem letGo (j : a.Justified names) (r : Id .retainer) : (a.letGo r).2.Justified names := by
  unfold Actions.letGo
  dsimp only
  split
  next held =>
    exact ⟨j.fits, j.unique, fun _ => (Bool.or_eq_true_iff.mp held).symm, j.needed⟩
  next => exact halt j.fits j.needed

theorem handOver (j : a.Justified names) (cleanup : Ticket) :
    (a.handOver cleanup).2.Justified names := by
  unfold Actions.handOver Indicator.deliver
  cases showing : a.indicator.showing with
  | starting =>
    have before : a.isShowing := by
      simp [isShowing, Indicator.isShowing, showing]
    exact ⟨j.fits, fun _ => j.unique before, fun _ => j.held before, j.needed⟩
  | idle | shown => exact j

theorem claim (j : a.Justified names) {ticket : Ticket} {indicator : Indicator}
    (claimed : a.indicator.claim = some (ticket, indicator)) :
    { a with indicator }.Justified names := by
  obtain ⟨needed, -, unique, -, rfl⟩ := Indicator.of_claim claimed
  exact ⟨j.fits, fun _ => ⟨_, unique⟩, fun _ => .inl (j.needed needed), j.needed⟩

end Justified

end Actions

namespace Display

variable {s : Display} {names : List String}

theorem justified_of_other (j : s.actions.Justified names) {c : DisplayCall}
    (other : c.callback? = none) : (s.call c).actions.Justified names := by
  cases c with
  | register => cases other
  | entangle runtime lane => exact j.entangle runtime lane
  | settle n => exact j.countedOut n
  | tell i => exact (j.setThenables _).note _
  | listen i l => exact (j.setThenables _).note _
  | handled => exact j.markHandled
  | retain => exact j.retain
  | drop r =>
    simp only [call]
    split
    · exact j.letGo r
    · exact j
  | observe => exact j.note _
  | claim =>
    simp only [call]
    split
    · exact j
    next ticket indicator claimed => exact (j.claim claimed).note _
  | deliver ticket =>
    simp only [call]
    split
    · exact j.handOver ticket
    · exact j
  | clean ticket =>
    simp only [call]
    split
    · exact j.note _
    · exact j

/-- Every phase leaves the indicator shown only for a reason. -/
theorem justified_call (j : s.actions.Justified names) (c : DisplayCall) :
    (s.call c).actions.Justified (names ++ c.callback?.toList) := by
  cases registers : c.callback? with
  | none =>
    rw [Option.toList_none, List.append_nil]
    exact justified_of_other j registers
  | some callback =>
    cases c with
    | register name script =>
      cases registers
      exact j.enroll callback script
    | _ => cases registers

theorem justified_after (j : s.actions.Justified names) (calls : List DisplayCall) :
    (s.after calls).actions.Justified (names ++ calls.filterMap DisplayCall.callback?) := by
  induction calls generalizing s names with
  | nil => simpa using j
  | cons c calls ih =>
    have rest := ih (justified_call j c)
    rw [List.append_assoc] at rest
    cases registers : c.callback? with
    | none => simpa [registers] using rest
    | some callback => simpa [registers] using rest

end Display

/-! ## Where cleanups are -/

namespace Actions

variable {a : Actions}

/-- The phase calls no callback and runs no cleanup, and what it answers is the cleanup that is not
kept any more. -/
structure Takes (a : Actions) (p : Option Ticket × Actions) : Prop where
  log : p.2.log = a.log
  tickets : p.2.indicator.tickets = a.indicator.tickets
  cleanup : p.1.toList ++ p.2.indicator.stored.toList = a.indicator.stored.toList

namespace Takes

theorem none {a' : Actions} (log : a'.log = a.log)
    (tickets : a'.indicator.tickets = a.indicator.tickets)
    (showing : a'.indicator.showing = a.indicator.showing) : a.Takes (.none, a') := by
  refine ⟨log, tickets, ?_⟩
  simp only [Indicator.stored, showing]
  rfl

theorem halt {a' : Actions} (log : a'.log = a.log)
    (tickets : a'.indicator.tickets = a.indicator.tickets)
    (showing : a'.indicator.showing = a.indicator.showing) : a.Takes a'.halt := by
  refine ⟨log, tickets, ?_⟩
  simp only [Actions.halt, Indicator.stored, showing]
  exact List.append_nil _

theorem enroll (a : Actions) (callback : String) (script : List CallbackStep) :
    a.Takes (a.enroll callback script) := by
  have registered : a.Takes
      ((a.indicator.register callback).1,
        { a with indicator := (a.indicator.register callback).2 }) := by
    rcases a.indicator.register_cases callback with ⟨-, made⟩ | ⟨-, made⟩ | ⟨_, -, -, made⟩
    · rw [made]
      exact .none rfl rfl rfl
    · rw [made]
      exact .none rfl rfl rfl
    · rw [made]
      exact ⟨rfl, rfl, List.append_nil _⟩
  unfold Actions.enroll
  split
  · exact registered
  · exact ⟨registered.log, registered.tickets, registered.cleanup⟩

theorem shut (a : Actions) : a.Takes a.shut := by
  unfold Actions.shut
  dsimp only
  split
  · exact .none rfl rfl rfl
  · exact .halt rfl rfl rfl

theorem countedOut (a : Actions) (n : Id .action) : a.Takes (a.countedOut n).2 := by
  unfold Actions.countedOut
  split
  · unfold part
    split
    · exact .none rfl rfl rfl
    · split
      · have ended := shut { a with started := a.started.modify n fun _ => false }
        exact ⟨ended.log, ended.tickets, ended.cleanup⟩
      · exact .none rfl rfl rfl
  · exact .none rfl rfl rfl

theorem letGo (a : Actions) (r : Id .retainer) : a.Takes (a.letGo r) := by
  unfold Actions.letGo
  dsimp only
  split
  · exact .none rfl rfl rfl
  · exact .halt rfl rfl rfl

end Takes

/-- A cleanup that is handed over is kept or answered. -/
theorem cleanup_handOver (a : Actions) (cleanup : Ticket) :
    (a.handOver cleanup).1.toList ++ (a.handOver cleanup).2.indicator.stored.toList =
      cleanup :: a.indicator.stored.toList := by
  unfold handOver Indicator.deliver Indicator.stored
  cases showing : a.indicator.showing <;> simp [showing]

end Actions

namespace Display

variable {s s' : Display}

/-- Every callback that was called still runs or has returned one cleanup, and each of these was
run, is about to be run, or is kept while the indicator is shown. -/
structure Even (s : Display) : Prop where
  numbered : ∀ t ∈ s.actions.shown, t.serial < s.actions.indicator.tickets
  once : s.actions.shown.Nodup
  called : ∀ t, s.actions.shown.count t = s.calling.count t + s.delivered.count t
  kept : ∀ t, s.delivered.count t =
    s.actions.hidden.count t + s.taken.count t + s.actions.indicator.stored.toList.count t

namespace Even

theorem start (usesIndicator : Bool) : Even { actions := { usesIndicator } } :=
  ⟨nofun, .nil, fun _ => rfl, fun _ => rfl⟩

theorem take (even : s.Even) {p : Option Ticket × Actions} (takes : s.actions.Takes p) :
    (s.take p).Even := by
  have shown : p.2.shown = s.actions.shown := congrArg (List.filterMap _) takes.log
  have hidden : p.2.hidden = s.actions.hidden := congrArg (List.filterMap _) takes.log
  refine ⟨?_, ?_, ?_, fun t => ?_⟩
  · show ∀ t ∈ p.2.shown, t.serial < p.2.indicator.tickets
    rw [shown, takes.tickets]
    exact even.numbered
  · exact shown ▸ even.once
  · exact shown ▸ even.called
  · have moved := congrArg (List.count t) takes.cleanup
    have kept := even.kept t
    rw [List.count_append] at moved
    show s.delivered.count t = p.2.hidden.count t + (p.1.toList ++ s.taken).count t +
      p.2.indicator.stored.toList.count t
    rw [hidden, List.count_append]
    omega

/-- What calls no callback, runs no cleanup and takes none. -/
theorem keep (even : s.Even) {a : Actions} (shown : a.shown = s.actions.shown)
    (hidden : a.hidden = s.actions.hidden)
    (tickets : a.indicator.tickets = s.actions.indicator.tickets)
    (showing : a.indicator.showing = s.actions.indicator.showing) :
    Even { s with actions := a } := by
  have stored : a.indicator.stored = s.actions.indicator.stored := by
    simp only [Indicator.stored, showing]
  refine ⟨?_, shown ▸ even.once, shown ▸ even.called, ?_⟩
  · show ∀ t ∈ a.shown, t.serial < a.indicator.tickets
    rw [shown, tickets]
    exact even.numbered
  · show ∀ t, s.delivered.count t = a.hidden.count t + s.taken.count t + _
    rw [hidden, stored]
    exact even.kept

/-- Firings have nothing to do with the indicator. -/
theorem fire (even : s.Even) (thenables : Arena .scope Thenable) (firings : List Firing) :
    Even { s with actions := { s.actions with thenables }.note (firings.map .fired) } := by
  have others (f : ActionEvent → Option Ticket) (none : ∀ firing, f (.fired firing) = none) :
      (s.actions.log ++ firings.map ActionEvent.fired).filterMap f =
        s.actions.log.filterMap f := by
    rw [List.filterMap_append]
    refine (congrArg _ (List.filterMap_eq_nil_iff.mpr fun e mem => ?_)).trans (List.append_nil _)
    obtain ⟨firing, -, rfl⟩ := List.mem_map.mp mem
    exact none firing
  exact even.keep (others _ fun _ => rfl) (others _ fun _ => rfl) rfl rfl

theorem entangle (even : s.Even) (runtime : Bool) (lane : LaneSet) :
    (s.call (.entangle runtime lane)).Even := by
  cases runtime with
  | false => exact even
  | true =>
    simp only [call]
    cases scope : s.actions.scope with
    | some scope' =>
      rw [Actions.entangle_of_some scope]
      exact even.keep rfl rfl rfl rfl
    | none =>
      rw [Actions.entangle_of_none scope]
      exact even.keep rfl rfl rfl rfl

/-- A callback that is called gets a ticket of its own. -/
theorem claim (even : s.Even) : (s.call .claim).Even := by
  simp only [call]
  split
  next => exact even
  next ticket indicator claimed =>
    obtain ⟨-, idle, -, serial, rfl⟩ := Indicator.of_claim claimed
    let called : Actions := Actions.note
      { s.actions with
        indicator := { s.actions.indicator with
          showing := .starting, tickets := s.actions.indicator.tickets + 1 } } [.shown ticket]
    have shown : called.shown = s.actions.shown ++ [ticket] := Actions.shown_note _ _
    have hidden : called.hidden = s.actions.hidden :=
      (Actions.hidden_note _ _).trans (List.append_nil _)
    have new : ticket ∉ s.actions.shown := fun old =>
      absurd serial (Nat.ne_of_lt (even.numbered ticket old))
    refine ⟨fun t mem => ?_, ?_, fun t => ?_, fun t => ?_⟩
    · show t.serial < s.actions.indicator.tickets + 1
      replace mem : t ∈ called.shown := mem
      rw [shown] at mem
      rcases List.mem_append.mp mem with old | latest
      · exact Nat.lt_succ_of_lt (even.numbered t old)
      · rw [List.mem_singleton.mp latest, serial]
        exact Nat.lt_succ_self _
    · show called.shown.Nodup
      rw [shown]
      exact List.nodup_append.mpr ⟨even.once, List.nodup_singleton _, fun t old t' latest same =>
        new (List.mem_singleton.mp latest ▸ same ▸ old)⟩
    · show called.shown.count t = (ticket :: s.calling).count t + s.delivered.count t
      rw [shown, List.count_append, List.count_singleton, List.count_cons, even.called t]
      omega
    · show s.delivered.count t = called.hidden.count t + s.taken.count t + 0
      rw [hidden, even.kept t]
      simp [Indicator.stored, idle]

/-- A cleanup that is handed over is kept, or is about to be run. -/
theorem deliver (even : s.Even) (ticket : Ticket) : (s.call (.deliver ticket)).Even := by
  simp only [call]
  split
  next runs =>
    let p := s.actions.handOver ticket
    have tickets : p.2.indicator.tickets = s.actions.indicator.tickets := by
      simp only [p, Actions.handOver, Indicator.deliver]
      cases s.actions.indicator.showing <;> rfl
    have running := List.count_pos_iff.mpr runs
    refine ⟨?_, even.once, fun t => ?_, fun t => ?_⟩
    · show ∀ t ∈ s.actions.shown, t.serial < p.2.indicator.tickets
      rw [tickets]
      exact even.numbered
    · show s.actions.shown.count t =
        (s.calling.erase ticket).count t + (ticket :: s.delivered).count t
      rw [List.count_erase, List.count_cons, even.called t]
      split
      next same =>
        obtain rfl := beq_iff_eq.mp same
        omega
      next => omega
    · have moved : (p.1.toList ++ p.2.indicator.stored.toList).count t =
          (ticket :: s.actions.indicator.stored.toList).count t :=
        congrArg (List.count t) (s.actions.cleanup_handOver ticket)
      show (ticket :: s.delivered).count t = s.actions.hidden.count t +
        (p.1.toList ++ s.taken).count t + p.2.indicator.stored.toList.count t
      rw [List.count_append, List.count_cons] at moved
      rw [List.count_append, List.count_cons, even.kept t]
      omega
  next => exact even

theorem clean (even : s.Even) (ticket : Ticket) : (s.call (.clean ticket)).Even := by
  simp only [call]
  split
  next waits =>
    let cleaned := s.actions.note [.hidden ticket]
    have shown : cleaned.shown = s.actions.shown :=
      (Actions.shown_note _ _).trans (List.append_nil _)
    have hidden : cleaned.hidden = s.actions.hidden ++ [ticket] := Actions.hidden_note _ _
    have waiting := List.count_pos_iff.mpr waits
    refine ⟨?_, ?_, ?_, fun t => ?_⟩
    · show ∀ t ∈ cleaned.shown, t.serial < s.actions.indicator.tickets
      rw [shown]
      exact even.numbered
    · exact shown ▸ even.once
    · exact shown ▸ even.called
    · show s.delivered.count t = cleaned.hidden.count t + (s.taken.erase ticket).count t +
        s.actions.indicator.stored.toList.count t
      rw [hidden, List.count_append, List.count_singleton, List.count_erase, even.kept t]
      split
      next same =>
        obtain rfl := beq_iff_eq.mp same
        omega
      next => omega
  next => exact even

/-- Every phase leaves every cleanup in one place. -/
theorem call (even : s.Even) (c : DisplayCall) : (s.call c).Even := by
  cases c with
  | entangle runtime lane => exact even.entangle runtime lane
  | settle n => exact even.take (.countedOut s.actions n)
  | tell i => exact even.fire _ _
  | listen i l => exact even.fire _ _
  | register callback script => exact even.take (.enroll s.actions callback script)
  | handled => exact even.keep rfl rfl rfl rfl
  | retain => exact even.keep rfl rfl rfl rfl
  | drop r =>
    simp only [Display.call]
    split
    · exact even.take (.letGo s.actions r)
    · exact even
  | observe =>
    exact even.keep ((Actions.shown_note _ _).trans (List.append_nil _))
      ((Actions.hidden_note _ _).trans (List.append_nil _)) rfl rfl
  | claim => exact even.claim
  | deliver ticket => exact even.deliver ticket
  | clean ticket => exact even.clean ticket

theorem after (even : s.Even) (calls : List DisplayCall) : (s.after calls).Even := by
  induction calls generalizing s with
  | nil => exact even
  | cons c calls ih => exact ih (even.call c)

theorem count_delivered_le_one (even : s.Even) (t : Ticket) : s.delivered.count t ≤ 1 := by
  have once := List.nodup_iff_count_le_one.mp even.once t
  have called := even.called t
  omega

end Even

end Display

/-- Whatever happens in whatever order, phase by phase:

1. The indicator is shown, or about to be, only if exactly one callback was registered, and a scope
   is open or a retainer is held.
2. Only cleanups that callbacks returned are run, and none of them twice. One that was neither run
   nor taken to be run next is kept while the indicator is shown, and is the only one that is.
3. Once two different callbacks were registered, the indicator is never claimed again, and no
   cleanup is kept. -/
theorem cleanups_balanced (usesIndicator : Bool) (calls : List DisplayCall) :
    let s := Display.after { actions := { usesIndicator } } calls
    let names := calls.filterMap DisplayCall.callback?
    (s.actions.isShowing → (∃ name ∈ names, ∀ n ∈ names, n = name) ∧
      (s.actions.scope.isSome ∨ s.actions.retained)) ∧
    (s.actions.hidden.Nodup ∧ s.actions.hidden ⊆ s.delivered ∧
      ∀ t, t ∈ s.delivered ∧ t ∉ s.actions.hidden ∧ t ∉ s.taken ↔
        s.actions.indicator.showing = .shown t) ∧
    ∀ name ∈ names, ∀ name' ∈ names, name ≠ name' → ∀ later,
      (s.after later).actions.indicator.claim = none ∧
        (s.after later).actions.indicator.showing = .idle := by
  intro s names
  have start : ({ actions := { usesIndicator } } : Display).actions.Justified [] :=
    .start usesIndicator
  have justified : s.actions.Justified names := Display.justified_after start calls
  have even : s.Even := (Display.Even.start usesIndicator).after calls
  refine ⟨fun showing => ⟨?_, justified.held showing⟩, ⟨?_, fun t run => ?_, fun t => ?_⟩, ?_⟩
  · obtain ⟨name, unique⟩ := justified.unique showing
    have fits := justified.fits
    rw [unique] at fits
    exact ⟨name, fits.1, fits.2⟩
  · refine List.nodup_iff_count_le_one.mpr fun t => ?_
    have kept := even.kept t
    have once := even.count_delivered_le_one t
    omega
  · have kept := even.kept t
    have ran := List.count_pos_iff.mpr run
    exact List.count_pos_iff.mp (by omega)
  · have kept := even.kept t
    have once := even.count_delivered_le_one t
    rw [← Indicator.stored_eq_some, ← Option.mem_toList]
    simp only [← List.count_pos_iff]
    omega
  · intro name mem name' mem' other later
    have still := Display.justified_after justified later
    have apart : ¬∃ n, (s.after later).actions.indicator.registration = .unique n := by
      rintro ⟨n, unique⟩
      have fits := still.fits
      rw [unique] at fits
      have same (m : String) (mem : m ∈ names) : m = n := fits.2 m (List.mem_append_left _ mem)
      exact other ((same name mem).trans (same name' mem').symm)
    refine ⟨Option.eq_none_iff_forall_ne_some.mpr fun ⟨ticket, i⟩ claimed => ?_, ?_⟩
    · exact apart ⟨_, (Indicator.of_claim claimed).2.2.1⟩
    · cases showing : (s.after later).actions.indicator.showing with
      | idle => rfl
      | starting | shown =>
        refine absurd (still.unique ?_) apart
        simp [Actions.isShowing, Indicator.isShowing, showing]

/-- A scope ends and another one starts the indicator while the callback for the first one runs.
The cleanup that comes first is kept, though it is not the one of the latest start, and the other
one is run. A second callback takes the one that is kept. -/
theorem cleanups_balanced_of_two_starts :
    let spinner (serial : Nat) : Ticket := { serial, callback := "spinner" }
    let calls : List DisplayCall :=
      [.register "spinner" [], .entangle true (.single 6), .claim, .settle ⟨0⟩,
        .entangle true (.single 7), .claim, .deliver (spinner 0), .deliver (spinner 1),
        .clean (spinner 1)]
    let s := Display.after { actions := { usesIndicator := true } } calls
    let s' := s.call (.register "bar" [])
    (s.actions.isShowing ∧ (s.actions.scope.isSome ∨ s.actions.retained)) ∧
      (s.actions.hidden = [spinner 1] ∧ s.actions.hidden ⊆ s.delivered) ∧
      (spinner 0 ∈ s.delivered ∧ spinner 0 ∉ s.actions.hidden ∧ spinner 0 ∉ s.taken) ∧
      s'.taken = [spinner 0] ∧
      ((s'.after [.entangle true (.single 8)]).actions.indicator.claim = none ∧
        (s'.after [.entangle true (.single 8)]).actions.indicator.showing = .idle) := by
  intro spinner calls s s'
  obtain ⟨reason, ⟨-, returned, stored⟩, -⟩ := cleanups_balanced true calls
  obtain ⟨-, -, barred⟩ := cleanups_balanced true (calls ++ [.register "bar" []])
  rw [Display.after_append] at barred
  have shows : s.actions.isShowing := by decide +kernel
  refine ⟨⟨shows, (reason shows).2⟩, ⟨by decide +kernel, returned⟩,
    (stored (spinner 0)).mpr (by decide +kernel), by decide +kernel, ?_⟩
  exact barred "spinner" (by decide +kernel) "bar" (by decide +kernel) (by decide) _

end ConcurrentRender
