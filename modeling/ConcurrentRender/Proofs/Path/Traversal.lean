import Mathlib.Data.List.Induction
import Mathlib.Data.List.Nodup
import ConcurrentRender.Path.Host
import ConcurrentRender.Proofs.StepLaws

/-!
# The host context follows the path

A render enters a node before the nodes below it and leaves it after them. What is in force then
should depend on the open nodes only, those that were entered and not left yet. But a component
that passes down the context it is in leaves no frame, and so it must not take one away either. It
is told apart from the others by the fiber that put the context in force, which works as long as no
two open nodes have the same fiber.

* `HostForest`: the nodes of a tree, each with those below it. `HostForest.calls F`: its traversal.
* `HostCall.openAfter open cs`: the open nodes after calls, innermost first.
* `HostNode.surroundings open`: the nearest container among them, and the kinds of the components
  inside it.
* `HostPath.along rules p open`: the path after all of these nodes were entered.
* `HostCall.AllFit open cs`: each call enters a node that is not open yet, inside a container, or
  leaves the innermost one.

Results:
1. `along_surroundings`: which container and which context are in force along open nodes.
2. `call_of_fits`, `run_of_allFit`: calls that fit never fail, and lead along the open nodes.
3. `allFit_calls`: the traversal of a forest fits.
4. `contextIn_eq_iff`: when the context in force is what the components made of it one by one.
5. `context_follows_path`: hence what is in force at any point of a traversal.
6. `context_of_signed_zeros`: which need not be what the components made of it.
-/

namespace ConcurrentRender

/-- What a fiber is for the host: a container of its own, or a component of some kind. -/
inductive HostRole (κ : Type) where
  | container (container : κ)
  | component (kind : String)

structure HostNode (κ : Type) where
  fiber : FiberId
  role : HostRole κ

/-- Nodes side by side, each with the nodes below it. -/
inductive HostForest (κ : Type) where
  | nil
  | cons (x : HostNode κ) (below rest : HostForest κ)

/-- A render enters a node or leaves it. -/
inductive HostCall (κ : Type) where
  | enter (x : HostNode κ)
  | leave (x : HostNode κ)

variable {κ χ : Type}

namespace HostForest

/-- The nodes, each before those below it. -/
def nodes : HostForest κ → List (HostNode κ)
  | nil => []
  | cons x below rest => x :: (below.nodes ++ rest.nodes)

/-- The traversal: each node is entered before the nodes below it, and left after them. -/
def calls : HostForest κ → List (HostCall κ)
  | nil => []
  | cons x below rest => .enter x :: (below.calls ++ .leave x :: rest.calls)

end HostForest

namespace HostNode

/-- The nearest container among open nodes, and the kinds of the components inside it, outermost
first. -/
def surroundings : List (HostNode κ) → Option (κ × List String)
  | [] => none
  | ⟨_, .container container⟩ :: _ => some (container, [])
  | ⟨_, .component kind⟩ :: rest =>
    (surroundings rest).map fun (container, kinds) => (container, kinds ++ [kind])

/-- A component that is inside a container was entered there. -/
theorem exists_surroundings {opened : List (HostNode κ)} {fiber : FiberId} {kind : String}
    (inside : (surroundings (⟨fiber, .component kind⟩ :: opened)).isSome) :
    ∃ container kinds, surroundings opened = some (container, kinds) := by
  rw [surroundings, Option.isSome_map] at inside
  obtain ⟨⟨container, kinds⟩, found⟩ := Option.isSome_iff_exists.mp inside
  exact ⟨container, kinds, found⟩

theorem surroundings_cons {opened : List (HostNode κ)} (inside : (surroundings opened).isSome)
    (x : HostNode κ) : (surroundings (x :: opened)).isSome := by
  obtain ⟨fiber, role⟩ := x
  cases role with
  | container => rfl
  | component kind => rwa [surroundings, Option.isSome_map]

end HostNode

namespace HostCall

/-- The nodes that were entered, in this order. -/
def entered : List (HostCall κ) → List (HostNode κ)
  | [] => []
  | enter x :: cs => x :: entered cs
  | leave _ :: cs => entered cs

/-- The open nodes after a call, innermost first. -/
def openNext (opened : List (HostNode κ)) : HostCall κ → List (HostNode κ)
  | enter x => x :: opened
  | leave _ => opened.tail

def openAfter (opened : List (HostNode κ)) (cs : List (HostCall κ)) : List (HostNode κ) :=
  cs.foldl openNext opened

/-- The call enters a node that is not open yet, inside a container if it is none itself, or it
leaves the innermost open node. -/
def Fits (opened : List (HostNode κ)) : HostCall κ → Prop
  | enter x =>
    x.fiber ∉ opened.map HostNode.fiber ∧ (HostNode.surroundings (x :: opened)).isSome
  | leave x => ∃ rest, opened = x :: rest

def AllFit (opened : List (HostNode κ)) : List (HostCall κ) → Prop
  | [] => True
  | c :: cs => c.Fits opened ∧ AllFit (openNext opened c) cs

end HostCall

/-- The context that a component passes down, unless it equals the one that it is in. -/
def HostRules.passed [BEq χ] (rules : HostRules κ χ) (parent : χ) (kind : String) : χ :=
  let next := rules.childContext parent kind
  if next == parent then parent else next

/-- The context of components of these kinds inside a container. -/
def HostRules.contextIn [BEq χ] (rules : HostRules κ χ) (container : κ) (kinds : List String) : χ :=
  kinds.foldl rules.passed (rules.rootContext container)

namespace HostPath

def call [BEq χ] (rules : HostRules κ χ) : HostCall κ → StepM (HostPath κ χ) Unit
  | .enter ⟨fiber, .container container⟩ => StepM.change (pushContainer rules · fiber container)
  | .enter ⟨fiber, .component kind⟩ => push rules fiber kind
  | .leave ⟨fiber, .container _⟩ => popContainer fiber
  | .leave ⟨fiber, .component _⟩ => pop fiber

def run [BEq χ] (rules : HostRules κ χ) : List (HostCall κ) → StepM (HostPath κ χ) Unit
  | [] => pure ()
  | c :: cs => do
    call rules c
    run rules cs

/-- The path after all of these nodes were entered, innermost first. -/
def along [BEq χ] (rules : HostRules κ χ) (p : HostPath κ χ) : List (HostNode κ) → HostPath κ χ
  | [] => p
  | x :: rest => (call rules (.enter x) (along rules p rest)).state

variable {rules : HostRules κ χ} {p : HostPath κ χ} {opened : List (HostNode κ)} {fiber : FiberId}
  {kind : String} {parent : χ} {x : HostNode κ} {c : HostCall κ} {cs : List (HostCall κ)}

/-! ## Frames -/

theorem focus_pop {σ α : Type} {view : σ → FrameStack α} {put : FrameStack α → σ → σ} {s : σ}
    {beneath : FrameStack α} {value : α} {fiber : FiberId}
    (pushed : view s = beneath.push value fiber) :
    StepM.focus view put (FrameStack.pop fiber) s =
      { state := put beneath s, result := .ok value } := by
  simp [StepM.focus, pushed, FrameStack.pop, FrameStack.push]

/-- The context is put in force on behalf of the fiber. -/
def provide (p : HostPath κ χ) (fiber : FiberId) (context : χ) : HostPath κ χ :=
  { p with
    context := p.context.push (some context) fiber
    provider := p.provider.push (some fiber) fiber }

theorem dropContext_provide (p : HostPath κ χ) (fiber : FiberId) (context : χ) :
    dropContext fiber (p.provide fiber context) = { state := p, result := .ok () } := by
  unfold dropContext
  refine (StepM.run_bind_of_done (focus_pop (by rfl))).trans ?_
  exact StepM.run_bind_of_done (focus_pop (by rfl))

theorem popContainer_pushContainer (p : HostPath κ χ) (fiber : FiberId) (container : κ) :
    popContainer fiber (p.pushContainer rules fiber container) =
      { state := p, result := .ok () } := by
  let inside := { p with container := p.container.push (some container) fiber }
  have dropped := inside.dropContext_provide fiber (rules.rootContext container)
  unfold popContainer
  refine (StepM.run_bind_of_done dropped).trans ?_
  exact StepM.run_bind_of_done (focus_pop (by rfl))

/-- A component that put nothing in force takes nothing away. -/
theorem pop_of_ne (other : p.provider.current ≠ some fiber) :
    pop fiber p = { state := p, result := .ok () } := by
  unfold pop
  rw [StepM.run_look_bind, if_neg other]
  rfl

theorem pop_provide (p : HostPath κ χ) (fiber : FiberId) (context : χ) :
    pop fiber (p.provide fiber context) = { state := p, result := .ok () } := by
  unfold pop
  rw [StepM.run_look_bind, if_pos (by rfl)]
  exact dropContext_provide p fiber context

variable [BEq χ]

/-- A component that passes down another context puts it in force. -/
theorem push_of_some (rules : HostRules κ χ) (fiber : FiberId) (kind : String)
    (inside : p.context.current = some parent) :
    push rules fiber kind p =
      { state :=
          if rules.childContext parent kind == parent then p
          else p.provide fiber (rules.childContext parent kind)
        result := .ok () } := by
  unfold push
  rw [StepM.run_look_bind, inside]
  dsimp only
  split <;> rfl

/-! ## What is in force along open nodes -/

/-- In force are the nearest container, and the context that was passed down from it. One of the
open nodes put it in force. -/
theorem along_surroundings (rules : HostRules κ χ) (p : HostPath κ χ) {container : κ}
    {kinds : List String} (inside : HostNode.surroundings opened = some (container, kinds)) :
    let q := along rules p opened
    q.container.current = some container ∧
      q.context.current = some (rules.contextIn container kinds) ∧
      ∃ y ∈ opened, q.provider.current = some y.fiber := by
  intro q
  induction opened generalizing kinds with
  | nil => cases inside
  | cons x rest ih =>
    obtain ⟨fiber, role⟩ := x
    cases role with
    | container =>
      cases inside
      exact ⟨rfl, rfl, _, .head _, rfl⟩
    | component kind =>
      obtain ⟨⟨_, above⟩, outside, same⟩ := Option.map_eq_some_iff.mp inside
      cases same
      obtain ⟨nearest, context, y, mem, provider⟩ := ih outside
      have state : q = _ := congrArg Outcome.state (push_of_some rules fiber kind context)
      have passed : rules.contextIn container (above ++ [kind]) =
          rules.passed (rules.contextIn container above) kind := by
        simp [HostRules.contextIn]
      rw [state, passed, HostRules.passed]
      dsimp only
      split
      · exact ⟨nearest, context, y, .tail _ mem, provider⟩
      · exact ⟨nearest, rfl, _, .head _, rfl⟩

/-! ## Calls that fit -/

/-- The calls that entered the open nodes, outermost first, all fit. -/
inductive Orderly : List (HostNode κ) → Prop
  | nil : Orderly []
  | cons {x : HostNode κ} {opened : List (HostNode κ)} :
      (HostCall.enter x).Fits opened → Orderly opened → Orderly (x :: opened)

theorem Orderly.openNext (orderly : Orderly opened) (fits : c.Fits opened) :
    Orderly (c.openNext opened) := by
  cases c with
  | enter x => exact .cons fits orderly
  | leave x =>
    obtain ⟨rest, rfl⟩ := fits
    cases orderly with
    | cons _ orderly => exact orderly

theorem Orderly.openAfter (orderly : Orderly opened) (fit : HostCall.AllFit opened cs) :
    Orderly (HostCall.openAfter opened cs) := by
  induction cs generalizing opened with
  | nil => exact orderly
  | cons c cs ih => exact ih (orderly.openNext fit.1) fit.2

/-- A call that fits is carried out. What is in force then is what the open nodes put in force. -/
theorem call_of_fits (orderly : Orderly opened) (fits : c.Fits opened) :
    call rules c (along rules p opened) =
      { state := along rules p (c.openNext opened), result := .ok () } := by
  cases c with
  | enter x =>
    obtain ⟨fiber, role⟩ := x
    cases role with
    | container => rfl
    | component kind =>
      obtain ⟨_, _, inside⟩ := HostNode.exists_surroundings fits.2
      obtain ⟨-, context, -⟩ := along_surroundings rules p inside
      have entered := push_of_some rules fiber kind context
      show push rules fiber kind _ = { state := (push rules fiber kind _).state, result := _ }
      rw [entered]
  | leave x =>
    obtain ⟨rest, rfl⟩ := fits
    cases orderly with
    | cons fits orderly =>
      obtain ⟨fiber, role⟩ := x
      cases role with
      | container => exact popContainer_pushContainer ..
      | component kind =>
        obtain ⟨_, _, inside⟩ := HostNode.exists_surroundings fits.2
        obtain ⟨-, context, y, mem, provider⟩ := along_surroundings rules p inside
        show pop fiber (push rules fiber kind _).state = _
        rw [push_of_some rules fiber kind context]
        dsimp only
        split
        · refine pop_of_ne fun same => fits.1 ?_
          rw [provider] at same
          exact List.mem_map.mpr ⟨y, mem, Option.some.inj same⟩
        · exact pop_provide ..

theorem run_of_allFit (orderly : Orderly opened) (fit : HostCall.AllFit opened cs) :
    run rules cs (along rules p opened) =
      { state := along rules p (HostCall.openAfter opened cs), result := .ok () } := by
  induction cs generalizing opened with
  | nil => rfl
  | cons c cs ih =>
    refine (StepM.run_bind_of_done (call_of_fits orderly fit.1)).trans ?_
    exact ih (orderly.openNext fit.1) fit.2

end HostPath

/-! ## Traversals -/

namespace HostCall

variable {opened : List (HostNode κ)} {cs cs' : List (HostCall κ)} {x : HostNode κ}

@[simp] theorem entered_append : entered (cs ++ cs') = entered cs ++ entered cs' := by
  induction cs with
  | nil => rfl
  | cons c cs ih => cases c <;> simp [entered, ih]

theorem openAfter_append :
    openAfter opened (cs ++ cs') = openAfter (openAfter opened cs) cs' := List.foldl_append

theorem allFit_append :
    AllFit opened (cs ++ cs') ↔ AllFit opened cs ∧ AllFit (openAfter opened cs) cs' := by
  induction cs generalizing opened with
  | nil => simp [AllFit, openAfter]
  | cons c cs ih =>
    simp only [List.cons_append, AllFit, ih, and_assoc]
    rfl

/-- Nodes that are open were entered or open before, the last one entered first. -/
theorem openAfter_sublist (opened : List (HostNode κ)) (cs : List (HostCall κ)) :
    List.Sublist (openAfter opened cs) ((entered cs).reverse ++ opened) := by
  induction cs generalizing opened with
  | nil => exact .refl _
  | cons c cs ih =>
    cases c with
    | enter x =>
      rw [entered, List.reverse_cons, List.append_assoc]
      exact ih (x :: opened)
    | leave x =>
      have fewer : List.Sublist opened.tail opened := List.tail_sublist _
      exact (ih opened.tail).trans ((List.Sublist.refl _).append fewer)

/-- When a node is left, the open nodes are those of before it was entered. -/
theorem openAfter_of_return (others : List (HostNode κ))
    (fit : AllFit (others ++ x :: opened) (cs ++ [.leave x]))
    (once : (((entered cs).reverse ++ (others ++ x :: opened)).map
      HostNode.fiber).Nodup) :
    openAfter (others ++ x :: opened) (cs ++ [.leave x]) = opened := by
  induction cs generalizing others with
  | nil =>
    obtain ⟨⟨rest, innermost⟩, -⟩ := fit
    cases others with
    | nil => rfl
    | cons y others =>
      cases innermost
      simp [entered] at once
  | cons c cs ih =>
    cases c with
    | enter y => exact ih (y :: others) fit.2 (by simpa [entered] using once)
    | leave y =>
      obtain ⟨⟨rest, innermost⟩, fit⟩ := fit
      cases others with
      | cons z others =>
        refine ih others fit (once.sublist ?_)
        exact (((List.sublist_cons_self _ _).append_left _).map _)
      | nil =>
        -- The node would have been left already, and entered once more.
        cases innermost
        obtain ⟨-, ⟨rest, open_again⟩, -⟩ := allFit_append.mp fit
        have mem : x ∈ openAfter opened cs := by
          rw [show openAfter opened cs = _ from open_again]
          exact .head _
        have apart := ((List.perm_middle.map _).nodup_iff.mp once)
        exact absurd (List.mem_map_of_mem ((openAfter_sublist opened cs).subset mem))
          (List.nodup_cons.mp apart).1

/-- Among nodes with distinct fibers, those are open after one was left that were open before it
was entered. -/
theorem openAfter_of_left
    (fit : AllFit [] (cs ++ .enter x :: (cs' ++ [.leave x])))
    (once : ((entered (cs ++ .enter x :: (cs' ++ [.leave x]))).map HostNode.fiber).Nodup) :
    openAfter [] (cs ++ .enter x :: (cs' ++ [.leave x])) = openAfter [] cs := by
  obtain ⟨-, -, fitLater⟩ := allFit_append.mp fit
  have reversed : (((entered cs').reverse ++ x :: (entered cs).reverse).map
      HostNode.fiber).Nodup := by
    rw [← List.nodup_reverse, ← List.map_reverse]
    simpa [entered] using once
  have fewer : List.Sublist (openAfter [] cs) (entered cs).reverse := by
    simpa using openAfter_sublist [] cs
  rw [openAfter_append]
  refine openAfter_of_return [] fitLater (reversed.sublist ?_)
  exact (((fewer.cons_cons x).append_left _).map _)

end HostCall

namespace HostForest

variable {opened : List (HostNode κ)}

@[simp] theorem entered_calls (F : HostForest κ) : HostCall.entered F.calls = F.nodes := by
  induction F with
  | nil => rfl
  | cons x below rest below_ih rest_ih =>
    simp [calls, nodes, HostCall.entered, below_ih, rest_ih]

/-- A traversal of nodes inside a container fits, and leaves all that it entered. -/
theorem allFit_calls (F : HostForest κ) (inside : (HostNode.surroundings opened).isSome)
    (once : ((F.nodes ++ opened).map HostNode.fiber).Nodup) :
    HostCall.AllFit opened F.calls ∧ HostCall.openAfter opened F.calls = opened := by
  induction F generalizing opened with
  | nil => exact ⟨trivial, rfl⟩
  | cons x below rest below_ih rest_ih =>
    have deeper := HostNode.surroundings_cons inside x
    have once : ((x :: (below.nodes ++ rest.nodes) ++ opened).map HostNode.fiber).Nodup := once
    have belowOnce : ((below.nodes ++ x :: opened).map HostNode.fiber).Nodup := by
      refine (List.perm_middle.map _).nodup_iff.mpr (once.sublist (.map _ (.cons_cons x ?_)))
      exact (List.sublist_append_left _ _).append_right _
    have restOnce : ((rest.nodes ++ opened).map HostNode.fiber).Nodup := by
      refine once.sublist (.map _ (.cons x ?_))
      exact (List.sublist_append_right _ _).append_right _
    have apart : x.fiber ∉ opened.map HostNode.fiber := fun mem =>
      (List.nodup_cons.mp once).1 (List.map_subset _ (List.subset_append_right _ _) mem)
    obtain ⟨belowFit, belowOpen⟩ := below_ih deeper belowOnce
    obtain ⟨restFit, restOpen⟩ := rest_ih inside restOnce
    have allFit : HostCall.AllFit opened (cons x below rest).calls := by
      refine ⟨⟨apart, deeper⟩, HostCall.allFit_append.mpr ⟨belowFit, ?_⟩⟩
      show HostCall.AllFit (HostCall.openAfter (x :: opened) below.calls) _
      rw [belowOpen]
      exact ⟨⟨opened, rfl⟩, restFit⟩
    refine ⟨allFit, ?_⟩
    show HostCall.openAfter (x :: opened) (below.calls ++ .leave x :: rest.calls) = opened
    rw [HostCall.openAfter_append, belowOpen]
    exact restOpen

/-- The traversal of a tree that is a container. -/
def tour (root : FiberId) (top : κ) (below : HostForest κ) : List (HostCall κ) :=
  (cons ⟨root, .container top⟩ below nil).calls

variable {root : FiberId} {top : κ} {below : HostForest κ}

theorem entered_tour :
    HostCall.entered (below.tour root top) = ⟨root, .container top⟩ :: below.nodes := by
  simp [tour, nodes]

theorem allFit_tour (once : (root :: below.nodes.map HostNode.fiber).Nodup) :
    HostCall.AllFit [] (below.tour root top) := by
  let outermost : HostNode κ := ⟨root, .container top⟩
  have once : ((below.nodes ++ [outermost]).map HostNode.fiber).Nodup :=
    ((List.perm_append_singleton _ _).map _).nodup_iff.mpr once
  have inside : (HostNode.surroundings [outermost]).isSome := rfl
  obtain ⟨fit, leaves⟩ := allFit_calls below inside once
  refine ⟨⟨nofun, rfl⟩, HostCall.allFit_append.mpr ⟨fit, ?_⟩⟩
  show HostCall.AllFit (HostCall.openAfter [outermost] below.calls) _
  rw [leaves]
  exact ⟨⟨[], rfl⟩, trivial⟩

theorem nodup_entered {before after : List (HostCall κ)}
    (once : (root :: below.nodes.map HostNode.fiber).Nodup)
    (tour : below.tour root top = before ++ after) :
    ((HostCall.entered before).map HostNode.fiber).Nodup := by
  have all : ((HostCall.entered (below.tour root top)).map HostNode.fiber).Nodup := by
    rw [entered_tour]
    exact once
  rw [tour, HostCall.entered_append] at all
  exact all.sublist ((List.sublist_append_left _ _).map _)

end HostForest

/-! ## Contexts that equal each other -/

namespace HostRules

variable [BEq χ] (rules : HostRules κ χ) (container : κ) (kinds : List String)

/-- The context of components of these kinds inside a container, if each of them passes its own
one down. -/
def foldedIn : χ := kinds.foldl rules.childContext (rules.rootContext container)

/-- Inside the container, no component passes down a context that equals the one it is in, and yet
is another one. -/
def Discerns : Prop :=
  ∀ kinds kind, let parent := rules.foldedIn container kinds
    rules.childContext parent kind == parent → rules.childContext parent kind = parent

variable {rules container kinds}

theorem passed_eq_iff {parent : χ} {kind : String} :
    rules.passed parent kind = rules.childContext parent kind ↔
      (rules.childContext parent kind == parent → rules.childContext parent kind = parent) := by
  unfold passed
  dsimp only
  split
  next same => simp only [same, true_imp_iff, eq_comm]
  next other => simp [other]

/-- The contexts passed down are what the components make of them one by one, just if no context
is taken for another one. -/
theorem contextIn_eq_iff :
    (∀ kinds, rules.contextIn container kinds = rules.foldedIn container kinds) ↔
      rules.Discerns container := by
  have last (kinds : List String) (kind : String)
      (above : rules.contextIn container kinds = rules.foldedIn container kinds) :
      rules.contextIn container (kinds ++ [kind]) = rules.foldedIn container (kinds ++ [kind]) ↔
        rules.passed (rules.foldedIn container kinds) kind =
          rules.childContext (rules.foldedIn container kinds) kind := by
    rw [contextIn, foldedIn, List.foldl_concat, List.foldl_concat, ← contextIn, ← foldedIn, above]
  constructor
  · intro same kinds kind
    exact passed_eq_iff.mp ((last kinds kind (same kinds)).mp (same _))
  · intro discerns kinds
    induction kinds using List.reverseRecOn with
    | nil => rfl
    | append_singleton kinds kind ih =>
      exact (last kinds kind ih).mpr (passed_eq_iff.mpr (discerns kinds kind))

end HostRules

namespace HostPath

/-- At any point of a traversal of a tree with distinct fibers, all calls were carried out, and
nothing was reported. Inside a node, the nearest container is in force, and so is the context that
was passed down from it. This is what the components make of the context of the container one by
one, just if equal contexts are the same. Outside of all nodes the path is as it was before the
traversal, and whenever a node is left, it is as it was before the node was entered. -/
theorem context_follows_path [BEq χ] (rules : HostRules κ χ) (p : HostPath κ χ) {root : FiberId}
    {top : κ} {below : HostForest κ} {before after : List (HostCall κ)}
    (once : (root :: below.nodes.map HostNode.fiber).Nodup)
    (tour : below.tour root top = before ++ after) :
    let opened := HostCall.openAfter [] before
    let out := run rules before p
    (out.result = .ok () ∧ out.notices = []) ∧
    (opened = [] ∧ out.state = p ∨
      ∃ container kinds, HostNode.surroundings opened = some (container, kinds) ∧
        out.state.container.current = some container ∧
        out.state.context.current = some (rules.contextIn container kinds) ∧
        ((∀ kinds, rules.contextIn container kinds = rules.foldedIn container kinds) ↔
          rules.Discerns container)) ∧
    ∀ x earlier between, before = earlier ++ .enter x :: (between ++ [.leave x]) →
      out.state = (run rules earlier p).state := by
  intro opened out
  have fit : HostCall.AllFit [] before := by
    have all : HostCall.AllFit [] (below.tour root top) := HostForest.allFit_tour once
    rw [tour] at all
    exact (HostCall.allFit_append.mp all).1
  have ran {cs : List (HostCall κ)} (fit : HostCall.AllFit [] cs) :
      run rules cs p = { state := along rules p (HostCall.openAfter [] cs), result := .ok () } :=
    run_of_allFit .nil fit
  have state : out.state = along rules p opened := congrArg Outcome.state (ran fit)
  refine ⟨⟨congrArg Outcome.result (ran fit), congrArg Outcome.notices (ran fit)⟩, ?_, ?_⟩
  · rw [state]
    have orderly : Orderly opened := .openAfter .nil fit
    cases inner : opened with
    | nil => exact .inl ⟨rfl, rfl⟩
    | cons x rest =>
      rw [inner] at orderly
      cases orderly with
      | cons fits _ =>
        obtain ⟨⟨container, kinds⟩, inside⟩ := Option.isSome_iff_exists.mp fits.2
        obtain ⟨nearest, context, -⟩ := along_surroundings rules p inside
        exact .inr ⟨container, kinds, inside, nearest, context, HostRules.contextIn_eq_iff⟩
  · rintro x earlier between rfl
    rw [state, ran (HostCall.allFit_append.mp fit).1]
    have same : opened = HostCall.openAfter [] earlier :=
      HostCall.openAfter_of_left fit (HostForest.nodup_entered once tour)
    rw [same]

/-- Inside a drawing, a component passes down the context it is in, and a container of another name
is mounted below it. Its components do not see the drawing, and the drawing goes on behind it. -/
theorem context_follows_path_of_portal :
    let portal : HostForest String :=
      .cons ⟨⟨3⟩, .container "overlay"⟩ (.cons ⟨⟨4⟩, .component "math"⟩ .nil .nil) .nil
    let below : HostForest String :=
      .cons ⟨⟨1⟩, .component "svg"⟩ (.cons ⟨⟨2⟩, .component "g"⟩ portal .nil) .nil
    let before := (below.tour ⟨0⟩ "app").take 5
    let later := (below.tour ⟨0⟩ "app").take 8
    let state (cs : List (HostCall String)) : HostPath String String :=
      (run HostRules.namespaces cs {}).state
    ((state before).container.current = some "overlay" ∧
      (state before).context.current = some "math") ∧
    ((state later).container.current = some "app" ∧
      (state later).context.current = some "svg" ∧ state later = state (before.take 2)) := by
  intro portal below before later state
  have once : ((⟨0⟩ : FiberId) :: below.nodes.map HostNode.fiber).Nodup := by decide
  have apart (n : Nat) := context_follows_path HostRules.namespaces ({} : HostPath String String)
    once (List.take_append_drop n (below.tour ⟨0⟩ "app")).symm
  constructor
  · obtain ⟨-, none | ⟨_, _, inside, nearest, context, -⟩, -⟩ := apart 5
    · cases none.1
    · obtain ⟨rfl, rfl⟩ := Prod.mk.inj (Option.some.inj inside)
      exact ⟨nearest, context.trans (by decide +kernel)⟩
  · obtain ⟨-, none | ⟨_, _, inside, nearest, context, -⟩, returns⟩ := apart 8
    · cases none.1
    · obtain ⟨rfl, rfl⟩ := Prod.mk.inj (Option.some.inj inside)
      exact ⟨nearest, context.trans (by decide +kernel),
        returns ⟨⟨2⟩, .component "g"⟩ (before.take 2) portal.calls rfl⟩

/-- The zeros of a number with a sign. They equal each other. -/
inductive SignedZero where
  | positive
  | negative

instance : BEq SignedZero := ⟨fun _ _ => true⟩

def SignedZero.negated : SignedZero → SignedZero
  | positive => negative
  | negative => positive

/-- A component that passes the zero it is in down with the other sign. The two are equal, so the
sign inside it is that outside of it. -/
theorem context_of_signed_zeros :
    let rules : HostRules String SignedZero :=
      { rootContext := fun _ => .positive, childContext := fun parent _ => parent.negated }
    let below : HostForest String := .cons ⟨⟨1⟩, .component "negate"⟩ .nil .nil
    let before := (below.tour ⟨0⟩ "app").take 2
    ((⟨0⟩ : FiberId) :: below.nodes.map HostNode.fiber).Nodup ∧
      HostNode.surroundings (HostCall.openAfter [] before) = some ("app", ["negate"]) ∧
      (run rules before {}).state.context.current = some .positive ∧
      ["negate"].foldl rules.childContext (rules.rootContext "app") = .negative := by
  intro rules below before
  exact ⟨by decide, rfl, rfl, rfl⟩

end HostPath

end ConcurrentRender
