import ConcurrentRender.Lane.Ledger
import ConcurrentRender.Settings.Json
import ConcurrentRender.Task.Queue

/-!
# Settings of a renderer

`Settings` holds the tunables. All of them have defaults, so an empty JSON object is a
complete settings text. `Settings.ofText` reads and checks such a text, and
`Settings.ofJson?` reads a JSON value without checking the limits.

A record may be written as an object or as the list of its fields in order, of which the
last ones may be left out. Members that the settings do not know are ignored. A member
that they know may be given once only.
-/

namespace ConcurrentRender

/-- Which of the two values of a context a renderer sees. Two renderers that work on one
set of contexts use different slots. -/
inductive Slot where
  | primary
  | secondary
deriving DecidableEq, Inhabited

namespace Slot

def text : Slot → String
  | primary => "primary"
  | secondary => "secondary"

def ofText? (s : String) : Option Slot := [primary, secondary].find? fun slot => slot.text == s

theorem ofText?_text (slot : Slot) : ofText? slot.text = some slot := by
  cases slot <;> rfl

end Slot

structure Settings where
  /-- How many commits in a row, each leaving blocking work, one root may see. -/
  nestedUpdateLimit : Nat := 50
  /-- How many times in a row a component may render again. -/
  rerenderLimit : Nat := 25
  slot : Slot := .primary
  expiration : Timeouts := {}
  /-- Whether a transition shows the default indicator. -/
  defaultTransitionIndicator : Bool := true
  diagnostics : Bool := true
  /-- How urgent it is to abort a cache that nothing uses any more. -/
  cacheAbortPriority : TaskPriority := .low
deriving DecidableEq, Inhabited

/-- Why a settings text is refused. -/
inductive SettingsError where
  /-- The text is no JSON or does not describe settings. -/
  | malformed
  /-- The limit of this name is zero, which would make every update fail. -/
  | zeroLimit (field : String)
deriving DecidableEq

def SettingsError.message : SettingsError → String
  | malformed => "Malformed settings"
  | zeroLimit field => "Config value `" ++ field ++ "` must be greater than zero"

namespace Json

/-- A natural number of at most `bits` bits. -/
def natural? (bits : Nat) : Json → Option Nat
  | number (some n) => if 0 ≤ n ∧ n.toNat < Nat.pow 2 bits then some n.toNat else none
  | _ => none

def bool? : Json → Option Bool
  | bool b => some b
  | _ => none

def text? : Json → Option String
  | string content? => content?
  | _ => none

def list? : Json → Option (List Json)
  | list items => some items
  | _ => none

/-- The name of a choice, written as a string or as an object that maps it to null. -/
def choice? : Json → Option String
  | string content? => content?
  | object [(name?, null)] => name?
  | _ => none

/-- What an object says about the field `name`: nothing or one value. -/
def field? (members : List (Option String × Json)) (name : String) : Option (Option Json) :=
  match members.filter fun m => m.1 == some name with
  | [] => some none
  | [(_, value)] => some (some value)
  | _ => none

/-- The only member of an object that has this name. -/
def member? (name : String) : Json → Option Json
  | object members => (field? members name).join
  | _ => none

/-- The fields of a record, in the given order. Those left out are `none`. -/
def fields? (names : List String) : Json → Option (List (Option Json))
  | object members =>
    if members.all fun m => m.1.isSome then names.mapM (field? members) else none
  | list items =>
    if items.length ≤ names.length then
      some (items.map some ++ List.replicate (names.length - items.length) none)
    else none
  | _ => none

/-- Reads a field, or takes the default if it is left out. -/
def orDefault {α : Type} (read? : Json → Option α) (default : α) : Option Json → Option α
  | none => some default
  | some json => read? json

end Json

def Slot.ofJson? (json : Json) : Option Slot := json.choice?.bind Slot.ofText?

def TaskPriority.ofJson? (json : Json) : Option TaskPriority :=
  json.choice?.bind TaskPriority.ofText?

def Timeouts.ofJson? (json : Json) : Option Timeouts :=
  let unset : Timeouts := {}
  match json.fields? ["sync_ms", "transition_ms"] with
  | some [sync, transition] => do
    let sync ← Json.orDefault (Json.natural? 64) unset.sync sync
    let transition ← Json.orDefault (Json.natural? 64) unset.transition transition
    return { sync, transition }
  | _ => none

namespace Settings

def fieldNames : List String :=
  ["nested_update_limit", "rerender_limit", "renderer_slot", "expiration",
   "default_transition_indicator", "diagnostics", "cache_abort_priority"]

def ofJson? (json : Json) : Option Settings :=
  let unset : Settings := {}
  match json.fields? fieldNames with
  | some [nested, rerender, slot, expiration, indicator, diagnostics, abort] => do
    let nestedUpdateLimit ← Json.orDefault (Json.natural? 32) unset.nestedUpdateLimit nested
    let rerenderLimit ← Json.orDefault (Json.natural? 32) unset.rerenderLimit rerender
    let slot ← Json.orDefault Slot.ofJson? unset.slot slot
    let expiration ← Json.orDefault Timeouts.ofJson? unset.expiration expiration
    let defaultTransitionIndicator ←
      Json.orDefault Json.bool? unset.defaultTransitionIndicator indicator
    let diagnostics ← Json.orDefault Json.bool? unset.diagnostics diagnostics
    let cacheAbortPriority ←
      Json.orDefault TaskPriority.ofJson? unset.cacheAbortPriority abort
    return {
      nestedUpdateLimit, rerenderLimit, slot, expiration, defaultTransitionIndicator,
      diagnostics, cacheAbortPriority }
  | _ => none

/-- The limits must allow something. -/
def check (s : Settings) : Except SettingsError Unit :=
  if s.nestedUpdateLimit = 0 then .error (.zeroLimit "nested_update_limit")
  else if s.rerenderLimit = 0 then .error (.zeroLimit "rerender_limit")
  else .ok ()

def ofText (text : String) : Except SettingsError Settings := do
  match (Json.ofText? text).bind ofJson? with
  | none => .error .malformed
  | some settings =>
    settings.check
    return settings

end Settings

end ConcurrentRender
