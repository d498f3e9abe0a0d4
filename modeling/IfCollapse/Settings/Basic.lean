import IfCollapse.Settings.Mode
import IfCollapse.Toml.Document

/-!
Settings, read from a TOML document: modes and properties of rules by name.
-/

namespace IfCollapse

structure Settings where
  /-- Apply fixes that may change the meaning of a program. -/
  riskyFixes : Bool := false
  /-- By name, ascending. -/
  modes : List (String × Mode) := []
  /-- Properties by the name of the rule, ascending; the keys of each are ascending too. -/
  rules : List (String × List (String × String)) := []
  deriving DecidableEq, Repr

inductive SettingsError where
  /-- The text is no TOML document, or a value is not of the kind that its key asks for. -/
  | malformed
  | unknownMode (text : List Char)
  deriving DecidableEq, Repr

def SettingsError.message? : SettingsError → Option String
  | .malformed => none
  | .unknownMode text =>
    some ("Invalid rule mode: " ++ String.ofList text ++
      ". Expected fix, check, suggest, or disabled")

namespace Settings

open Toml

mutual

/-- Whether all numbers in a value are in range: integers between the bounds, others finite as
numbers of double precision. -/
def fits (low high : Int) : Value → Bool
  | .integer n => low ≤ n && n ≤ high
  | .real x => x.render?.isSome
  | .array items => itemsFit low high items
  | .table entries => entriesFit low high entries
  | _ => true

def itemsFit (low high : Int) : List Value → Bool
  | [] => true
  | v :: items => fits low high v && itemsFit low high items

def entriesFit (low high : Int) : List (String × Value) → Bool
  | [] => true
  | entry :: entries => entryFits low high entry && entriesFit low high entries

def entryFits (low high : Int) : String × Value → Bool
  | (_, v) => fits low high v

end

/-- A value under a key without meaning has to be readable all the same. -/
def skip (v : Value) : Except SettingsError Unit :=
  if fits (-Int.pow 2 127) (Int.pow 2 128 - 1) v then .ok () else .error .malformed

def dateTimeKey : String := "$__toml_private_datetime"

/-- The entries of a table. A point in time counts as a table with one entry. -/
def entriesOf : Value → Except SettingsError (List (String × Value))
  | .table entries => .ok entries
  | .dateTime d => .ok [(dateTimeKey, .string d.render)]
  | _ => .error .malformed

mutual

/-- A value in which every table that stands for a point in time has become one: a table whose
least key is `dateTimeKey`. Its other entries do not count; there is none unless the text under the
key is a point in time. -/
def timed? : Value → Option Value
  | .array items => (timedItems? items).map .array
  | .table ((key, v) :: entries) =>
    if key = dateTimeKey then
      match v with
      | .string text => (dateTime? text).map .dateTime
      | _ => none
    else do
      return .table ((key, ← timed? v) :: (← timedEntries? entries))
  | v => some v

def timedItems? : List Value → Option (List Value)
  | [] => some []
  | v :: items => do return (← timed? v) :: (← timedItems? items)

def timedEntries? : List (String × Value) → Option (List (String × Value))
  | [] => some []
  | (key, v) :: entries => do return (key, ← timed? v) :: (← timedEntries? entries)

end

def propertyText? : Value → Option (List Char)
  | .string text => some text
  | v => do
    let v ← timed? v
    if fits (-Int.pow 2 63) (Int.pow 2 63 - 1) v then v.render? else none

def modeOf : Value → Except SettingsError Mode
  | .string text =>
    match Mode.ofText? text with
    | some mode => .ok mode
    | none => .error (.unknownMode text)
  | _ => .error .malformed

def modesOf (v : Value) : Except SettingsError (List (String × Mode)) := do
  (← entriesOf v).mapM fun (name, v) => do return (name, ← modeOf v)

def flagOf : Value → Except SettingsError Bool
  | .boolean b => .ok b
  | _ => .error .malformed

def propertiesOf (v : Value) : Except SettingsError (List (String × String)) := do
  (← entriesOf v).mapM fun (key, v) =>
    match propertyText? v with
    | some text => .ok (key, String.ofList text)
    | none => .error .malformed

def rulesOf (v : Value) : Except SettingsError (List (String × List (String × String))) := do
  (← entriesOf v).mapM fun (name, v) => do return (name, ← propertiesOf v)

/-- The entries on fixing: a table, or a list with the flag and the modes in this order. -/
def readFix (s : Settings) : Value → Except SettingsError Settings
  | .array [] => .ok s
  | .array [flag] => do return { s with riskyFixes := ← flagOf flag }
  | .array (flag :: modes :: _) => do
    return { s with riskyFixes := ← flagOf flag, modes := ← modesOf modes }
  | v => do
    (← entriesOf v).foldlM (fun s (key, v) => do
      if key = "rules" then return { s with modes := ← modesOf v }
      else if key = "unsafe_fixes" then return { s with riskyFixes := ← flagOf v }
      else do
        skip v
        return s) s

/-- Of several errors the one under the least key counts. -/
def ofValue (v : Value) : Except SettingsError Settings := do
  (← entriesOf v).foldlM (fun s (key, v) => do
    if key = "fix" then s.readFix v
    else if key = "rules" then return { s with rules := ← rulesOf v }
    else do
      skip v
      return s) {}

def read (text : List Char) : Except SettingsError Settings :=
  match document? text with
  | some v => ofValue v
  | none => .error .malformed

def mode (s : Settings) (name : String) : Mode :=
  (s.modes.lookup name).getD .fix

def isEnabled (s : Settings) (name : String) : Bool :=
  (s.mode name).isEnabled

def fixes (s : Settings) (name : String) : Bool :=
  (s.mode name).fixes

def properties (s : Settings) (name : String) : List (String × String) :=
  (s.rules.lookup name).getD []

def mentioned (s : Settings) : List String :=
  s.rules.map (·.1) ++ s.modes.map (·.1)

end Settings

end IfCollapse
