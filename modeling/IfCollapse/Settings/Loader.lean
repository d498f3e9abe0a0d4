import IfCollapse.Files
import IfCollapse.Settings.Plan

/-!
Finding and loading the file with the settings.
-/

namespace IfCollapse

structure Loader where
  path : Option String := none
  /-- The path was asked for, so it has to exist. -/
  explicit : Bool := false
  deriving DecidableEq, Repr

inductive LoadError where
  | missing (path : String)
  | unreadable (why : ReadError)
  | settings (why : SettingsError)
  deriving DecidableEq, Repr

namespace LoadError

/-- What follows the prelude for malformed settings is left open. -/
def message : LoadError → String
  | .missing path => "Config file not found: " ++ path
  | .unreadable why => "Failed to read config file: " ++ why.message
  | .settings why => "Failed to parse TOML: " ++ why.message?.getD ""

def cause? : LoadError → Option String
  | .missing _ => none
  | .unreadable why => some why.message
  | .settings why => some (why.message?.getD "")

end LoadError

namespace Loader

def candidates : List String :=
  ["ternlint.toml", ".ternlint.toml", "config/ternlint.toml"]

def choose (_ : Loader) (path : String) : Loader :=
  ⟨some path, true⟩

def findIn (loader : Loader) (files : Files) (root : String) : Loader :=
  match loader.path with
  | some _ => loader
  | none => { loader with path := (candidates.map (Files.join root)).find? files.has }

/-- The plan with the settings of the chosen file, or with default settings if there is none. -/
def load (loader : Loader) (files : Files) (builtin : List String) : Except LoadError Plan :=
  match loader.path with
  | none => .ok (Plan.make builtin {} none)
  | some path =>
    if files.has path then
      match files.read path with
      | .error why => .error (.unreadable why)
      | .ok text =>
        match Settings.read text with
        | .error why => .error (.settings why)
        | .ok settings => .ok (Plan.make builtin settings (some path))
    else if loader.explicit then .error (.missing path)
    else .ok (Plan.make builtin {} none)

def events (p : Plan) : List Event :=
  p.source.toList.map fun path => ⟨.info, .settings, "loaded configuration", [("path", path)]⟩

end Loader

end IfCollapse
