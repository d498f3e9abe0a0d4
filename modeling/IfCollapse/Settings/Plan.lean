import IfCollapse.Lint.Rule
import IfCollapse.Settings.Basic

/-!
The plan of a run: the built-in rules together with what the settings say.
-/

namespace IfCollapse

structure PlannedRule where
  name : String
  properties : List (String × String)
  mode : Mode
  deriving DecidableEq, Repr

structure Plan where
  rules : List PlannedRule
  riskyFixes : Bool
  /-- The file that the settings come from. -/
  source : Option String
  deriving DecidableEq, Repr

namespace Plan

def addNames (names new : List String) : List String :=
  new.foldl (fun names name => if names.contains name then names else names ++ [name]) names

/-- Built-in rules come first. Rules that only the settings name are kept too. -/
def make (builtin : List String) (settings : Settings) (source : Option String) : Plan where
  rules := (addNames builtin settings.mentioned).map fun name =>
    ⟨name, settings.properties name, settings.mode name⟩
  riskyFixes := settings.riskyFixes
  source := source

def enabled (p : Plan) : List PlannedRule :=
  p.rules.filter (·.mode.isEnabled)

def get? (p : Plan) (name : String) : Option PlannedRule :=
  p.rules.find? (·.name = name)

def isEnabled (p : Plan) (name : String) : Bool :=
  (p.get? name).any (·.mode.isEnabled)

def rulesFrom (p : Plan) (registry : Lint.Registry) : List Lint.Rule :=
  p.enabled.filterMap fun rule => registry.create? rule.name rule.properties

def warnings (p : Plan) (registry : Lint.Registry) : List Event :=
  (p.enabled.filter fun rule => !registry.has rule.name).map fun rule =>
    ⟨.warn, .registry, "unknown rule, skipping", [("rule", rule.name)]⟩

end Plan

end IfCollapse
