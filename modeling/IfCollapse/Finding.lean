import IfCollapse.Edit

/-!
Findings: an `if` statement that can be replaced with conditional expressions.
-/

namespace IfCollapse

inductive Extent where
  /-- One conditional expression in one statement. -/
  | simple
  | complex
  deriving DecidableEq, Repr

def Extent.name : Extent → String
  | .simple => "simple"
  | .complex => "complex"

inductive Severity where
  | info
  | warning
  deriving DecidableEq, Repr

def Severity.name : Severity → String
  | .info => "info"
  | .warning => "warning"

structure Finding where
  sites : Nat
  extent : Extent
  span : Span
  fix : Option Fix := none
  deriving DecidableEq, Repr

namespace Finding

def code : String := "IfToTernaryViolation"

def message (f : Finding) : String :=
  match f.extent, f.sites with
  | .simple, _ => "'if' statement can be replaced with a conditional expression."
  | .complex, 1 => "'if' statement can be replaced with 1 conditional expression."
  | .complex, n => "'if' statement can be replaced with " ++ toString n ++ " conditional expressions."

def suggestion (f : Finding) : String :=
  if f.sites = 1 then "Replace with conditional expression"
  else "Replace with conditional expressions"

def severity (f : Finding) : Severity :=
  match f.extent with
  | .simple => .warning
  | .complex => .info

def parameters (f : Finding) : List (String × String) :=
  [("count", toString f.sites), ("kind", f.extent.name)]

def parameter? (f : Finding) (name : String) : Option String :=
  f.parameters.lookup name

def isFixable (f : Finding) : Bool :=
  f.fix.isSome

end Finding

end IfCollapse
