import IfCollapse.Text.Quoted

/-!
Log events: what happened, how much detail that is, and where it comes from.
-/

namespace IfCollapse

inductive Level where
  | error
  | warn
  | info
  | debug
  | trace
  deriving DecidableEq, Repr

namespace Level

def detail : Level → Nat
  | .error => 1
  | .warn => 2
  | .info => 3
  | .debug => 4
  | .trace => 5

def label : Level → String
  | .error => "ERROR"
  | .warn => " WARN"
  | .info => " INFO"
  | .debug => "DEBUG"
  | .trace => "TRACE"

end Level

inductive Channel where
  | command
  | settings
  | linter
  | registry
  /-- The rule on `if` statements. -/
  | rule
  /-- Its judgement on a statement. -/
  | verdict
  /-- The choice of positions for conditional expressions. -/
  | site
  /-- The use of following statements as an `else`. -/
  | borrow
  deriving DecidableEq, Repr

namespace Channel

def ruleName : String := "ternlint_linter::rules::conditional::if_to_ternary"

/-- The name by which a filter selects a channel. -/
def name : Channel → String
  | .command => "ternlint"
  | .settings => "ternlint_config::merged_config"
  | .linter => "ternlint_linter"
  | .registry => "ternlint_linter::registry"
  | .rule => ruleName
  | .verdict => ruleName ++ "::engine"
  | .site => ruleName ++ "::eligibility"
  | .borrow => ruleName ++ "::virtual_else"

end Channel

structure Event where
  level : Level
  channel : Channel
  message : String
  /-- Named values, already in the form in which they are shown. -/
  values : List (String × String)
  deriving DecidableEq, Repr

def Event.fields (e : Event) : List String :=
  "message" :: e.values.map (·.1)

def Event.render (e : Event) : String :=
  e.values.foldl (fun line (name, value) => line ++ " " ++ name ++ "=" ++ value)
    (e.level.label ++ " " ++ e.message)

end IfCollapse
