import IfCollapse.Lint.Rule
import IfCollapse.Suppression.Annotation

/-!
Running rules over a source: every node is shown to every rule that asks for its kind, and findings
in a region where the rule is silenced are dropped.
-/

namespace IfCollapse.Lint

open Java Suppression

structure RuleFinding where
  rule : String
  finding : Finding

structure Report where
  findings : List RuleFinding
  parseErrors : Bool
  events : List Event

namespace Report

def fixable (r : Report) : List RuleFinding :=
  r.findings.filter (·.finding.isFixable)

def append (a b : Report) : Report :=
  ⟨a.findings ++ b.findings, a.parseErrors || b.parseErrors, a.events ++ b.events⟩

end Report

def suppressions (source : List Char) (root : Cst) (filters : List Suppression.Filter) :
    Except Fault (List Region) := do
  return (← commentRegions source filters) ++ (← annotationRegions source root)

def sieve (regions : List Region) (rule : String) (finding : Finding) : Report :=
  if isSuppressed regions rule finding.span.start then
    ⟨[], false, [⟨.debug, .linter, "suppressed diagnostic",
      [("rule", String.ofList (quote rule.toList))]⟩]⟩
  else ⟨[⟨rule, finding⟩], false, []⟩

def Rule.wants (rule : Rule) (kind : String) : Bool :=
  rule.kinds.isEmpty || rule.kinds.contains kind

def visit (source : Source) (regions : List Region) (place : Cursor) (rule : Rule) :
    Except Fault Report := do
  if !rule.wants place.node.kind then return ⟨[], false, []⟩
  let remarks ← rule.check source place
  return (remarks.findings.map (sieve regions rule.name)).foldl Report.append
    ⟨[], false, remarks.events⟩

def lint (source : Source) (root : Cst) (rules : List Rule) (filters : List Suppression.Filter) :
    Except Fault Report := do
  let regions ← suppressions source.text root filters
  let visits ← root.places.mapM fun place => rules.mapM (visit source regions place)
  return visits.flatten.foldl Report.append ⟨[], root.row.hasError, []⟩

end IfCollapse.Lint
