import IfCollapse.Lint.Report

/-!
Fixing one source: which edits of its findings are applied.
-/

namespace IfCollapse.Command

structure FileReport where
  path : String
  source : Source
  report : Lint.Report

structure FileFix where
  /-- Findings that are fixed. -/
  fixed : Nat
  /-- Findings that are left. -/
  left : Nat
  /-- Edits that clash with one that is applied. -/
  skipped : List Edit
  /-- The text afterwards, if there was anything to apply. -/
  result : Option (List Char)

/-- Whether a finding may be fixed: its rule is one of `fixing`, and its fix can be trusted as far as
`level`. -/
def isAllowed (fixing : List String) (level : Applicability) (f : Lint.RuleFinding) : Bool :=
  fixing.contains f.rule && f.finding.fix.any (·.applies level)

/-- The edits of some findings, those further back first. -/
def editsOf (findings : List Lint.RuleFinding) : List Edit :=
  (findings.flatMap fun f => (f.finding.fix.map (·.edits)).getD []).mergeSort fun a b =>
    b.span.start ≤ a.span.start

/-- Each skipped edit leaves one more finding. -/
def fixFile (fixing : List String) (level : Applicability) (file : FileReport) :
    Except Fault FileFix := do
  let allowed := file.report.findings.filter (isAllowed fixing level)
  let left := file.report.findings.length - allowed.length
  let edits := editsOf allowed
  if edits.isEmpty then return ⟨0, left, [], none⟩
  let (kept, skipped) := Edit.settle edits
  let fixed := min kept.length allowed.length
  return ⟨fixed, left + (allowed.length - fixed), skipped, ← Edit.applyAll file.source.text kept⟩

end IfCollapse.Command
