import IfCollapse.Command.Arguments
import IfCollapse.Command.Fixing
import IfCollapse.Log.Filter
import IfCollapse.Patch
import IfCollapse.Settings.Loader

/-!
Running a request on a tree of files. A run is a list of things to say, a list of texts to write and
an exit code; nothing is written before all files have been read.
-/

namespace IfCollapse.Command

inductive Utterance where
  /-- A text for standard output. -/
  | print (text : List Char)
  /-- A line for standard error. -/
  | warn (line : String)
  /-- A line for standard error, if the log filter lets it pass. -/
  | log (e : Event)

structure Outcome where
  said : List Utterance
  /-- Paths and their new texts, in order. -/
  writes : List (String × List Char)
  exit : Nat

def printLine (line : String) : Utterance :=
  .print (line ++ "\n").toList

namespace Outcome

def after (said : List Utterance) (o : Outcome) : Outcome :=
  { o with said := said ++ o.said }

def output (o : Outcome) : List Char :=
  o.said.flatMap fun
    | .print text => text
    | _ => []

def errors (filter : LogFilter) (o : Outcome) : List Char :=
  o.said.flatMap fun
    | .print _ => []
    | .warn line => (line ++ "\n").toList
    | .log e => if filter.shows e then (e.render ++ "\n").toList else []

def files (o : Outcome) (before : Files) : Files :=
  o.writes.foldl (fun files (path, text) => files.write path text) before

end Outcome

inductive Failure where
  | settings (why : LoadError)
  | unreadable (path : String) (why : ReadError)
  | fault (why : Fault)

def faultCode : Nat := 101

/-- A text behind a label, its further lines indented to where the first begins. -/
def labelled (label : String) (text : String) : String :=
  let indent := String.ofList (label.toList.map fun _ => ' ')
  label ++ ("\n" ++ indent).intercalate ((pieces '\n' text.toList).map String.ofList)

/-- One cause stands alone, several are numbered. -/
def causes : List String → List String
  | [cause] => [labelled "    " cause]
  | causes => causes.mapIdx fun i cause => labelled s!"    {i}: " cause

def Failure.outcome : Failure → Outcome
  | .settings why =>
    failed "Failed to load configuration" (why.message :: why.cause?.toList)
  | .unreadable path why => failed ("Failed to read " ++ path) [why.message]
  | .fault _ => ⟨[], [], faultCode⟩
where
  failed (what : String) (why : List String) : Outcome :=
    ⟨[.warn ("Error: " ++ what), .warn "", .warn "Caused by:"] ++ (causes why).map .warn, [], 1⟩

abbrev Trees := List Char → Option Java.Cst

structure Session where
  plan : Plan
  rules : List Lint.Rule

def openSession (files : Files) (directory : String) (config : Option String) :
    Except LoadError (Session × List Utterance) := do
  let registry := Lint.Registry.builtin
  let loader : Loader :=
    match config with
    | some path => Loader.choose {} path
    | none => {}
  let plan ← (loader.findIn files directory).load files registry.names
  let used : Event :=
    match plan.source with
    | some path => ⟨.info, .command, "using configuration", [("path", path)]⟩
    | none => ⟨.info, .command, "no ternlint.toml found, using defaults", []⟩
  return (⟨plan, plan.rulesFrom registry⟩,
    (Loader.events plan ++ used :: plan.warnings registry).map .log)

def announcement (verb : String) (rules : List Lint.Rule) : String :=
  s!"{verb} with {rules.length} rule(s): " ++ ", ".intercalate (rules.map (·.name))

/-- Reads and lints one source. A source without a syntax tree is left out. -/
def lintFile (trees : Trees) (files : Files) (rules : List Lint.Rule) (path : String) :
    Except Failure (List Utterance × Option FileReport) :=
  match files.read path with
  | .error why => .error (.unreadable path why)
  | .ok text =>
    match trees text with
    | none => .ok ([.warn (path ++ ": Failed to parse")], none)
    | some root =>
      match Lint.lint (Source.ofText text) root rules [Suppression.Filter.default] with
      | .error why => .error (.fault why)
      | .ok report =>
        let broken : Event :=
          ⟨.warn, .command, "file has syntax errors, affected code was skipped", [("path", path)]⟩
        let checked : Event :=
          ⟨.info, .command, "checked file",
            [("path", path), ("findings", toString report.findings.length)]⟩
        .ok ((report.events ++ (if report.parseErrors then [broken] else []) ++ [checked]).map .log,
          some ⟨path, Source.ofText text, report⟩)

/-- Lints sources in order, up to the first that fails. -/
def lintFiles (trees : Trees) (files : Files) (rules : List Lint.Rule) :
    List String → List Utterance × Except Failure (List FileReport)
  | [] => ([], .ok [])
  | path :: paths =>
    match lintFile trees files rules path with
    | .error why => ([], .error why)
    | .ok (said, report) =>
      let (more, reports) := lintFiles trees files rules paths
      (said ++ more, reports.map (report.toList ++ ·))

def findingLines (file : FileReport) : Except Fault (List Utterance) :=
  file.report.findings.mapM fun f => do
    let location ← file.source.locate f.finding.span.start
    return printLine (file.path ++ s!":{location.line}:{location.column}: [{f.rule}] " ++
      f.finding.message)

def checkReports (reports : List FileReport) : Except Fault Outcome := do
  let lines ← reports.mapM findingLines
  let total := (reports.flatMap (·.report.findings)).length
  let fixable := (reports.flatMap (·.report.fixable)).length
  if 0 < total then
    return ⟨lines.flatten ++ [printLine s!"\nFound {total} violations ({fixable} fixable)"], [], 1⟩
  return ⟨lines.flatten ++ [printLine "No violations found"], [], 0⟩

def fixOutcome (diffOnly : Bool) (file : FileReport) (fix : FileFix) : Outcome :=
  let skipped := fix.skipped.map fun e =>
    Utterance.log ⟨.debug, .command, "skipping overlapping edit", [("range", e.span.render)]⟩
  match fix.result with
  | none => ⟨skipped, [], 0⟩
  | some text =>
    if diffOnly then
      ⟨skipped ++ [.print (Patch.render file.path file.source.text text)], [], 0⟩
    else
      ⟨skipped ++ [.warn (file.path ++ s!": {fix.fixed} fix(es) applied")], [(file.path, text)], 0⟩

def fixSummary (diffOnly : Bool) (fixes : List FileFix) : List Utterance :=
  let fixed : Nat := fixes.foldl (fun count fix => count + fix.fixed) 0
  let left : Nat := fixes.foldl (fun count fix => count + fix.left) 0
  let changed := (fixes.filter (·.result.isSome)).length
  let total :=
    if diffOnly then s!"\n{fixed} fix(es) available in {changed} file(s)"
    else if 0 < fixed then s!"\n{fixed} fix(es) applied in {changed} file(s)"
    else "No fixes to apply"
  printLine total ::
    if 0 < left then [.warn s!"{left} violation(s) could not be fixed automatically"] else []

/-- How far a fix has to be trusted to be applied. -/
def fixLevel (plan : Plan) (risky : Bool) : Applicability :=
  if risky || plan.riskyFixes then .risky else .safe

def fixingRules (plan : Plan) : List String :=
  (plan.enabled.filter (·.mode.fixes)).map (·.name)

def fixReports (plan : Plan) (diffOnly risky : Bool) (reports : List FileReport) :
    Except Fault Outcome := do
  let fixes ← reports.mapM (fixFile (fixingRules plan) (fixLevel plan risky))
  let outcomes := List.zipWith (fixOutcome diffOnly) reports fixes
  return ⟨outcomes.flatMap (·.said) ++ fixSummary diffOnly fixes, outcomes.flatMap (·.writes), 0⟩

def help (topic : Topic) : Outcome :=
  ⟨[.print topic.text.toList], [], 0⟩

/-- Runs a request. `directory` is the path of the working directory. -/
def run (trees : Trees) (files : Files) (directory : String) (args : Arguments) : Outcome :=
  match openSession files directory args.config with
  | .error why => (Failure.settings why).outcome
  | .ok (session, opening) =>
    if session.rules.isEmpty then ⟨opening ++ [.warn "Warning: No rules configured"], [], 0⟩
    else
      let verb :=
        match args.action with
        | .check => "Checking"
        | .fix _ _ => "Fixing"
      let (said, reports) := lintFiles trees files session.rules (files.sources args.paths)
      let outcome :=
        match reports with
        | .error why => why.outcome
        | .ok reports =>
          match args.action with
          | .check => (checkReports reports).toOption.getD ⟨[], [], faultCode⟩
          | .fix diffOnly risky =>
            (fixReports session.plan diffOnly risky reports).toOption.getD ⟨[], [], faultCode⟩
      outcome.after (opening ++ [.warn (announcement verb session.rules)] ++ said)

def defaultFilter (verbosity : Nat) : LogFilter :=
  match verbosity with
  | 0 => .upTo .warn
  | 1 => .upTo .info
  | _ => .upTo .debug

/-- A filter that was asked for counts, if it can be read. -/
def logFilter (asked : Option (List Char)) (verbosity : Nat) : LogFilter :=
  (asked.bind LogFilter.read?).getD (defaultFilter verbosity)

end IfCollapse.Command
