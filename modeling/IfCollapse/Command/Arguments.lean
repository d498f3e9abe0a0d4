import IfCollapse.Command.Help

/-!
The arguments of the command line.
-/

namespace IfCollapse.Command

inductive Action where
  /-- Report findings. -/
  | check
  /-- Fix findings, or only show what would change. -/
  | fix (diffOnly risky : Bool)
  deriving DecidableEq, Repr

structure Arguments where
  action : Action
  paths : List String
  /-- The file with the settings. -/
  config : Option String
  /-- How often more detail was asked for. -/
  verbosity : Nat
  deriving DecidableEq, Repr

inductive Request where
  | help (topic : Topic)
  | run (arguments : Arguments)
  deriving DecidableEq, Repr

structure Reading where
  paths : List String := []
  config : Option String := none
  verbosity : Nat := 0
  diffOnly : Bool := false
  risky : Bool := false

inductive Progress where
  | wrong
  | help
  | next (r : Reading)
  /-- The next argument is the path of the settings. -/
  | wantsConfig (r : Reading)

namespace Reading

def addPath (r : Reading) (path : String) : Progress :=
  if path = "" then .wrong else .next { r with paths := r.paths ++ [path] }

def setConfig (r : Reading) (path : String) : Progress :=
  if path = "" || r.config.isSome then .wrong else .next { r with config := some path }

/-- Letters after one dash. The path of the settings takes the rest, with or without an equals sign
before it. -/
def letters (r : Reading) : List Char → Progress
  | [] => .next r
  | 'v' :: more => letters { r with verbosity := r.verbosity + 1 } more
  | 'h' :: _ => .help
  | 'c' :: [] => .wantsConfig r
  | 'c' :: '=' :: path => r.setConfig (String.ofList path)
  | 'c' :: path => r.setConfig (String.ofList path)
  | _ => .wrong

def word (r : Reading) (fixing : Bool) (text : List Char) : Progress :=
  match text.span (· ≠ '=') with
  | (name, []) =>
    match String.ofList name with
    | "verbose" => .next { r with verbosity := r.verbosity + 1 }
    | "help" => .help
    | "config" => .wantsConfig r
    | "diff" => if fixing && !r.diffOnly then .next { r with diffOnly := true } else .wrong
    | "unsafe" => if fixing && !r.risky then .next { r with risky := true } else .wrong
    | _ => .wrong
  | (name, _ :: value) =>
    if name = "config".toList then r.setConfig (String.ofList value) else .wrong

def argument (r : Reading) (fixing : Bool) (text : String) : Progress :=
  match text.toList with
  | '-' :: '-' :: name => r.word fixing name
  | '-' :: c :: more => r.letters (c :: more)
  | _ => r.addPath text

end Reading

/-- The arguments after the name of the action; none if they are wrong, and no reading if help is
asked for. After two dashes there are only paths. -/
def readAction (fixing : Bool) : Reading → List String → Option (Option Reading)
  | r, [] => some (some r)
  | r, "--" :: paths =>
    if paths.contains "" then none else some (some { r with paths := r.paths ++ paths })
  | r, text :: rest =>
    match r.argument fixing text with
    | .wrong => none
    | .help => some none
    | .next r => readAction fixing r rest
    | .wantsConfig r =>
      match rest with
      | [] => none
      | value :: rest =>
        if value.toList.head? = some '-' && value ≠ "-" then none
        else
          match r.setConfig value with
          | .next r => readAction fixing r rest
          | _ => none

/-- A count after the name of the action takes the place of one before it. -/
def request (fixing : Bool) (before : Nat) (args : List String) : Option Request := do
  match ← readAction fixing {} args with
  | none => return .help (if fixing then .fix else .check)
  | some r =>
    if r.paths.isEmpty then none
    else
      return .run {
        action := if fixing then .fix r.diffOnly r.risky else .check
        paths := r.paths
        config := r.config
        verbosity := if r.verbosity = 0 then before else r.verbosity }

/-- Reads the arguments; none if they are wrong. `before` counts how often more detail was asked for
so far. -/
def readFrom (before : Nat) : List String → Option Request
  | [] => none
  | "check" :: args => request false before args
  | "fix" :: args => request true before args
  | "help" :: [] => some (.help .program)
  | ["help", name] => (Topic.ofName? name).map .help
  | "help" :: _ => none
  | text :: args =>
    match text.toList with
    | '-' :: '-' :: name =>
      match String.ofList name with
      | "verbose" => readFrom (before + 1) args
      | "help" => some (.help .program)
      | _ => none
    | '-' :: c :: more =>
      let counted := (c :: more).takeWhile (· = 'v')
      match (c :: more).dropWhile (· = 'v') with
      | [] => readFrom (before + counted.length) args
      | 'h' :: _ => some (.help .program)
      | _ => none
    | _ => none

def read? (args : List String) : Option Request :=
  readFrom 0 args

end IfCollapse.Command
