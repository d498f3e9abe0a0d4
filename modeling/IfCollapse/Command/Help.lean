/-!
The help texts of the command line.
-/

namespace IfCollapse.Command

inductive Topic where
  | program
  | check
  | fix
  | help
  deriving DecidableEq, Repr

namespace Topic

def ofName? : String → Option Topic
  | "check" => some .check
  | "fix" => some .fix
  | "help" => some .help
  | _ => none

/-- One line for each of several entries, their explanations below each other. -/
def entries (title : String) (entries : List (String × String)) : String :=
  let width := entries.foldl (fun width (name, _) => max width name.length) 0
  entries.foldl (fun text (name, explanation) =>
    text ++ "  " ++ name ++ String.ofList (List.replicate (width - name.length + 2) ' ') ++
      explanation ++ "\n") (title ++ ":\n")

def aboutHelp : String := "Print this message or the help of the given subcommand(s)"

def verboseOption : String × String :=
  ("-v, --verbose...", "Raise the log level (-v info, -vv debug)")

def configOption : String × String :=
  ("-c, --config <CONFIG>", "Path to ternlint.toml")

def helpOption : String × String :=
  ("-h, --help", "Print help")

def parts : Topic → List String
  | .program =>
    ["Collapse if/else statements into conditional expressions\n",
      "Usage: ternlint [OPTIONS] <COMMAND>\n",
      entries "Commands" [("check", "Check files for violations"),
        ("fix", "Fix violations in files"), ("help", aboutHelp)],
      entries "Options" [verboseOption, helpOption]]
  | .check =>
    ["Check files for violations\n",
      "Usage: ternlint check [OPTIONS] <PATHS>...\n",
      entries "Arguments" [("<PATHS>...", "Paths to check")],
      entries "Options" [configOption, verboseOption, helpOption]]
  | .fix =>
    ["Fix violations in files\n",
      "Usage: ternlint fix [OPTIONS] <PATHS>...\n",
      entries "Arguments" [("<PATHS>...", "Paths to fix")],
      entries "Options" [configOption, verboseOption,
        ("    --diff", "Show diff without applying fixes"),
        ("    --unsafe", "Apply unsafe fixes"), helpOption]]
  | .help =>
    [aboutHelp ++ "\n",
      "Usage: ternlint help [COMMAND]...\n",
      entries "Arguments" [("[COMMAND]...", "Print help for the subcommand(s)")]]

def text (t : Topic) : String :=
  "\n".intercalate t.parts

end Topic

end IfCollapse.Command
