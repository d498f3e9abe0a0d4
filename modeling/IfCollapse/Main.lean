import IfCollapse.Command.Run
import IfCollapse.Java.Rows

/-!
The command line. Sources come with their syntax trees: the tree of `A.java` is in `A.java.cst`.
-/

namespace IfCollapse.Command

partial def entriesBelow (path : String) : IO (List (String × Node)) := do
  let real ← IO.FS.realPath path
  if ← real.isDir then
    let inner ← (← real.readDir).toList.mapM fun entry => entriesBelow entry.path.toString
    return (real.toString, .directory []) :: inner.flatten
  else
    let bytes ← IO.FS.readBinFile real
    return [(real.toString, .file ((String.fromUTF8? bytes).map (·.toList)))]

def entriesAt (path : String) : IO (List (String × Node)) := do
  try entriesBelow path catch _ => return []

def namesOf (path : String) : List String :=
  (Files.parts path.toList).filter (· ≠ "")

/-- The part of the file system that a run can see. -/
def snapshot (directory : String) (args : Arguments) : IO Files := do
  let paths := args.config.toList ++ Loader.candidates ++ args.paths
  let entries ← paths.mapM entriesAt
  let top := entries.flatten.foldl (fun (top : Node) (path, node) => node.put (namesOf path) top)
    ((Node.directory []).put (namesOf directory) (.directory []))
  return ⟨"", namesOf directory, top⟩

def treesOf (files : Files) (paths : List String) : IO (List (List Char × Java.Cst)) := do
  let found ← (files.sources paths).mapM fun path => do
    let side : String := path ++ ".cst"
    let rows ← try some <$> IO.FS.readFile side catch _ => pure none
    return do
      let text ← (files.read path).toOption
      return (text, ← Java.Cst.read? (← rows).toList)
  return found.filterMap id

def say (filter : LogFilter) : Utterance → IO Unit
  | .print text => IO.print (String.ofList text)
  | .warn line => IO.eprintln line
  | .log e => if filter.shows e then IO.eprintln e.render else pure ()

def execute (args : Arguments) : IO UInt32 := do
  let directory := (← IO.currentDir).toString
  let files ← snapshot directory args
  let trees ← treesOf files args.paths
  let asked := (← IO.getEnv "TERNLINT_LOG").map (·.toList)
  let outcome := run (fun text => trees.lookup text) files directory args
  for u in outcome.said do
    say (logFilter asked args.verbosity) u
  for (path, text) in outcome.writes do
    IO.FS.writeFile path (String.ofList text)
  return outcome.exit.toUInt32

end IfCollapse.Command

def main (args : List String) : IO UInt32 := do
  match IfCollapse.Command.read? args with
  | none =>
    IO.eprint IfCollapse.Command.Topic.program.text
    return 2
  | some (.help topic) =>
    IO.print topic.text
    return 0
  | some (.run arguments) => IfCollapse.Command.execute arguments
