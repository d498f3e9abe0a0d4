import IfCollapse.Text.Lines

/-!
Trees of files, and the paths by which they are reached.
-/

namespace IfCollapse

inductive Node where
  /-- A file with its text, unless its bytes are none. -/
  | file (text : Option (List Char))
  /-- The names are ascending. -/
  | directory (entries : List (String × Node))

namespace Node

def isDirectory : Node → Bool
  | .directory _ => true
  | .file _ => false

def entries : Node → List (String × Node)
  | .directory entries => entries
  | .file _ => []

def get? : (names : List String) → Node → Option Node
  | [], node => some node
  | name :: names, node => (node.entries.lookup name).bind (get? names)

def insert (name : String) (node : Node) : List (String × Node) → List (String × Node)
  | [] => [(name, node)]
  | entry :: entries =>
    if name = entry.1 then (name, node) :: entries
    else if name < entry.1 then (name, node) :: entry :: entries
    else entry :: insert name node entries

/-- Puts a node at the end of a list of names, with the directories on the way. A directory that is
there already stays. -/
def put (new : Node) : (names : List String) → Node → Node
  | [], node => if new.isDirectory && node.isDirectory then node else new
  | name :: names, node =>
    let inner := (node.entries.lookup name).getD (.directory [])
    .directory (insert name (put new names inner) node.entries)

end Node

inductive ReadError where
  | missing
  | directory
  | notText
  deriving DecidableEq, Repr

def ReadError.message : ReadError → String
  | .missing => "No such file or directory (os error 2)"
  | .directory => "Is a directory (os error 21)"
  | .notText => "stream did not contain valid UTF-8"

structure Files where
  /-- The path of the top directory; longer paths that begin with it are absolute. -/
  root : String
  /-- The working directory, by names from the top. -/
  home : List String
  top : Node

namespace Files

def parts (path : List Char) : List String :=
  (pieces '/' path).map String.ofList

/-- Where one part of a path leads. Only directories lead on, and nothing is known above the top. -/
def step? (files : Files) (names : List String) (part : String) : Option (List String) :=
  match files.top.get? names with
  | some (.directory entries) =>
    if part = "" || part = "." then some names
    else if part = ".." then
      if names.isEmpty && files.root ≠ "" then none else some names.dropLast
    else if (entries.lookup part).isSome then some (names ++ [part])
    else none
  | _ => none

def start? (files : Files) (path : List Char) : Option (List String × List Char) :=
  let root := files.root.toList ++ ['/']
  if path.isEmpty then none
  else if root.isPrefixOf path then some ([], path.drop root.length)
  else if path = files.root.toList then some ([], [])
  else if path.head? = some '/' then none
  else some (files.home, path)

def resolve? (files : Files) (path : String) : Option (List String) := do
  let (names, rest) ← files.start? path.toList
  (parts rest).foldlM files.step? names

def get? (files : Files) (path : String) : Option Node :=
  (files.resolve? path).bind files.top.get?

def has (files : Files) (path : String) : Bool :=
  (files.get? path).isSome

def read (files : Files) (path : String) : Except ReadError (List Char) :=
  match files.get? path with
  | none => .error .missing
  | some (.directory _) => .error .directory
  | some (.file none) => .error .notText
  | some (.file (some text)) => .ok text

def write (files : Files) (path : String) (text : List Char) : Files :=
  match files.resolve? path with
  | some names => { files with top := (Node.file (some text)).put names files.top }
  | none => files

/-- The path of an entry of a directory. The empty path adds nothing to a name. -/
def join (path name : String) : String :=
  if path.toList.getLast?.all (· = '/') then path ++ name else path ++ "/" ++ name

/-- The last name in a path, unless that is a step upwards. -/
def lastName? (path : String) : Option String :=
  ((parts path.toList).filter fun part => part ≠ "" && part ≠ ".").getLast?.filter (· ≠ "..")

/-- What follows the last point of a name. A point in front does not count. -/
def extension? (path : String) : Option (List Char) := do
  let name := (← lastName? path).toList
  let after := name.reverse.takeWhile (· ≠ '.')
  if after.length + 1 < name.length then some after.reverse else none

mutual

def walk (path : String) : Node → List String
  | .file _ => [path]
  | .directory entries => path :: walkEntries path entries

def walkEntries (path : String) : List (String × Node) → List String
  | [] => []
  | entry :: entries => walkEntry path entry ++ walkEntries path entries

def walkEntry (path : String) : String × Node → List String
  | (name, node) => walk (join path name) node

end

def isJava (path : String) : Bool :=
  extension? path = some "java".toList

/-- The sources that a path stands for: a file, or whatever is named like a source below a
directory. -/
def sourcesAt (files : Files) (path : String) : List String :=
  match files.get? path with
  | some (.file text) => (walk path (.file text)).filter isJava
  | some (.directory entries) => (walk path (.directory entries)).filter isJava
  | none => []

def sources (files : Files) (paths : List String) : List String :=
  paths.flatMap files.sourcesAt

end Files

end IfCollapse
