import IfCollapse.Toml.Draft
import IfCollapse.Toml.Text

/-!
Documents: lines of headers and assignments.
-/

namespace IfCollapse.Toml

/-- Arrays and inline tables are nested at most this deep. -/
def nestingLimit : Nat := 80

abbrev ValueReader := List Char → Option (Value × List Char)

/-- The rest of an array, after its bracket or a comma. A comma may stand before the end. -/
def items? (value? : ValueReader) : (fuel : Nat) → List Char → Option (List Value × List Char)
  | 0, _ => none
  | fuel + 1, text =>
    match skipAllSpace text with
    | ']' :: rest => some ([], rest)
    | text => do
      let (v, rest) ← value? text
      match skipAllSpace rest with
      | ']' :: rest => return ([v], rest)
      | ',' :: rest => do
        let (items, rest) ← items? value? fuel rest
        return (v :: items, rest)
      | _ => none

def assignment? (value? : ValueReader) (entries : Entries) (text : List Char) :
    Option (Entries × List Char) := do
  let ((path, key), rest) ← dottedKey? text.length text
  match rest with
  | '=' :: rest =>
    let (v, rest) ← value? (skipBlanks rest)
    return (← entries.assign path key v, rest)
  | _ => none

def fields? (value? : ValueReader) :
    (fuel : Nat) → Entries → List Char → Option (Entries × List Char)
  | 0, _, _ => none
  | fuel + 1, entries, text =>
    match skipAllSpace text with
    | '\x7d' :: rest => some (entries, rest)
    | text => do
      let (entries, rest) ← assignment? value? entries text
      match skipAllSpace rest with
      | '\x7d' :: rest => return (entries, rest)
      | ',' :: rest => fields? value? fuel entries rest
      | _ => none

def isScalarChar (c : Char) : Bool :=
  c.isAlphanum || c = '_' || c = '-' || c = '+' || c = '.' || c = ':'

/-- A date and a time may have one space between them. -/
def scalarValue? (text : List Char) : Option (Value × List Char) :=
  let (word, rest) := text.span isScalarChar
  let (word, rest) :=
    match rest with
    | ' ' :: d :: more =>
      if d.isDigit && (date? word).any (·.2.isEmpty) then
        let (time, rest) := (d :: more).span isScalarChar
        (word ++ ' ' :: time, rest)
      else (word, rest)
    | _ => (word, rest)
  (scalar? word).map (·, rest)

/-- A value nested in at most `depth` arrays and inline tables. -/
def value? : (depth : Nat) → ValueReader
  | depth, '[' :: rest =>
    match depth with
    | 0 => none
    | depth + 1 => do
      let (items, rest) ← items? (value? depth) (rest.length + 1) rest
      return (.array items, rest)
  | depth, '\x7b' :: rest =>
    match depth with
    | 0 => none
    | depth + 1 => do
      let (entries, rest) ← fields? (value? depth) (rest.length + 1) [] rest
      return ((Draft.table .explicit entries).finish, rest)
  | _, '"' :: rest => (string? ('"' :: rest)).map fun (body, rest) => (.string body, rest)
  | _, '\'' :: rest => (string? ('\'' :: rest)).map fun (body, rest) => (.string body, rest)
  | _, text => scalarValue? text

structure Draft.State where
  entries : Entries
  table : List String

def line? (state : Draft.State) (text : List Char) : Option (Draft.State × List Char) :=
  match skipBlanks text with
  | '[' :: '[' :: rest => do
    let ((path, key), ']' :: ']' :: rest) ← dottedKey? rest.length rest | none
    return (⟨← state.entries.openItem path key, path ++ [key]⟩, rest)
  | '[' :: rest => do
    let ((path, key), ']' :: rest) ← dottedKey? rest.length rest | none
    return (⟨← state.entries.open path key, path ++ [key]⟩, rest)
  | [] => some (state, [])
  | c :: rest =>
    if c = '#' || c = '\n' || c = '\r' then some (state, c :: rest)
    else do
      let ((path, key), '=' :: rest) ← dottedKey? text.length text | none
      let (v, rest) ← value? nestingLimit (skipBlanks rest)
      let entries ← Entries.within false (fun _ entries => entries.assign path key v) state.table
        .explicit state.entries
      return (⟨entries, state.table⟩, rest)

def entriesFrom : (fuel : Nat) → Draft.State → List Char → Option Entries
  | _, state, [] => some state.entries
  | 0, _, _ => none
  | fuel + 1, state, text => do
    let (state, rest) ← line? state text
    entriesFrom fuel state (← lineEnd? rest)

/-- The table that a text describes. A byte order mark may stand in front. -/
def document? (text : List Char) : Option Value := do
  let text :=
    match text with
    | c :: rest => if c.toNat = 0xfeff then rest else c :: rest
    | text => text
  let entries ← entriesFrom text.length ⟨[], []⟩ text
  return (Draft.table .explicit entries).finish

end IfCollapse.Toml
