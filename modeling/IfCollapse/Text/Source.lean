import IfCollapse.Text.Slice

/-!
A source text with the table of its lines: lines, columns and indentation by byte offset.
-/

namespace IfCollapse

structure LineTable where
  starts : List Nat
  ascii : Bool
  deriving DecidableEq, Repr

def laterStarts : List Char → Nat → List Nat
  | [], _ => []
  | c :: text, offset =>
    let next := offset + c.utf8Size
    if c = '\n' then next :: laterStarts text next else laterStarts text next

def LineTable.ofText (text : List Char) : LineTable where
  starts := 0 :: laterStarts text 0
  ascii := text.all fun c => c.val < 128

/-- Where an offset stands in an ascending list, or where it would have to be put in. -/
inductive Slot where
  | found (index : Nat)
  | missing (index : Nat)
  deriving DecidableEq, Repr

def Slot.next : Slot → Slot
  | .found index => .found (index + 1)
  | .missing index => .missing (index + 1)

def slotIn : List Nat → Nat → Slot
  | [], _ => .missing 0
  | start :: starts, offset =>
    if offset = start then .found 0
    else if offset < start then .missing 0
    else (slotIn starts offset).next

def LineTable.render (table : LineTable) : String :=
  "[" ++ ", ".intercalate (table.starts.map toString) ++ "]"

structure Location where
  line : Nat
  column : Nat
  deriving DecidableEq, Repr

def Location.render (l : Location) : String :=
  toString l.line ++ ":" ++ toString l.column

def Location.before (a b : Location) : Bool :=
  a.line < b.line || (a.line == b.line && a.column < b.column)

structure Source where
  text : List Char
  lines : LineTable

namespace Source

def ofText (text : List Char) : Source :=
  ⟨text, LineTable.ofText text⟩

def length (s : Source) : Nat :=
  byteLength s.text

def slice (s : Source) (span : Span) : Except Fault (List Char) :=
  IfCollapse.slice s.text span

def lineCount (s : Source) : Nat :=
  s.lines.starts.length

/-- The last line that starts at or before `offset`. The first line starts at zero, so a slot is never
in front of all lines. -/
def lineOf (s : Source) (offset : Nat) : Nat :=
  match slotIn s.lines.starts offset with
  | .found row => row + 1
  | .missing row => row - 1 + 1

/-- One line past the last starts at the end of the text. -/
def lineStart (s : Source) (line : Nat) : Except Fault Nat :=
  if line - 1 = s.lineCount then .ok s.length
  else
    match s.lines.starts[line - 1]? with
    | some start => .ok start
    | none => .error .unknownLine

/-- The end of a line leaves out its line break, which is a newline or a carriage return and a
newline. -/
def lineEnd (s : Source) (line : Nat) : Except Fault Nat := do
  let stop :=
    match s.lines.starts[line]? with
    | some next => next - 1
    | none => s.length
  let text ← s.slice (← Span.make (← s.lineStart line) stop)
  return if text.getLast? = some '\r' then stop - 1 else stop

def lineSpan (s : Source) (line : Nat) : Except Fault Span :=
  if line - 1 = s.lineCount then .ok (Span.empty s.length)
  else do Span.make (← s.lineStart line) (← s.lineEnd line)

def lineStartOf (s : Source) (offset : Nat) : Except Fault Nat :=
  s.lineStart (s.lineOf offset)

def lineSpanOf (s : Source) (offset : Nat) : Except Fault Span :=
  s.lineSpan (s.lineOf offset)

/-- Columns count characters. In an ASCII text they are byte distances, also past the end. -/
def locate (s : Source) (offset : Nat) : Except Fault Location := do
  let line := s.lineOf offset
  let start ← s.lineStart line
  if s.lines.ascii then
    return ⟨line, offset - start + 1⟩
  else
    let text ← s.slice (← Span.make start offset)
    return ⟨line, text.length + 1⟩

def indentationOf (s : Source) (offset : Nat) : Except Fault (List Char) := do
  let line ← s.slice (← s.lineSpanOf offset)
  return line.takeWhile fun c => c = ' ' || c = '\t'

end Source

end IfCollapse
