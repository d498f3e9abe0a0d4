import IfCollapse.Toml.Value

/-!
The text of a value, on one line unless a string holds newlines.
-/

namespace IfCollapse.Toml

def padded (width n : Nat) : List Char :=
  let digits := Nat.toDigits 10 n
  List.replicate (width - digits.length) '0' ++ digits

def Date.render (d : Date) : List Char :=
  padded 4 d.year ++ '-' :: padded 2 d.month ++ '-' :: padded 2 d.day

/-- Nine digits without the zeros at the end. -/
def renderNanosecond (n : Nat) : List Char :=
  ((padded 9 n).reverse.dropWhile (· = '0')).reverse

def Time.render (t : Time) : List Char :=
  padded 2 t.hour ++ ':' :: padded 2 t.minute ++ ':' :: padded 2 t.second ++
    if t.nanosecond = 0 then [] else '.' :: renderNanosecond t.nanosecond

def Offset.render : Offset → List Char
  | .utc => ['Z']
  | .minutes n =>
    (if n < 0 then '-' else '+') :: padded 2 (n.natAbs / 60) ++ ':' :: padded 2 (n.natAbs % 60)

def DateTime.render (d : DateTime) : List Char :=
  ((d.date.map Date.render).getD []) ++
    (if d.date.isSome && d.time.isSome then ['T'] else []) ++
    ((d.time.map Time.render).getD []) ++ ((d.offset.map Offset.render).getD [])

/-- There is no text for a number that is too great. A whole number keeps one place. -/
def Real.render? : Real → Option (List Char)
  | .nan => some "nan".toList
  | .infinity negative => some (if negative then "-inf".toList else "inf".toList)
  | .decimal negative digits power => do
    let x ← Decimal.Double.ofDecimal? digits power
    let text := if x.mantissa = 0 then ['0'] else (Decimal.shortest x).positional
    return (if negative then ['-'] else []) ++ text ++
      if text.contains '.' then [] else ".0".toList

def longestRun (c : Char) (text : List Char) : Nat :=
  (text.foldl (fun (best, run) d =>
    if d = c then (max best (run + 1), run + 1) else (best, 0)) (0, 0)).1

def isControl (c : Char) : Bool :=
  (c.toNat < 32 && c ≠ '\t' && c ≠ '\n') || c.toNat = 127

def hexUpper (width n : Nat) : List Char :=
  let digits := (Nat.toDigits 16 n).map Char.toUpper
  List.replicate (width - digits.length) '0' ++ digits

/-- The inside of a string in double quotes. In a string of several lines newlines stay, and so do
up to two quotes in a row; `run` counts the quotes just before. -/
def escapeBasic (multiline : Bool) : (run : Nat) → List Char → List Char
  | _, [] => []
  | run, c :: text =>
    if c = '"' then
      if multiline && run < 2 then '"' :: escapeBasic multiline (run + 1) text
      else '\\' :: '"' :: escapeBasic multiline 0 text
    else
      let shown :=
        if c = '\\' then ['\\', '\\']
        else if c.toNat = 8 then ['\\', 'b']
        else if c = '\t' then ['\\', 't']
        else if c = '\n' then if multiline then ['\n'] else ['\\', 'n']
        else if c.toNat = 12 then ['\\', 'f']
        else if c = '\r' then ['\\', 'r']
        else if c.toNat < 32 || c.toNat = 127 then '\\' :: 'u' :: hexUpper 4 c.toNat
        else [c]
      shown ++ escapeBasic multiline 0 text

/-- Double quotes if nothing needs an escape, else single quotes, else several lines, and escapes
when nothing else will do. -/
def renderString (text : List Char) : List Char :=
  let controls := text.any isControl
  let backslash := text.contains '\\'
  let newline := text.contains '\n'
  let singles := longestRun '\'' text
  let doubles := longestRun '"' text
  let tripleDouble := ['"', '"', '"']
  let tripleSingle := ['\'', '\'', '\'']
  let start := if newline then ['\n'] else []
  if !controls && !backslash && doubles = 0 && !newline then
    '"' :: escapeBasic false 0 text ++ ['"']
  else if !controls && singles = 0 && !newline then '\'' :: text ++ ['\'']
  else if !controls && !backslash && doubles ≤ 2 then
    tripleDouble ++ start ++ escapeBasic true 0 text ++ tripleDouble
  else if !controls && singles ≤ 2 then tripleSingle ++ start ++ text ++ tripleSingle
  else if newline then tripleDouble ++ start ++ escapeBasic true 0 text ++ tripleDouble
  else '"' :: escapeBasic false 0 text ++ ['"']

def isBareKeyChar (c : Char) : Bool :=
  c.isAlphanum || c = '_' || c = '-'

def renderKey (key : List Char) : List Char :=
  let controls := key.any fun c => isControl c || c = '\n'
  if !key.isEmpty && key.all isBareKeyChar then key
  else if !controls && !key.contains '\\' && !key.contains '"' then
    '"' :: escapeBasic false 0 key ++ ['"']
  else if !controls && !key.contains '\'' then '\'' :: key ++ ['\'']
  else '"' :: escapeBasic false 0 key ++ ['"']

mutual

def Value.render? : Value → Option (List Char)
  | .string text => some (renderString text)
  | .integer n => some (toString n).toList
  | .real x => x.render?
  | .boolean b => some (if b then "true" else "false").toList
  | .dateTime d => some d.render
  | .array items => do
    let texts ← renderItems? items
    return '[' :: [',', ' '].intercalate texts ++ [']']
  | .table [] => some [Char.ofNat 0x7b, Char.ofNat 0x7d]
  | .table (entry :: entries) => do
    let texts ← renderEntries? (entry :: entries)
    return Char.ofNat 0x7b :: ' ' :: [',', ' '].intercalate texts ++ [' ', Char.ofNat 0x7d]

def renderItems? : List Value → Option (List (List Char))
  | [] => some []
  | v :: items => do return (← v.render?) :: (← renderItems? items)

def renderEntries? : List (String × Value) → Option (List (List Char))
  | [] => some []
  | entry :: entries => do return (← renderEntry? entry) :: (← renderEntries? entries)

def renderEntry? : String × Value → Option (List Char)
  | (key, v) => do return renderKey key.toList ++ " = ".toList ++ (← v.render?)

end

end IfCollapse.Toml
