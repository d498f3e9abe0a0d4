import IfCollapse.Toml.Printer
import IfCollapse.Toml.Scalar

/-!
Blanks, comments, quoted strings and keys. Each reader gives what it read and the rest of the text.
-/

namespace IfCollapse.Toml

def isBlank (c : Char) : Bool :=
  c = ' ' || c = '\t'

def skipBlanks (text : List Char) : List Char :=
  text.dropWhile isBlank

/-- Characters that may not stand in comments and strings; newlines are read separately. -/
def isForbidden (c : Char) : Bool :=
  isControl c || c = '\n'

def newline? : List Char → Option (List Char)
  | '\n' :: rest => some rest
  | '\r' :: '\n' :: rest => some rest
  | _ => none

def skipComment : List Char → List Char
  | '#' :: rest => rest.dropWhile fun c => !isForbidden c
  | text => text

def lineEnd? (text : List Char) : Option (List Char) :=
  match skipComment (skipBlanks text) with
  | [] => some []
  | rest => newline? rest

def skipSpace : (fuel : Nat) → List Char → List Char
  | 0, text => text
  | fuel + 1, text =>
    match newline? (skipComment (skipBlanks text)) with
    | some rest => skipSpace fuel rest
    | none => skipComment (skipBlanks text)

def skipAllSpace (text : List Char) : List Char :=
  skipSpace text.length text

def codePoint? (count : Nat) (text : List Char) : Option (Char × List Char) := do
  let digits ← (text.take count).mapM (digitIn? 16)
  if digits.length ≠ count then none
  let n := valueOf 16 digits
  if n.isValidChar then some (Char.ofNat n, text.drop count) else none

def escape? : List Char → Option (Char × List Char)
  | 'b' :: rest => some (Char.ofNat 8, rest)
  | 't' :: rest => some ('\t', rest)
  | 'n' :: rest => some ('\n', rest)
  | 'f' :: rest => some (Char.ofNat 12, rest)
  | 'r' :: rest => some ('\r', rest)
  | 'e' :: rest => some (Char.ofNat 27, rest)
  | '"' :: rest => some ('"', rest)
  | '\\' :: rest => some ('\\', rest)
  | 'x' :: rest => codePoint? 2 rest
  | 'u' :: rest => codePoint? 4 rest
  | 'U' :: rest => codePoint? 8 rest
  | _ => none

def basic? : (fuel : Nat) → List Char → Option (List Char × List Char)
  | 0, _ => none
  | _, [] => none
  | _ + 1, '"' :: rest => some ([], rest)
  | fuel + 1, '\\' :: rest => do
    let (c, rest) ← escape? rest
    let (body, rest) ← basic? fuel rest
    return (c :: body, rest)
  | fuel + 1, c :: rest => do
    if isForbidden c then none
    let (body, rest) ← basic? fuel rest
    return (c :: body, rest)

def literal? : List Char → Option (List Char × List Char)
  | [] => none
  | c :: rest =>
    if c = '\'' then some ([], rest)
    else if isForbidden c then none
    else do
      let (body, rest) ← literal? rest
      return (c :: body, rest)

/-- Three quotes that close a string of several lines. Up to two more belong to the string. -/
def close? (quote : Char) (text : List Char) : Option (List Char × List Char) :=
  let run := (text.takeWhile (· = quote)).length
  if run < 3 then none
  else
    let kept := min (run - 3) 2
    some (List.replicate kept quote, text.drop (kept + 3))

def skipLineBreak? (text : List Char) : Option (List Char) := do
  let rest ← newline? (skipBlanks text)
  let rec skip : Nat → List Char → List Char
    | 0, text => text
    | fuel + 1, text =>
      match newline? (skipBlanks text) with
      | some rest => skip fuel rest
      | none => skipBlanks text
  return skip rest.length rest

def severalLines? (quote : Char) : (fuel : Nat) → List Char → Option (List Char × List Char)
  | 0, _ => none
  | fuel + 1, text =>
    match close? quote text with
    | some closed => some closed
    | none =>
      match newline? text with
      | some rest => do
        let (body, left) ← severalLines? quote fuel rest
        return (text.take (text.length - rest.length) ++ body, left)
      | none =>
        match text with
        | [] => none
        | c :: rest => do
          if c = '\\' && quote = '"' then
            match skipLineBreak? rest with
            | some rest => severalLines? quote fuel rest
            | none =>
              let (c, rest) ← escape? rest
              let (body, left) ← severalLines? quote fuel rest
              return (c :: body, left)
          else
            if isForbidden c then none
            let (body, left) ← severalLines? quote fuel rest
            return (c :: body, left)

/-- A string with one or three quotes of either kind. The newline after three quotes is dropped. -/
def string? (text : List Char) : Option (List Char × List Char) :=
  let several (quote : Char) (rest : List Char) :=
    severalLines? quote (rest.length + 1) ((newline? rest).getD rest)
  match text with
  | '"' :: '"' :: '"' :: rest => several '"' rest
  | '\'' :: '\'' :: '\'' :: rest => several '\'' rest
  | '"' :: rest => basic? rest.length rest
  | '\'' :: rest => literal? rest
  | _ => none

def key? (text : List Char) : Option (String × List Char) :=
  match text with
  | '"' :: rest => do
    let (body, rest) ← basic? rest.length rest
    return (String.ofList body, rest)
  | '\'' :: rest => do
    let (body, rest) ← literal? rest
    return (String.ofList body, rest)
  | _ =>
    let bare := text.takeWhile isBareKeyChar
    if bare.isEmpty then none else some (String.ofList bare, text.dropWhile isBareKeyChar)

def dottedKey? : (fuel : Nat) → List Char → Option ((List String × String) × List Char)
  | 0, _ => none
  | fuel + 1, text => do
    let (key, rest) ← key? (skipBlanks text)
    match skipBlanks rest with
    | '.' :: rest => do
      let ((path, last), rest) ← dottedKey? fuel rest
      return ((key :: path, last), rest)
    | rest => return (([], key), rest)

end IfCollapse.Toml
