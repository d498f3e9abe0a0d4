import IfCollapse.Log
import IfCollapse.Pattern.Reader
import IfCollapse.Text.Letter
import IfCollapse.Text.Lines
import IfCollapse.Text.Slice

/-!
Directives on log events, written `target[span{field=value}]=level`. Every part may be left
out; a target alone stands for every level.
-/

namespace IfCollapse

/-- Up to which detail events are shown whose channel has a name that begins with `target`, and
which have the field if one is named. -/
structure Directive where
  target : List Char := []
  field : Option (List Char) := none
  detail : Nat
  deriving DecidableEq, Repr

namespace Directive

def detail? (text : List Char) : Option Nat :=
  match readWord? text with
  | some n => if n ≤ Level.trace.detail then some n else none
  | none =>
    match String.ofList (text.map Char.toLower) with
    | "off" => some 0
    | "error" => some Level.error.detail
    | "warn" => some Level.warn.detail
    | "info" => some Level.info.detail
    | "debug" => some Level.debug.detail
    | "trace" => some Level.trace.detail
    | _ => none

def startsTarget (c : Char) : Bool :=
  c = '-' || c = ':' || c = '_' || isLetterOrNumber c

/-- A number without a sign: digits with or without a point, and an exponent. -/
def isNumeral (text : List Char) : Bool :=
  let (whole, rest) := text.span Char.isDigit
  let (fraction, rest) :=
    match rest with
    | '.' :: rest => rest.span Char.isDigit
    | rest => ([], rest)
  ["inf", "infinity", "nan"].contains (String.ofList (text.map Char.toLower)) ||
    (!(whole ++ fraction).isEmpty &&
      match rest with
      | [] => true
      | c :: rest =>
        let digits :=
          match rest with
          | '+' :: digits => digits
          | '-' :: digits => digits
          | digits => digits
        (c = 'e' || c = 'E') && !digits.isEmpty && digits.all Char.isDigit)

def isFieldValue : List Char → Bool
  | '+' :: text => isNumeral text
  | text => (Pattern.read? text).isSome

def part? (text : List Char) (start stop : Nat) : Option (List Char) := do
  let (_, rest) ← cut? text start
  let (part, _) ← cut? rest (stop - start)
  return part

/-- The level from an offset to the end of a text; without one every level is meant. -/
def level? (text : List Char) (offset : Nat) : Option Nat := do
  let (_, level) ← cut? text offset
  if level.isEmpty then some Level.trace.detail else detail? level

def levelBehind? (text : List Char) (offset : Nat) : List Char → Option Nat
  | [] => some Level.trace.detail
  | '=' :: _ => level? text (offset + 1)
  | _ => none

/-- The rest of a directive after its opening bracket, with the offset where it begins. A directive
for a span, or for a value of a field, selects no events. -/
def readBracket? (text target : List Char) (offset : Nat) (rest : List Char) :
    Option (Option Directive) := do
  let (name, rest) := rest.span fun c => c ≠ ']' && c ≠ Char.ofNat 0x7b
  let nameEnd := offset + byteLength name
  let span ← part? text offset nameEnd
  match rest with
  | [] => none
  | ']' :: rest =>
    let _ ← levelBehind? text (nameEnd + 1) rest
    return none
  | _ :: rest =>
    let (field, rest) := rest.span (· ≠ Char.ofNat 0x7d)
    let fieldEnd := nameEnd + 1 + byteLength field
    if field.isEmpty then none
    let field ← part? text (nameEnd + 1) fieldEnd
    let _ :: ']' :: rest := rest | none
    let detail ← levelBehind? text (fieldEnd + 2) rest
    match pieces '=' field with
    | _ :: value :: _ => if isFieldValue value then return none else none
    | _ => return if span.isEmpty then some { target, field := some field, detail } else none

/-- Reads one directive; there may be none that selects events. White space around it only counts
when the directive is taken apart: the offsets of its parts are those without it. -/
def read? (text : List Char) : Option (Option Directive) :=
  match trimSpace text with
  | [] => none
  | '[' :: rest => readBracket? text [] 1 rest
  | c :: rest =>
    if !startsTarget c then none
    else
      let (target, rest) := (c :: rest).span fun d => d ≠ '=' && d ≠ '['
      match rest with
      | [] =>
        match detail? text with
        | some detail => some (some { detail })
        | none => some (some { target := text, detail := Level.trace.detail })
      | sign :: rest => do
        let stop := byteLength target
        let target ← part? text 0 stop
        if sign = '=' then return some { target, detail := ← level? text (stop + 1) }
        else readBracket? text target (stop + 1) rest

def covers (d : Directive) (e : Event) : Bool :=
  d.target.isPrefixOf e.channel.name.toList &&
    d.field.all fun field => e.fields.contains (String.ofList field)

/-- Whether a directive gives way to a later one about the same event: the longer target counts,
then a field, then the greater name of the field, and of equals the later one. -/
def yields (earlier later : Directive) : Bool :=
  if earlier.target.length ≠ later.target.length then
    earlier.target.length < later.target.length
  else
    match earlier.field, later.field with
    | none, _ => true
    | some _, none => false
    | some a, some b => !b.lex a fun x y => x.toNat < y.toNat

end Directive

end IfCollapse
