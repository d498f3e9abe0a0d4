import IfCollapse.Toml.Value

/-!
Numbers, booleans and points in time, read from the whole of a text.
-/

namespace IfCollapse.Toml

def digitIn? (base : Nat) (c : Char) : Option Nat :=
  let value :=
    if c.isDigit then some (c.toNat - '0'.toNat)
    else if 'a' ≤ c && c ≤ 'f' then some (c.toNat - 'a'.toNat + 10)
    else if 'A' ≤ c && c ≤ 'F' then some (c.toNat - 'A'.toNat + 10)
    else none
  value.filter (· < base)

/-- Digits with single underscores between them, the most significant first. -/
def groupedDigits? (base : Nat) : List Char → Option (List Nat)
  | [] => none
  | [c] => (digitIn? base c).map ([·])
  | c :: '_' :: rest => do return (← digitIn? base c) :: (← groupedDigits? base rest)
  | c :: rest => do return (← digitIn? base c) :: (← groupedDigits? base rest)

def valueOf (base : Nat) (digits : List Nat) : Nat :=
  digits.foldl (fun n d => n * base + d) 0

def splitSign : List Char → Bool × List Char
  | '-' :: rest => (true, rest)
  | '+' :: rest => (false, rest)
  | text => (false, text)

def wholeDigits? (text : List Char) : Option (List Nat) :=
  match text with
  | '0' :: _ :: _ => none
  | _ => groupedDigits? 10 text

/-- Only decimal numbers have a sign. -/
def integer? : List Char → Option Int
  | '0' :: 'x' :: rest => (groupedDigits? 16 rest).map fun ds => (valueOf 16 ds : Int)
  | '0' :: 'o' :: rest => (groupedDigits? 8 rest).map fun ds => (valueOf 8 ds : Int)
  | '0' :: 'b' :: rest => (groupedDigits? 2 rest).map fun ds => (valueOf 2 ds : Int)
  | text => do
    let (negative, rest) := splitSign text
    let n : Int := valueOf 10 (← wholeDigits? rest)
    return if negative then -n else n

def splitAtFirst (p : Char → Bool) (text : List Char) : List Char × Option (List Char) :=
  match text.span (fun c => !p c) with
  | (before, _ :: after) => (before, some after)
  | (before, []) => (before, none)

def decimal? (negative : Bool) (text : List Char) : Option Real := do
  let (number, exponent) := splitAtFirst (fun c => c = 'e' || c = 'E') text
  let (whole, fraction) := splitAtFirst (· = '.') number
  if exponent.isNone && fraction.isNone then none
  let wholeDigits ← wholeDigits? whole
  let fractionDigits ← (fraction.map (groupedDigits? 10)).getD (some [])
  let power : Int ← match exponent with
    | none => some 0
    | some text => do
      let (negative, digits) := splitSign text
      let n : Int := valueOf 10 (← groupedDigits? 10 digits)
      some (if negative then -n else n)
  return .decimal negative (valueOf 10 (wholeDigits ++ fractionDigits))
    (power - fractionDigits.length)

def real? (text : List Char) : Option Real :=
  match splitSign text with
  | (negative, ['i', 'n', 'f']) => some (.infinity negative)
  | (_, ['n', 'a', 'n']) => some .nan
  | (negative, rest) => decimal? negative rest

def fixedDigits? (count : Nat) (text : List Char) : Option (Nat × List Char) := do
  let digits ← (text.take count).mapM (digitIn? 10)
  if digits.length = count then some (valueOf 10 digits, text.drop count) else none

def daysIn (year month : Nat) : Nat :=
  if month = 2 then
    if (year % 4 = 0 && year % 100 ≠ 0) || year % 400 = 0 then 29 else 28
  else if month ∈ [4, 6, 9, 11] then 30 else 31

def date? (text : List Char) : Option (Date × List Char) := do
  let (year, '-' :: text) ← fixedDigits? 4 text | none
  let (month, '-' :: text) ← fixedDigits? 2 text | none
  let (day, text) ← fixedDigits? 2 text
  if 1 ≤ month && month ≤ 12 && 1 ≤ day && day ≤ daysIn year month then
    some (⟨year, month, day⟩, text)
  else none

/-- Billionths of a second from the digits after the point; further digits are dropped. -/
def nanosecondOf (digits : List Nat) : Nat :=
  valueOf 10 (digits.take 9) * Nat.pow 10 (9 - digits.length)

/-- Seconds may be left out, which is the full minute, and may be 60. -/
def time? (text : List Char) : Option (Time × List Char) := do
  let (hour, ':' :: text) ← fixedDigits? 2 text | none
  let (minute, text) ← fixedDigits? 2 text
  if 23 < hour || 59 < minute then none
  match text with
  | ':' :: text =>
    let (second, text) ← fixedDigits? 2 text
    if 60 < second then none
    match text with
    | '.' :: text =>
      let digits := text.takeWhile Char.isDigit
      if digits.isEmpty then none
      some (⟨hour, minute, second, nanosecondOf (digits.filterMap (digitIn? 10))⟩,
        text.dropWhile Char.isDigit)
    | _ => some ({ hour, minute, second }, text)
  | _ => some ({ hour, minute }, text)

def offset? : List Char → Option (Option Offset)
  | [] => some none
  | ['Z'] => some (some .utc)
  | ['z'] => some (some .utc)
  | sign :: text => do
    if sign ≠ '+' && sign ≠ '-' then none
    let (hour, ':' :: text) ← fixedDigits? 2 text | none
    let (minute, []) ← fixedDigits? 2 text | none
    if 23 < hour || 59 < minute then none
    let n : Int := hour * 60 + minute
    some (some (.minutes (if sign = '-' then -n else n)))

/-- A date, a time, or both; an offset needs both. -/
def dateTime? (text : List Char) : Option DateTime :=
  match date? text with
  | some (date, []) => some ⟨some date, none, none⟩
  | some (date, separator :: rest) => do
    if separator ≠ 'T' && separator ≠ 't' && separator ≠ ' ' then none
    let (time, rest) ← time? rest
    let offset ← offset? rest
    some ⟨some date, some time, offset⟩
  | none => do
    let (time, []) ← time? text | none
    some ⟨none, some time, none⟩

def scalar? (text : List Char) : Option Value :=
  if text = "true".toList then some (.boolean true)
  else if text = "false".toList then some (.boolean false)
  else
    ((integer? text).map .integer).orElse fun _ =>
    ((real? text).map .real).orElse fun _ =>
    (dateTime? text).map .dateTime

end IfCollapse.Toml
