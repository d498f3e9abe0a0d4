/-!
Reading decimal numbers.
-/

namespace IfCollapse

def digitValue? (c : Char) : Option Nat :=
  if '0' ≤ c && c ≤ '9' then some (c.toNat - '0'.toNat) else none

def readDigits? : Nat → List Char → Option Nat
  | value, [] => some value
  | value, c :: text =>
    match digitValue? c with
    | some d => readDigits? (value * 10 + d) text
    | none => none

/-- A number of at most 64 bits: ASCII digits, with or without a plus sign before them. -/
def readWord? (text : List Char) : Option Nat :=
  let digits :=
    match text with
    | '+' :: digits => digits
    | digits => digits
  if digits.isEmpty then none
  else (readDigits? 0 digits).filter (· < Nat.pow 2 64)

end IfCollapse
