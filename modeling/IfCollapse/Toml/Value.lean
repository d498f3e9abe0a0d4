import IfCollapse.Decimal.Double

/-!
Values of TOML documents.
-/

namespace IfCollapse.Toml

structure Date where
  year : Nat
  month : Nat
  day : Nat
  deriving DecidableEq, Repr

structure Time where
  hour : Nat
  minute : Nat
  second : Nat := 0
  nanosecond : Nat := 0
  deriving DecidableEq, Repr

inductive Offset where
  | utc
  | minutes (n : Int)
  deriving DecidableEq, Repr

structure DateTime where
  date : Option Date
  time : Option Time
  offset : Option Offset
  deriving DecidableEq, Repr

/-- A number with a fraction or an exponent, as it is written. -/
inductive Real where
  | nan
  | infinity (negative : Bool)
  /-- `digits * 10 ^ power`. -/
  | decimal (negative : Bool) (digits : Nat) (power : Int)
  deriving DecidableEq, Repr

inductive Value where
  | string (text : List Char)
  | integer (n : Int)
  | real (x : Real)
  | boolean (b : Bool)
  | dateTime (d : DateTime)
  | array (items : List Value)
  /-- The keys are distinct and in ascending order. -/
  | table (entries : List (String × Value))

end IfCollapse.Toml
