/-!
Numbers of double precision: the one nearest to a decimal number, and the shortest decimal number
that reads back. All arithmetic is exact.
-/

namespace IfCollapse.Decimal

/-- The value `mantissa * 2 ^ exponent`. The mantissa has at most 53 bits, and it has 53 unless the
exponent is the least one. -/
structure Double where
  mantissa : Nat
  exponent : Int
  deriving DecidableEq, Repr

def mantissaBits : Nat := 53
def leastExponent : Int := -1074
def greatestExponent : Int := 971

/-- A quotient rounded to the nearest number; a half goes to the even neighbour. -/
def roundDiv (n d : Nat) : Nat :=
  let q := n / d
  let r := n % d
  if 2 * r < d ∨ (2 * r = d ∧ q % 2 = 0) then q else q + 1

/-- Numerator and denominator of `n / d * base ^ power`. -/
def scale (base n d : Nat) (power : Int) : Nat × Nat :=
  if 0 ≤ power then (n * base.pow power.toNat, d) else (n, d * base.pow (-power).toNat)

/-- The exponent at which `n / d` has a mantissa of 53 bits. -/
def exponentOf (n d : Nat) : Int :=
  let guess : Int := n.log2 - d.log2 - (mantissaBits - 1 : Nat)
  let (a, b) := scale 2 n d (-guess)
  if a / b < Nat.pow 2 (mantissaBits - 1) then guess - 1 else guess

def Double.ofRatio? (n d : Nat) : Option Double :=
  let exponent := max (exponentOf n d) leastExponent
  let (a, b) := scale 2 n d (-exponent)
  let mantissa := roundDiv a b
  let (mantissa, exponent) :=
    if mantissa = Nat.pow 2 mantissaBits then (Nat.pow 2 (mantissaBits - 1), exponent + 1)
    else (mantissa, exponent)
  if greatestExponent < exponent then none else some ⟨mantissa, exponent⟩

def digitCount (n : Nat) : Nat :=
  (Nat.toDigits 10 n).length

/-- The nearest number to `digits * 10 ^ power`. What is far out of range is not computed. -/
def Double.ofDecimal? (digits : Nat) (power : Int) : Option Double :=
  let top := power + digitCount digits
  if digits = 0 || top < -400 then some ⟨0, leastExponent⟩
  else if 400 < top then none
  else
    let (n, d) := scale 10 digits 1 power
    Double.ofRatio? n d

structure Scientific where
  digits : Nat
  power : Int
  deriving DecidableEq, Repr

/-- The greatest power of ten that is not above a positive `n / d`. -/
def magnitude (n d : Nat) : Int :=
  if d ≤ n then (digitCount (n / d) : Int) - 1
  else
    let k := digitCount (d / n)
    if d ≤ n * Nat.pow 10 (k - 1) then 1 - (k : Int) else -(k : Int)

/-- Whether `s` reads back as `x`: it lies between the midpoints to the neighbours of `x`, which
count as `x` if its mantissa is even. -/
def readsBack (x : Double) (s : Scientific) : Bool :=
  let below :=
    if x.mantissa = Nat.pow 2 (mantissaBits - 1) ∧ leastExponent < x.exponent then 1 else 2
  let (lowN, d) := scale 2 (4 * x.mantissa - below) 4 x.exponent
  let (highN, _) := scale 2 (4 * x.mantissa + 2) 4 x.exponent
  let (a, b) := scale 10 s.digits 1 s.power
  if x.mantissa % 2 = 0 then lowN * b ≤ a * d && a * d ≤ highN * b
  else lowN * b < a * d && a * d < highN * b

/-- The best decimal number with `count` digits that reads back as `x`: of the two around `x` the
nearer, and the upper one if both are equally near. -/
def candidate? (x : Double) (count : Nat) : Option Scientific :=
  let (n, d) := scale 2 x.mantissa 1 x.exponent
  let power := magnitude n d - (count - 1 : Nat)
  let (a, b) := scale 10 n d (-power)
  let lower : Scientific := ⟨a / b, power⟩
  let upper : Scientific :=
    if a / b + 1 = Nat.pow 10 count then ⟨1, power + count⟩ else ⟨a / b + 1, power⟩
  let (first, second) := if 2 * (a % b) < b then (lower, upper) else (upper, lower)
  if readsBack x first then some first
  else if readsBack x second then some second
  else none

/-- The shortest decimal number that reads back as `x`; seventeen digits always do. -/
def shortest (x : Double) : Scientific :=
  ((List.range 17).findSome? fun k => candidate? x (k + 1)).getD ⟨0, 0⟩

/-- Digits with a point and without an exponent; a whole number has no point. -/
def Scientific.positional (s : Scientific) : List Char :=
  let digits := Nat.toDigits 10 s.digits
  if 0 ≤ s.power then
    if s.digits = 0 then digits else digits ++ List.replicate s.power.toNat '0'
  else
    let places := (-s.power).toNat
    let padded := List.replicate (places + 1 - digits.length) '0' ++ digits
    padded.take (padded.length - places) ++ '.' :: padded.drop (padded.length - places)

end IfCollapse.Decimal
