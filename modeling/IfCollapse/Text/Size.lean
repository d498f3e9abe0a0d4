import IfCollapse.Fault

/-!
Byte counts. A size fits in 32 bits; the checked operations refuse to leave that range.
-/

namespace IfCollapse

def byteLength (text : List Char) : Nat :=
  text.foldr (fun c size => c.utf8Size + size) 0

@[simp] theorem byteLength_nil : byteLength [] = 0 := rfl

@[simp] theorem byteLength_cons (c : Char) (text : List Char) :
    byteLength (c :: text) = c.utf8Size + byteLength text := rfl

@[simp] theorem byteLength_append (s t : List Char) :
    byteLength (s ++ t) = byteLength s + byteLength t := by
  induction s with
  | nil => simp
  | cons c s ih =>
    rw [List.cons_append, byteLength_cons, byteLength_cons, ih]
    omega

namespace Size

def max : Nat := Nat.pow 2 32 - 1

def ofNat? (n : Nat) : Option Nat :=
  if n ≤ max then some n else none

def add? (a b : Nat) : Option Nat :=
  ofNat? (a + b)

def sub? (a b : Nat) : Option Nat :=
  if b ≤ a then some (a - b) else none

def add (a b : Nat) : Except Fault Nat :=
  match add? a b with
  | some n => .ok n
  | none => .error .sizeOutOfRange

def sub (a b : Nat) : Except Fault Nat :=
  match sub? a b with
  | some n => .ok n
  | none => .error .sizeOutOfRange

def clamp (n : Nat) : Nat :=
  min n max

theorem clamp_of_le {n : Nat} (h : n ≤ max) : clamp n = n :=
  Nat.min_eq_left h

def ofText (text : List Char) : Nat :=
  clamp (byteLength text)

theorem add?_eq_some {a b n : Nat} : add? a b = some n ↔ n = a + b ∧ a + b ≤ max := by
  unfold add? ofNat?
  split
  · simp_all [eq_comm]
  · simp_all

theorem sub?_eq_some {a b n : Nat} : sub? a b = some n ↔ a = n + b := by
  unfold sub?
  split
  · simp only [Option.some.injEq]
    omega
  · simp only [reduceCtorEq, false_iff]
    omega

end Size

end IfCollapse
