import IfCollapse.Text.Size

/-!
Spans of text: half-open intervals of byte offsets.
-/

namespace IfCollapse

structure Span where
  start : Nat
  stop : Nat
  ordered : start ≤ stop := by omega
  deriving DecidableEq, Repr

namespace Span

def make (start stop : Nat) : Except Fault Span :=
  if h : start ≤ stop then .ok ⟨start, stop, h⟩ else .error .reversedSpan

def ofLength (start length : Nat) : Except Fault Span := do
  make start (← Size.add start length)

def empty (offset : Nat) : Span :=
  ⟨offset, offset, Nat.le_refl offset⟩

def length (s : Span) : Nat :=
  s.stop - s.start

def isEmpty (s : Span) : Bool :=
  s.start == s.stop

def contains (s : Span) (offset : Nat) : Bool :=
  s.start ≤ offset && offset < s.stop

def includes (s t : Span) : Bool :=
  s.start ≤ t.start && t.stop ≤ s.stop

/-- Spans that touch meet in an empty span. -/
def meet? (s t : Span) : Option Span :=
  if h : Nat.max s.start t.start ≤ Nat.min s.stop t.stop then
    some ⟨Nat.max s.start t.start, Nat.min s.stop t.stop, h⟩
  else
    none

def join (s t : Span) : Span where
  start := min s.start t.start
  stop := max s.stop t.stop
  ordered := by
    have hs := s.ordered
    omega

def moveBack (s : Span) (amount : Nat) : Except Fault Span := do
  make (← Size.sub s.start amount) (← Size.sub s.stop amount)

def render (s : Span) : String :=
  toString s.start ++ ".." ++ toString s.stop

theorem make_of_le {a b : Nat} (h : a ≤ b) : make a b = .ok ⟨a, b, h⟩ := by
  simp [make, h]

theorem make_eq_ok {a b : Nat} {s : Span} : make a b = .ok s ↔ s.start = a ∧ s.stop = b := by
  obtain ⟨x, y, h⟩ := s
  unfold make
  split
  · simp [eq_comm]
  · simp only [reduceCtorEq, false_iff]
    omega

@[simp] theorem contains_iff {s : Span} {o : Nat} :
    s.contains o = true ↔ s.start ≤ o ∧ o < s.stop := by
  simp [contains]

@[simp] theorem includes_iff {s t : Span} :
    s.includes t = true ↔ s.start ≤ t.start ∧ t.stop ≤ s.stop := by
  simp [includes]

end Span

end IfCollapse
