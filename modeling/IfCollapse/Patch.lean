import IfCollapse.Text.Lines

/-!
Patches: what changed between two texts, line by line, in hunks with some lines around them. Lines
are compared position by position, after the lines that both texts end with are set aside.
-/

namespace IfCollapse

abbrev Line := List Char

inductive Mark where
  | context
  | removed
  | added
  deriving DecidableEq, Repr

def Mark.sign : Mark → Char
  | .context => ' '
  | .removed => '-'
  | .added => '+'

structure Hunk where
  oldStart : Nat
  newStart : Nat
  lines : List (Mark × Line)
  deriving DecidableEq, Repr

namespace Hunk

def old (h : Hunk) : List Line :=
  (h.lines.filter (·.1 ≠ .added)).map (·.2)

def new (h : Hunk) : List Line :=
  (h.lines.filter (·.1 ≠ .removed)).map (·.2)

def push (h : Hunk) (lines : List (Mark × Line)) : Hunk :=
  { h with lines := h.lines ++ lines }

def trailing (h : Hunk) : Nat :=
  (h.lines.reverse.takeWhile (·.1 = .context)).length

def render (h : Hunk) : List Char :=
  s!"@@ -{h.oldStart},{h.old.length} +{h.newStart},{h.new.length} @@\n".toList ++
    h.lines.flatMap fun (mark, line) => mark.sign :: line ++ ['\n']

end Hunk

namespace Patch

/-- A hunk ends after this many unchanged lines. -/
def contextSize : Nat := 3

inductive Step where
  | same (line : Line)
  | replaced (old new : Line)
  | removed (old : Line)
  | added (new : Line)
  deriving DecidableEq, Repr

namespace Step

def old : Step → List Line
  | .same line => [line]
  | .replaced old _ => [old]
  | .removed old => [old]
  | .added _ => []

def new : Step → List Line
  | .same line => [line]
  | .replaced _ new => [new]
  | .removed _ => []
  | .added new => [new]

def isSame : Step → Bool
  | .same _ => true
  | _ => false

def lines : Step → List (Mark × Line)
  | .same line => [(.context, line)]
  | .replaced old new => [(.removed, old), (.added, new)]
  | .removed old => [(.removed, old)]
  | .added new => [(.added, new)]

end Step

def steps : (old new : List Line) → List Step
  | [], new => new.map .added
  | old, [] => old.map .removed
  | o :: old, n :: new => (if o = n then .same o else .replaced o n) :: steps old new

theorem steps_old (old new : List Line) : (steps old new).flatMap Step.old = old := by
  fun_induction steps old new with
  | case1 new => simp [List.flatMap_map, Step.old]
  | case2 old => simp [List.flatMap_map, Step.old]
  | case3 o old n new ih => split <;> simp_all [Step.old]

theorem steps_new (old new : List Line) : (steps old new).flatMap Step.new = new := by
  fun_induction steps old new with
  | case1 new => simp [List.flatMap_map, Step.new]
  | case2 old => simp [List.flatMap_map, Step.new]
  | case3 o old n new ih => split <;> simp_all [Step.new]

def commonLength : (a b : List Line) → Nat
  | x :: a, y :: b => if x = y then commonLength a b + 1 else 0
  | _, _ => 0

/-- Gathers steps into hunks. `i` and `j` lines came before; `rest` are the lines that both texts
end with; `hunk` is the one that is open. -/
def gather (rest : List Line) : (i j : Nat) → (hunk : Option Hunk) → List Step → List Hunk
  | _, _, none, [] => []
  | _, _, some h, [] => [h.push ((rest.take contextSize).map (.context, ·))]
  | i, j, hunk, step :: more =>
    let hunk :=
      match hunk with
      | some h => some (h.push step.lines)
      | none => if step.isSame then none else some ⟨i + 1, j + 1, step.lines⟩
    let i := i + step.old.length
    let j := j + step.new.length
    match hunk with
    | some h =>
      if contextSize ≤ h.trailing then h :: gather rest i j none more
      else gather rest i j (some h) more
    | none => gather rest i j none more

def hunks (old new : List Line) : List Hunk :=
  let common := commonLength old.reverse new.reverse
  gather (old.drop (old.length - common)) 0 0 none
    (steps (old.take (old.length - common)) (new.take (new.length - common)))

def render (path : String) (old new : List Char) : List Char :=
  s!"--- a/{path}\n+++ b/{path}\n".toList ++
    (hunks (textLines old) (textLines new)).flatMap Hunk.render

end Patch

end IfCollapse
