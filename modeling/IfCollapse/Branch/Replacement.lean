import IfCollapse.Branch.Site
import IfCollapse.Edit
import IfCollapse.Finding
import IfCollapse.Text.Lines

/-!
Replacements: the statements of the then-branch with a conditional expression at every site. The
text of a statement is its source text with the sites cut out, so formatting and comments survive.
-/

namespace IfCollapse.Branch

open Java

/-- `condition ? whenTrue : whenFalse`, in the place of `target`. -/
structure Conditional where
  target : Place
  condition : Place
  whenTrue : Place
  whenFalse : Place
  position : Position

namespace Conditional

def parenthesize (text : List Char) : List Char :=
  '(' :: text ++ [')']

def operand (p : Place) : List Char :=
  if p.kind.bindsLoosely then parenthesize p.text else p.text

def render (c : Conditional) : List Char :=
  let text := operand c.condition ++ " ? ".toList ++ operand c.whenTrue ++ " : ".toList ++
    operand c.whenFalse
  if c.position = .rightOperand then parenthesize text else text

end Conditional

structure Statement where
  template : Place
  substitutions : List Conditional

namespace Statement

def renderFrom (source : Source) (stop : Nat) : Nat → List Conditional → Except Fault (List Char)
  | cursor, [] => do source.slice (← Span.make cursor stop)
  | cursor, c :: cs => do
    let gap ← source.slice (← Span.make cursor c.target.span.start)
    let rest ← renderFrom source stop c.target.span.stop cs
    return gap ++ c.render ++ rest

def render (s : Statement) (source : Source) : Except Fault (List Char) :=
  renderFrom source s.template.span.stop s.template.span.start s.substitutions

end Statement

structure Replacement where
  ifStatement : Place
  /-- What takes the place of the `if`, in order. -/
  statements : List Statement
  /-- Statements after the `if` that served as its else branch. -/
  borrowed : List Place

namespace Replacement

def count (r : Replacement) : Nat :=
  (r.statements.flatMap (·.substitutions)).length

def removals (r : Replacement) : List Place :=
  r.ifStatement :: r.borrowed

def extent (r : Replacement) : Extent :=
  if r.count = 1 ∧ r.statements.length = 1 then .simple else .complex

/-- From the `if` to the end of the last removed statement. -/
def span (r : Replacement) : Except Fault Span :=
  Span.make r.ifStatement.span.start
    (r.borrowed.foldl (fun stop p => max stop p.span.stop) r.ifStatement.span.stop)

/-- Whether an offset lies inside a statement that is kept. -/
def keeps (r : Replacement) (offset : Nat) : Bool :=
  r.statements.any (·.template.span.contains offset)

end Replacement

def dropStart? : List Char → List Char → Option (List Char)
  | [], text => some text
  | _ :: _, [] => none
  | a :: start, b :: text => if a = b then dropStart? start text else none

def reindentLine (old new line : List Char) : List Char :=
  match dropStart? old line with
  | some rest => new ++ rest
  | none => line

def joinLines : List (List Char) → List Char
  | [] => []
  | [line] => line
  | line :: lines => line ++ '\n' :: joinLines lines

/-- Moves every line but the first from the indentation `old` to the indentation `new`. -/
def reindent (text old new : List Char) : List Char :=
  if old = new then text
  else
    match pieces '\n' text with
    | [] => []
    | first :: lines => joinLines (first :: lines.map (reindentLine old new))

namespace Replacement

def renderStatements (source : Source) (indent : List Char) :
    List Statement → Except Fault (List (List Char))
  | [] => .ok []
  | s :: statements => do
    let own ← source.indentationOf s.template.span.start
    let text ← s.render source
    return reindent text own indent :: (← renderStatements source indent statements)

def render (r : Replacement) (source : Source) : Except Fault (List Char) := do
  let indent ← source.indentationOf r.ifStatement.span.start
  let texts ← renderStatements source indent r.statements
  return (('\n' :: indent).intercalate texts)

end Replacement

def substitutionsIn (condition : Place) (sites : List Site) (template : Place) :
    List Conditional :=
  (sites.filter fun site => site.before.isWithin template.id).map fun site =>
    ⟨site.before, condition, site.before, site.after, site.position⟩

/-- The replacement of an `if`, given its condition with the parentheses. -/
def build (ifStatement condition : Place) (sites : List Site)
    (thenStatements borrowed : List Place) : Replacement where
  ifStatement := ifStatement
  statements := thenStatements.map fun template =>
    ⟨template, substitutionsIn (condition.childNodes.head?.getD condition) sites template⟩
  borrowed := borrowed

end IfCollapse.Branch
