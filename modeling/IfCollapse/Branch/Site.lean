import IfCollapse.Branch.Difference

/-!
Sites: the places where a conditional expression may stand. Each difference between two branches
climbs to the nearest such place on both sides at once.
-/

namespace IfCollapse.Branch

open Java

inductive Position where
  /-- Argument of a method or constructor call. -/
  | argument
  /-- First value of a declared variable. -/
  | initializer
  | returnValue
  | yieldValue
  /-- Right operand of an operator that evaluates both operands. -/
  | rightOperand
  | assignedValue
  /-- Condition of an inner `if`. -/
  | ifCondition
  deriving DecidableEq, Repr

def Position.name : Position → String
  | .argument => "argument"
  | .initializer => "initializer"
  | .returnValue => "return value"
  | .yieldValue => "yield value"
  | .rightOperand => "right operand"
  | .assignedValue => "assigned value"
  | .ifCondition => "if condition"

def isShortCircuit (binary : Shape) : Bool :=
  match binary.childByField? "operator" with
  | some operator => operator.text == "&&".toList || operator.text == "||".toList
  | none => false

def positionIn? (here parent : Shape) (grandparent : Option Shape) : Option Position :=
  match parent.kind with
  | .argumentList => some .argument
  | .variableDeclarator => if here.field = some "value" then some .initializer else none
  | .returnStatement => some .returnValue
  | .yieldStatement => some .yieldValue
  | .binaryExpression =>
    if here.field = some "right" ∧ ¬isShortCircuit parent then some .rightOperand else none
  | .assignmentExpression => if here.field = some "right" then some .assignedValue else none
  | .parenthesizedExpression =>
    if parent.field = some "condition" ∧ grandparent.map (·.kind) = some .ifStatement then
      some .ifCondition
    else
      none
  | _ => none

/-- The position of a place that a conditional expression could take. Array initializers stand
where expressions do without being any. -/
def position? (p : Place) : Option Position :=
  if p.isToken || p.kind == .other "array_initializer" then none
  else
    match p.above with
    | [] => none
    | parent :: above => positionIn? p.here parent above.head?

structure Site where
  before : Place
  after : Place
  position : Position

inductive Obstacle where
  /-- The difference lies in the target of an assignment. -/
  | assignmentTarget (place : Place)
  /-- The nearest site lies inside a lambda or a class body: the condition would be evaluated in
  another scope and at another time. -/
  | innerScope (place : Place)
  | noPosition

def isAssignmentTarget (p : Place) : Bool :=
  p.field == some "left" && p.parent?.any (·.kind == .assignmentExpression)

/-- Whether a place or an ancestor of it, up to but without the element numbered `limit`, is the
target of an assignment. -/
def inAssignmentTarget (p : Place) (limit : Nat) : Bool :=
  (p.lineage.takeWhile (·.id != limit)).any isAssignmentTarget

def opensScope (p : Place) : Bool :=
  p.kind == .lambdaExpression || p.kind == .other "class_body"

def inInnerScope (p : Place) (limit : Nat) : Bool :=
  (p.ancestors.takeWhile (·.id != limit)).any opensScope

/-- Goes up on both sides until the first place with a position. The two sides must have the same
role on every level and the same position at the end, and neither may reach its limit. -/
def nearest (limitBefore limitAfter : Nat) (before : Shape) (aboveBefore : List Shape)
    (after : Shape) (aboveAfter : List Shape) : Except Obstacle Site :=
  if before.id = limitBefore ∨ after.id = limitAfter then .error .noPosition
  else if before.field ≠ after.field then .error .noPosition
  else
    match position? ⟨before, aboveBefore⟩ with
    | some position =>
      if position? ⟨after, aboveAfter⟩ ≠ some position then .error .noPosition
      else if inInnerScope ⟨before, aboveBefore⟩ limitBefore then
        .error (.innerScope ⟨before, aboveBefore⟩)
      else .ok ⟨⟨before, aboveBefore⟩, ⟨after, aboveAfter⟩, position⟩
    | none =>
      match aboveBefore, aboveAfter with
      | before :: aboveBefore, after :: aboveAfter =>
        nearest limitBefore limitAfter before aboveBefore after aboveAfter
      | _, _ => .error .noPosition

/-- Assignment targets must agree exactly, so nothing inside one climbs out of it. -/
def climb (limitBefore limitAfter : Nat) (d : Difference) : Except Obstacle Site :=
  if inAssignmentTarget d.before limitBefore || inAssignmentTarget d.after limitAfter then
    .error (.assignmentTarget d.before)
  else nearest limitBefore limitAfter d.before.here d.before.above d.after.here d.after.above

structure Misplaced where
  difference : Difference
  obstacle : Obstacle

def climbAll (limitBefore limitAfter : Nat) : List Difference → Except Misplaced (List Site)
  | [] => .ok []
  | d :: ds =>
    match climb limitBefore limitAfter d with
    | .error obstacle => .error ⟨d, obstacle⟩
    | .ok site => do return site :: (← climbAll limitBefore limitAfter ds)

/-- By start, and of two that start together the longer first. -/
def Site.precedes (a b : Site) : Bool :=
  a.before.span.start < b.before.span.start ||
    (a.before.span.start == b.before.span.start && b.before.span.length ≤ a.before.span.length)

def dropNested : List Site → List Site → List Site
  | kept, [] => kept.reverse
  | kept, site :: sites =>
    if kept.any fun outer => site.before.isWithin outer.before.id then dropNested kept sites
    else dropNested (site :: kept) sites

def fold (sites : List Site) : List Site :=
  dropNested [] (sites.mergeSort Site.precedes)

/-- The sites of the differences between two elements, which are the limits of the climb. -/
def classify (ds : List Difference) (limitBefore limitAfter : Nat) :
    Except Misplaced (List Site) := do
  return fold (← climbAll limitBefore limitAfter ds)

end IfCollapse.Branch
