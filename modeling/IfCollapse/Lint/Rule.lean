import IfCollapse.Branch.Verdict
import IfCollapse.Java.Walker
import IfCollapse.Log
import IfCollapse.Text.Number

/-!
Rules and the one rule there is: reporting `if` statements that can be replaced with conditional
expressions, each with a fix.
-/

namespace IfCollapse.Lint

open Java Branch

structure Remarks where
  findings : List Finding
  events : List Event

def Remarks.none : Remarks :=
  ⟨[], []⟩

structure Rule where
  name : String
  /-- The kinds of nodes that the rule is asked about; it is asked about all if there are none. -/
  kinds : List String
  check : Source → Cursor → Except Fault Remarks

abbrev Properties := List (String × String)

structure Options where
  /-- Also consider an `if` without `else`, with the statements after it as its else branch. -/
  allowBorrowedElse : Bool := true
  /-- Also report replacements of several statements or with several conditional expressions. -/
  reportComplex : Bool := true
  /-- Report no replacement with more conditional expressions. -/
  maxSites : Option Nat := none
  deriving DecidableEq, Repr

def readBool? : String → Option Bool
  | "true" => some true
  | "false" => some false
  | _ => none

/-- A value that cannot be read counts as absent. -/
def Options.ofProperties (properties : Properties) : Options where
  allowBorrowedElse := ((properties.lookup "allowVirtualElse").bind readBool?).getD true
  reportComplex := ((properties.lookup "reportComplex").bind readBool?).getD true
  maxSites := (properties.lookup "maxSites").bind fun value => readWord? value.toList

def Options.reports (o : Options) (r : Replacement) : Bool :=
  (o.allowBorrowedElse || r.borrowed.isEmpty) && (o.reportComplex || r.extent == .simple) &&
    o.maxSites.all (r.count ≤ ·)

def isPlainLeaf : Kind → Bool
  | .identifier | .integerLiteral | .floatingPointLiteral | .characterLiteral | .stringLiteral
  | .trueLiteral | .falseLiteral | .nullLiteral | .thisReference => true
  | _ => false

def isPlainCompound : Kind → Bool
  | .fieldAccess | .parenthesizedExpression | .unaryExpression | .binaryExpression => true
  | _ => false

mutual

/-- Whether an expression can be evaluated any number of times with the same value and no effect. -/
def isRepeatable : Shape → Bool
  | .token label _ => isPlainLeaf (Kind.ofName label.name) || isPlainCompound (Kind.ofName label.name)
  | .node label children =>
    isPlainLeaf (Kind.ofName label.name) ||
      (isPlainCompound (Kind.ofName label.name) && areRepeatable children)

/-- Tokens do not count. -/
def areRepeatable : List Shape → Bool
  | [] => true
  | shape :: shapes => (shape.isToken || isRepeatable shape) && areRepeatable shapes

end

def firstCondition? (r : Replacement) : Option Place :=
  (r.statements.flatMap (·.substitutions)).head?.map (·.condition)

def repeatsCondition (r : Replacement) : Bool :=
  1 < r.count && (firstCondition? r).any fun c => !isRepeatable c.here

/-- A statement before a site may change the value of the condition. -/
def reordersCondition (r : Replacement) : Bool :=
  1 < r.statements.length

def widensScope (r : Replacement) : Bool :=
  r.statements.any (·.template.kind == .localVariableDeclaration)

/-- Some comment in the replaced span begins outside the statements that are kept. -/
def dropsComment (comments : List Span) (span : Span) (r : Replacement) : Bool :=
  (comments.filter span.includes).any fun comment => !r.keeps comment.start

def applicability (comments : List Span) (span : Span) (r : Replacement) : Applicability :=
  if repeatsCondition r || reordersCondition r || widensScope r || dropsComment comments span r then
    .risky
  else .safe

def refusalEvents : Refusal → List Event
  | .noElse .fallsThrough =>
    [note .borrow "then-branch can complete normally, no virtual else" []]
  | .noElse (.tooFew wanted found) =>
    [note .borrow "too few statements after the if"
      [("wanted", toString wanted), ("found", toString found)]]
  | .noElse _ => []
  | .unequalCounts thens elses =>
    [note .verdict "branches have different statement counts"
      [("then", toString thens), ("other", toString elses)]]
  | .misplaced ⟨difference, obstacle⟩ =>
    obstacleEvents obstacle ++
      [note .site "difference has no eligible position"
        [("before", quoted difference.before), ("after", quoted difference.after)]]
  | .equivalentBranches => [note .verdict "branches are equivalent, nothing to simplify" []]
  | .doesNotFit => [note .verdict "replacement does not fit where the if stands" []]
where
  note (channel : Channel) (message : String) (values : List (String × String)) : Event :=
    ⟨.debug, channel, message, values⟩
  quoted (p : Place) : String :=
    String.ofList (quote p.text)
  obstacleEvents : Obstacle → List Event
    | .assignmentTarget place =>
      [note .site "difference is inside an assignment target" [("site", quoted place)]]
    | .innerScope place =>
      [note .site "site is inside a lambda or class body" [("site", quoted place)]]
    | .noPosition => []

def verdictEvents : Verdict → List Event
  | .keep why => refusalEvents why
  | .replace r =>
    [⟨.debug, .verdict, "if statement can be rewritten",
      [("sites", toString r.count), ("statements", toString r.statements.length),
        ("borrowed", toString r.borrowed.length)]⟩]

def findingOf (source : Source) (comments : List Span) (keyword : Span) (r : Replacement) :
    Except Fault Finding := do
  let text ← r.render source
  let span ← r.span
  let edit ← Edit.replacement text span
  return {
    sites := r.count
    extent := r.extent
    span := keyword
    fix := some (Fix.ofEdit edit (applicability comments span r)) }

/-- An `if` is judged together with the code around it, unless that has syntax errors. -/
def checkIf (options : Options) (source : Source) (place : Cursor) : Except Fault Remarks :=
  match place.parent? with
  | none => .ok .none
  | some parent =>
    if place.node.kind ≠ "if_statement" || parent.row.hasError then .ok .none
    else do
      let tree ← Tree.ofCst source parent
      match tree.find? place.node.index with
      | none => return .none
      | some element =>
        match evaluate tree element.id with
        | .error misuse =>
          return ⟨[], [⟨.warn, .rule, "skipping if statement", [("err", misuse.message)]⟩]⟩
        | .ok verdict =>
          match verdict.replacement?.filter options.reports with
          | none => return ⟨[], verdictEvents verdict⟩
          | some r =>
            let keyword := (place.node.children.head?.getD place.node).span
            let finding ← findingOf source tree.comments keyword r
            return ⟨[finding], verdictEvents verdict⟩

namespace Rule

def ifToTernaryName : String := "IfToTernary"

def ifToTernary (options : Options) : Rule where
  name := ifToTernaryName
  kinds := ["if_statement"]
  check := checkIf options

end Rule

structure Registry where
  makers : List (String × (Properties → Rule))

namespace Registry

def empty : Registry :=
  ⟨[]⟩

/-- A later maker takes the place of an earlier one of the same name. -/
def register (r : Registry) (name : String) (maker : Properties → Rule) : Registry :=
  ⟨(name, maker) :: r.makers.filter fun entry => entry.1 ≠ name⟩

def registerIfToTernary (r : Registry) : Registry :=
  r.register Rule.ifToTernaryName fun properties =>
    Rule.ifToTernary (Options.ofProperties properties)

def builtin : Registry :=
  empty.registerIfToTernary

def create? (r : Registry) (name : String) (properties : Properties) : Option Rule :=
  (r.makers.lookup name).map fun maker => maker properties

def has (r : Registry) (name : String) : Bool :=
  (r.makers.lookup name).isSome

def names (r : Registry) : List String :=
  (r.makers.map (·.1)).mergeSort fun a b => decide (a ≤ b)

end Registry

end IfCollapse.Lint
