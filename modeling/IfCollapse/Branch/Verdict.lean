import IfCollapse.Branch.Borrow
import IfCollapse.Branch.Replacement

/-!
Whether an `if` statement can be replaced with conditional expressions: its two branches must have
equally many statements, and these may differ only at sites.
-/

namespace IfCollapse.Branch

open Java

inductive Misuse where
  | unknownElement (id : Nat)
  | notAnIf (name : String)
  | missingField (field : String)
  deriving DecidableEq, Repr

def Misuse.message : Misuse → String
  | .unknownElement id => "node #" ++ toString id ++ " does not belong to this tree"
  | .notAnIf name => "expected an if_statement, found " ++ name
  | .missingField field => "if_statement has no " ++ field

inductive Refusal where
  | noElse (why : BorrowRefusal)
  | unequalCounts (thenCount elseCount : Nat)
  | misplaced (why : Misplaced)
  | equivalentBranches
  /-- Several statements, or a declaration, would stand where only one statement fits. -/
  | doesNotFit

inductive Verdict where
  | keep (why : Refusal)
  | replace (replacement : Replacement)

def Verdict.replacement? : Verdict → Option Replacement
  | .keep _ => none
  | .replace r => some r

def branchStatements (branch : Place) : List Place :=
  if branch.kind = .block then branch.childNodes else [branch]

/-- The statements of the else branch, and those of them that were borrowed. -/
def elseStatements (ifStatement : Place) (thenStatements : List Place) :
    Except BorrowRefusal (List Place × List Place) :=
  match ifStatement.childByField? "alternative" with
  | some alternative => .ok (branchStatements alternative, [])
  | none => do
    let borrowed ← borrowElse ifStatement thenStatements
    return (borrowed, borrowed)

def sitesOf : List Place → List Place → Except Misplaced (List Site)
  | before :: befores, after :: afters => do
    let sites ← classify (differences before after) before.id after.id
    return sites ++ (← sitesOf befores afters)
  | _, _ => .ok []

def fits (ifStatement : Place) (thenStatements : List Place) : Bool :=
  ifStatement.parent?.any (·.kind.isSequence) ||
    match thenStatements with
    | [statement] => statement.kind != .localVariableDeclaration
    | _ => false

def judge (ifStatement condition consequence : Place) : Verdict :=
  let thens := branchStatements consequence
  match elseStatements ifStatement thens with
  | .error why => .keep (.noElse why)
  | .ok (elses, borrowed) =>
    if thens.length ≠ elses.length then .keep (.unequalCounts thens.length elses.length)
    else
      match sitesOf thens elses with
      | .error why => .keep (.misplaced why)
      | .ok [] => .keep .equivalentBranches
      | .ok sites =>
        if fits ifStatement thens then .replace (build ifStatement condition sites thens borrowed)
        else .keep .doesNotFit

def evaluate (tree : Tree) (id : Nat) : Except Misuse Verdict :=
  match tree.get? id with
  | none => .error (.unknownElement id)
  | some place =>
    if place.kind ≠ .ifStatement then .error (.notAnIf place.here.name)
    else
      match place.childByField? "condition", place.childByField? "consequence" with
      | none, _ => .error (.missingField "condition")
      | _, none => .error (.missingField "consequence")
      | some condition, some consequence => .ok (judge place condition consequence)

end IfCollapse.Branch
