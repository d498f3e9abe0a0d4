import IfCollapse.Java.Tree

/-!
Borrowing an else branch. In `if (c) { return a; } return b;` the last statement acts as the else
branch, because the then-branch never passes control to it.
-/

namespace IfCollapse.Branch

open Java

inductive BorrowRefusal where
  | hasElse
  | notInSequence
  | emptyBranch
  /-- The then-branch can complete normally. -/
  | fallsThrough
  | tooFew (wanted found : Nat)
  deriving DecidableEq, Repr

/-- As many of the following statements as the then-branch has. -/
def borrowElse (ifStatement : Place) (thenStatements : List Place) :
    Except BorrowRefusal (List Place) :=
  if (ifStatement.childByField? "alternative").isSome then .error .hasElse
  else if !ifStatement.parent?.any (·.kind.isSequence) then .error .notInSequence
  else
    match thenStatements.getLast? with
    | none => .error .emptyBranch
    | some last =>
      if !last.kind.isJump then .error .fallsThrough
      else
        let wanted := thenStatements.length
        let statements := ifStatement.followingSiblings.take wanted
        if statements.length < wanted then .error (.tooFew wanted statements.length)
        else .ok statements

end IfCollapse.Branch
