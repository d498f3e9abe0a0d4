import IfCollapse.Java.Tree

/-!
Where two pieces of code differ. Two elements are compared part by part; a difference between
tokens is reported at the nodes that hold them, because a token cannot be replaced alone.
-/

namespace IfCollapse.Branch

open Java

structure Difference where
  before : Place
  after : Place

def sameToken (a : Label) (named : Bool) (b : Label) : Bool :=
  a.name == b.name && (!(named || (Kind.ofName a.name).carriesText) || a.text == b.text)

mutual

/-- The differences between two elements, in the order of the source, given the ancestors of each.
There is no answer if only the nodes around the two can be exchanged. -/
def compare (aboveBefore : List Shape) (before : Shape) (aboveAfter : List Shape) (after : Shape) :
    Option (List Difference) :=
  match before with
  | .token a named =>
    if a.id = after.id then some []
    else
      match after with
      | .token b _ => if sameToken a named b then some [] else none
      | .node _ _ => none
  | .node a children =>
    if a.id = after.id then some []
    else
      match after with
      | .token _ _ => none
      | .node b others =>
        let here : Difference := ⟨⟨.node a children, aboveBefore⟩, ⟨.node b others, aboveAfter⟩⟩
        if a.name ≠ b.name ∨ children.length ≠ others.length then some [here]
        else
          match compareAll (.node a children :: aboveBefore) children
              (.node b others :: aboveAfter) others with
          | some differences => some differences
          | none => some [here]

def compareAll (aboveBefore : List Shape) (before : List Shape) (aboveAfter : List Shape)
    (after : List Shape) : Option (List Difference) :=
  match before, after with
  | a :: before, b :: after =>
    match compare aboveBefore a aboveAfter b with
    | none => none
    | some differences =>
      match compareAll aboveBefore before aboveAfter after with
      | none => none
      | some more => some (differences ++ more)
  | _, _ => some []

end

def differences (before after : Place) : List Difference :=
  match compare before.above before.here after.above after.here with
  | some differences => differences
  | none =>
    match before.parent?, after.parent? with
    | some before, some after => [⟨before, after⟩]
    | _, _ => []

end IfCollapse.Branch
