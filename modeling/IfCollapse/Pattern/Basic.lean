import IfCollapse.Text.Space
import IfCollapse.Text.Word

/-!
Text patterns with groups.
-/

namespace IfCollapse

inductive CharSet where
  | char (c : Char)
  | range (first last : Char)
  | digit
  | word
  | space
  /-- Everything but a newline. -/
  | any
  | negation (s : CharSet)
  | union (sets : List CharSet)

mutual

def CharSet.accepts (c : Char) : CharSet → Bool
  | .char d => c = d
  | .range first last => first ≤ c && c ≤ last
  | .digit => isDecimalDigit c
  | .word => isWordChar c
  | .space => isSpaceChar c
  | .any => c ≠ '\n'
  | .negation s => !s.accepts c
  | .union sets => CharSet.acceptsAny c sets

def CharSet.acceptsAny (c : Char) : List CharSet → Bool
  | [] => false
  | s :: sets => s.accepts c || CharSet.acceptsAny c sets

end

inductive Anchor where
  | textStart
  | textEnd
  | wordEdge
  | insideWord
  deriving DecidableEq, Repr

def Anchor.holds (text : Array Char) (position : Nat) : Anchor → Bool
  | .textStart => position = 0
  | .textEnd => position = text.size
  | .wordEdge => isWordEdge
  | .insideWord => !isWordEdge
where
  /-- Exactly one of the characters before and behind belongs to a word. -/
  isWordEdge : Bool :=
    (0 < position && text[position - 1]?.any isWordChar) != text[position]?.any isWordChar

inductive Pattern where
  | empty
  | one (set : CharSet)
  | anchor (a : Anchor)
  | both (first second : Pattern)
  /-- The first alternative is preferred. -/
  | either (first second : Pattern)
  | group (number : Nat) (inner : Pattern)
  /-- At least `least` and at most `most` times; more often is preferred, unless lazy. -/
  | times (inner : Pattern) (least : Nat) (most : Option Nat) (isLazy : Bool)

end IfCollapse
