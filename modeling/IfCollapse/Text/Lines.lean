/-!
Texts in pieces: between separators, and as lines.
-/

namespace IfCollapse

def consFirst (c : Char) : List (List Char) → List (List Char)
  | [] => [[c]]
  | piece :: pieces => (c :: piece) :: pieces

/-- The pieces of a text between separators. There is always one more than there are separators. -/
def pieces (separator : Char) : List Char → List (List Char)
  | [] => [[]]
  | c :: text =>
    if c = separator then [] :: pieces separator text else consFirst c (pieces separator text)

theorem consFirst_ne_nil (c : Char) (ps : List (List Char)) : consFirst c ps ≠ [] := by
  cases ps <;> simp [consFirst]

theorem pieces_ne_nil (separator : Char) (text : List Char) : pieces separator text ≠ [] := by
  cases text with
  | nil => simp [pieces]
  | cons c text =>
    by_cases h : c = separator
    · simp [pieces, h]
    · simpa [pieces, h] using consFirst_ne_nil c (pieces separator text)

/-- A newline ends a line, and so does a newline with a carriage return before it. What follows the
last newline is a line unless it is empty. -/
def textLines : List Char → List (List Char)
  | [] => []
  | '\n' :: text => [] :: textLines text
  | '\r' :: '\n' :: text => [] :: textLines text
  | c :: text => consFirst c (textLines text)

end IfCollapse
