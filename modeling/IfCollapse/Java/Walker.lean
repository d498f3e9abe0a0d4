import IfCollapse.Java.Cst

/-!
A walk through a concrete syntax tree with a cursor that cannot leave the node it started at. The
walk shows every node once, in preorder.
-/

namespace IfCollapse.Java

/-- A node, its later siblings, and the same for each of its ancestors up to the start. -/
structure Cursor where
  node : Cst
  later : List Cst
  above : List (Cst × List Cst)

namespace Cursor

def start (node : Cst) : Cursor :=
  ⟨node, [], []⟩

def parent? (c : Cursor) : Option Cst :=
  c.above.head?.map (·.1)

def toFirstChild? (c : Cursor) : Option Cursor :=
  match c.node.children with
  | [] => none
  | child :: children => some ⟨child, children, (c.node, c.later) :: c.above⟩

def toNextSibling? (c : Cursor) : Option Cursor :=
  match c.later with
  | [] => none
  | sibling :: later => some ⟨sibling, later, c.above⟩

def toParent? (c : Cursor) : Option Cursor :=
  match c.above with
  | [] => none
  | (node, later) :: above => some ⟨node, later, above⟩

def toNextAbove? : List (Cst × List Cst) → Option Cursor
  | [] => none
  | (node, later) :: above =>
    match toNextSibling? ⟨node, later, above⟩ with
    | some c => some c
    | none => toNextAbove? above

def next? (c : Cursor) : Option Cursor :=
  match c.toFirstChild? with
  | some d => some d
  | none =>
    match c.toNextSibling? with
    | some d => some d
    | none => toNextAbove? c.above

end Cursor

/-- A walk holds the place it will show next, or nothing when it is over. -/
structure Walker where
  cursor : Option Cursor

namespace Walker

def start (node : Cst) : Walker :=
  ⟨some (Cursor.start node)⟩

def next : Walker → Option (Cursor × Walker)
  | ⟨none⟩ => none
  | ⟨some c⟩ => some (c, ⟨c.next?⟩)

def take : Nat → Walker → List Cursor
  | 0, _ => []
  | n + 1, w =>
    match w.next with
    | none => []
    | some (c, w) => c :: take n w

end Walker

def Cst.places (t : Cst) : List Cursor :=
  (Walker.start t).take t.size

end IfCollapse.Java
