import IfCollapse.Text.Slice

/-!
Concrete syntax trees of Java sources. A tree is written as rows in preorder, each with its depth,
and read back by letting every row adopt the deeper trees that follow it.
-/

namespace IfCollapse.Java

structure Row where
  depth : Nat
  kind : String
  named : Bool
  /-- Comments and other parts that may stand anywhere. -/
  extra : Bool
  /-- A syntax error lies here or below. -/
  hasError : Bool
  span : Span
  /-- The role that the parent gives to this part. -/
  field : Option String
  deriving DecidableEq, Repr

inductive Cst where
  | node (row : Row) (index : Nat) (children : List Cst)

namespace Cst

def row : Cst → Row
  | .node row _ _ => row

def index : Cst → Nat
  | .node _ index _ => index

def children : Cst → List Cst
  | .node _ _ children => children

def kind (t : Cst) : String := t.row.kind

def span (t : Cst) : Span := t.row.span

/-- Puts a row in front of the trees of the rows after it: it adopts the deeper ones at once behind
it. -/
def adopt (row : Row) (index : Nat) (later : List Cst) : List Cst :=
  .node row index (later.takeWhile fun t => row.depth < t.row.depth) ::
    later.dropWhile fun t => row.depth < t.row.depth

def forest : List Row → Nat → List Cst
  | [], _ => []
  | row :: rows, first => adopt row first (forest rows (first + 1))

def ofRows? (rows : List Row) : Option Cst :=
  (forest rows 0).head?

mutual

def preorder : Cst → List Cst
  | .node row index children => .node row index children :: preorderAll children

def preorderAll : List Cst → List Cst
  | [] => []
  | t :: ts => preorder t ++ preorderAll ts

end

mutual

def size : Cst → Nat
  | .node _ _ children => sizeAll children + 1

def sizeAll : List Cst → Nat
  | [] => 0
  | t :: ts => size t + sizeAll ts

end

def namedChildren (t : Cst) : List Cst :=
  t.children.filter (·.row.named)

def childByField? (t : Cst) (field : String) : Option Cst :=
  t.children.find? (·.row.field = some field)

def text (t : Cst) (source : List Char) : Except Fault (List Char) :=
  slice source t.span

end Cst

end IfCollapse.Java
