import IfCollapse.Java.Kind
import IfCollapse.Java.Cst
import IfCollapse.Text.Source

/-!
Lowered trees as they are stored: elements in a row, each with the number of its parent and those of
its children. Comments and other extras are left out of the structure, and leaves that carry a name
become a node around one token, so that they can be compared and replaced as expressions.
-/

namespace IfCollapse.Java

inductive Content where
  | token (named : Bool)
  | node (children : List Nat)
  deriving DecidableEq, Repr

structure Element where
  /-- The grammar name. -/
  name : String
  span : Span
  parent : Option Nat
  field : Option String
  content : Content
  deriving DecidableEq, Repr

namespace Element

def isToken (e : Element) : Bool :=
  match e.content with
  | .token _ => true
  | .node _ => false

def children (e : Element) : List Nat :=
  match e.content with
  | .token _ => []
  | .node children => children

def setChildren (children : List Nat) (e : Element) : Element :=
  match e.content with
  | .token _ => e
  | .node _ => { e with content := .node children }

end Element

structure Arena where
  elements : Array Element
  root : Nat
  /-- Rows with the numbers of their elements. The first entry for a row counts. -/
  rows : List (Nat × Nat)
  comments : List Span

namespace Arena

def empty : Arena :=
  ⟨#[], 0, [], []⟩

def size (a : Arena) : Nat :=
  a.elements.size

section Building

-- how the number of an element is made from its position
variable (number : Nat → Nat)

def alloc (a : Arena) (e : Element) : Nat × Arena :=
  (number a.size, { a with elements := a.elements.push e })

def setChildren (a : Arena) (id : Nat) (children : List Nat) : Arena :=
  { a with elements := a.elements.modify id (·.setChildren children) }

def enter (a : Arena) (row id : Nat) : Arena :=
  { a with rows := (row, id) :: a.rows }

def remark (a : Arena) (span : Span) : Arena :=
  { a with comments := a.comments ++ [span] }

mutual

/-- Stores a concrete tree and gives the number of its element. A node gets its children once they are
stored. -/
def lower (tree : Cst) (parent : Option Nat) (field : Option String) (a : Arena) : Nat × Arena :=
  match tree with
  | .node row index children =>
    if children.isEmpty then
      if row.named && !(Kind.ofName row.kind).isFragment then
        let (wrapper, a) := a.alloc number ⟨row.kind, row.span, parent, field, .node []⟩
        let (token, a) := a.alloc number ⟨row.kind, row.span, some wrapper, none, .token true⟩
        (wrapper, (a.setChildren wrapper [token]).enter index wrapper)
      else
        let (token, a) := a.alloc number ⟨row.kind, row.span, parent, field, .token row.named⟩
        (token, a.enter index token)
    else
      let (id, a) := a.alloc number ⟨row.kind, row.span, parent, field, .node []⟩
      let (parts, a) := lowerAll children id (a.enter index id)
      (id, a.setChildren id parts)

/-- Of the extras only the comments are kept, as spans. -/
def lowerAll (trees : List Cst) (parent : Nat) (a : Arena) : List Nat × Arena :=
  match trees with
  | [] => ([], a)
  | tree :: trees =>
    if tree.row.extra then
      if "comment".toList.isSuffixOf tree.kind.toList then
        lowerAll trees parent (a.remark tree.span)
      else lowerAll trees parent a
    else
      let (id, a) := lower tree (some parent) tree.row.field a
      let (ids, a) := lowerAll trees parent a
      (id :: ids, a)

end

/-- The root has neither parent nor role, whatever holds it in the source. -/
def buildWith (root : Cst) : Arena :=
  let (id, a) := lower number root none none empty
  { a with root := id }

end Building

def build (root : Cst) : Arena :=
  buildWith (fun position => position) root

/-- Positions as numbers of 32 bits; those past the last number all get it. -/
def capped (position : Nat) : Nat :=
  min position (UInt32.size - 1)

def get? (a : Arena) (id : Nat) : Option Element :=
  a.elements[id]?

def find? (a : Arena) (row : Nat) : Option Nat :=
  a.rows.lookup row

def parent? (a : Arena) (id : Nat) : Option Nat :=
  (a.get? id).bind Element.parent

def children (a : Arena) (id : Nat) : List Nat :=
  (a.get? id).elim [] Element.children

def isToken (a : Arena) (id : Nat) : Bool :=
  (a.get? id).any Element.isToken

/-- Nearest first. Parents are stored before their children. -/
def ancestors (a : Arena) (id : Nat) : List Nat :=
  match a.parent? id with
  | none => []
  | some parent => if parent < id then parent :: a.ancestors parent else []
termination_by id

def isWithin (a : Arena) (id ancestor : Nat) : Bool :=
  ancestor == id || (a.ancestors id).contains ancestor

def text (a : Arena) (source : Source) (id : Nat) : Except Fault (List Char) :=
  match a.get? id with
  | some e => source.slice e.span
  | none => .error .unknownElement

end Arena

end IfCollapse.Java
