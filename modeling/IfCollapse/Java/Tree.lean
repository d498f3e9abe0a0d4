import IfCollapse.Java.Arena

/-!
Trees for comparing and rebuilding code: the elements of an arena with their texts and parts, each
seen from its place among the others.
-/

namespace IfCollapse.Java

structure Label where
  id : Nat
  /-- The grammar name of the element. -/
  name : String
  field : Option String
  span : Span
  text : List Char
  deriving DecidableEq, Repr

inductive Shape where
  | token (label : Label) (named : Bool)
  | node (label : Label) (children : List Shape)

namespace Shape

def label : Shape → Label
  | .token label _ => label
  | .node label _ => label

def children : Shape → List Shape
  | .token _ _ => []
  | .node _ children => children

def isToken : Shape → Bool
  | .token _ _ => true
  | .node _ _ => false

def id (s : Shape) : Nat := s.label.id

def name (s : Shape) : String := s.label.name

def kind (s : Shape) : Kind := Kind.ofName s.label.name

def field (s : Shape) : Option String := s.label.field

def span (s : Shape) : Span := s.label.span

def text (s : Shape) : List Char := s.label.text

def childByField? (s : Shape) (field : String) : Option Shape :=
  s.children.find? (·.field = some field)

end Shape

/-- An element together with its ancestors, nearest first. -/
structure Place where
  here : Shape
  above : List Shape

namespace Place

def id (p : Place) : Nat := p.here.id

def kind (p : Place) : Kind := p.here.kind

def field (p : Place) : Option String := p.here.field

def span (p : Place) : Span := p.here.span

def text (p : Place) : List Char := p.here.text

def isToken (p : Place) : Bool := p.here.isToken

def parent? (p : Place) : Option Place :=
  match p.above with
  | [] => none
  | shape :: above => some ⟨shape, above⟩

def children (p : Place) : List Place :=
  p.here.children.map fun shape => ⟨shape, p.here :: p.above⟩

def childNodes (p : Place) : List Place :=
  p.children.filter fun c => !c.isToken

def childByField? (p : Place) (field : String) : Option Place :=
  p.children.find? (·.field = some field)

/-- The places of a chain of elements, each with those behind it as ancestors. -/
def chain : List Shape → List Place
  | [] => []
  | shape :: above => ⟨shape, above⟩ :: chain above

def ancestors (p : Place) : List Place :=
  chain p.above

def lineage (p : Place) : List Place :=
  p :: p.ancestors

def isWithin (p : Place) (id : Nat) : Bool :=
  p.lineage.any (·.id == id)

def followingSiblings (p : Place) : List Place :=
  match p.parent? with
  | none => []
  | some parent =>
    ((parent.children.dropWhile (·.id != p.id)).drop 1).filter fun c => !c.isToken

end Place

mutual

def placesFrom (above : List Shape) : Shape → List Place
  | .token label named => [⟨.token label named, above⟩]
  | .node label children =>
    ⟨.node label children, above⟩ ::
      placesFromAll (.node label children :: above) children

def placesFromAll (above : List Shape) : List Shape → List Place
  | [] => []
  | shape :: shapes => placesFrom above shape ++ placesFromAll above shapes

end

namespace Arena

/-- An element with its text and parts, given the shapes of the elements behind it. -/
def shape (id : Nat) (e : Element) (text : List Char) (later : List Shape) : Shape :=
  let label : Label := ⟨id, e.name, e.field, e.span, text⟩
  match e.content with
  | .token named => .token label named
  | .node children => .node label (children.filterMap fun child => later[child - (id + 1)]?)

/-- The shapes of the elements from number `first` on, made from the last one to the first. -/
def shapesFrom (text : List Char) (first : Nat) : List Element → Except Fault (List Shape)
  | [] => .ok []
  | e :: later => do
    let content ← slice text e.span
    let shapes ← shapesFrom text (first + 1) later
    return shape first e content shapes :: shapes

end Arena

structure Tree where
  source : Source
  arena : Arena
  places : List Place

namespace Tree

/-- There is no tree if the text of an element cannot be cut, though there is always an arena. -/
def ofCst (source : Source) (root : Cst) : Except Fault Tree := do
  let arena := Arena.build root
  let shapes ← Arena.shapesFrom source.text 0 arena.elements.toList
  return ⟨source, arena, shapes.head?.elim [] (placesFrom [])⟩

def comments (t : Tree) : List Span :=
  t.arena.comments

def size (t : Tree) : Nat :=
  t.places.length

def get? (t : Tree) (id : Nat) : Option Place :=
  t.places[id]?

def get (t : Tree) (id : Nat) : Except Fault Place :=
  match t.get? id with
  | some place => .ok place
  | none => .error .unknownElement

def find? (t : Tree) (row : Nat) : Option Place :=
  (t.arena.find? row).bind t.get?

end Tree

end IfCollapse.Java
