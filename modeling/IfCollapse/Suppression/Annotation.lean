import IfCollapse.Suppression.Region
import IfCollapse.Java.Cst

/-!
Regions made by annotations: a declaration under `@SuppressWarnings("ternlint:Rule")` is a region for
that rule.
-/

namespace IfCollapse.Suppression

open Java

def isDeclaration (kind : String) : Bool :=
  ["class_declaration", "interface_declaration", "enum_declaration", "method_declaration",
    "constructor_declaration", "field_declaration", "record_declaration",
    "local_variable_declaration"].contains kind

def isAnnotationKind (kind : String) : Bool :=
  kind == "annotation" || kind == "marker_annotation"

def annotationNames : List String :=
  ["SuppressWarnings", "java.lang.SuppressWarnings"]

def ruleMark : String := "ternlint:"

def trimQuotes (text : List Char) : List Char :=
  ((text.dropWhile (· = '"')).reverse.dropWhile (· = '"')).reverse

def namedRule? (literal : List Char) : Option String :=
  let content := trimQuotes literal
  let mark := ruleMark.toList
  if mark.isPrefixOf content then some (String.ofList (content.drop mark.length)) else none

mutual

def rulesIn (source : List Char) : Cst → Except Fault (List String)
  | .node row index children =>
    if row.kind = "string_literal" then do
      let text ← (Cst.node row index children).text source
      return (namedRule? text).toList
    else rulesInAll source children

/-- Only named parts are looked into. -/
def rulesInAll (source : List Char) : List Cst → Except Fault (List String)
  | [] => .ok []
  | t :: ts =>
    if t.row.named then do return (← rulesIn source t) ++ (← rulesInAll source ts)
    else rulesInAll source ts

end

def annotatedRules (source : List Char) (note : Cst) : Except Fault (List String) := do
  let name ←
    match note.childByField? "name" with
    | some name => name.text source
    | none => pure []
  if !annotationNames.contains (String.ofList name) then return []
  match note.childByField? "arguments" with
  | some arguments => rulesIn source arguments
  | none => return []

/-- The regions that the annotations of one declaration make. Only its first list of modifiers
counts. -/
def declarationRegions (source : List Char) (declaration : Cst) : Except Fault (List Region) := do
  if !isDeclaration declaration.kind then return []
  match declaration.children.find? (·.kind = "modifiers") with
  | none => return []
  | some modifiers =>
    let rules ← (modifiers.children.filter (isAnnotationKind ·.kind)).mapM (annotatedRules source)
    return rules.flatten.map fun rule => ⟨rule, declaration.span.start, declaration.span.stop⟩

mutual

/-- The regions of all declarations that are reached through named nodes. -/
def annotationRegions (source : List Char) : Cst → Except Fault (List Region)
  | .node row index children => do
    let own ← declarationRegions source (.node row index children)
    return own ++ (← annotationRegionsAll source children)

def annotationRegionsAll (source : List Char) : List Cst → Except Fault (List Region)
  | [] => .ok []
  | t :: ts =>
    if t.row.named then do
      return (← annotationRegions source t) ++ (← annotationRegionsAll source ts)
    else annotationRegionsAll source ts

end

end IfCollapse.Suppression
