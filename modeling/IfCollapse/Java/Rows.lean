import IfCollapse.Java.Cst
import IfCollapse.Text.Lines
import IfCollapse.Text.Number

/-!
Syntax trees as text: one row per line, with tabs between its parts. The parts are depth, kind,
flags, start, end and, if there is one, the name of the field. Of the flags 1 stands for a named node,
2 for an extra and 4 for a node with errors.
-/

namespace IfCollapse.Java

def rowOf? (depth kind flags start stop : List Char) (field : Option String) : Option Row := do
  let flags ← readWord? flags
  let start ← readWord? start
  let stop ← readWord? stop
  if h : start ≤ stop then
    return {
      depth := ← readWord? depth
      kind := String.ofList kind
      named := flags % 2 = 1
      extra := flags / 2 % 2 = 1
      hasError := flags / 4 % 2 = 1
      span := ⟨start, stop, h⟩
      field := field }
  else none

def Row.read? (line : List Char) : Option Row :=
  match pieces '\t' line with
  | [depth, kind, flags, start, stop] => rowOf? depth kind flags start stop none
  | [depth, kind, flags, start, stop, field] =>
    rowOf? depth kind flags start stop (some (String.ofList field))
  | _ => none

def Cst.read? (text : List Char) : Option Cst := do
  Cst.ofRows? (← (textLines text).mapM Row.read?)

end IfCollapse.Java
