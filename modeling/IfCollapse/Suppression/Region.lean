import IfCollapse.Suppression.Comment
import IfCollapse.Pattern.Reader
import IfCollapse.Pattern.Search

/-!
Regions of a source in which a rule is silenced by comments. A comment can open a region for a rule
and a later one can close it; what is still open at the end of the source ends there.
-/

namespace IfCollapse.Suppression

/-- Silences `rule` from `start` up to `stop`. -/
structure Region where
  rule : String
  start : Nat
  stop : Nat
  deriving DecidableEq, Repr

def everyRule : String := "*"

/-- Reads a comment as a directive that opens, or closes, a region for a rule. -/
structure Filter where
  off : List Char → Option String
  on : List Char → Option String

namespace Filter

/-- The rule that a comment names through a group of what is searched for. Without the group every rule is
meant. -/
def ruleOf (search? : List Char → Option Pattern.Match) (group : Nat) (comment : List Char) :
    Option String :=
  (search? comment).map fun found =>
    if group = 0 then everyRule
    else
      match found.group? group with
      | some name => String.ofList name
      | none => everyRule

/-- `$1` selects the first group, and so on; zero stands for none. -/
def groupNumber (format : Option (List Char)) : Nat :=
  match format with
  | some ('$' :: digits) => (readWord? digits).getD 0
  | _ => 0

def ofPatterns (off on : Pattern) (group : Nat) : Filter :=
  ⟨ruleOf off.search? group, ruleOf on.search? group⟩

def read? (off on : List Char) (format : Option (List Char)) : Option Filter := do
  return ofPatterns (← Pattern.read? off) (← Pattern.read? on) (groupNumber format)

def defaultOff : String := "ternlint:off(?::(\\w+))?"
def defaultOn : String := "ternlint:on(?::(\\w+))?"

def default : Filter :=
  (read? defaultOff.toList defaultOn.toList (some "$1".toList)).getD
    ⟨fun _ => none, fun _ => none⟩

end Filter

structure Progress where
  opened : List (String × Nat)
  regions : List Region
  deriving DecidableEq, Repr

namespace Progress

def start : Progress :=
  ⟨[], []⟩

/-- A rule that is silenced already stays so from where it began. -/
def openRule (p : Progress) (rule : String) (position : Nat) : Progress :=
  match p.opened.lookup rule with
  | some _ => p
  | none => { p with opened := (rule, position) :: p.opened }

def closeRule (p : Progress) (rule : String) (position : Nat) : Progress :=
  match p.opened.lookup rule with
  | none => p
  | some start =>
    ⟨p.opened.filter fun entry => entry.1 ≠ rule, ⟨rule, start, position⟩ :: p.regions⟩

def read (filter : Filter) (p : Progress) (comment : Comment) : Progress :=
  let position := Size.clamp comment.start
  let p :=
    match filter.off comment.text with
    | some rule => p.openRule rule position
    | none => p
  match filter.on comment.text with
  | some rule => p.closeRule rule position
  | none => p

def finish (p : Progress) (length : Nat) : List Region :=
  p.opened.map (fun (rule, start) => ⟨rule, start, length⟩) ++ p.regions

end Progress

def regionsOf (filter : Filter) (comments : List Comment) (length : Nat) : List Region :=
  (comments.foldl (Progress.read filter) Progress.start).finish length

def commentRegions (source : List Char) (filters : List Filter) : Except Fault (List Region) := do
  let comments ← comments source
  return filters.flatMap fun filter => regionsOf filter comments (Size.ofText source)

def Region.covers (r : Region) (rule : String) (position : Nat) : Bool :=
  (r.rule == rule || r.rule == everyRule) && r.start ≤ position && position < r.stop

def isSuppressed (regions : List Region) (rule : String) (position : Nat) : Bool :=
  regions.any fun r => r.covers rule position

end IfCollapse.Suppression
