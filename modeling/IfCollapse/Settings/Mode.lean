/-!
What is done about the findings of a rule.
-/

namespace IfCollapse

inductive Mode where
  /-- Report and fix. -/
  | fix
  /-- Report only. -/
  | check
  /-- Report and suggest a fix. -/
  | suggest
  /-- Do not run the rule. -/
  | disabled
  deriving DecidableEq, Repr

namespace Mode

def name : Mode → String
  | .fix => "fix"
  | .check => "check"
  | .suggest => "suggest"
  | .disabled => "disabled"

def isEnabled (m : Mode) : Bool :=
  m ≠ .disabled

def fixes (m : Mode) : Bool :=
  m = .fix

/-- Lower case as far as the names of modes are concerned: of the characters outside ASCII only the
Kelvin sign becomes a letter of ASCII. -/
def lower (c : Char) : Char :=
  if c.toNat = 0x212a then 'k' else c.toLower

def ofText? (text : List Char) : Option Mode :=
  match String.ofList (text.map lower) with
  | "fix" => some .fix
  | "check" => some .check
  | "suggest" => some .suggest
  | "disabled" => some .disabled
  | "disable" => some .disabled
  | "off" => some .disabled
  | _ => none

end Mode

end IfCollapse
