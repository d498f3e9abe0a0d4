import IfCollapse.Pattern.Basic
import IfCollapse.Text.Number

/-!
Reading patterns from their usual notation. Groups that look around, references to groups and other
unknown signs are refused.
-/

namespace IfCollapse.Pattern

/-- A group that is being read: its finished alternatives and the parts of the current one, both
with the latest first. -/
structure Frame where
  /-- No number for a group that is not recorded. -/
  number : Option Nat
  alternatives : List Pattern
  parts : List Pattern

namespace Frame

def start (number : Option Nat) : Frame :=
  ⟨number, [], []⟩

def push (f : Frame) (p : Pattern) : Frame :=
  { f with parts := p :: f.parts }

def sequence : List Pattern → Pattern
  | [] => .empty
  | p :: parts => parts.foldl (fun after before => .both before after) p

def endAlternative (f : Frame) : Frame :=
  { f with alternatives := sequence f.parts :: f.alternatives, parts := [] }

def finish (f : Frame) : Pattern :=
  let inner := f.alternatives.foldl (fun later earlier => .either earlier later) (sequence f.parts)
  match f.number with
  | some n => .group n inner
  | none => inner

end Frame

structure State where
  /-- The groups around the current one, the nearest first. -/
  outer : List Frame
  current : Frame
  /-- The number of recorded groups so far. -/
  groups : Nat

def hexValue? (c : Char) : Option Nat :=
  if '0' ≤ c && c ≤ '9' then some (c.toNat - '0'.toNat)
  else if 'a' ≤ c && c ≤ 'f' then some (c.toNat - 'a'.toNat + 10)
  else if 'A' ≤ c && c ≤ 'F' then some (c.toNat - 'A'.toNat + 10)
  else none

def readHex? (digits : List Char) : Option Nat :=
  digits.foldl (fun value c => do return (← value) * 16 + (← hexValue? c)) (some 0)

def charOfCode? (code : Nat) : Option Char :=
  if code.isValidChar then some (Char.ofNat code) else none

/-- A character that stands for itself after a backslash: ASCII other than letters, digits, and the
angle brackets. -/
def isEscapable (c : Char) : Bool :=
  33 ≤ c.toNat && c.toNat < 127 && !c.isAlphanum && c ≠ '<' && c ≠ '>'

def readEscape? : List Char → Option (CharSet × List Char)
  | 'd' :: rest => some (.digit, rest)
  | 'D' :: rest => some (.negation .digit, rest)
  | 'w' :: rest => some (.word, rest)
  | 'W' :: rest => some (.negation .word, rest)
  | 's' :: rest => some (.space, rest)
  | 'S' :: rest => some (.negation .space, rest)
  | 'n' :: rest => some (.char '\n', rest)
  | 'r' :: rest => some (.char '\r', rest)
  | 't' :: rest => some (.char '\t', rest)
  | 'a' :: rest => some (.char '\x07', rest)
  | 'f' :: rest => some (.char '\x0c', rest)
  | 'v' :: rest => some (.char '\x0b', rest)
  | 'x' :: a :: b :: rest => do return (.char (← charOfCode? (← readHex? [a, b])), rest)
  | 'u' :: a :: b :: c :: d :: rest => do
    return (.char (← charOfCode? (← readHex? [a, b, c, d])), rest)
  | c :: rest => if isEscapable c || c = ' ' then some (.char c, rest) else none
  | [] => none

def readMember? : List Char → Option (CharSet × List Char)
  | '\\' :: rest => readEscape? rest
  | '[' :: _ => none
  | c :: rest => some (.char c, rest)
  | [] => none

/-- The members of a class up to its closing bracket. A bracket right at the start is a member. -/
def readClass? : (fuel : Nat) → (isFirst : Bool) → List CharSet → List Char →
    Option (CharSet × List Char)
  | 0, _, _, _ => none
  | _ + 1, false, sets, ']' :: rest => some (.union sets.reverse, rest)
  | fuel + 1, _, sets, text => do
    let (member, rest) ← readMember? text
    match rest with
    | '-' :: ']' :: _ => readClass? fuel false (member :: sets) rest
    | '-' :: after =>
      let (last, rest) ← readMember? after
      match member, last with
      | .char a, .char b =>
        if a ≤ b then readClass? fuel false (.range a b :: sets) rest else none
      | _, _ => none
    | _ => readClass? fuel false (member :: sets) rest

def readBounds? (text : List Char) : Option (Nat × Option Nat × List Char) := do
  let first := text.takeWhile fun c => c ≠ ',' && c ≠ Char.ofNat 0x7d
  let rest := text.dropWhile fun c => c ≠ ',' && c ≠ Char.ofNat 0x7d
  if first.isEmpty then none
  let least ← readDigits? 0 first
  match rest with
  | ',' :: rest =>
    let second := rest.takeWhile (· ≠ Char.ofNat 0x7d)
    let after ← (rest.dropWhile (· ≠ Char.ofNat 0x7d)).tail?
    if second.isEmpty then return (least, none, after)
    let most ← readDigits? 0 second
    if least ≤ most then return (least, some most, after) else none
  | _ :: after => return (least, some least, after)
  | [] => none

/-- Repeats the part that was read last. A question mark behind makes the repetition lazy. -/
def State.repeatLast? (st : State) (least : Nat) (most : Option Nat) (rest : List Char) :
    Option (State × List Char) :=
  match st.current.parts with
  | [] => none
  | p :: parts =>
    let (isLazy, rest) :=
      match rest with
      | '?' :: rest => (true, rest)
      | rest => (false, rest)
    some ({ st with current := { st.current with parts := .times p least most isLazy :: parts } },
      rest)

def State.push (st : State) (p : Pattern) : State :=
  { st with current := st.current.push p }

def State.openGroup (st : State) (recorded : Bool) : State :=
  if recorded then
    ⟨st.current :: st.outer, Frame.start (some (st.groups + 1)), st.groups + 1⟩
  else
    ⟨st.current :: st.outer, Frame.start none, st.groups⟩

/-- The opening of a group, after its bracket. A named group is recorded under its number. -/
def State.readOpening? (st : State) : List Char → Option (State × List Char)
  | '?' :: ':' :: rest => some (st.openGroup false, rest)
  | '?' :: 'P' :: '<' :: rest => named rest
  | '?' :: '<' :: rest => named rest
  | '?' :: _ => none
  | rest => some (st.openGroup true, rest)
where
  named (rest : List Char) : Option (State × List Char) :=
    let name := rest.takeWhile (· ≠ '>')
    match rest.dropWhile (· ≠ '>') with
    | '>' :: after =>
      if name.isEmpty || name.head?.any Char.isDigit || !name.all isWordChar then none
      else some (st.openGroup true, after)
    | _ => none

def State.step? (st : State) : List Char → Option (State × List Char)
  | '(' :: rest => st.readOpening? rest
  | ')' :: rest =>
    match st.outer with
    | [] => none
    | frame :: outer =>
      some (⟨outer, frame.push st.current.finish, st.groups⟩, rest)
  | '|' :: rest => some ({ st with current := st.current.endAlternative }, rest)
  | '*' :: rest => st.repeatLast? 0 none rest
  | '+' :: rest => st.repeatLast? 1 none rest
  | '?' :: rest => st.repeatLast? 0 (some 1) rest
  | '[' :: '^' :: rest => do
    let (set, rest) ← readClass? (rest.length + 1) true [] rest
    return (st.push (.one (.negation set)), rest)
  | '[' :: rest => do
    let (set, rest) ← readClass? (rest.length + 1) true [] rest
    return (st.push (.one set), rest)
  | '^' :: rest => some (st.push (.anchor .textStart), rest)
  | '$' :: rest => some (st.push (.anchor .textEnd), rest)
  | '.' :: rest => some (st.push (.one .any), rest)
  | '\\' :: 'A' :: rest => some (st.push (.anchor .textStart), rest)
  | '\\' :: 'z' :: rest => some (st.push (.anchor .textEnd), rest)
  | '\\' :: 'b' :: rest => some (st.push (.anchor .wordEdge), rest)
  | '\\' :: 'B' :: rest => some (st.push (.anchor .insideWord), rest)
  | '\\' :: rest => do
    let (set, rest) ← readEscape? rest
    return (st.push (.one set), rest)
  | c :: rest =>
    if c = Char.ofNat 0x7b then do
      let (least, most, rest) ← readBounds? rest
      st.repeatLast? least most rest
    else some (st.push (.one (.char c)), rest)
  | [] => none

/-- Every step takes at least one sign, so `fuel` may be the length of the text. -/
def readFrom? : (fuel : Nat) → State → List Char → Option Pattern
  | _, st, [] => if st.outer.isEmpty then some st.current.finish else none
  | 0, _, _ :: _ => none
  | fuel + 1, st, c :: text =>
    match st.step? (c :: text) with
    | none => none
    | some (st, rest) => readFrom? fuel st rest

def read? (text : List Char) : Option Pattern :=
  readFrom? text.length ⟨[], Frame.start none, 0⟩ text

end IfCollapse.Pattern
