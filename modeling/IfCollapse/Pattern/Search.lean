import IfCollapse.Pattern.Program

/-!
Searching a text for a pattern. Of all matches the one counts that begins first, and of these the
preferred one. An instruction is never run twice at the same position: what the second run could
find, the first has found or ruled out. So a search takes time in proportion to the length of the
text, whatever the pattern.
-/

namespace IfCollapse.Pattern

structure Match where
  text : Array Char
  /-- Where groups begin and end, the latest first. -/
  marks : List (Mark × Nat)

def Match.group? (m : Match) (number : Nat) : Option (List Char) := do
  let start ← m.marks.lookup ⟨number, false⟩
  let stop ← m.marks.lookup ⟨number, true⟩
  return (m.text.extract start stop).toList

structure Thread where
  instruction : Nat
  position : Nat
  marks : List (Mark × Nat)

structure Visited where
  positions : Nat
  seen : Array Bool

namespace Visited

def empty (program : Program) (text : Array Char) : Visited :=
  ⟨text.size + 1, Array.replicate (program.size * (text.size + 1)) false⟩

def index (v : Visited) (t : Thread) : Nat :=
  t.instruction * v.positions + t.position

def contains (v : Visited) (t : Thread) : Bool :=
  v.seen.getD (v.index t) true

def insert (v : Visited) (t : Thread) : Visited :=
  { v with seen := v.seen.setIfInBounds (v.index t) true }

end Visited

inductive Progress where
  | found
  | threads (next : List Thread)

def Thread.step (program : Program) (text : Array Char) (t : Thread) : Progress :=
  match program[t.instruction]? with
  | none => .threads []
  | some .accept => .found
  | some (.take set next) =>
    if text[t.position]?.any (set.accepts ·) then
      .threads [{ t with instruction := next, position := t.position + 1 }]
    else .threads []
  | some (.require a next) =>
    if a.holds text t.position then .threads [{ t with instruction := next }] else .threads []
  | some (.mark m next) =>
    .threads [{ t with instruction := next, marks := (m, t.position) :: t.marks }]
  | some (.fork preferred other) =>
    .threads [{ t with instruction := preferred }, { t with instruction := other }]

/-- Runs threads, the first with all that comes of it before the others. -/
def runThreads (program : Program) (text : Array Char) :
    (fuel : Nat) → List Thread → Visited → Option Match
  | 0, _, _ => none
  | _ + 1, [], _ => none
  | fuel + 1, t :: threads, visited =>
    if visited.contains t then runThreads program text fuel threads visited
    else
      match t.step program text with
      | .found => some ⟨text, t.marks⟩
      | .threads next => runThreads program text fuel (next ++ threads) (visited.insert t)

/-- Runs a program from every position in turn. An instruction starts at most two threads at each
position, which gives the bound. -/
def searchIn (program : Program) (start : Nat) (text : Array Char) : Option Match :=
  let positions := text.size + 1
  let threads := (List.range positions).map fun position => ⟨start, position, []⟩
  runThreads program text (2 * program.size * positions + positions + 1) threads
    (.empty program text)

def search? (p : Pattern) : List Char → Option Match :=
  let (program, start) := p.compile
  fun text => searchIn program start text.toArray

end IfCollapse.Pattern
