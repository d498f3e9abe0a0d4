import IfCollapse.Pattern.Basic

/-!
Patterns as programs. An instruction says what has to hold at the current position and which
instruction comes next; of two ways to go on, the preferred one is named first.
-/

namespace IfCollapse.Pattern

structure Mark where
  group : Nat
  isEnd : Bool
  deriving DecidableEq, Repr

inductive Instruction where
  | accept
  /-- Take one character of the set. -/
  | take (set : CharSet) (next : Nat)
  | require (a : Anchor) (next : Nat)
  /-- Remember the position. -/
  | mark (m : Mark) (next : Nat)
  | fork (preferred other : Nat)

def Instruction.choice (isLazy : Bool) (more stop : Nat) : Instruction :=
  if isLazy then .fork stop more else .fork more stop

abbrev Program := Array Instruction

namespace Program

def add (program : Program) (i : Instruction) : Program × Nat :=
  (program.push i, program.size)

end Program

/-- Adds code that goes on at an instruction, and gives the instruction where the code begins. -/
abbrev Emitter := Nat → Program → Program × Nat

namespace Emitter

def copies (body : Emitter) : (count : Nat) → Emitter
  | 0, next, program => (program, next)
  | count + 1, next, program =>
    let (program, next) := copies body count next program
    body next program

/-- The code up to `count` times. An optional part that is left out ends the whole. -/
def atMost (body : Emitter) (isLazy : Bool) : (count : Nat) → Emitter
  | 0, next, program => (program, next)
  | count + 1, next, program =>
    let (program, tail) := atMost body isLazy count next program
    let (program, first) := body tail program
    program.add (.choice isLazy first next)

/-- The code once or more. The choice to repeat it comes behind it, so that a round that takes
nothing leads back to a choice already made, and the loop ends. -/
def oneOrMore (body : Emitter) (isLazy : Bool) : Emitter := fun next program =>
  let (program, again) := program.add .accept
  let (program, first) := body again program
  (program.setIfInBounds again (.choice isLazy first next), first)

def atLeast (body : Emitter) (isLazy : Bool) : (least : Nat) → Emitter
  | 0, next, program =>
    let (program, first) := oneOrMore body isLazy next program
    program.add (.choice isLazy first next)
  | least + 1, next, program =>
    let (program, first) := oneOrMore body isLazy next program
    copies body least first program

end Emitter

/-- The code of a pattern. It is laid out from back to front. -/
def emit : Pattern → Emitter
  | .empty, next, program => (program, next)
  | .one set, next, program => program.add (.take set next)
  | .anchor a, next, program => program.add (.require a next)
  | .both first second, next, program =>
    let (program, next) := emit second next program
    emit first next program
  | .either first second, next, program =>
    let (program, other) := emit second next program
    let (program, preferred) := emit first next program
    program.add (.fork preferred other)
  | .group number inner, next, program =>
    let (program, next) := program.add (.mark ⟨number, true⟩ next)
    let (program, next) := emit inner next program
    program.add (.mark ⟨number, false⟩ next)
  | .times inner least none isLazy, next, program =>
    Emitter.atLeast (emit inner) isLazy least next program
  | .times inner least (some most) isLazy, next, program =>
    let (program, next) := Emitter.atMost (emit inner) isLazy (most - least) next program
    Emitter.copies (emit inner) least next program

def compile (p : Pattern) : Program × Nat :=
  p.emit 0 #[.accept]

end IfCollapse.Pattern
