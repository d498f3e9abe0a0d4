import IfCollapse.Text.Slice

/-!
The comments of a source, found byte by byte. String literals are skipped, so that what looks like a
comment inside one is not taken for one.
-/

namespace IfCollapse.Suppression

structure Comment where
  start : Nat
  text : List Char
  deriving DecidableEq, Repr

def quoteByte : UInt8 := 34
def slashByte : UInt8 := 47
def starByte : UInt8 := 42
def backslashByte : UInt8 := 92
def newlineByte : UInt8 := 10

def bytesOf (text : List Char) : List UInt8 :=
  text.flatMap String.utf8EncodeChar

/-- The number of bytes from behind an opening quote to behind the end of the string, which is a
quote or a newline, or the end of the source. A backslash takes the next byte with it. -/
def stringLength : List UInt8 → Nat
  | [] => 0
  | [_] => 1
  | b :: c :: rest =>
    if b = backslashByte then 2 + stringLength rest
    else if b = quoteByte ∨ b = newlineByte then 1
    else 1 + stringLength (c :: rest)

def lineLength (bytes : List UInt8) : Nat :=
  (bytes.takeWhile (· ≠ newlineByte)).length

def blockLength? : List UInt8 → Option Nat
  | [] => none
  | [_] => none
  | b :: c :: rest =>
    if b = starByte ∧ c = slashByte then some 2
    else (blockLength? (c :: rest)).map (· + 1)

inductive Piece where
  /-- Code or a string literal of `length` bytes. -/
  | code (length : Nat)
  /-- A comment of `length` bytes; the next piece comes `skip` bytes behind it. -/
  | comment (length skip : Nat)
  /-- A block comment without an end. -/
  | unclosed
  deriving DecidableEq, Repr

def pieceAt (b : UInt8) (rest : List UInt8) : Piece :=
  if b = quoteByte then .code (1 + stringLength rest)
  else if b = slashByte then
    match rest with
    | [] => .code 1
    | c :: rest =>
      if c = slashByte then .comment (2 + lineLength rest) 1
      else if c = starByte then
        match blockLength? rest with
        | some n => .comment (2 + n) 0
        | none => .unclosed
      else .code 1
  else .code 1

/-- The comments from byte `position` on, where `bytes` is what is left of the source. Every piece is
at least one byte long, so the number of bytes is fuel enough. -/
def commentsFrom (source : List Char) : (fuel : Nat) → (position : Nat) → List UInt8 →
    Except Fault (List Comment)
  | _, _, [] => .ok []
  | 0, _, _ :: _ => .ok []
  | fuel + 1, position, b :: rest =>
    match pieceAt b rest with
    | .code length => commentsFrom source fuel (position + length) ((b :: rest).drop length)
    | .comment length skip => do
      let text ← slice source (← Span.make position (position + length))
      let later ← commentsFrom source fuel (position + length + skip)
        ((b :: rest).drop (length + skip))
      return ⟨position, text⟩ :: later
    | .unclosed => .ok []

def comments (source : List Char) : Except Fault (List Comment) :=
  commentsFrom source (bytesOf source).length 0 (bytesOf source)

end IfCollapse.Suppression
