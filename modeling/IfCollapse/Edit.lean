import IfCollapse.Text.Slice

/-!
Edits of a text, and fixes: groups of edits with a level of trust.
-/

namespace IfCollapse

/-- Puts `content` in the place of `span`; without content the span is deleted. -/
structure Edit where
  span : Span
  content : Option (List Char)
  deriving DecidableEq, Repr

namespace Edit

inductive Operation where
  | insertion
  | deletion
  | replacement
  deriving DecidableEq, Repr

def deletion (span : Span) : Edit :=
  ⟨span, none⟩

/-- Replacing by nothing is refused: that is a deletion. -/
def replacement (content : List Char) (span : Span) : Except Fault Edit :=
  if content.isEmpty then .error .emptyContent else .ok ⟨span, some content⟩

def insertion (content : List Char) (offset : Nat) : Except Fault Edit :=
  replacement content (Span.empty offset)

def operation (e : Edit) : Operation :=
  match e.content with
  | none => .deletion
  | some _ => if e.span.isEmpty then .insertion else .replacement

/-- Code points decide, as bytes of UTF-8 would; a text comes after its beginnings. -/
def compareContent : List Char → List Char → Ordering
  | [], [] => .eq
  | [], _ :: _ => .lt
  | _ :: _, [] => .gt
  | a :: s, b :: t => (compare a.val b.val).then (compareContent s t)

/-- By start, then by end, then by content, a deletion first. -/
def compare (a b : Edit) : Ordering :=
  (Ord.compare a.span.start b.span.start).then <|
  (Ord.compare a.span.stop b.span.stop).then <|
    match a.content, b.content with
    | none, none => .eq
    | none, some _ => .lt
    | some _, none => .gt
    | some s, some t => compareContent s t

def sort (edits : List Edit) : List Edit :=
  edits.mergeSort fun a b => (compare a b).isLE

def applyAll (text : List Char) : List Edit → Except Fault (List Char)
  | [] => .ok text
  | e :: edits => do applyAll (← splice text e.span (e.content.getD [])) edits

def clashes (e kept : Edit) : Bool :=
  kept.span.start < e.span.stop

/-- Goes through edits that are sorted by descending start and keeps each one that clashes with none
kept so far, so the edit nearest the end of the text wins. Gives the kept and the skipped edits. -/
def settle (edits : List Edit) : List Edit × List Edit :=
  go edits [] []
where
  go : List Edit → List Edit → List Edit → List Edit × List Edit
    | [], kept, skipped => (kept.reverse, skipped.reverse)
    | e :: edits, kept, skipped =>
      if kept.any e.clashes then go edits kept (e :: skipped) else go edits (e :: kept) skipped

end Edit

inductive Applicability where
  /-- Only to be shown. -/
  | displayOnly
  /-- To be applied when the user allows it: the meaning of the code may change. -/
  | risky
  /-- To be applied always. -/
  | safe
  deriving DecidableEq, Repr

def Applicability.rank : Applicability → Nat
  | .displayOnly => 0
  | .risky => 1
  | .safe => 2

inductive Isolation where
  | group (n : Nat)
  | nonOverlapping
  deriving DecidableEq, Repr

structure Fix where
  edits : List Edit
  applicability : Applicability
  isolation : Isolation := .nonOverlapping
  deriving DecidableEq, Repr

namespace Fix

def ofEdit (edit : Edit) (applicability : Applicability) : Fix where
  edits := [edit]
  applicability := applicability

/-- A safe fix of several edits holds them by start and end; equal spans stay in order. -/
def ofEdits (edit : Edit) (rest : List Edit) : Fix where
  edits := (edit :: rest).mergeSort fun a b =>
    a.span.start < b.span.start || (a.span.start == b.span.start && a.span.stop ≤ b.span.stop)
  applicability := .safe

def firstStart? (f : Fix) : Option Nat :=
  f.edits.head?.map (·.span.start)

def isolate (f : Fix) (isolation : Isolation) : Fix :=
  { f with isolation := isolation }

def applies (f : Fix) (level : Applicability) : Bool :=
  level.rank ≤ f.applicability.rank

end Fix

end IfCollapse
