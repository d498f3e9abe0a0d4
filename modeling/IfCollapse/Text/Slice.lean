import IfCollapse.Text.Span

/-!
Cutting a text at byte offsets. A cut is possible only between two characters.
-/

namespace IfCollapse

/-- The parts of a text before and after a byte offset. -/
def cut? : List Char → Nat → Option (List Char × List Char)
  | [], n => if n = 0 then some ([], []) else none
  | c :: text, n =>
    if n = 0 then some ([], c :: text)
    else if c.utf8Size ≤ n then
      (cut? text (n - c.utf8Size)).map fun (left, right) => (c :: left, right)
    else none

@[simp] theorem cut?_zero (text : List Char) : cut? text 0 = some ([], text) := by
  cases text <;> simp [cut?]

theorem cut?_append (left right : List Char) :
    cut? (left ++ right) (byteLength left) = some (left, right) := by
  induction left with
  | nil => simp
  | cons c left ih =>
    have hc := c.utf8Size_pos
    have hn : ¬(c.utf8Size + byteLength left = 0) := by omega
    rw [List.cons_append, byteLength_cons, cut?, if_neg hn]
    simp [ih]

theorem eq_of_cut? {text left right : List Char} {n : Nat} (h : cut? text n = some (left, right)) :
    text = left ++ right ∧ n = byteLength left := by
  induction text generalizing n left right with
  | nil =>
    unfold cut? at h
    split at h <;> simp_all
  | cons c text ih =>
    unfold cut? at h
    split at h
    · simp_all
    · split at h
      · rename_i hc
        obtain ⟨⟨l, r⟩, hcut, heq⟩ := Option.map_eq_some_iff.1 h
        obtain ⟨htext, hn⟩ := ih hcut
        simp only [Prod.mk.injEq] at heq
        obtain ⟨rfl, rfl⟩ := heq
        refine ⟨by simp [htext], ?_⟩
        simp only [byteLength_cons]
        omega
      · simp at h

theorem cut?_eq_some {text left right : List Char} {n : Nat} :
    cut? text n = some (left, right) ↔ text = left ++ right ∧ n = byteLength left :=
  ⟨eq_of_cut?, fun ⟨htext, hn⟩ => by rw [htext, hn, cut?_append]⟩

def isBoundary (text : List Char) (offset : Nat) : Bool :=
  (cut? text offset).isSome

def slice (text : List Char) (span : Span) : Except Fault (List Char) :=
  match cut? text span.start with
  | none => .error .outsideText
  | some (_, rest) =>
    match cut? rest (span.stop - span.start) with
    | none => .error .outsideText
    | some (middle, _) => .ok middle

theorem slice_eq_ok {text middle : List Char} {span : Span} :
    slice text span = .ok middle ↔
      ∃ left right, text = left ++ middle ++ right ∧ span.start = byteLength left ∧
        span.stop = byteLength (left ++ middle) := by
  have hordered := span.ordered
  constructor
  · intro h
    unfold slice at h
    split at h
    · simp at h
    · rename_i left rest hleft
      split at h
      · simp at h
      · rename_i mid right hmid
        obtain ⟨rfl, hstart⟩ := eq_of_cut? hleft
        obtain ⟨rfl, hstop⟩ := eq_of_cut? hmid
        simp only [Except.ok.injEq] at h
        subst h
        refine ⟨left, right, by simp, hstart, ?_⟩
        rw [byteLength_append]
        omega
  · rintro ⟨left, right, rfl, hstart, hstop⟩
    rw [byteLength_append] at hstop
    simp [slice, hstart, hstop, List.append_assoc, cut?_append]

def splice (text : List Char) (span : Span) (content : List Char) : Except Fault (List Char) :=
  match cut? text span.start, cut? text span.stop with
  | some (left, _), some (_, right) => .ok (left ++ content ++ right)
  | _, _ => .error .outsideText

end IfCollapse
