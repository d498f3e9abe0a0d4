import IfCollapse.Text.Source
import Mathlib.Tactic.ByContra

/-! Offsets between characters. A text can be sliced between any two of them, and the lines of a
text start and end at such offsets, with and without their line breaks. -/

namespace IfCollapse

section Boundaries

variable {text left right : List Char} {a b : Nat}

theorem isBoundary_iff :
    isBoundary text a = true ↔ ∃ left right, text = left ++ right ∧ a = byteLength left := by
  rw [isBoundary, Option.isSome_iff_exists]
  constructor
  · intro h
    obtain ⟨⟨left, right⟩, hcut⟩ := h
    exact ⟨left, right, eq_of_cut? hcut⟩
  · intro h
    obtain ⟨left, right, hcut⟩ := h
    exact ⟨(left, right), cut?_eq_some.2 hcut⟩

theorem isBoundary_append (left right : List Char) :
    isBoundary (left ++ right) (byteLength left) = true :=
  isBoundary_iff.2 ⟨left, right, rfl, rfl⟩

theorem isBoundary_length (text : List Char) : isBoundary text (byteLength text) = true :=
  isBoundary_iff.2 ⟨text, [], by simp, rfl⟩

theorem byteLength_pos (h : left ≠ []) : 0 < byteLength left := by
  cases left with
  | nil => exact absurd rfl h
  | cons c left =>
    have hc := c.utf8Size_pos
    rw [byteLength_cons]
    omega

theorem exists_between (ha : isBoundary text a = true) (hb : isBoundary text b = true)
    (hab : a ≤ b) : ∃ left middle right, text = left ++ middle ++ right ∧ a = byteLength left ∧
      b = byteLength (left ++ middle) := by
  obtain ⟨l, r, hl, rfl⟩ := isBoundary_iff.1 ha
  obtain ⟨l', r', hl', rfl⟩ := isBoundary_iff.1 hb
  cases List.append_eq_append_iff.1 (hl.symm.trans hl') with
  | inl h =>
    obtain ⟨middle, rfl, rfl⟩ := h
    exact ⟨l, middle, r', by simp [hl], rfl, rfl⟩
  | inr h =>
    -- the later offset would lie before the earlier one
    obtain ⟨middle, rfl, rfl⟩ := h
    have hnil : middle = [] := by
      by_contra hne
      have hpos := byteLength_pos hne
      rw [byteLength_append] at hab
      omega
    subst hnil
    exact ⟨l', [], r, by simpa using hl', by simp, by simp⟩

theorem exists_slice {span : Span} (hstart : isBoundary text span.start = true)
    (hstop : isBoundary text span.stop = true) : ∃ middle, slice text span = .ok middle := by
  obtain ⟨left, middle, right, htext, hleft, hmiddle⟩ := exists_between hstart hstop span.ordered
  exact ⟨middle, slice_eq_ok.2 ⟨left, right, htext, hleft, hmiddle⟩⟩

theorem boundaries_of_slice {span : Span} {middle : List Char} (h : slice text span = .ok middle) :
    isBoundary text span.start = true ∧ isBoundary text span.stop = true := by
  obtain ⟨left, right, htext, hstart, hstop⟩ := slice_eq_ok.1 h
  rw [hstart, hstop, htext]
  refine ⟨?_, isBoundary_append (left ++ middle) right⟩
  rw [List.append_assoc]
  exact isBoundary_append left (middle ++ right)

end Boundaries

section Starts

variable {text : List Char} {starts : List Nat} {offset n : Nat}

theorem lt_of_mem_laterStarts (h : n ∈ laterStarts text offset) : offset < n := by
  induction text generalizing offset with
  | nil => simp [laterStarts] at h
  | cons c text ih =>
    have hc := c.utf8Size_pos
    rw [laterStarts] at h
    split at h
    · cases List.mem_cons.1 h with
      | inl heq => omega
      | inr hlater =>
        have hlt := ih hlater
        omega
    · have hlt := ih h
      omega

theorem pairwise_laterStarts (text : List Char) (offset : Nat) :
    (laterStarts text offset).Pairwise (· < ·) := by
  induction text generalizing offset with
  | nil => exact List.Pairwise.nil
  | cons c text ih =>
    rw [laterStarts]
    split
    · exact List.pairwise_cons.2 ⟨fun n hn => lt_of_mem_laterStarts hn, ih _⟩
    · exact ih _

theorem ascending_starts (text : List Char) : (LineTable.ofText text).starts.Pairwise (· < ·) :=
  List.pairwise_cons.2 ⟨fun _ => lt_of_mem_laterStarts, pairwise_laterStarts text 0⟩

/-- How many numbers of an ascending list do not exceed the offset that was looked for. -/
def Slot.passed : Slot → Nat
  | .found index => index + 1
  | .missing index => index

theorem passed_slotIn (h : starts.Pairwise (· < ·)) :
    (slotIn starts offset).passed = (starts.takeWhile (· ≤ offset)).length := by
  induction starts with
  | nil => rfl
  | cons start starts ih =>
    obtain ⟨hstart, hrest⟩ := List.pairwise_cons.1 h
    rw [slotIn, List.takeWhile_cons]
    by_cases heq : offset = start
    · have hnone : starts.takeWhile (· ≤ offset) = [] := by
        cases starts with
        | nil => rfl
        | cons next starts =>
          have hlt := hstart next List.mem_cons_self
          rw [List.takeWhile_cons, if_neg (by simp only [decide_eq_true_eq]; omega)]
      simp [heq ▸ hnone, heq, Slot.passed]
    · by_cases hlt : offset < start
      · simp [heq, hlt, Nat.not_le.2 hlt, Slot.passed]
      · rw [if_neg heq, if_neg hlt, if_pos (decide_eq_true (Nat.not_lt.1 hlt)), List.length_cons,
          ← ih hrest]
        cases slotIn starts offset <;> rfl

end Starts

/-- A line that starts at `start`, and what is around it. The next line starts behind its
newline. -/
structure LineAt (text : List Char) (offset start : Nat) (next : Option Nat)
    (left line rest : List Char) : Prop where
  text_eq : text = left ++ line ++ rest
  start_eq : start = offset + byteLength left
  last : next = none → rest = []
  more : ∀ n, next = some n → n = start + byteLength line + 1

theorem exists_lineAt {text : List Char} {offset start i : Nat}
    (h : (offset :: laterStarts text offset)[i]? = some start) :
    ∃ left line rest,
      LineAt text offset start (laterStarts text offset)[i]? left line rest := by
  induction text generalizing offset start i with
  | nil =>
    cases i with
    | succ i => simp [laterStarts] at h
    | zero =>
      have hstart : offset = start := by simpa using h
      exact ⟨[], [], [], rfl, by simp [hstart], fun _ => rfl, by simp [laterStarts]⟩
  | cons c text ih =>
    by_cases hc : c = '\n'
    · subst hc
      have hsize : '\n'.utf8Size = 1 := rfl
      simp only [laterStarts, if_true, hsize] at h ⊢
      cases i with
      | zero =>
        have hstart : offset = start := by simpa using h
        refine ⟨[], [], '\n' :: text, rfl, by simp [hstart], by simp, ?_⟩
        intro n hn
        have hnext : offset + 1 = n := by simpa using hn
        simp [← hnext, hstart]
      | succ i =>
        rw [List.getElem?_cons_succ] at h
        obtain ⟨left, line, rest, hline⟩ := ih h
        refine ⟨'\n' :: left, line, rest, by simp [hline.text_eq], ?_, hline.last, hline.more⟩
        rw [hline.start_eq, byteLength_cons, hsize]
        omega
    · simp only [laterStarts, hc, if_false] at h ⊢
      cases i with
      | zero =>
        -- the character belongs to the line, which the rest of the text begins with
        have hstart : offset = start := by simpa using h
        obtain ⟨left, line, rest, hline⟩ := ih
          (List.getElem?_cons_zero (a := offset + c.utf8Size))
        have hleft : left = [] := by
          by_contra hne
          have hpos := byteLength_pos hne
          have heq := hline.start_eq
          omega
        subst hleft
        refine ⟨[], c :: line, rest, by simp [hline.text_eq], by simp [hstart], hline.last, ?_⟩
        intro n hn
        rw [hline.more n hn, byteLength_cons, ← hstart]
        omega
      | succ i =>
        rw [List.getElem?_cons_succ] at h
        obtain ⟨left, line, rest, hline⟩ := ih (i := i + 1) (by simpa using h)
        refine ⟨c :: left, line, rest, by simp [hline.text_eq], ?_, hline.last, hline.more⟩
        rw [hline.start_eq, byteLength_cons]
        omega

namespace Source

variable {text : List Char}

theorem lineOf_eq_count {s : Source} (h : s.lines.starts = (LineTable.ofText text).starts)
    (offset : Nat) : s.lineOf offset = (s.lines.starts.takeWhile (· ≤ offset)).length := by
  have hpos : 0 < ((LineTable.ofText text).starts.takeWhile (· ≤ offset)).length := by
    simp [LineTable.ofText]
  rw [lineOf, h]
  rw [← passed_slotIn (ascending_starts text)] at hpos ⊢
  cases hslot : slotIn (LineTable.ofText text).starts offset with
  | found row => rfl
  | missing row =>
    rw [hslot] at hpos
    exact Nat.sub_add_cancel hpos

theorem exists_lineOf (text : List Char) (offset : Nat) :
    ∃ i start, (ofText text).lineOf offset = i + 1 ∧
      (ofText text).lines.starts[i]? = some start := by
  have hle := (List.takeWhile_prefix (l := (ofText text).lines.starts)
    fun n => decide (n ≤ offset)).length_le
  have hpos : 0 < (ofText text).lineOf offset := by
    rw [lineOf_eq_count rfl]
    simp [ofText, LineTable.ofText]
  obtain ⟨i, hi⟩ := Nat.exists_eq_succ_of_ne_zero (Nat.ne_of_gt hpos)
  have hlt : i < (ofText text).lines.starts.length := by
    rw [lineOf_eq_count rfl] at hi
    omega
  exact ⟨i, _, hi, List.getElem?_eq_getElem hlt⟩

section Line

variable {i start : Nat} {left line rest : List Char}

theorem lineStart_eq (h : (ofText text).lines.starts[i]? = some start) :
    (ofText text).lineStart (i + 1) = .ok start := by
  have hlt := (List.getElem?_eq_some_iff.1 h).1
  have hcount : i ≠ (ofText text).lineCount := by
    rw [lineCount]
    omega
  simp [lineStart, hcount, h]

theorem lineEnd_eq (h : (ofText text).lines.starts[i]? = some start)
    (hline : LineAt text 0 start (laterStarts text 0)[i]? left line rest) :
    (ofText text).lineEnd (i + 1) = .ok (if line.getLast? = some '\r' then
      byteLength (left ++ line) - 1 else byteLength (left ++ line)) := by
  have hstart : start = byteLength left := by simpa using hline.start_eq
  have hle : start ≤ byteLength (left ++ line) := by simp [hstart]
  have hslice : (ofText text).slice ⟨start, byteLength (left ++ line), hle⟩ = .ok line :=
    slice_eq_ok.2 ⟨left, rest, hline.text_eq, hstart, rfl⟩
  have hnext : (ofText text).lines.starts[i + 1]? = (laterStarts text 0)[i]? := rfl
  rw [lineEnd, hnext, lineStart_eq h]
  cases hn : (laterStarts text 0)[i]? with
  | none =>
    have hlength : (ofText text).length = byteLength (left ++ line) := by
      rw [length, ofText, hline.text_eq, hline.last hn, List.append_nil]
    simp only [hlength, bind, Except.bind, Span.make_of_le hle, hslice, pure, Except.pure]
  | some n =>
    have hlength : n - 1 = byteLength (left ++ line) := by
      rw [hline.more n hn, hstart, byteLength_append, Nat.add_sub_cancel]
    simp only [hlength, bind, Except.bind, Span.make_of_le hle, hslice, pure, Except.pure]

theorem exists_lineEnd (h : (ofText text).lines.starts[i]? = some start)
    (hline : LineAt text 0 start (laterStarts text 0)[i]? left line rest) :
    ∃ content tail, line = content ++ tail ∧
      (ofText text).lineEnd (i + 1) = .ok (byteLength (left ++ content)) := by
  have hend := lineEnd_eq h hline
  by_cases hreturn : line.getLast? = some '\r'
  · obtain ⟨content, rfl⟩ := List.getLast?_eq_some_iff.1 hreturn
    refine ⟨content, ['\r'], rfl, ?_⟩
    have hsize : '\r'.utf8Size = 1 := rfl
    rw [hend, if_pos hreturn]
    simp [hsize]
  · exact ⟨line, [], by simp, by rw [hend, if_neg hreturn]⟩

theorem exists_lineSpan (h : (ofText text).lines.starts[i]? = some start) :
    ∃ span content, (ofText text).lineSpan (i + 1) = .ok span ∧
      (ofText text).slice span = .ok content := by
  obtain ⟨left, line, rest, hline⟩ := exists_lineAt h
  obtain ⟨content, tail, rfl, hend⟩ := exists_lineEnd h hline
  have hstart : start = byteLength left := by simpa using hline.start_eq
  have hle : start ≤ byteLength (left ++ content) := by simp [hstart]
  have hlt := (List.getElem?_eq_some_iff.1 h).1
  have hcount : i ≠ (ofText text).lineCount := by
    rw [lineCount]
    omega
  refine ⟨⟨start, byteLength (left ++ content), hle⟩, content, ?_, ?_⟩
  · rw [lineSpan, Nat.add_sub_cancel, if_neg hcount, lineStart_eq h, hend]
    exact Span.make_of_le hle
  · refine slice_eq_ok.2 ⟨left, tail ++ rest, ?_, hstart, rfl⟩
    rw [ofText, hline.text_eq]
    simp

end Line

theorem exists_indentationOf (text : List Char) (offset : Nat) :
    ∃ indent, (ofText text).indentationOf offset = .ok indent := by
  obtain ⟨i, start, hi, hstart⟩ := exists_lineOf text offset
  obtain ⟨span, content, hspan, hslice⟩ := exists_lineSpan hstart
  refine ⟨content.takeWhile fun c => c = ' ' || c = '\t', ?_⟩
  simp [indentationOf, lineSpanOf, hi, hspan, hslice, bind, Except.bind, pure, Except.pure]

end Source

end IfCollapse
