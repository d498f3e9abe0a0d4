import IfCollapse.Proofs.Locations

/-! The lines of a text. Their spans and the line breaks behind them make up the whole text, and every
offset, also one past the end, belongs to exactly one line. -/

namespace IfCollapse

structure TextLine where
  content : List Char
  ending : List Char
  deriving DecidableEq, Repr

def TextLine.text (l : TextLine) : List Char :=
  l.content ++ l.ending

/-- A line that is broken by `newline`. A carriage return at its end belongs to the line break. -/
structure TextLine.EndsWith (l : TextLine) (newline : List Char) : Prop where
  content_free : '\n' ∉ l.content
  ending_eq : l.ending = newline ∧ l.content.getLast? ≠ some '\r' ∨ l.ending = '\r' :: newline

structure InLines (text : List Char) (earlier : List TextLine) (last : TextLine) : Prop where
  text_eq : text = earlier.flatMap TextLine.text ++ last.text
  broken : ∀ l ∈ earlier, l.EndsWith ['\n']
  unbroken : last.EndsWith []

structure IsIndentation (line indent : List Char) : Prop where
  isPrefix : indent <+: line
  blank : ∀ c ∈ indent, c = ' ' ∨ c = '\t'
  longest : ∀ other, other <+: line → (∀ c ∈ other, c = ' ' ∨ c = '\t') → other <+: indent

section Division

variable {text body newline : List Char} {lines : List TextLine}

theorem exists_endsWith (h : '\n' ∉ body) (newline : List Char) :
    ∃ l : TextLine, l.text = body ++ newline ∧ l.EndsWith newline := by
  by_cases hreturn : body.getLast? = some '\r'
  · obtain ⟨content, rfl⟩ := List.getLast?_eq_some_iff.1 hreturn
    have hcontent : '\n' ∉ content := fun hmem => h (List.mem_append_left _ hmem)
    exact ⟨⟨content, '\r' :: newline⟩, by simp [TextLine.text], hcontent, Or.inr rfl⟩
  · exact ⟨⟨body, newline⟩, rfl, h, Or.inl ⟨rfl, hreturn⟩⟩

theorem exists_inLines (text : List Char) : ∃ earlier last, InLines text earlier last := by
  induction hn : text.count '\n' generalizing text with
  | zero =>
    obtain ⟨last, htext, hlast⟩ := exists_endsWith (List.count_eq_zero.1 hn) []
    exact ⟨[], last, by simpa using htext.symm, by simp, hlast⟩
  | succ n ih =>
    -- the first newline ends the first line
    have hmem : '\n' ∈ text := List.count_pos_iff.1 (by omega)
    obtain ⟨body, rest, rfl, hbody⟩ := List.eq_append_cons_of_mem hmem
    have hrest : rest.count '\n' = n := by
      rw [List.count_append, List.count_eq_zero.2 hbody, List.count_cons_self] at hn
      omega
    obtain ⟨l, hl, hbroken⟩ := exists_endsWith hbody ['\n']
    obtain ⟨earlier, last, hlines⟩ := ih rest hrest
    refine ⟨l :: earlier, last, ?_, ?_, hlines.unbroken⟩
    · rw [List.flatMap_cons, hl, List.append_assoc, ← hlines.text_eq]
      simp
    · intro m hm
      cases List.mem_cons.1 hm with
      | inl heq => rwa [heq]
      | inr hlater => exact hlines.broken m hlater

theorem TextLine.EndsWith.count {l : TextLine} (h : l.EndsWith newline) :
    l.text.count '\n' = newline.count '\n' := by
  have hcontent := List.count_eq_zero.2 h.content_free
  cases h.ending_eq with
  | inl hending => rw [text, List.count_append, hcontent, hending.1, Nat.zero_add]
  | inr hending => simp [text, hcontent, hending]

theorem count_flatMap_text (h : ∀ l ∈ lines, l.EndsWith ['\n']) :
    (lines.flatMap TextLine.text).count '\n' = lines.length := by
  induction lines with
  | nil => rfl
  | cons l lines ih =>
    have hl := (h l List.mem_cons_self).count
    have hrest := ih fun m hm => h m (List.mem_cons_of_mem l hm)
    rw [List.flatMap_cons, List.count_append, hl, hrest, List.length_cons]
    simp [Nat.add_comm]

theorem earlierLines_flatMap_text (h : ∀ l ∈ lines, l.EndsWith ['\n']) :
    earlierLines (lines.flatMap TextLine.text) = lines.flatMap TextLine.text := by
  induction lines using List.reverseRecOn with
  | nil => rfl
  | append_singleton lines l _ =>
    have hl := (h l (by simp)).ending_eq
    have hlast : ∃ line, l.text = line ++ ['\n'] := by
      cases hl with
      | inl hending => exact ⟨l.content, by rw [TextLine.text, hending.1]⟩
      | inr hending => exact ⟨l.content ++ ['\r'], by simp [TextLine.text, hending]⟩
    obtain ⟨line, hline⟩ := hlast
    rw [List.flatMap_append, List.flatMap_singleton, hline, ← List.append_assoc]
    exact List.rdropWhile_concat_neg _ _ _ (by simp)

theorem InLines.endsWith_of_split {earlier before after : List TextLine} {last l : TextLine}
    (h : InLines text earlier last) (hsplit : earlier ++ [last] = before ++ l :: after) :
    (∀ m ∈ before, m.EndsWith ['\n']) ∧
      ∃ newline, l.EndsWith newline ∧ (newline = [] ∧ after = [] ∨ newline = ['\n']) := by
  induction after using List.reverseRecOn with
  | nil =>
    obtain ⟨rfl, hlast⟩ := List.append_inj' hsplit rfl
    have hl : last = l := by simpa using hlast
    rw [← hl]
    exact ⟨h.broken, [], h.unbroken, Or.inl ⟨rfl, rfl⟩⟩
  | append_singleton after m _ =>
    rw [← List.cons_append, ← List.append_assoc] at hsplit
    have hearlier : earlier = before ++ l :: after := (List.append_inj' hsplit rfl).1
    refine ⟨fun m hm => h.broken m ?_, ['\n'], h.broken l ?_, Or.inr rfl⟩
    · rw [hearlier]
      exact List.mem_append_left _ hm
    · simp [hearlier]

theorem lineAt_of_split {left rest : List Char} (hbody : '\n' ∉ body)
    (hrest : rest = [] ∨ ∃ more, rest = '\n' :: more) :
    LineAt (left ++ body ++ rest) 0 (byteLength left)
      (laterStarts (left ++ body ++ rest) 0)[left.count '\n']? left body rest := by
  have hcount : (left ++ body).count '\n' = left.count '\n' := by
    rw [List.count_append, List.count_eq_zero.2 hbody, Nat.add_zero]
  refine ⟨rfl, by simp, ?_, ?_⟩
  · intro hnone
    cases hrest with
    | inl hnil => exact hnil
    | inr hmore =>
      obtain ⟨more, rfl⟩ := hmore
      have hstart := getElem?_laterStarts (left ++ body) more 0
      rw [hcount, hnone] at hstart
      cases hstart
  · intro n hn
    cases hrest with
    | inl hnil =>
      -- behind the last newline no line starts
      have hlength := Source.lineCount_ofText (left ++ body ++ rest)
      have hlt := (List.getElem?_eq_some_iff.1 hn).1
      rw [hnil, List.append_nil] at hlt hlength
      rw [hcount] at hlength
      simp only [Source.lineCount, Source.ofText, LineTable.ofText, List.length_cons] at hlength
      omega
    | inr hmore =>
      obtain ⟨more, rfl⟩ := hmore
      have hstart := getElem?_laterStarts (left ++ body) more 0
      rw [hcount, hn] at hstart
      have hsize : '\n'.utf8Size = 1 := rfl
      rw [Option.some.inj hstart]
      simp [hsize, Nat.add_assoc]

end Division

section Starts

variable {text : List Char} {offset n start : Nat} {starts : List Nat}

theorem lt_length_takeWhile_iff (hsorted : starts.Pairwise (· < ·)) (h : starts[n]? = some start) :
    n < (starts.takeWhile (· ≤ offset)).length ↔ start ≤ offset := by
  induction starts generalizing n with
  | nil => simp at h
  | cons first starts ih =>
    obtain ⟨hfirst, hrest⟩ := List.pairwise_cons.1 hsorted
    by_cases hle : first ≤ offset
    · cases n with
      | zero =>
        have heq : first = start := by simpa using h
        simp [heq ▸ hle, hle]
      | succ n => simpa [hle] using ih hrest (by simpa using h)
    · have hlt : first ≤ start := by
        cases n with
        | zero => exact Nat.le_of_eq (by simpa using h)
        | succ n => exact Nat.le_of_lt (hfirst start (List.mem_of_getElem? (by simpa using h)))
      simp only [List.takeWhile_cons, hle, decide_false, Bool.false_eq_true, if_false,
        List.length_nil, Nat.not_lt_zero, false_iff]
      omega

end Starts

namespace Source

variable {text left rest newline : List Char} {l : TextLine} {line offset i start : Nat} {span : Span}

structure Holds (s : Source) (line offset : Nat) : Prop where
  isLine : 1 ≤ line ∧ line ≤ s.lineCount
  begun : ∃ span, s.lineSpan line = .ok span ∧ span.start ≤ offset
  next : line < s.lineCount → ∃ span, s.lineSpan (line + 1) = .ok span ∧ offset < span.start

theorem byteLength_le_append (left right : List Char) :
    byteLength left ≤ byteLength (left ++ right) := by
  rw [byteLength_append]
  exact Nat.le_add_right _ _

theorem lineSpan_of_line (hleft : earlierLines left = left) (hl : l.EndsWith newline)
    (hnewline : newline = [] ∧ rest = [] ∨ newline = ['\n']) :
    (ofText (left ++ l.text ++ rest)).lineSpan (left.count '\n' + 1) =
      .ok ⟨byteLength left, byteLength (left ++ l.content), byteLength_le_append left l.content⟩ := by
  have hbody : ∃ body, l.text ++ rest = body ++ (newline ++ rest) ∧ '\n' ∉ body ∧
      (if body.getLast? = some '\r' then byteLength (left ++ body) - 1
        else byteLength (left ++ body)) = byteLength (left ++ l.content) := by
    cases hl.ending_eq with
    | inl hending =>
      refine ⟨l.content, by simp [TextLine.text, hending.1], hl.content_free, ?_⟩
      rw [if_neg hending.2]
    | inr hending =>
      have hsize : '\r'.utf8Size = 1 := rfl
      refine ⟨l.content ++ ['\r'], by simp [TextLine.text, hending], ?_, ?_⟩
      · simpa using hl.content_free
      · simp [hsize]
  obtain ⟨body, htext, hfree, hstop⟩ := hbody
  have hrest : newline ++ rest = [] ∨ ∃ more, newline ++ rest = '\n' :: more := by
    cases hnewline with
    | inl hnil => exact Or.inl (by simp [hnil])
    | inr hbreak => exact Or.inr ⟨rest, by simp [hbreak]⟩
  rw [List.append_assoc, htext, ← List.append_assoc]
  have hstart : (ofText (left ++ body ++ (newline ++ rest))).lines.starts[left.count '\n']? =
      some (byteLength left) := by
    have hstarts := getElem?_starts left (body ++ (newline ++ rest))
    rwa [hleft, ← List.append_assoc] at hstarts
  have hend := lineEnd_eq hstart (lineAt_of_split hfree hrest)
  have hcount : left.count '\n' ≠ (ofText (left ++ body ++ (newline ++ rest))).lineCount := by
    have hlt := (List.getElem?_eq_some_iff.1 hstart).1
    rw [lineCount]
    omega
  rw [lineSpan, Nat.add_sub_cancel, if_neg hcount, lineStart_eq hstart, hend, hstop]
  exact Span.make_of_le _

theorem lineSpan_last (text : List Char) :
    (ofText text).lineSpan ((ofText text).lineCount + 1) = .ok (Span.empty (byteLength text)) := by
  rw [lineSpan, Nat.add_sub_cancel, if_pos rfl]
  rfl

theorem start_of_lineSpan (hi : i < (ofText text).lineCount)
    (h : (ofText text).lineSpan (i + 1) = .ok span) :
    (ofText text).lines.starts[i]? = some span.start := by
  have hstart := List.getElem?_eq_getElem hi
  rw [lineSpan, Nat.add_sub_cancel, if_neg (Nat.ne_of_lt hi), lineStart_eq hstart] at h
  obtain ⟨start, heq, h⟩ := bind_eq_ok.1 h
  obtain ⟨stop, _, hmake⟩ := bind_eq_ok.1 h
  rw [hstart, Except.ok.inj heq, (Span.make_eq_ok.1 hmake).1]

theorem start_le_iff (hi : i < (ofText text).lineCount)
    (h : (ofText text).lineSpan (i + 1) = .ok span) :
    span.start ≤ offset ↔ i < (ofText text).lineOf offset := by
  rw [lineOf_eq_count rfl]
  exact (lt_length_takeWhile_iff (ascending_starts text) (start_of_lineSpan hi h)).symm

theorem lineOf_le (text : List Char) (offset : Nat) :
    (ofText text).lineOf offset ≤ (ofText text).lineCount := by
  rw [lineOf_eq_count rfl]
  exact (List.takeWhile_prefix _).length_le

theorem holds_lineOf (text : List Char) (offset : Nat) :
    (ofText text).Holds ((ofText text).lineOf offset) offset := by
  have hle := lineOf_le text offset
  obtain ⟨i, start, hi, hstart⟩ := exists_lineOf text offset
  rw [hi] at hle ⊢
  obtain ⟨span, _, hspan, _⟩ := exists_lineSpan hstart
  refine ⟨⟨by omega, hle⟩, ⟨span, hspan, ?_⟩, ?_⟩
  · exact (start_le_iff hle hspan).2 (by omega)
  · intro hlt
    obtain ⟨next, _, hnext, _⟩ := exists_lineSpan (List.getElem?_eq_getElem hlt)
    refine ⟨next, hnext, ?_⟩
    have hlater : ¬next.start ≤ offset := by
      rw [start_le_iff hlt hnext, hi]
      omega
    omega

theorem Holds.eq_lineOf (h : (ofText text).Holds line offset) :
    line = (ofText text).lineOf offset := by
  obtain ⟨i, rfl⟩ := Nat.exists_eq_succ_of_ne_zero (Nat.ne_of_gt h.isLine.1)
  obtain ⟨span, hspan, hbegun⟩ := h.begun
  have hlower := (start_le_iff h.isLine.2 hspan).1 hbegun
  have hle := lineOf_le text offset
  by_cases hlt : i.succ < (ofText text).lineCount
  · obtain ⟨next, hnext, hbehind⟩ := h.next hlt
    have hupper := mt (start_le_iff hlt hnext).2 (Nat.not_le.2 hbehind)
    omega
  · have hlast := h.isLine.2
    omega

theorem isIndentation_takeWhile (line : List Char) :
    IsIndentation line (line.takeWhile fun c => c = ' ' || c = '\t') := by
  refine ⟨List.takeWhile_prefix _, fun c hc => ?_, fun other hother hblank => ?_⟩
  · simpa using List.mem_takeWhile_imp hc
  · obtain ⟨rest, rfl⟩ := hother
    rw [List.takeWhile_append_of_pos fun c hc => by simpa using hblank c hc]
    exact List.prefix_append _ _

/-- The text is cut into lines, with a line break behind each but the last, and their spans are where
they stand; one more line lies empty at the end. Every offset belongs to exactly one line, whose span
and indentation are found from it. -/
theorem lineSpans_divide (text : List Char) :
    (∃ earlier last, InLines text earlier last ∧ (ofText text).lineCount = earlier.length + 1 ∧
      ∀ before l after, earlier ++ [last] = before ++ l :: after →
        ∃ span, (ofText text).lineSpan (before.length + 1) = .ok span ∧
          span.start = byteLength (before.flatMap TextLine.text) ∧
          (ofText text).slice span = .ok l.content) ∧
    (ofText text).lineSpan ((ofText text).lineCount + 1) = .ok (Span.empty (byteLength text)) ∧
    ∀ offset, ∃ line span content indent, (ofText text).Holds line offset ∧
      (∀ other, (ofText text).Holds other offset → other = line) ∧
      (ofText text).lineSpan line = .ok span ∧ (ofText text).lineSpanOf offset = .ok span ∧
      (ofText text).slice span = .ok content ∧
      (ofText text).indentationOf offset = .ok indent ∧ IsIndentation content indent := by
  refine ⟨?_, lineSpan_last text, ?_⟩
  · obtain ⟨earlier, last, hlines⟩ := exists_inLines text
    have hcount : (ofText text).lineCount = earlier.length + 1 := by
      rw [lineCount_ofText, hlines.text_eq, List.count_append,
        count_flatMap_text hlines.broken, hlines.unbroken.count]
      rfl
    refine ⟨earlier, last, hlines, hcount, ?_⟩
    intro before l after hsplit
    have htext : text = before.flatMap TextLine.text ++ l.text ++ after.flatMap TextLine.text := by
      have hall := congrArg (List.flatMap TextLine.text) hsplit
      rw [hlines.text_eq]
      simpa using hall
    obtain ⟨hbefore, newline, hl, hnewline⟩ := hlines.endsWith_of_split hsplit
    have hrest : newline = [] ∧ after.flatMap TextLine.text = [] ∨ newline = ['\n'] :=
      hnewline.imp_left fun hlast => ⟨hlast.1, by rw [hlast.2, List.flatMap_nil]⟩
    have hspan := lineSpan_of_line (earlierLines_flatMap_text hbefore) hl hrest
    rw [count_flatMap_text hbefore, ← htext] at hspan
    refine ⟨_, hspan, rfl, slice_eq_ok.2 ⟨before.flatMap TextLine.text,
      l.ending ++ after.flatMap TextLine.text, ?_, rfl, rfl⟩⟩
    rw [ofText, htext, TextLine.text]
    simp
  · intro offset
    have hholds := holds_lineOf text offset
    obtain ⟨i, start, hi, hstart⟩ := exists_lineOf text offset
    obtain ⟨span, content, hspan, hslice⟩ := exists_lineSpan hstart
    rw [← hi] at hspan
    refine ⟨_, span, content, _, hholds, fun other hother => hother.eq_lineOf, hspan, hspan,
      hslice, ?_, isIndentation_takeWhile content⟩
    simp [indentationOf, lineSpanOf, hspan, hslice, bind, Except.bind, pure, Except.pure]

theorem returns_are_left_out :
    (∃ earlier last, InLines "\tif\r\n\r\n é\r".toList earlier last ∧ earlier.length = 2) ∧
    (ofText "\tif\r\n\r\n é\r".toList).lineSpan 4 = .ok (Span.empty 11) ∧
    ∃ span indent, (ofText "\tif\r\n\r\n é\r".toList).lineSpanOf 20 = .ok span ∧
      (ofText "\tif\r\n\r\n é\r".toList).slice span = .ok " é".toList ∧
      (ofText "\tif\r\n\r\n é\r".toList).indentationOf 20 = .ok indent ∧
      IsIndentation " é".toList indent := by
  obtain ⟨⟨earlier, last, hlines, hcount, _⟩, hend, hoffset⟩ :=
    lineSpans_divide "\tif\r\n\r\n é\r".toList
  obtain ⟨line, span, content, indent, _, _, _, hspan, hslice, hindent, hblank⟩ := hoffset 20
  have hlast : (ofText "\tif\r\n\r\n é\r".toList).lineSpanOf 20 = .ok ⟨7, 10, by decide⟩ := by decide
  have htext : (ofText "\tif\r\n\r\n é\r".toList).slice ⟨7, 10, by decide⟩ = .ok " é".toList := by
    decide
  rw [hlast] at hspan
  rw [← Except.ok.inj hspan, htext] at hslice
  rw [← Except.ok.inj hslice] at hblank
  exact ⟨⟨earlier, last, hlines, (Nat.succ.inj hcount).symm⟩, hend, _, indent, hlast, htext,
    hindent, hblank⟩

end Source

end IfCollapse
