import IfCollapse.Proofs.Boundaries
import Mathlib.Data.List.DropRight

/-! Lines and columns by counting. The line of an offset between characters is the number of
newlines before it, and the column is the number of characters since the last of them; both are found
without counting, from the table of lines. -/

namespace IfCollapse

def currentLine (text : List Char) : List Char :=
  text.rtakeWhile (· ≠ '\n')

def earlierLines (text : List Char) : List Char :=
  text.rdropWhile (· ≠ '\n')

theorem earlierLines_append_currentLine (text : List Char) :
    earlierLines text ++ currentLine text = text :=
  List.rdropWhile_append_rtakeWhile

/-- The location behind a text: the number of newlines in it and the number of characters since the
last of them, both counted from one. -/
def Location.behind (text : List Char) : Location :=
  ⟨text.count '\n' + 1, (currentLine text).length + 1⟩

section Order

variable {left more : List Char}

theorem currentLine_append (h : '\n' ∉ more) :
    currentLine (left ++ more) = currentLine left ++ more := by
  induction more using List.reverseRecOn with
  | nil => simp
  | append_singleton more c ih =>
    rw [List.mem_append, List.mem_singleton, not_or] at h
    have hlast : currentLine (left ++ more ++ [c]) = currentLine (left ++ more) ++ [c] :=
      List.rtakeWhile_concat_pos _ _ _ (by simpa using Ne.symm h.2)
    rw [← List.append_assoc, ← List.append_assoc, ← ih h.1, hlast]

theorem Location.behind_before (hmore : more ≠ []) :
    (behind left).before (behind (left ++ more)) = true := by
  simp only [before, behind, List.count_append, Bool.or_eq_true, Bool.and_eq_true, beq_iff_eq,
    decide_eq_true_eq]
  by_cases hnewline : '\n' ∈ more
  · have hcount := List.count_pos_iff.2 hnewline
    omega
  · have hpos := List.length_pos_iff.2 hmore
    have hnone := List.count_eq_zero.2 hnewline
    rw [currentLine_append hnewline, List.length_append]
    omega

end Order

section Starts

variable {text left right : List Char} {offset n : Nat}

theorem le_of_mem_laterStarts (h : n ∈ laterStarts text offset) : n ≤ offset + byteLength text := by
  induction text generalizing offset with
  | nil => simp [laterStarts] at h
  | cons c text ih =>
    rw [laterStarts] at h
    rw [byteLength_cons, ← Nat.add_assoc]
    split at h
    · cases List.mem_cons.1 h with
      | inl heq => omega
      | inr hlater => exact ih hlater
    · exact ih h

theorem length_takeWhile_laterStarts (left right : List Char) (offset : Nat) :
    ((laterStarts (left ++ right) offset).takeWhile
      (· ≤ offset + byteLength left)).length = left.count '\n' := by
  induction left generalizing offset with
  | nil =>
    cases hstarts : laterStarts right offset with
    | nil => simp [hstarts]
    | cons n starts =>
      have hlt : offset < n := lt_of_mem_laterStarts (by rw [hstarts]; exact List.mem_cons_self)
      simp [hstarts, Nat.not_le.2 hlt]
  | cons c left ih =>
    have hrest := ih (offset + c.utf8Size)
    rw [Nat.add_assoc] at hrest
    rw [List.cons_append, laterStarts, byteLength_cons]
    by_cases hc : c = '\n'
    · subst hc
      simp [hrest]
    · simp [hc, hrest]

theorem getElem?_laterStarts (left right : List Char) (offset : Nat) :
    (laterStarts (left ++ '\n' :: right) offset)[left.count '\n']? =
      some (offset + byteLength (left ++ ['\n'])) := by
  induction left generalizing offset with
  | nil => simp [laterStarts]
  | cons c left ih =>
    have hrest := ih (offset + c.utf8Size)
    rw [List.cons_append, laterStarts, List.cons_append, byteLength_cons, ← Nat.add_assoc, ← hrest]
    by_cases hc : c = '\n'
    · simp [hc]
    · simp [hc]

theorem getElem?_starts (left right : List Char) :
    (LineTable.ofText (left ++ right)).starts[left.count '\n']? =
      some (byteLength (earlierLines left)) := by
  induction left using List.reverseRecOn generalizing right with
  | nil => simp [LineTable.ofText, earlierLines]
  | append_singleton left c ih =>
    by_cases hc : c = '\n'
    · have hlast : earlierLines (left ++ [c]) = left ++ [c] :=
        List.rdropWhile_concat_neg _ _ _ (by simp [hc])
      rw [hlast, hc, List.append_assoc, List.count_append]
      simpa [LineTable.ofText] using getElem?_laterStarts left right 0
    · have hlast : earlierLines (left ++ [c]) = earlierLines left :=
        List.rdropWhile_concat_pos _ _ _ (by simp [hc])
      have hcount : (left ++ [c]).count '\n' = left.count '\n' := by simp [hc]
      rw [hlast, hcount, List.append_assoc]
      exact ih ([c] ++ right)

end Starts

def IsAscii (text : List Char) : Prop :=
  ∀ c ∈ text, c.val < 128

theorem ascii_ofText {text : List Char} : (LineTable.ofText text).ascii = true ↔ IsAscii text := by
  simp [LineTable.ofText, IsAscii]

theorem IsAscii.byteLength_eq {text : List Char} (h : IsAscii text) :
    byteLength text = text.length := by
  induction text with
  | nil => rfl
  | cons c text ih =>
    have hc : c.val.toNat < 128 := h c List.mem_cons_self
    have hsize : c.utf8Size = 1 := Char.utf8Size_eq_one_iff.2 (Nat.le_of_lt_succ hc)
    rw [byteLength_cons, hsize, ih fun d hd => h d (List.mem_cons_of_mem c hd), List.length_cons]
    omega

namespace Source

variable {text left right : List Char} {ascii : Bool} {i start offset : Nat}

/-- A text with the table of its lines, to be looked up as an ASCII text or not. -/
def indexed (text : List Char) (ascii : Bool) : Source :=
  ⟨text, ⟨(LineTable.ofText text).starts, ascii⟩⟩

theorem lineStart_indexed (h : (LineTable.ofText text).starts[i]? = some start) :
    (indexed text ascii).lineStart (i + 1) = .ok start :=
  lineStart_eq h

theorem lineOf_indexed (left right : List Char) (ascii : Bool) :
    (indexed (left ++ right) ascii).lineOf (byteLength left) = left.count '\n' + 1 := by
  have hlater := length_takeWhile_laterStarts left right 0
  rw [Nat.zero_add] at hlater
  rw [lineOf_eq_count rfl]
  simp [indexed, LineTable.ofText, hlater]

theorem lineOf_past (h : byteLength text ≤ offset) (ascii : Bool) :
    (indexed text ascii).lineOf offset = (ofText text).lineCount := by
  have hall : (laterStarts text 0).takeWhile (· ≤ offset) = laterStarts text 0 := by
    rw [List.takeWhile_eq_self_iff]
    intro n hn
    have hle := le_of_mem_laterStarts hn
    exact decide_eq_true (by omega)
  rw [lineOf_eq_count rfl]
  simp [lineCount, ofText, indexed, LineTable.ofText, hall]

theorem lineCount_ofText (text : List Char) : (ofText text).lineCount = text.count '\n' + 1 := by
  have hend := lineOf_indexed text [] false
  rw [List.append_nil, lineOf_past (Nat.le_refl _)] at hend
  exact hend

theorem locate_indexed (h : ascii = true → IsAscii left) :
    (indexed (left ++ right) ascii).locate (byteLength left) = .ok (Location.behind left) := by
  have hsplit := earlierLines_append_currentLine left
  have hlength : byteLength left =
      byteLength (earlierLines left) + byteLength (currentLine left) := by
    rw [← byteLength_append, hsplit]
  rw [locate, lineOf_indexed, lineStart_indexed (getElem?_starts left right)]
  cases ascii with
  | true =>
    have hline : byteLength (currentLine left) = (currentLine left).length := by
      apply IsAscii.byteLength_eq
      exact fun c hc => h rfl c ((List.rtakeWhile_suffix _ _).mem hc)
    simp [indexed, bind, Except.bind, pure, Except.pure, Location.behind, hlength, hline]
  | false =>
    have hle : byteLength (earlierLines left) ≤ byteLength left := by omega
    have hslice : (indexed (left ++ right) false).slice ⟨_, _, hle⟩ = .ok (currentLine left) :=
      slice_eq_ok.2 ⟨earlierLines left, right, by rw [hsplit]; rfl, rfl, by rw [hsplit]⟩
    have hkind : (indexed (left ++ right) false).lines.ascii = false := rfl
    simp [bind, Except.bind, pure, Except.pure, Location.behind, Span.make_of_le hle, hslice, hkind]

theorem locate_past_ascii (h : byteLength text ≤ offset) :
    (indexed text true).locate offset =
      .ok ⟨(ofText text).lineCount, offset - byteLength (earlierLines text) + 1⟩ := by
  have hstart := getElem?_starts text []
  rw [List.append_nil] at hstart
  rw [locate, lineOf_past h, lineCount_ofText, lineStart_indexed hstart]
  rfl

theorem isBoundary_of_locate {l : Location} (h : (indexed text false).locate offset = .ok l) :
    isBoundary text offset = true := by
  obtain ⟨start, _, h⟩ := bind_eq_ok.1 h
  have hkind : (indexed text false).lines.ascii = false := rfl
  rw [hkind, if_neg Bool.false_ne_true] at h
  obtain ⟨span, hspan, h⟩ := bind_eq_ok.1 h
  obtain ⟨line, hline, _⟩ := bind_eq_ok.1 h
  rw [← (Span.make_eq_ok.1 hspan).2]
  exact (boundaries_of_slice hline).2

theorem exists_locate_ascii (text : List Char) (offset : Nat) :
    ∃ l, (indexed text true).locate offset = .ok l := by
  obtain ⟨i, start, hi, hstart⟩ := exists_lineOf text offset
  have hline : (indexed text true).lineOf offset = i + 1 := hi
  rw [locate, hline, lineStart_indexed hstart]
  exact ⟨_, rfl⟩

/-- Offsets between characters are located by counting, with either way of finding columns, and in
the order of the text. Another offset has no location exactly if the text is not all ASCII; past the
end of an ASCII text columns go on counting bytes in the last line. -/
theorem locate_by_counting (text : List Char) :
    (∀ left right, text = left ++ right →
      (ofText text).locate (byteLength left) = .ok (Location.behind left) ∧
      (IsAscii text → ∀ ascii, (indexed text ascii).locate (byteLength left) =
        (ofText text).locate (byteLength left))) ∧
    (∀ a b, isBoundary text a = true → isBoundary text b = true → a < b →
      ∃ l m, (ofText text).locate a = .ok l ∧ (ofText text).locate b = .ok m ∧
        l.before m = true) ∧
    (∀ offset, isBoundary text offset = false →
      ((∃ why, (ofText text).locate offset = .error why) ↔ ¬IsAscii text)) ∧
    (IsAscii text → ∀ offset, byteLength text < offset →
      (ofText text).locate offset =
        .ok ⟨(ofText text).lineCount, offset - byteLength (earlierLines text) + 1⟩) := by
  have hkind : ∀ ascii, (LineTable.ofText text).ascii = ascii →
      ofText text = indexed text ascii := by
    intro ascii h
    rw [← h]
    rfl
  have hcounted : ∀ left right, text = left ++ right →
      (ofText text).locate (byteLength left) = .ok (Location.behind left) := by
    rintro left right rfl
    refine locate_indexed fun h c hc => ?_
    exact ascii_ofText.1 h c (List.mem_append_left right hc)
  refine ⟨?_, ?_, ?_, ?_⟩
  · intro left right htext
    refine ⟨hcounted left right htext, ?_⟩
    intro hascii ascii
    rw [hcounted left right htext]
    rw [htext] at hascii ⊢
    exact locate_indexed fun _ c hc => hascii c (List.mem_append_left right hc)
  · intro a b ha hb hab
    obtain ⟨left, middle, right, htext, rfl, rfl⟩ := exists_between ha hb (Nat.le_of_lt hab)
    refine ⟨_, _, hcounted left (middle ++ right) (by rw [htext, List.append_assoc]),
      hcounted (left ++ middle) right htext, Location.behind_before ?_⟩
    rintro rfl
    simp at hab
  · intro offset hoffset
    by_cases hascii : IsAscii text
    · obtain ⟨l, hl⟩ := exists_locate_ascii text offset
      rw [hkind true (ascii_ofText.2 hascii), hl]
      simp [hascii]
    · rw [hkind false (by simpa using mt ascii_ofText.1 hascii)]
      cases hl : (indexed text false).locate offset with
      | error why => simp [hascii]
      | ok l => simp [isBoundary_of_locate hl] at hoffset
  · intro hascii offset hoffset
    rw [hkind true (ascii_ofText.2 hascii)]
    exact locate_past_ascii (Nat.le_of_lt hoffset)

theorem accented_line_is_located :
    (ofText "é = 1;\nx".toList).locate 4 = .ok ⟨1, 4⟩ ∧
    (∃ l m, (ofText "é = 1;\nx".toList).locate 4 = .ok l ∧
      (ofText "é = 1;\nx".toList).locate 8 = .ok m ∧ l.before m = true) ∧
    (∃ why, (ofText "é = 1;\nx".toList).locate 1 = .error why) ∧
    (ofText "a\nb".toList).locate 7 = .ok ⟨2, 6⟩ := by
  obtain ⟨hcounted, hordered, hother, _⟩ := locate_by_counting "é = 1;\nx".toList
  obtain ⟨_, _, _, hpast⟩ := locate_by_counting "a\nb".toList
  have haccent : ¬IsAscii "é = 1;\nx".toList := mt ascii_ofText.2 (by decide)
  refine ⟨(hcounted "é =".toList " 1;\nx".toList rfl).1, ?_, ?_, ?_⟩
  · exact hordered 4 8 (by decide) (by decide) (by decide)
  · exact (hother 1 (by decide)).2 haccent
  · exact hpast (ascii_ofText.1 (by decide)) 7 (by decide)

end Source

end IfCollapse
