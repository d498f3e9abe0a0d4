import IfCollapse.Branch.Replacement
import Mathlib.Data.List.Infix

/-! Moving lines to another indentation. The old indentation is swapped at the start of every line
that has it, whatever the line belongs to. So a part of the text stays as it is if and only if none of
the swapped indentations reaches into it. -/

namespace IfCollapse.Branch

/-- Puts `new` for `old` behind every newline, where the first `skip` characters belong to an
indentation that is swapped. -/
def swap (old new : List Char) : (skip : Nat) → List Char → List Char
  | _, [] => []
  | skip + 1, _ :: text => swap old new skip text
  | 0, c :: text =>
    if c = '\n' ∧ old <+: text then c :: (new ++ swap old new old.length text)
    else c :: swap old new 0 text

/-- A part of a text stays as it is, between what becomes of the text before it and of the text
after it. Its last character may be the newline that the next line begins with. -/
def Keeps (old new left part right : List Char) : Prop :=
  ∃ middle last, part = middle ++ [last] ∧
    reindent (left ++ part ++ right) old new =
      reindent left old new ++ middle ++ reindent (last :: right) old new

/-- No indentation at the start of a line reaches into a part of a text. -/
def Clear (old left part right : List Char) : Prop :=
  ∀ above line, left ++ part ++ right = above ++ '\n' :: line → old <+: line →
    above.length + 1 + old.length ≤ left.length ∨ left.length + part.length ≤ above.length + 1

/-- No line that begins inside a part of a text begins with the indentation. -/
def Unindented (old part right : List Char) : Prop :=
  ∀ above line, part ++ right = above ++ '\n' :: line → above.length + 1 < part.length →
    ¬old <+: line

def Contained (old left rest : List Char) : Prop :=
  ∀ above line, left ++ rest = above ++ '\n' :: line → above.length < left.length → old <+: line →
    above.length + 1 + old.length ≤ left.length

def Untouched (old text rest : List Char) : Prop :=
  ∀ above line, text ++ rest = above ++ '\n' :: line → above.length < text.length → ¬old <+: line

def firstLine (text : List Char) : List Char :=
  text.takeWhile (· ≠ '\n')

section Lines

variable {old new text part rest : List Char} {first : List Char} {lines : List (List Char)}

theorem dropStart?_eq_some : dropStart? old text = some rest ↔ text = old ++ rest := by
  induction old generalizing text with
  | nil => simp [dropStart?, eq_comm]
  | cons a old ih =>
    cases text with
    | nil => simp [dropStart?]
    | cons b text =>
      by_cases hab : a = b
      · simp [dropStart?, hab, ih]
      · simp [dropStart?, hab, eq_comm]

theorem reindentLine_append (old new rest : List Char) :
    reindentLine old new (old ++ rest) = new ++ rest := by
  rw [reindentLine, dropStart?_eq_some.2 rfl]

theorem reindentLine_of_not_prefix (h : ¬old <+: text) : reindentLine old new text = text := by
  rw [reindentLine]
  cases hdrop : dropStart? old text with
  | none => rfl
  | some rest => exact absurd ⟨rest, (dropStart?_eq_some.1 hdrop).symm⟩ h

theorem joinLines_append (part first : List Char) (lines : List (List Char)) :
    joinLines ((part ++ first) :: lines) = part ++ joinLines (first :: lines) := by
  cases lines <;> simp [joinLines]

theorem pieces_append {separator : Char} (hpart : separator ∉ part)
    (h : pieces separator text = first :: lines) :
    pieces separator (part ++ text) = (part ++ first) :: lines := by
  induction part with
  | nil => exact h
  | cons c part ih =>
    have hc : c ≠ separator := fun heq => hpart (heq ▸ List.mem_cons_self)
    have hrest := ih fun hmem => hpart (List.mem_cons_of_mem c hmem)
    rw [List.cons_append, pieces, if_neg hc, hrest]
    rfl

theorem prefix_of_pieces {separator : Char} (h : pieces separator text = first :: lines) :
    first <+: text := by
  induction text generalizing first lines with
  | nil => simp_all [pieces]
  | cons c text ih =>
    rw [pieces] at h
    split at h
    · simp [← (List.cons.inj h).1]
    · cases hpieces : pieces separator text with
      | nil => exact absurd hpieces (pieces_ne_nil separator text)
      | cons piece more =>
        rw [hpieces, consFirst, List.cons.injEq] at h
        rw [← h.1]
        exact List.prefix_cons_inj c |>.2 (ih hpieces)

theorem swap_skip (part rest : List Char) :
    swap old new part.length (part ++ rest) = swap old new 0 rest := by
  induction part with
  | nil => rfl
  | cons c part ih => exact ih

theorem swap_append_of_not_mem (h : '\n' ∉ part) (rest : List Char) :
    swap old new 0 (part ++ rest) = part ++ swap old new 0 rest := by
  induction part with
  | nil => rfl
  | cons c part ih =>
    have hc : ¬(c = '\n' ∧ old <+: part ++ rest) := fun hnewline => h (by simp [hnewline.1])
    rw [List.cons_append, swap, if_neg hc, ih fun hmem => h (List.mem_cons_of_mem c hmem)]
    rfl

theorem joinLines_reindentLine (hold : '\n' ∉ old) (h : pieces '\n' text = first :: lines) :
    joinLines (first :: lines.map (reindentLine old new)) = swap old new 0 text := by
  induction text generalizing first lines with
  | nil =>
    rw [pieces, List.cons.injEq] at h
    rw [← h.1, ← h.2]
    rfl
  | cons c text ih =>
    cases hpieces : pieces '\n' text with
    | nil => exact absurd hpieces (pieces_ne_nil '\n' text)
    | cons piece more =>
      have hlater := ih hpieces
      rw [pieces, hpieces] at h
      by_cases hc : c = '\n'
      · rw [if_pos hc, List.cons.injEq] at h
        rw [← h.1, ← h.2, List.map_cons, joinLines, swap, List.nil_append]
        by_cases hstart : old <+: text
        · obtain ⟨rest, rfl⟩ := hstart
          cases hrest : pieces '\n' rest with
          | nil => exact absurd hrest (pieces_ne_nil '\n' rest)
          | cons start others =>
            rw [pieces_append hold hrest, List.cons.injEq] at hpieces
            rw [← hpieces.1, ← hpieces.2, joinLines_append, swap_append_of_not_mem hold,
              List.append_cancel_left_eq] at hlater
            rw [if_pos ⟨hc, List.prefix_append old rest⟩, ← hpieces.1, ← hpieces.2,
              reindentLine_append, joinLines_append, hlater, swap_skip, hc]
        · have hpiece : ¬old <+: piece := fun hin => hstart (hin.trans (prefix_of_pieces hpieces))
          rw [if_neg fun hboth => hstart hboth.2, reindentLine_of_not_prefix hpiece, hlater, hc]
        · simp
      · rw [if_neg hc, consFirst, List.cons.injEq] at h
        rw [← h.1, ← h.2, swap, if_neg fun hboth => hc hboth.1, ← hlater]
        exact joinLines_append [c] piece _

theorem reindent_eq_swap (hold : '\n' ∉ old) (hne : old ≠ new) (text : List Char) :
    reindent text old new = swap old new 0 text := by
  rw [reindent, if_neg hne]
  cases hpieces : pieces '\n' text with
  | nil => exact absurd hpieces (pieces_ne_nil '\n' text)
  | cons first lines => exact joinLines_reindentLine hold hpieces

end Lines

section Parts

variable {old new left part right text rest : List Char} {c last : Char}

theorem forall_newline_cons {P : List Char → List Char → Prop} :
    (∀ above line, c :: text = above ++ '\n' :: line → P above line) ↔
      (c = '\n' → P [] text) ∧
        ∀ above line, text = above ++ '\n' :: line → P (c :: above) line := by
  constructor
  · intro h
    refine ⟨fun hc => h [] text (by rw [hc, List.nil_append]), fun above line htext => ?_⟩
    exact h (c :: above) line (by rw [htext, List.cons_append])
  · rintro ⟨hfirst, hlater⟩ above line htext
    cases above with
    | nil =>
      obtain ⟨hc, rfl⟩ := List.cons.inj htext
      exact hfirst hc
    | cons d above =>
      obtain ⟨rfl, htail⟩ := List.cons.inj htext
      exact hlater above line htail

theorem contained_cons : Contained old (c :: left) rest ↔
    (c = '\n' → old <+: left ++ rest → old.length ≤ left.length) ∧ Contained old left rest := by
  rw [Contained, List.cons_append, forall_newline_cons, Contained]
  simp only [List.length_cons, List.length_nil, Nat.zero_lt_succ, true_imp_iff, Nat.zero_add,
    Nat.add_lt_add_iff_right, Nat.add_right_comm _ 1, Nat.add_le_add_iff_right]

theorem untouched_nil : Untouched old [] rest :=
  fun _ _ _ hlt => absurd hlt (Nat.not_lt_zero _)

theorem untouched_cons : Untouched old (c :: text) rest ↔
    (c = '\n' → ¬old <+: text ++ rest) ∧ Untouched old text rest := by
  rw [Untouched, List.cons_append, forall_newline_cons, Untouched]
  simp only [List.length_cons, List.length_nil, Nat.zero_lt_succ, true_imp_iff,
    Nat.add_lt_add_iff_right]

theorem unindented_concat (text : List Char) :
    Unindented old (text ++ [last]) right ↔ Untouched old text (last :: right) := by
  simp [Unindented, Untouched]

theorem exists_inner {above line : List Char} (h : left ++ rest = above ++ '\n' :: line)
    (hle : left.length ≤ above.length) :
    ∃ inner, above = left ++ inner ∧ rest = inner ++ '\n' :: line := by
  have hstart : left <+: above := List.prefix_of_prefix_length_le (List.prefix_append left rest)
    (h ▸ List.prefix_append above _) hle
  obtain ⟨inner, rfl⟩ := hstart
  rw [List.append_assoc, List.append_right_inj] at h
  exact ⟨inner, rfl, h⟩

theorem clear_iff (middle : List Char) : Clear old left (middle ++ [last]) right ↔
    Contained old left (middle ++ last :: right) ∧ Untouched old middle (last :: right) := by
  have htext : left ++ (middle ++ [last]) ++ right = left ++ (middle ++ last :: right) := by simp
  rw [Clear, htext]
  simp only [List.length_append, List.length_singleton]
  constructor
  · intro h
    refine ⟨fun above line heq hlt hline => ?_, fun above line heq hlt hline => ?_⟩
    · have hreach := h above line heq hline
      omega
    · have hreach := h (left ++ above) line (by rw [heq, List.append_assoc]) hline
      rw [List.length_append] at hreach
      omega
  · rintro ⟨hleft, hmiddle⟩ above line heq hline
    by_cases hlt : above.length < left.length
    · exact Or.inl (hleft above line heq hlt hline)
    · obtain ⟨inner, rfl, hinner⟩ := exists_inner heq (Nat.le_of_not_lt hlt)
      have hle : ¬inner.length < middle.length := fun hin => hmiddle inner line hinner hin hline
      rw [List.length_append]
      omega

theorem firstLine_append_of_not_mem (h : '\n' ∉ part) (rest : List Char) :
    firstLine (part ++ rest) = part ++ firstLine rest :=
  List.takeWhile_append_of_pos fun c hc => by simpa using fun heq : c = '\n' => h (heq ▸ hc)

theorem firstLine_append (text : List Char) {a b : List Char} (h : firstLine a = firstLine b) :
    firstLine (text ++ a) = firstLine (text ++ b) := by
  simp only [firstLine, List.takeWhile_append] at h ⊢
  rw [h]

theorem firstLine_swap_append (text : List Char) {a b : List Char} (h : firstLine a = firstLine b) :
    firstLine (swap old new 0 text ++ a) = firstLine (text ++ b) := by
  induction text with
  | nil => exact h
  | cons c text ih =>
    rw [swap]
    by_cases hc : c = '\n'
    · split <;> simp [firstLine, hc]
    · rw [if_neg fun hboth => hc hboth.1]
      simpa [firstLine, hc] using ih

theorem firstLine_swap (old new text : List Char) :
    firstLine (swap old new 0 text) = firstLine text := by
  simpa using firstLine_swap_append text (a := []) (b := []) rfl

theorem swapped_ne (hold : '\n' ∉ old) (hnew : '\n' ∉ new) (hne : old ≠ new) (h : old <+: text)
    (hrest : firstLine rest = firstLine text) : new ++ swap old new old.length text ≠ rest := by
  intro heq
  obtain ⟨line, rfl⟩ := h
  rw [← heq, swap_skip, firstLine_append_of_not_mem hnew, firstLine_append_of_not_mem hold,
    firstLine_swap, List.append_left_inj] at hrest
  exact hne hrest.symm

/-- The text before a part is moved by itself if and only if its indentations end before the
part. -/
theorem swap_append_iff {skip : Nat} {later : List Char} (hold : '\n' ∉ old) (hnew : '\n' ∉ new)
    (hne : old ≠ new) (hskip : skip ≤ left.length) (hinside : '\n' ∉ left.take skip)
    (hlater : firstLine later = firstLine rest) :
    swap old new skip (left ++ rest) = swap old new skip left ++ later ↔
      Contained old left rest ∧ swap old new 0 rest = later := by
  induction left generalizing skip with
  | nil =>
    obtain rfl : skip = 0 := Nat.le_zero.1 hskip
    have hnone : Contained old [] rest := fun above line heq hlt => absurd hlt (Nat.not_lt_zero _)
    simp [swap, hnone]
  | cons c left ih =>
    rw [contained_cons]
    cases skip with
    | succ skip =>
      rw [List.take_succ_cons, List.mem_cons, not_or] at hinside
      have hc : ¬c = '\n' := fun heq => hinside.1 heq.symm
      rw [List.cons_append, swap, swap, ih (Nat.le_of_succ_le_succ hskip) hinside.2]
      simp [hc]
    | zero =>
      rw [List.cons_append, swap, swap]
      by_cases hin : c = '\n' ∧ old <+: left
      · have hwhole : old <+: left ++ rest := hin.2.trans (List.prefix_append left rest)
        have htake : left.take old.length = old := (List.prefix_iff_eq_take.1 hin.2).symm
        rw [if_pos ⟨hin.1, hwhole⟩, if_pos hin, List.cons_append, List.cons_inj_right,
          List.append_assoc, List.append_right_inj, ih hin.2.length_le (by rwa [htake])]
        simp [hin.2.length_le]
      · have hnil : '\n' ∉ left.take 0 := by simp
        by_cases hout : c = '\n' ∧ old <+: left ++ rest
        · -- the indentation begins here and ends in the rest
          have hlength : ¬old.length ≤ left.length := fun hle => hin ⟨hout.1,
            List.prefix_of_prefix_length_le hout.2 (List.prefix_append left rest) hle⟩
          have hchanged : new ++ swap old new old.length (left ++ rest) ≠
              swap old new 0 left ++ later :=
            swapped_ne hold hnew hne hout.2 (firstLine_swap_append left hlater)
          rw [if_pos hout, if_neg hin, List.cons_append, List.cons_inj_right]
          simp [hout, hlength, hchanged]
        · rw [if_neg hout, if_neg hin, List.cons_append, List.cons_inj_right,
            ih (Nat.zero_le _) hnil]
          have hreach : c = '\n' → old <+: left ++ rest → old.length ≤ left.length :=
            fun hc hline => absurd ⟨hc, hline⟩ hout
          exact ⟨fun h => ⟨⟨hreach, h.1⟩, h.2⟩, fun h => ⟨h.1.2, h.2⟩⟩

theorem swap_eq_append_iff (hold : '\n' ∉ old) (hnew : '\n' ∉ new) (hne : old ≠ new) :
    swap old new 0 (text ++ rest) = text ++ swap old new 0 rest ↔ Untouched old text rest := by
  induction text with
  | nil => simp [untouched_nil]
  | cons c text ih =>
    rw [untouched_cons, List.cons_append, swap]
    by_cases hin : c = '\n' ∧ old <+: text ++ rest
    · have hchanged := swapped_ne hold hnew hne hin.2
        (firstLine_append text (firstLine_swap old new rest))
      rw [if_pos hin, List.cons_append, List.cons_inj_right]
      simp [hin, hchanged]
    · have hline : c = '\n' → ¬old <+: text ++ rest := fun hc hline => hin ⟨hc, hline⟩
      rw [if_neg hin, List.cons_append, List.cons_inj_right]
      exact ⟨fun h => ⟨hline, ih.1 h⟩, fun h => ih.2 h.2⟩

theorem keeps_iff (hold : '\n' ∉ old) (hnew : '\n' ∉ new) (hpart : part ≠ [])
    (left right : List Char) :
    Keeps old new left part right ↔ old = new ∨ Clear old left part right := by
  obtain ⟨middle, last, hconcat⟩ := (List.eq_nil_or_concat part).resolve_left hpart
  rw [List.concat_eq_append] at hconcat
  subst hconcat
  have hsplit : Keeps old new left (middle ++ [last]) right ↔
      reindent (left ++ (middle ++ [last]) ++ right) old new =
        reindent left old new ++ middle ++ reindent (last :: right) old new := by
    constructor
    · rintro ⟨middle', last', hsame, htext⟩
      obtain ⟨rfl, hlast⟩ := List.append_inj' hsame rfl
      rwa [← (List.cons.inj hlast).1] at htext
    · intro htext
      exact ⟨middle, last, rfl, htext⟩
  rw [hsplit]
  by_cases hne : old = new
  · simp [reindent, hne]
  · have hlater : firstLine (middle ++ swap old new 0 (last :: right)) =
        firstLine (middle ++ last :: right) :=
      firstLine_append middle (firstLine_swap old new (last :: right))
    have htext : left ++ (middle ++ [last]) ++ right = left ++ (middle ++ last :: right) := by simp
    rw [reindent_eq_swap hold hne, reindent_eq_swap hold hne, reindent_eq_swap hold hne, htext,
      List.append_assoc, swap_append_iff hold hnew hne (Nat.zero_le _) (by simp) hlater,
      swap_eq_append_iff hold hnew hne, clear_iff]
    simp [hne]

theorem exists_reindent_cons (hold : '\n' ∉ old) (new : List Char) (c : Char) (text : List Char) :
    ∃ rest, reindent (c :: text) old new = c :: rest := by
  by_cases hne : old = new
  · exact ⟨text, by rw [reindent, if_pos hne]⟩
  · rw [reindent_eq_swap hold hne, swap]
    split
    · exact ⟨_, rfl⟩
    · exact ⟨_, rfl⟩

theorem Keeps.occurs (hold : '\n' ∉ old) (h : Keeps old new left part right) :
    part <:+: reindent (left ++ part ++ right) old new := by
  obtain ⟨middle, last, hpart, htext⟩ := h
  obtain ⟨rest, hrest⟩ := exists_reindent_cons hold new last right
  refine ⟨reindent left old new, rest, ?_⟩
  rw [htext, hrest, hpart]
  simp

theorem clear_iff_unindented (hold : ∀ c ∈ old, c = ' ' ∨ c = '\t') (hhead : part.head? = some c)
    (hblank : c ≠ ' ' ∧ c ≠ '\t') : Clear old left part right ↔ Unindented old part right := by
  constructor
  · intro h above line htext hlt hline
    have hreach := h (left ++ above) line (by simp [htext]) hline
    rw [List.length_append] at hreach
    omega
  · intro h above line htext hline
    rw [List.append_assoc] at htext
    by_cases hin : left.length ≤ above.length
    · obtain ⟨inner, rfl, hinner⟩ := exists_inner htext hin
      have hle : ¬inner.length + 1 < part.length := fun hlt => h inner line hinner hlt hline
      rw [List.length_append]
      omega
    · refine Or.inl (Nat.le_of_not_lt fun hlt => ?_)
      have habove : above ++ ['\n'] <+: left ++ (part ++ right) := ⟨line, by simp [htext]⟩
      have hleft : above ++ ['\n'] <+: left := List.prefix_of_prefix_length_le habove
        (List.prefix_append left _) (by rw [List.length_append, List.length_singleton]; omega)
      obtain ⟨middle, rfl⟩ := hleft
      obtain ⟨rest, rfl⟩ := List.head?_eq_some_iff.1 hhead
      -- the part begins inside the indentation, which holds blanks only
      have hrest : middle ++ [c] <+: line := ⟨rest ++ right, by simpa using htext⟩
      have hmiddle : middle ++ [c] <+: old := by
        apply List.prefix_of_prefix_length_le hrest hline
        simp only [List.length_append, List.length_singleton] at hlt ⊢
        omega
      have hc := hold c (hmiddle.subset (by simp))
      simp [hblank] at hc

end Parts

end IfCollapse.Branch
