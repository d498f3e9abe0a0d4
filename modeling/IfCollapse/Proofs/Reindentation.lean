import IfCollapse.Proofs.Comments
import IfCollapse.Proofs.Indentation
import Mathlib.Data.List.TakeWhile

/-! The elements of a statement that moves to the place of the `if`. Elements beside all
substitutions come out as they are before the lines are moved. Afterwards an element over several
lines is the same if and only if the two indentations agree or no line of it begins with the old
one. -/

namespace IfCollapse

theorem Source.exists_slice_join {source : Source} {start middle stop : Nat} {s t : Span}
    {first second : List Char} (hs : Span.make start middle = .ok s)
    (hfirst : source.slice s = .ok first) (ht : Span.make middle stop = .ok t)
    (hsecond : source.slice t = .ok second) :
    ∃ span, Span.make start stop = .ok span ∧ source.slice span = .ok (first ++ second) := by
  obtain ⟨hstart, hmiddle⟩ := Span.make_eq_ok.1 hs
  obtain ⟨hmeet, hstop⟩ := Span.make_eq_ok.1 ht
  have hle : start ≤ stop := by
    have hsle := s.ordered
    have htle := t.ordered
    omega
  obtain ⟨left, rest, htext, hleft, hend⟩ := slice_eq_ok.1 hfirst
  obtain ⟨before, right, hsame, hbefore, hlast⟩ := slice_eq_ok.1 hsecond
  have hcut : cut? (left ++ first ++ rest) (byteLength (left ++ first)) =
      some (before, second ++ right) :=
    cut?_eq_some.2 ⟨by rw [← htext, hsame, List.append_assoc],
      by rw [← hbefore, hmeet, ← hmiddle, hend]⟩
  rw [cut?_append, Option.some.injEq, Prod.mk.injEq] at hcut
  refine ⟨⟨start, stop, hle⟩, Span.make_of_le hle, slice_eq_ok.2 ⟨left, right, ?_, ?_, ?_⟩⟩
  · rw [htext, hcut.2]
    simp
  · exact hstart.symm.trans hleft
  · rw [← List.append_assoc, hcut.1]
    exact hstop.symm.trans hlast

theorem infix_intercalate {separator text : List Char} {texts : List (List Char)}
    (h : text ∈ texts) : text <:+: separator.intercalate texts := by
  induction texts with
  | nil => simp at h
  | cons first texts ih =>
    cases texts with
    | nil =>
      rw [List.mem_singleton.1 h, List.intercalate_singleton]
    | cons second texts =>
      rw [List.intercalate_cons_cons]
      cases List.mem_cons.1 h with
      | inl heq => exact ⟨[], _, by rw [heq, List.nil_append, List.append_assoc]⟩
      | inr hmem => exact (ih hmem).trans (List.suffix_append _ _).isInfix

theorem Source.blank_of_indentationOf {source : Source} {offset : Nat} {indent : List Char}
    (h : source.indentationOf offset = .ok indent) : ∀ c ∈ indent, c = ' ' ∨ c = '\t' := by
  obtain ⟨line, _, h⟩ := bind_eq_ok.1 h
  obtain ⟨text, _, h⟩ := bind_eq_ok.1 h
  have heq : text.takeWhile (fun c => c = ' ' || c = '\t') = indent := Except.ok.inj h
  intro c hc
  rw [← heq] at hc
  simpa using List.mem_takeWhile_imp hc

theorem Source.newline_not_mem_indentation {source : Source} {offset : Nat} {indent : List Char}
    (h : source.indentationOf offset = .ok indent) : '\n' ∉ indent := fun hmem => by
  simpa using Source.blank_of_indentationOf h _ hmem

namespace Branch

open Java

section Statements

variable {source : Source} {stop cursor middle : Nat} {before after cs : List Conditional}
  {left right : List Char}

namespace Statement

theorem renderFrom_append (hleft : renderFrom source middle cursor before = .ok left)
    (hright : renderFrom source stop middle after = .ok right) :
    renderFrom source stop cursor (before ++ after) = .ok (left ++ right) := by
  induction before generalizing cursor left with
  | nil =>
    obtain ⟨first, hfirst, hpiece⟩ := bind_eq_ok.1 hleft
    cases after with
    | nil =>
      obtain ⟨second, hsecond, hrest⟩ := bind_eq_ok.1 hright
      obtain ⟨span, hspan, hjoin⟩ := Source.exists_slice_join hfirst hpiece hsecond hrest
      rw [List.nil_append, renderFrom, hspan]
      exact hjoin
    | cons c cs =>
      obtain ⟨second, hsecond, hright⟩ := bind_eq_ok.1 hright
      obtain ⟨gap, hgap, hright⟩ := bind_eq_ok.1 hright
      obtain ⟨rest, hrest, hright⟩ := bind_eq_ok.1 hright
      have heq : gap ++ c.render ++ rest = right := Except.ok.inj hright
      obtain ⟨span, hspan, hjoin⟩ := Source.exists_slice_join hfirst hpiece hsecond hgap
      rw [List.nil_append, renderFrom, hspan, ← heq]
      simp only [bind, Except.bind, hjoin, hrest, pure, Except.pure, List.append_assoc]
  | cons c before ih =>
    obtain ⟨span, hspan, hleft⟩ := bind_eq_ok.1 hleft
    obtain ⟨gap, hgap, hleft⟩ := bind_eq_ok.1 hleft
    obtain ⟨rest, hrest, hleft⟩ := bind_eq_ok.1 hleft
    have heq : gap ++ c.render ++ rest = left := Except.ok.inj hleft
    rw [List.cons_append, renderFrom, hspan, ← heq]
    simp only [bind, Except.bind, hgap, ih hrest, pure, Except.pure, List.append_assoc]

end Statement

theorem exists_split {span : Span}
    (hsorted : cs.Pairwise fun a b => a.target.span.stop ≤ b.target.span.start)
    (hbeside : ∀ c ∈ cs, ¬c.target.span.Overlaps span) :
    ∃ before after, cs = before ++ after ∧ (∀ c ∈ before, c.target.span.stop ≤ span.start) ∧
      ∀ c ∈ after, span.stop ≤ c.target.span.start := by
  induction cs with
  | nil => exact ⟨[], [], rfl, by simp, by simp⟩
  | cons c cs ih =>
    obtain ⟨hnext, hrest⟩ := List.pairwise_cons.1 hsorted
    cases Span.not_overlaps_iff.1 (hbeside c List.mem_cons_self) with
    | inl hbehind =>
      refine ⟨[], c :: cs, rfl, by simp, fun d hd => ?_⟩
      cases List.mem_cons.1 hd with
      | inl heq => rwa [heq]
      | inr hmem =>
        have hle := hnext d hmem
        have hordered := c.target.span.ordered
        omega
    | inr hbefore =>
      obtain ⟨before, after, rfl, hall, hafter⟩ :=
        ih hrest fun d hd => hbeside d (List.mem_cons_of_mem c hd)
      refine ⟨c :: before, after, rfl, fun d hd => ?_, hafter⟩
      cases List.mem_cons.1 hd with
      | inl heq => rwa [heq]
      | inr hmem => exact hall d hmem

theorem getElem?_renderStatements {indent own text : List Char} {statements : List Statement}
    {texts : List (List Char)} {s : Statement} {i : Nat}
    (h : Replacement.renderStatements source indent statements = .ok texts)
    (hs : statements[i]? = some s)
    (hown : source.indentationOf s.template.span.start = .ok own)
    (htext : s.render source = .ok text) : texts[i]? = some (reindent text own indent) := by
  induction statements generalizing i texts with
  | nil => simp at hs
  | cons first statements ih =>
    obtain ⟨own', hown', h⟩ := bind_eq_ok.1 h
    obtain ⟨text', htext', h⟩ := bind_eq_ok.1 h
    obtain ⟨later, hlater, h⟩ := bind_eq_ok.1 h
    have heq : reindent text' own' indent :: later = texts := Except.ok.inj h
    rw [← heq]
    cases i with
    | zero =>
      obtain rfl : first = s := by simpa using hs
      rw [hown, Except.ok.injEq] at hown'
      rw [htext, Except.ok.injEq] at htext'
      rw [hown', htext']
      rfl
    | succ i =>
      rw [List.getElem?_cons_succ] at hs ⊢
      exact ih hlater hs

end Statements

/-- The text of a statement before an element and after it. Substitutions lie on either side. -/
structure Around (source : Source) (s : Statement) (p : Place) (left right : List Char) : Prop where
  sides : ∃ before after, s.substitutions = before ++ after ∧
    Statement.renderFrom source p.span.start s.template.span.start before = .ok left ∧
    Statement.renderFrom source s.template.span.stop p.span.stop after = .ok right
  rendered : s.render source = .ok (left ++ p.text ++ right)

section Replaced

variable {source : Source} {cst : Cst} {tree : Tree} {root place condition p : Place} {id : Nat}
  {r : Replacement} {sites : List Site} {borrowed : List Place} {s : Statement}

theorem Replaced.exists_around (hl : Lowered source cst tree root) (hord : root.here.Ordered)
    (h : Replaced tree id r place condition sites borrowed) (hs : s ∈ r.statements)
    (hp : p ∈ s.template.below) (hbeside : ∀ c ∈ s.substitutions, ¬c.target.span.Overlaps p.span) :
    ∃ left right, Around source s p left right := by
  have htemplate := (h.mem_below hl hs).1
  have hsorted := h.separated hl hord hs
  obtain ⟨before, after, hcs, hbefore, hafter⟩ := exists_split hsorted hbeside
  obtain ⟨hstart, hstop⟩ := boundaries_of_slice (hl.texts _ htemplate)
  have hinner := (Place.span_of_mem_below hord htemplate).1
  obtain ⟨_, hfirst, hlast⟩ := Place.span_of_mem_below hinner hp
  have hpslice := hl.texts _ (Place.below_trans htemplate hp)
  obtain ⟨hpstart, hpstop⟩ := boundaries_of_slice hpslice
  have hbounds : ∀ c ∈ s.substitutions, s.template.span.start ≤ c.target.span.start ∧
      c.target.span.stop ≤ s.template.span.stop ∧
      isBoundary source.text c.target.span.start = true ∧
      isBoundary source.text c.target.span.stop = true := by
    intro c hc
    obtain ⟨hin, hslice⟩ := h.targets_inside hl hord hs c hc
    obtain ⟨hlo, hhi⟩ := Span.includes_iff.1 hin
    exact ⟨hlo, hhi, boundaries_of_slice hslice⟩
  rw [hcs] at hsorted hbounds
  rw [List.pairwise_append] at hsorted
  obtain ⟨left, hleft, _⟩ := exists_renderFrom hfirst hstart hpstart (fun c hc =>
    have hc' := hbounds c (List.mem_append_left after hc)
    ⟨hc'.1, hbefore c hc, hc'.2.2⟩) hsorted.1
  obtain ⟨right, hright, _⟩ := exists_renderFrom hlast hpstop hstop (fun c hc =>
    have hc' := hbounds c (List.mem_append_right before hc)
    ⟨hafter c hc, hc'.2⟩) hsorted.2.1
  have htoken : Statement.renderFrom source p.span.stop p.span.start [] = .ok p.text := by
    rw [Statement.renderFrom, Span.make_of_le p.span.ordered]
    exact hpslice
  refine ⟨left, right, ⟨before, after, hcs, hleft, hright⟩, ?_⟩
  rw [Statement.render, hcs, List.append_assoc]
  exact Statement.renderFrom_append hleft (Statement.renderFrom_append htoken hright)

end Replaced

/-- An element of a statement that lies beside all substitutions stands in the rendered statement.
If the statement moves to the place of the `if`, the element is kept if and only if the indentations
agree or no indentation that is swapped reaches into it; then it stands in the text of the
replacement. In an element that does not begin with a blank, only the lines that begin inside it
matter. -/
theorem element_kept_iff {text : List Char} {cst : Cst} {tree : Tree} {id i : Nat} {r : Replacement}
    {s : Statement} {p : Place} (htree : Tree.ofCst (.ofText text) cst = .ok tree)
    (hw : cst.WellFormed) (h : evaluate tree id = .ok (.replace r))
    (hs : r.statements[i]? = some s) (hp : p ∈ s.template.below)
    (hbeside : ∀ c ∈ s.substitutions, ¬c.target.span.Overlaps p.span) :
    ∃ own indent left right texts,
      (Source.ofText text).indentationOf s.template.span.start = .ok own ∧
      (Source.ofText text).indentationOf r.ifStatement.span.start = .ok indent ∧
      Around (.ofText text) s p left right ∧
      r.render (.ofText text) = .ok (('\n' :: indent).intercalate texts) ∧
      texts[i]? = some (reindent (left ++ p.text ++ right) own indent) ∧
      (Keeps own indent left p.text right ↔ own = indent ∨ Clear own left p.text right) ∧
      (Keeps own indent left p.text right → p.text <:+: ('\n' :: indent).intercalate texts) ∧
      (p.text.head? ≠ some ' ' → p.text.head? ≠ some '\t' →
        (Clear own left p.text right ↔ Unindented own p.text right)) := by
  obtain ⟨root, hl⟩ := lowered_of_ofCst htree
  obtain ⟨place, condition, sites, borrowed, hr⟩ := replaced_of_evaluate h
  have hord := hl.ordered hw
  have hmem := List.mem_of_getElem? hs
  obtain ⟨own, hown⟩ := Source.exists_indentationOf text s.template.span.start
  obtain ⟨indent, hindent⟩ := Source.exists_indentationOf text r.ifStatement.span.start
  obtain ⟨left, right, haround⟩ := hr.exists_around hl hord hmem hp hbeside
  obtain ⟨texts, htexts, _, _⟩ :=
    exists_renderStatements indent fun s hs => hr.exists_render hl hord hs
  have hmoved := getElem?_renderStatements htexts hs hown haround.rendered
  have hplace := Place.below_trans (hr.mem_below hl hmem).1 hp
  have hne : p.text ≠ [] :=
    ne_nil_of_slice (hl.texts p hplace) (Place.span_of_mem_below hord hplace).1.nonempty
  have hold := Source.newline_not_mem_indentation hown
  have hiff := keeps_iff hold (Source.newline_not_mem_indentation hindent) hne left right
  refine ⟨own, indent, left, right, texts, hown, hindent, haround, ?_, hmoved, hiff, ?_, ?_⟩
  · simp only [Replacement.render, hindent, htexts, bind, Except.bind, pure, Except.pure]
  · intro hkeeps
    exact (hkeeps.occurs hold).trans (infix_intercalate (List.mem_of_getElem? hmoved))
  · intro hblank htab
    obtain ⟨c, hc⟩ := Option.ne_none_iff_exists'.1 (mt List.head?_eq_none_iff.1 hne)
    rw [hc, ne_eq, Option.some.injEq] at hblank htab
    exact clear_iff_unindented (Source.blank_of_indentationOf hown) hc ⟨hblank, htab⟩

/-- The tree of a call of `f` with a text block of three lines and a number. -/
def textBlockCall (start : Nat) : Cst :=
  .part "expression_statement" start 23 none [
    .part "method_invocation" start 22 none [
      .part "identifier" start 1 (some "name") [],
      .part "argument_list" (start + 1) 21 (some "arguments") [
        .mark "(" (start + 1),
        .part "string_literal" (start + 2) 16 none [
          .mark "\"\"\"" (start + 2),
          .part "multiline_string_fragment" (start + 5) 10 none [],
          .mark "\"\"\"" (start + 15)],
        .mark "," (start + 18), .part "decimal_integer_literal" (start + 20) 1 none [],
        .mark ")" (start + 21)]],
    .mark ";" (start + 22)]

def textBlockTree : Cst :=
  .part "if_statement" 0 75 none [
    .mark "if" 0,
    .part "parenthesized_expression" 3 3 (some "condition") [
      .mark "(" 3, .part "identifier" 4 1 none [], .mark ")" 5],
    .part "block" 7 31 (some "consequence") [.mark "\x7b" 7, textBlockCall 13, .mark "\x7d" 37],
    .mark "else" 39,
    .part "block" 44 31 (some "alternative") [.mark "\x7b" 44, textBlockCall 50, .mark "\x7d" 74]]

def textBlockText (block : String) : List Char :=
  ("if (c) \x7b\n    f(\"\"\"" ++ block ++ "\"\"\", 1);\n\x7d else \x7b\n    f(\"\"\"" ++ block ++
    "\"\"\", 2);\n\x7d").toList

def showsBlock (block output : String) : Bool :=
  let source := Source.ofText (textBlockText block)
  (replacementAt? source textBlockTree 0).any fun found =>
    Lint.isSafe found.1 found.2 && (found.2.render source).toOption == some output.toList &&
      (source.indentationOf found.2.ifStatement.span.start).toOption == some [] &&
      found.2.statements[0]?.any fun s =>
        (source.indentationOf s.template.span.start).toOption == some "    ".toList &&
          s.template.below[8]?.any fun p => p.isToken && p.text == block.toList &&
            s.substitutions.all fun c => p.span.stop ≤ c.target.span.start

theorem exists_of_showsBlock {block output : String} (h : showsBlock block output = true) :
    ∃ tree r s p, Tree.ofCst (.ofText (textBlockText block)) textBlockTree = .ok tree ∧
      evaluate tree 0 = .ok (.replace r) ∧ Lint.isSafe tree r = true ∧
      r.render (.ofText (textBlockText block)) = .ok output.toList ∧
      (Source.ofText (textBlockText block)).indentationOf r.ifStatement.span.start = .ok [] ∧
      r.statements[0]? = some s ∧
      (Source.ofText (textBlockText block)).indentationOf s.template.span.start =
        .ok "    ".toList ∧
      p ∈ s.template.below ∧ p.isToken = true ∧ p.text = block.toList ∧
      ∀ c ∈ s.substitutions, ¬c.target.span.Overlaps p.span := by
  unfold showsBlock at h
  obtain ⟨tree, r, htree, heval, hfound⟩ := exists_of_replacementAt? h
  simp only [Bool.and_eq_true, Option.any_eq_true, List.all_eq_true, beq_iff_eq, toOption_eq_some,
    decide_eq_true_eq] at hfound
  obtain ⟨⟨⟨hsafe, hrender⟩, hindent⟩, s, hs, hown, p, hp, ⟨htoken, htext⟩, hbehind⟩ := hfound
  exact ⟨tree, r, s, p, htree, heval, hsafe, hrender, hindent, hs, hown, List.mem_of_getElem? hp,
    htoken, htext, fun c hc => Span.not_overlaps_iff.2 (Or.inl (hbehind c hc))⟩

/-- No line of the text block has four blanks, so it stays as it is. -/
theorem shallow_block_is_kept : ∃ tree r s p own indent left right,
    textBlockTree.WellFormed ∧
    Tree.ofCst (.ofText (textBlockText "\n  x\n   yy")) textBlockTree = .ok tree ∧
    evaluate tree 0 = .ok (.replace r) ∧ r.statements[0]? = some s ∧ p ∈ s.template.below ∧
    p.text = "\n  x\n   yy".toList ∧ (∀ c ∈ s.substitutions, ¬c.target.span.Overlaps p.span) ∧
    own = "    ".toList ∧ indent = [] ∧
    Around (.ofText (textBlockText "\n  x\n   yy")) s p left right ∧
    Clear own left p.text right ∧ Keeps own indent left p.text right ∧
    r.render (.ofText (textBlockText "\n  x\n   yy")) =
      .ok "f(\"\"\"\n  x\n   yy\"\"\", c ? 1 : 2);".toList ∧
    p.text <:+: "f(\"\"\"\n  x\n   yy\"\"\", c ? 1 : 2);".toList := by
  have hcheck : showsBlock "\n  x\n   yy" "f(\"\"\"\n  x\n   yy\"\"\", c ? 1 : 2);" = true := by
    decide +kernel
  have hw : textBlockTree.WellFormed := by decide
  obtain ⟨tree, r, s, p, htree, heval, _, hrender, hindent, hs, hown, hp, _, htext, hbeside⟩ :=
    exists_of_showsBlock hcheck
  obtain ⟨own, indent, left, right, texts, hown', hindent', haround, hrender', _, hiff, hinfix,
    hhead⟩ := element_kept_iff htree hw heval hs hp hbeside
  obtain rfl : own = "    ".toList := Except.ok.inj (hown'.symm.trans hown)
  obtain rfl : indent = [] := Except.ok.inj (hindent'.symm.trans hindent)
  have hclear : Clear "    ".toList left p.text right := by
    rw [hhead (by rw [htext]; decide) (by rw [htext]; decide), htext]
    have hparts : "\n  x\n   yy".toList =
        ['\n', ' ', ' ', 'x', '\n', ' ', ' ', ' ', 'y'] ++ ['y'] := by decide
    rw [hparts, unindented_concat]
    simp [untouched_cons, untouched_nil]
  have hkeeps := hiff.2 (Or.inr hclear)
  have hshown := hinfix hkeeps
  rw [← Except.ok.inj (hrender.symm.trans hrender')] at hshown
  exact ⟨tree, r, s, p, _, _, left, right, hw, htree, heval, hs, hp, htext, hbeside, rfl, rfl,
    haround, hclear, hkeeps, hrender, hshown⟩

/-- A line of the text block has four blanks. The replacement is safe, and takes them away. -/
theorem indented_block_is_changed : ∃ tree r s p output,
    textBlockTree.WellFormed ∧
    Tree.ofCst (.ofText (textBlockText "\n  x\n    y")) textBlockTree = .ok tree ∧
    evaluate tree 0 = .ok (.replace r) ∧ Lint.isSafe tree r = true ∧ r.statements[0]? = some s ∧
    p ∈ s.template.below ∧ p.isToken = true ∧
    (∀ c ∈ s.substitutions, ¬c.target.span.Overlaps p.span) ∧ p.text = "\n  x\n    y".toList ∧
    r.render (.ofText (textBlockText "\n  x\n    y")) = .ok output ∧
    output = "f(\"\"\"\n  x\ny\"\"\", c ? 1 : 2);".toList ∧ ¬p.text <:+: output := by
  have hcheck : showsBlock "\n  x\n    y" "f(\"\"\"\n  x\ny\"\"\", c ? 1 : 2);" = true := by
    decide +kernel
  obtain ⟨tree, r, s, p, htree, heval, hsafe, hrender, _, hs, _, hp, htoken, htext, hbeside⟩ :=
    exists_of_showsBlock hcheck
  have hlost : ¬p.text <:+: "f(\"\"\"\n  x\ny\"\"\", c ? 1 : 2);".toList := by
    rw [htext]
    decide
  exact ⟨tree, r, s, p, _, by decide, htree, heval, hsafe, hs, hp, htoken, hbeside, htext, hrender,
    rfl, hlost⟩

end Branch

end IfCollapse
