import IfCollapse.Proofs.Verdict
import IfCollapse.Text.Letter

/-! When a conditional expression runs into the code around it. The expression replaces a text that
may begin with a quote or a parenthesis by one that begins with the condition, and no blank is put
between that and the word in front. -/

namespace IfCollapse

def isIdentifierChar (c : Char) : Bool :=
  isLetterOrNumber c || c == '_' || c == '$'

def charBefore? (text : List Char) (offset : Nat) : Option Char :=
  (cut? text offset).bind fun parts => parts.1.getLast?

def charAt? (text : List Char) (offset : Nat) : Option Char :=
  (cut? text offset).bind fun parts => parts.2.head?

def fuse (a b : Option Char) : Bool :=
  a.any isIdentifierChar && b.any isIdentifierChar

theorem fuse_parenthesis_right (a : Option Char) : fuse a (some '(') = false := by
  have hparen : isIdentifierChar '(' = false := by decide
  simp [fuse, hparen]

theorem fuse_parenthesis_left (b : Option Char) : fuse (some ')') b = false := by
  have hparen : isIdentifierChar ')' = false := by decide
  simp [fuse, hparen]

section Slices

variable {text middle : List Char} {span : Span}

theorem charAt?_start (h : slice text span = .ok middle) (hne : middle ≠ []) :
    charAt? text span.start = middle.head? := by
  obtain ⟨left, right, rfl, hstart, _⟩ := slice_eq_ok.1 h
  rw [charAt?, hstart, List.append_assoc, cut?_append]
  exact List.head?_append_of_ne_nil _ hne

theorem charBefore?_stop (h : slice text span = .ok middle) (hne : middle ≠ []) :
    charBefore? text span.stop = middle.getLast? := by
  obtain ⟨left, right, rfl, _, hstop⟩ := slice_eq_ok.1 h
  rw [charBefore?, hstop, cut?_append]
  exact List.getLast?_append_of_ne_nil _ hne

theorem ne_nil_of_slice (h : slice text span = .ok middle) (hspan : span.start < span.stop) :
    middle ≠ [] := by
  rintro rfl
  obtain ⟨left, right, _, hstart, hstop⟩ := slice_eq_ok.1 h
  rw [List.append_nil] at hstop
  omega

end Slices

namespace Branch

open Java

namespace Conditional

theorem getLast?_parenthesize (text : List Char) : (parenthesize text).getLast? = some ')' :=
  List.getLast?_append_of_ne_nil ('(' :: text) (List.cons_ne_nil ')' [])

theorem head?_operand {p : Place} :
    (operand p).head? = if p.kind.bindsLoosely then some '(' else p.text.head? := by
  unfold operand
  split <;> rfl

theorem getLast?_operand {p : Place} :
    (operand p).getLast? = if p.kind.bindsLoosely then some ')' else p.text.getLast? := by
  unfold operand
  split
  · exact getLast?_parenthesize _
  · rfl

theorem operand_ne_nil {p : Place} (h : p.text ≠ []) : operand p ≠ [] := by
  unfold operand
  split
  · simp [parenthesize]
  · exact h

theorem head?_render {c : Conditional} (h : c.condition.text ≠ []) :
    c.render.head? =
      if c.position = .rightOperand ∨ c.condition.kind.bindsLoosely = true then some '('
      else c.condition.text.head? := by
  have hhead : (operand c.condition ++ " ? ".toList ++ operand c.whenTrue ++ " : ".toList ++
      operand c.whenFalse).head? = (operand c.condition).head? := by
    simp only [List.append_assoc]
    exact List.head?_append_of_ne_nil _ (operand_ne_nil h)
  by_cases hpos : c.position = .rightOperand
  · simp [render, hpos, parenthesize]
  · simp only [render, hpos, if_false, false_or, hhead, head?_operand]

theorem getLast?_render {c : Conditional} (h : c.whenFalse.text ≠ []) :
    c.render.getLast? =
      if c.position = .rightOperand ∨ c.whenFalse.kind.bindsLoosely = true then some ')'
      else c.whenFalse.text.getLast? := by
  have hlast : (operand c.condition ++ " ? ".toList ++ operand c.whenTrue ++ " : ".toList ++
      operand c.whenFalse).getLast? = (operand c.whenFalse).getLast? :=
    List.getLast?_append_of_ne_nil _ (operand_ne_nil h)
  by_cases hpos : c.position = .rightOperand
  · simp only [render, hpos, if_true, true_or, getLast?_parenthesize]
  · simp only [render, hpos, if_false, false_or, hlast, getLast?_operand]

/-- The text and what stands around it make one word at neither end of the target. -/
def Separate (source : List Char) (c : Conditional) : Prop :=
  fuse (charBefore? source c.target.span.start) c.render.head? = false ∧
    fuse c.render.getLast? (charAt? source c.target.span.stop) = false

instance (source : List Char) (c : Conditional) : Decidable (c.Separate source) :=
  inferInstanceAs (Decidable (_ ∧ _))

theorem separate_iff {source : List Char} {c : Conditional}
    (hcondition : slice source c.condition.span = .ok c.condition.text)
    (hfalse : slice source c.whenFalse.span = .ok c.whenFalse.text)
    (hconditionNe : c.condition.text ≠ []) (hfalseNe : c.whenFalse.text ≠ []) :
    c.Separate source ↔ c.position = .rightOperand ∨
      (c.condition.kind.bindsLoosely = true ∨
        fuse (charBefore? source c.target.span.start)
          (charAt? source c.condition.span.start) = false) ∧
      (c.whenFalse.kind.bindsLoosely = true ∨
        fuse (charBefore? source c.whenFalse.span.stop)
          (charAt? source c.target.span.stop) = false) := by
  rw [Separate, head?_render hconditionNe, getLast?_render hfalseNe,
    charAt?_start hcondition hconditionNe, charBefore?_stop hfalse hfalseNe]
  by_cases hpos : c.position = .rightOperand
  · simp [hpos, fuse_parenthesis_right, fuse_parenthesis_left]
  · cases hc : c.condition.kind.bindsLoosely <;> cases hf : c.whenFalse.kind.bindsLoosely <;>
      simp [hpos, fuse_parenthesis_right, fuse_parenthesis_left]

end Conditional

/-- A conditional expression keeps apart from the code around it exactly if it has parentheses
there, or the characters that come together do not make a word. -/
theorem evaluate_separate_iff {source : Source} {cst : Cst} {tree : Tree} {id : Nat}
    {r : Replacement} (hwell : cst.WellFormed) (htree : Tree.ofCst source cst = .ok tree)
    (h : evaluate tree id = .ok (.replace r)) {s : Statement} (hs : s ∈ r.statements)
    {c : Conditional} (hc : c ∈ s.substitutions) :
    c.Separate source.text ↔ c.position = .rightOperand ∨
      (c.condition.kind.bindsLoosely = true ∨
        fuse (charBefore? source.text c.target.span.start)
          (charAt? source.text c.condition.span.start) = false) ∧
      (c.whenFalse.kind.bindsLoosely = true ∨
        fuse (charBefore? source.text c.whenFalse.span.stop)
          (charAt? source.text c.target.span.stop) = false) := by
  obtain ⟨root, hl⟩ := lowered_of_ofCst htree
  obtain ⟨place, condition, sites, borrowed, hr⟩ := replaced_of_evaluate h
  obtain ⟨hcond, _, hfalse⟩ := (hr.mem_below hl hs).2 c hc
  have hcondition : c.condition ∈ root.below := hcond ▸ hr.innerCondition_mem hl
  have hne : ∀ p ∈ root.below, p.text ≠ [] := by
    intro p hp
    have hspan : p.span.start < p.span.stop :=
      (Place.span_of_mem_below (hl.ordered hwell) hp).1.nonempty
    exact ne_nil_of_slice (hl.texts p hp) hspan
  exact Conditional.separate_iff (hl.texts _ hcondition) (hl.texts _ hfalse) (hne _ hcondition)
    (hne _ hfalse)

/-- The tree of `return"a";` with `gap` blanks before the string, whatever the string is. -/
def returnString (start gap : Nat) (field : String) : Cst :=
  .part "return_statement" start (gap + 10) (some field) [
    .mark "return" start,
    .part "string_literal" (start + gap + 6) 3 none [
      .mark "\"" (start + gap + 6), .part "string_fragment" (start + gap + 7) 1 none [],
      .mark "\"" (start + gap + 8)],
    .mark ";" (start + gap + 9)]

def chosenString (gap : Nat) : Cst :=
  .part "if_statement" 0 (gap + gap + 33) none [
    .mark "if" 0,
    .part "parenthesized_expression" 3 3 (some "condition") [
      .mark "(" 3, .part "identifier" 4 1 none [], .mark ")" 5],
    returnString 7 gap "consequence", .mark "else" (gap + 18),
    returnString (gap + 23) gap "alternative"]

def chosenStringText (gap : Nat) : List Char :=
  "if (c) return".toList ++ List.replicate gap ' ' ++ "\"a\"; else return".toList ++
    List.replicate gap ' ' ++ "\"b\";".toList

theorem blank_separates : ∃ tree r s c, (chosenString 1).WellFormed ∧
    Tree.ofCst (.ofText (chosenStringText 1)) (chosenString 1) = .ok tree ∧
    evaluate tree 0 = .ok (.replace r) ∧ s ∈ r.statements ∧ c ∈ s.substitutions ∧
    c.Separate (chosenStringText 1) := by
  have hwell : (chosenString 1).WellFormed := by decide
  have hcheck : (replacementAt? (.ofText (chosenStringText 1)) (chosenString 1) 0).any
      (fun found => found.2.statements.any fun s => s.substitutions.any fun c =>
        !fuse (charBefore? (chosenStringText 1) c.target.span.start)
            (charAt? (chosenStringText 1) c.condition.span.start) &&
          !fuse (charBefore? (chosenStringText 1) c.whenFalse.span.stop)
            (charAt? (chosenStringText 1) c.target.span.stop)) = true := by
    decide +kernel
  obtain ⟨tree, r, htree, heval, hfound⟩ := exists_of_replacementAt? hcheck
  simp only [List.any_eq_true, Bool.and_eq_true, Bool.not_eq_true'] at hfound
  obtain ⟨s, hs, c, hc, hstart, hstop⟩ := hfound
  exact ⟨tree, r, s, c, hwell, htree, heval, hs, hc,
    (evaluate_separate_iff hwell htree heval hs hc).2 (Or.inr ⟨Or.inr hstart, Or.inr hstop⟩)⟩

/-- Without the blank the keyword and the condition become one word, `returnc`. -/
theorem keyword_fuses : ∃ tree r s c, (chosenString 0).WellFormed ∧
    Tree.ofCst (.ofText (chosenStringText 0)) (chosenString 0) = .ok tree ∧
    evaluate tree 0 = .ok (.replace r) ∧ s ∈ r.statements ∧ c ∈ s.substitutions ∧
    ¬c.Separate (chosenStringText 0) := by
  have hwell : (chosenString 0).WellFormed := by decide
  have hcheck : (replacementAt? (.ofText (chosenStringText 0)) (chosenString 0) 0).any
      (fun found => found.2.statements.any fun s => s.substitutions.any fun c =>
        !decide (c.Separate (chosenStringText 0))) = true := by
    decide +kernel
  obtain ⟨tree, r, htree, heval, hfound⟩ := exists_of_replacementAt? hcheck
  simp only [List.any_eq_true, Bool.not_eq_true', decide_eq_false_iff_not] at hfound
  obtain ⟨s, hs, c, hc, hfuse⟩ := hfound
  exact ⟨tree, r, s, c, hwell, htree, heval, hs, hc, hfuse⟩

end Branch

end IfCollapse
