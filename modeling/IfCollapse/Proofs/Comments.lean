import IfCollapse.Proofs.Applicability
import IfCollapse.Proofs.Removal

/-! A safe replacement keeps the comments. In a well-formed tree a comment lies inside an element or
beside it, so a comment that begins in the statement that is kept lies in it as a whole: inside one
target, where an arm of the conditional expression takes it over, or between the targets. -/

namespace IfCollapse

namespace Span

theorem not_overlaps_iff {s t : Span} : ¬s.Overlaps t ↔ t.stop ≤ s.start ∨ s.stop ≤ t.start := by
  rw [Overlaps]
  omega

theorem overlaps_within {s t outer : Span} (hs : outer.includes s = true)
    (ht : outer.includes t = true) :
    (s.within outer).Overlaps (t.within outer) ↔ s.Overlaps t := by
  rw [includes_iff] at hs ht
  simp only [Overlaps, within]
  omega

def Spares (s t : Span) : Prop :=
  s.includes t = true ∨ ¬s.Overlaps t

theorem spares_of_le {s t : Span} (h : t.stop ≤ s.start ∨ s.stop ≤ t.start) : s.Spares t :=
  Or.inr (not_overlaps_iff.2 h)

theorem Spares.includes_of_contains {s t : Span} (h : s.Spares t)
    (hstart : s.contains t.start = true) : s.includes t = true := by
  cases h with
  | inl hin => exact hin
  | inr hbeside =>
    have hordered := t.ordered
    rw [contains_iff] at hstart
    rw [not_overlaps_iff] at hbeside
    rw [includes_iff]
    omega

end Span

namespace Java

theorem bounds_of_placesFromAll {lo hi : Nat} {above shapes : List Shape} {p : Place}
    (h : Shape.OrderedFrom lo hi shapes) (hp : p ∈ placesFromAll above shapes) :
    lo ≤ p.span.start ∧ p.span.stop ≤ hi := by
  rw [placesFromAll_eq, List.mem_flatMap] at hp
  obtain ⟨s, hs, hps⟩ := hp
  obtain ⟨i, hi⟩ := List.getElem?_of_mem hs
  obtain ⟨hso, hlo, hhi⟩ := h.getElem hi
  have hinner : s.span.start ≤ p.span.start ∧ p.span.stop ≤ s.span.stop :=
    (Place.span_of_mem_below (p := ⟨s, above⟩) hso hps).2
  omega

theorem mem_commentsAll_cons {t : Cst} {trees : List Cst} {c : Span} :
    c ∈ commentsAll (t :: trees) ↔ (t.row.extra = true ∧ t.row.isComment = true ∧ c = t.span) ∨
      (t.row.extra = false ∧ c ∈ comments t) ∨ c ∈ commentsAll trees := by
  rw [commentsAll_cons, List.mem_append]
  cases t.row.extra <;> cases t.row.isComment <;> simp

mutual

theorem bounds_of_comments : ∀ (t : Cst) {c : Span}, t.WellFormed → c ∈ comments t →
    t.span.start ≤ c.start ∧ c.stop ≤ t.span.stop
  | .node row index children, c, hw, hc => by
    rw [comments] at hc
    exact bounds_of_commentsAll children hw.2 hc

theorem bounds_of_commentsAll : ∀ (trees : List Cst) {lo hi : Nat} {c : Span},
    Cst.Consecutive lo hi trees → c ∈ commentsAll trees → lo ≤ c.start ∧ c.stop ≤ hi
  | [], lo, hi, c, _, hc => by simp [commentsAll] at hc
  | t :: trees, lo, hi, c, hw, hc => by
    obtain ⟨hlo, hhi, ht, htrees⟩ := hw
    have hordered := t.span.ordered
    cases mem_commentsAll_cons.1 hc with
    | inl hextra =>
      obtain ⟨_, _, rfl⟩ := hextra
      exact ⟨hlo, hhi⟩
    | inr hother =>
      cases hother with
      | inl hfirst =>
        have hbounds := bounds_of_comments t ht hfirst.2
        omega
      | inr hrest =>
        have hbounds := bounds_of_commentsAll trees htrees hrest
        omega

end

section Lower

variable {source : List Char}

mutual

theorem spares_of_lower : ∀ (t : Cst) {field : Option String} {next after : Nat} {s : Shape}
    (above : List Shape), t.WellFormed → lower source t field next = .ok (s, after) →
      ∀ p ∈ placesFrom above s, ∀ c ∈ comments t, p.span.Spares c
  | .node row index children, field, next, after, s, above, hw, h => by
    intro p hp c hc
    rw [comments] at hc
    obtain ⟨text, _, hs⟩ := lower_cases h
    rcases hs with ⟨rfl, _⟩ | ⟨rfl, _⟩ | ⟨_, shapes, hall, rfl⟩
    · simp [commentsAll] at hc
    · simp [commentsAll] at hc
    · rw [placesFrom, List.mem_cons] at hp
      cases hp with
      | inl heq =>
        subst heq
        exact Or.inl (Span.includes_iff.2 (bounds_of_commentsAll children hw.2 hc))
      | inr hbelow => exact spares_of_lowerAll children _ hw.2 hall p hbelow c hc

theorem spares_of_lowerAll : ∀ (trees : List Cst) {lo hi next after : Nat} {shapes : List Shape}
    (above : List Shape), Cst.Consecutive lo hi trees →
      lowerAll source trees next = .ok (shapes, after) →
        ∀ p ∈ placesFromAll above shapes, ∀ c ∈ commentsAll trees, p.span.Spares c
  | [], lo, hi, next, after, shapes, above, _, h => by simp [commentsAll]
  | t :: trees, lo, hi, next, after, shapes, above, hw, h => by
    intro p hp c hc
    obtain ⟨_, _, ht, htrees⟩ := hw
    rw [mem_commentsAll_cons] at hc
    cases lowerAll_cases h with
    | inl hskipped =>
      obtain ⟨hextra, hrest⟩ := hskipped
      have hbehind := bounds_of_placesFromAll (ordered_of_lowerAll trees htrees hrest) hp
      cases hc with
      | inl hcomment =>
        obtain ⟨_, _, rfl⟩ := hcomment
        exact Span.spares_of_le (Or.inl hbehind.1)
      | inr hother =>
        have hlater : c ∈ commentsAll trees := by simpa [hextra] using hother
        exact spares_of_lowerAll trees above htrees hrest p hp c hlater
    | inr hlowered =>
      obtain ⟨hextra, s, middle, rest, hs, hrest, rfl⟩ := hlowered
      have hin : c ∈ comments t ∨ c ∈ commentsAll trees := by simpa [hextra] using hc
      rw [placesFromAll, List.mem_append] at hp
      cases hp with
      | inl hfirst =>
        cases hin with
        | inl hc => exact spares_of_lower t above ht hs p hfirst c hc
        | inr hc =>
          have hinner : p.span.stop ≤ s.span.stop :=
            (Place.span_of_mem_below (p := ⟨s, above⟩) (ordered_of_lower t ht hs) hfirst).2.2
          have hbounds := bounds_of_commentsAll trees htrees hc
          rw [span_of_lower hs] at hinner
          exact Span.spares_of_le (Or.inr (Nat.le_trans hinner hbounds.1))
      | inr hlater =>
        cases hin with
        | inl hc =>
          have hbehind := bounds_of_placesFromAll (ordered_of_lowerAll trees htrees hrest) hlater
          have hbounds := bounds_of_comments t ht hc
          exact Span.spares_of_le (Or.inl (Nat.le_trans hbounds.2 hbehind.1))
        | inr hc => exact spares_of_lowerAll trees above htrees hrest p hlater c hc

end

end Lower

theorem spares_of_ofCst {source : Source} {cst : Cst} {tree : Tree}
    (htree : Tree.ofCst source cst = .ok tree) (hw : cst.WellFormed) {p : Place} {c : Span}
    (hp : p ∈ tree.places) (hc : c ∈ tree.comments) : p.span.Spares c := by
  obtain ⟨shape, after, hlower, rfl⟩ := lower_of_ofCst htree
  rw [(lowered_of_lower hlower).comments_eq] at hc
  exact spares_of_lower cst [] hw hlower p hp c hc

end Java

section Texts

variable {text part : List Char} {outer inner : Span}

theorem infix_of_slice (h : slice text outer = .ok part) : part <:+: text := by
  obtain ⟨left, right, rfl, _⟩ := slice_eq_ok.1 h
  exact ⟨left, right, rfl⟩

theorem infix_of_includes {whole : List Char} (h : slice text outer = .ok whole)
    (hin : outer.includes inner = true) (hpart : slice text inner = .ok part) : part <:+: whole :=
  infix_of_slice (slice_within h hin hpart)

theorem infix_interleave {α : Type} {gaps parts : List (List α)} {x : List α}
    (h : x ∈ gaps ∨ x ∈ parts) : x <:+: interleave gaps parts := by
  fun_induction interleave gaps parts with
  | case1 parts =>
    have hx : x ∈ parts := by simpa using h
    exact List.infix_of_mem_flatten hx
  | case2 gaps =>
    have hx : x ∈ gaps := by simpa using h
    exact List.infix_of_mem_flatten hx
  | case3 gap gaps part parts ih =>
    have hlater : x ∈ gaps ∨ x ∈ parts → x <:+: gap ++ part ++ interleave gaps parts :=
      fun hx => (ih hx).trans (List.suffix_append _ _).isInfix
    cases h with
    | inl hgap =>
      cases List.mem_cons.1 hgap with
      | inl heq => exact ⟨[], part ++ interleave gaps parts, by simp [heq]⟩
      | inr hin => exact hlater (Or.inl hin)
    | inr hpart =>
      cases List.mem_cons.1 hpart with
      | inl heq => exact ⟨gap, interleave gaps parts, by rw [heq]⟩
      | inr hin => exact hlater (Or.inr hin)

namespace Edit

theorem exists_gap {edits : List Edit} {cursor : Nat} {pieces : List (List Char)}
    (h : gaps text cursor edits = .ok pieces) (hpart : slice text inner = .ok part)
    (hcursor : cursor ≤ inner.start) (hbeside : ∀ e ∈ edits, ¬e.span.Overlaps inner) :
    ∃ piece ∈ pieces, part <:+: piece := by
  induction edits generalizing cursor pieces with
  | nil =>
    obtain ⟨span, hspan, h⟩ := bind_eq_ok.1 h
    obtain ⟨piece, hpiece, h⟩ := bind_eq_ok.1 h
    have heq : [piece] = pieces := Except.ok.inj h
    obtain ⟨hstart, hstop⟩ := Span.make_eq_ok.1 hspan
    have hin : span.includes inner = true := by
      rw [Span.includes_iff, hstart, hstop]
      exact ⟨hcursor, stop_le_of_slice hpart⟩
    exact ⟨piece, by simp [← heq], infix_of_includes hpiece hin hpart⟩
  | cons e edits ih =>
    obtain ⟨span, hspan, h⟩ := bind_eq_ok.1 h
    obtain ⟨piece, hpiece, h⟩ := bind_eq_ok.1 h
    obtain ⟨later, hlater, h⟩ := bind_eq_ok.1 h
    have heq : piece :: later = pieces := Except.ok.inj h
    obtain ⟨hstart, hstop⟩ := Span.make_eq_ok.1 hspan
    rw [← heq]
    cases Span.not_overlaps_iff.1 (hbeside e List.mem_cons_self) with
    | inl hbefore =>
      have hin : span.includes inner = true := by
        rw [Span.includes_iff, hstart, hstop]
        exact ⟨hcursor, hbefore⟩
      exact ⟨piece, List.mem_cons_self, infix_of_includes hpiece hin hpart⟩
    | inr hbehind =>
      obtain ⟨found, hfound, hpart⟩ := ih hlater hbehind
        fun d hd => hbeside d (List.mem_cons_of_mem e hd)
      exact ⟨found, List.mem_cons_of_mem piece hfound, hpart⟩

end Edit

end Texts

namespace Branch

open Java

theorem Conditional.infix_operand (p : Place) : p.text <:+: Conditional.operand p := by
  unfold operand
  split
  · exact ⟨['('], [')'], by simp [parenthesize]⟩
  · exact List.infix_refl p.text

theorem Conditional.infix_render {c : Conditional} (h : c.target = c.whenTrue) :
    c.target.text <:+: c.render := by
  have harms : operand c.whenTrue <:+: operand c.condition ++ " ? ".toList ++ operand c.whenTrue ++
      " : ".toList ++ operand c.whenFalse :=
    ⟨operand c.condition ++ " ? ".toList, " : ".toList ++ operand c.whenFalse, by simp⟩
  have htext := (infix_operand c.whenTrue).trans harms
  rw [h]
  unfold render
  split
  · exact htext.trans ⟨['('], [')'], by simp [parenthesize]⟩
  · exact htext

theorem Statement.infix_spliced {source : Source} {s : Statement} {inner : Span}
    {text part : List Char} {pieces removed : List (List Char)}
    (h : Edit.Spliced s.template.text s.edits text pieces removed)
    (htext : slice source.text s.template.span = .ok s.template.text)
    (htargets : ∀ c ∈ s.substitutions, s.template.span.includes c.target.span = true ∧
      slice source.text c.target.span = .ok c.target.text)
    (hown : ∀ c ∈ s.substitutions, c.target = c.whenTrue)
    (hin : s.template.span.includes inner = true) (hpart : slice source.text inner = .ok part)
    (hplace : (∃ c ∈ s.substitutions, c.target.span.includes inner = true) ∨
      ∀ c ∈ s.substitutions, ¬c.target.span.Overlaps inner) : part <:+: text := by
  have hbetween := h.between
  rw [h.result_eq, s.reverse_edits]
  rw [s.reverse_edits] at hbetween
  cases hplace with
  | inl htarget =>
    obtain ⟨c, hc, hinside⟩ := htarget
    have hshown : part <:+: c.render :=
      (infix_of_includes (htargets c hc).2 hinside hpart).trans (Conditional.infix_render (hown c hc))
    have hmem : c.render ∈ (s.substitutions.map (Conditional.edit s.template)).map Edit.inserted := by
      rw [List.map_map]
      exact List.mem_map_of_mem hc
    exact hshown.trans (infix_interleave (Or.inr hmem))
  | inr hbeside =>
    have hgap : ∃ piece ∈ pieces, part <:+: piece := by
      apply Edit.exists_gap hbetween (slice_within htext hin hpart) (Nat.zero_le _)
      intro e he
      obtain ⟨c, hc, rfl⟩ := List.mem_map.1 he
      rw [Conditional.edit, Span.overlaps_within (htargets c hc).1 hin]
      exact hbeside c hc
    obtain ⟨piece, hpiece, hshown⟩ := hgap
    exact hshown.trans (infix_interleave (Or.inl hpiece))

theorem Replaced.targets_inside {source : Source} {cst : Cst} {tree : Tree}
    {root place condition : Place} {id : Nat} {r : Replacement} {sites : List Site}
    {borrowed : List Place} {s : Statement} (hl : Lowered source cst tree root)
    (hord : root.here.Ordered) (h : Replaced tree id r place condition sites borrowed)
    (hs : s ∈ r.statements) :
    ∀ c ∈ s.substitutions, s.template.span.includes c.target.span = true ∧
      slice source.text c.target.span = .ok c.target.text := by
  obtain ⟨htemplate, hsubs⟩ := h.mem_below hl hs
  intro c hc
  have htarget := (hsubs c hc).2.1
  have hinner := (Place.span_of_mem_below hord htemplate).1
  exact ⟨Span.includes_iff.2 (Place.span_of_mem_below hinner htarget).2,
    hl.texts _ (Place.below_trans htemplate htarget)⟩

end Branch

namespace Lint

open Java Branch

theorem keeps_of_safe {comments : List Span} {span comment : Span} {r : Replacement}
    (h : applicability comments span r = .safe) (hc : comment ∈ comments)
    (hin : span.includes comment = true) : r.keeps comment.start = true := by
  have hdrops := (applicability_eq_safe.1 h).2.2.2
  rw [dropsComment, List.any_eq_false] at hdrops
  have hkept := hdrops comment (List.mem_filter.2 ⟨hc, hin⟩)
  simpa using hkept

/-- A safe replacement has one statement. Every comment in the replaced span lies in its template,
inside one target or beside all of them, and stands in the text of the statement. -/
theorem safe_keeps_comments {source : Source} {cst : Cst} {tree : Tree} {id : Nat}
    {r : Replacement} (htree : Tree.ofCst source cst = .ok tree) (hw : cst.WellFormed)
    (h : evaluate tree id = .ok (.replace r)) (hsafe : isSafe tree r = true) :
    ∃ span s rendered, r.span = .ok span ∧ r.statements = [s] ∧ s.render source = .ok rendered ∧
      ∀ comment ∈ tree.comments, span.includes comment = true →
        s.template.span.includes comment = true ∧
        ((∃ c ∈ s.substitutions, c.target.span.includes comment = true) ∨
          ∀ c ∈ s.substitutions, ¬c.target.span.Overlaps comment) ∧
        (isBoundary source.text comment.start = true → isBoundary source.text comment.stop = true →
          ∃ text, slice source.text comment = .ok text ∧ text <:+: rendered) := by
  obtain ⟨root, hl⟩ := lowered_of_ofCst htree
  obtain ⟨place, condition, sites, borrowed, hr⟩ := replaced_of_evaluate h
  obtain ⟨span, hspan, hsafe⟩ := isSafe_iff.1 hsafe
  obtain ⟨s, hs⟩ := single_of_safe hr hsafe
  have hmem : s ∈ r.statements := by simp [hs]
  have hord := hl.ordered hw
  obtain ⟨htemplate, hsubs⟩ := hr.mem_below hl hmem
  have htargets := hr.targets_inside hl hord hmem
  obtain ⟨rendered, pieces, hrender, hspliced⟩ := Statement.exists_spliced
    (hl.texts _ htemplate) htargets (hr.separated hl hord hmem)
  refine ⟨span, s, rendered, hspan, hs, hrender, ?_⟩
  intro comment hc hin
  have hspares : ∀ p ∈ root.below, p.span.Spares comment :=
    fun p hp => spares_of_ofCst htree hw (hl.places_eq ▸ hp) hc
  have hinside : s.template.span.includes comment = true := by
    have hkept := keeps_of_safe hsafe hc hin
    rw [Replacement.keeps, hs, List.any_cons, List.any_nil, Bool.or_false] at hkept
    exact (hspares _ htemplate).includes_of_contains hkept
  have hplace : (∃ c ∈ s.substitutions, c.target.span.includes comment = true) ∨
      ∀ c ∈ s.substitutions, ¬c.target.span.Overlaps comment := by
    by_cases htarget : ∃ c ∈ s.substitutions, c.target.span.includes comment = true
    · exact Or.inl htarget
    · refine Or.inr ?_
      intro c hc
      have hspare := hspares _ (Place.below_trans htemplate (hsubs c hc).2.1)
      exact hspare.resolve_left fun hin => htarget ⟨c, hc, hin⟩
  refine ⟨hinside, hplace, ?_⟩
  intro hstart hstop
  obtain ⟨text, htext⟩ := exists_slice hstart hstop
  exact ⟨text, htext, Statement.infix_spliced hspliced (hl.texts _ htemplate) htargets
    (fun c hc => hr.target_eq hmem hc) hinside htext hplace⟩

def blockComment (start length : Nat) : Cst :=
  .node ⟨0, "block_comment", true, true, false, ⟨start, start + length, Nat.le_add_right _ _⟩, none⟩
    0 []

def commentedText : Source :=
  .ofText "if (c) return /*p*/ a /*q*/ + b; else return d;".toList

def commentedTree : Cst :=
  .part "if_statement" 0 47 none [
    .mark "if" 0,
    .part "parenthesized_expression" 3 3 (some "condition") [
      .mark "(" 3, .part "identifier" 4 1 none [], .mark ")" 5],
    .part "return_statement" 7 25 (some "consequence") [
      .mark "return" 7, blockComment 14 5,
      .part "binary_expression" 20 11 none [
        .part "identifier" 20 1 (some "left") [], blockComment 22 5, .mark "+" 28,
        .part "identifier" 30 1 (some "right") []],
      .mark ";" 31],
    .mark "else" 33, returnName 38 (some "alternative")]

/-- The first comment stands before the target and the second one in it. -/
theorem both_comments_are_kept : ∃ tree r span s rendered,
    commentedTree.WellFormed ∧ Tree.ofCst commentedText commentedTree = .ok tree ∧
    evaluate tree 0 = .ok (.replace r) ∧ isSafe tree r = true ∧ r.span = .ok span ∧
    r.statements = [s] ∧ s.render commentedText = .ok rendered ∧
    rendered = "return /*p*/ c ? a /*q*/ + b : d;".toList ∧
    tree.comments = [⟨14, 19, by decide⟩, ⟨22, 27, by decide⟩] ∧
    s.substitutions.map (·.target.span) = [⟨20, 31, by decide⟩] ∧
    ∀ comment ∈ tree.comments, s.template.span.includes comment = true ∧
      ((∃ c ∈ s.substitutions, c.target.span.includes comment = true) ∨
        ∀ c ∈ s.substitutions, ¬c.target.span.Overlaps comment) ∧
      ∃ text, slice commentedText.text comment = .ok text ∧ text <:+: rendered := by
  have hcheck : (replacementAt? commentedText commentedTree 0).any (fun found =>
      isSafe found.1 found.2 && found.2.span.toOption.any (fun span =>
          found.1.comments.all fun c => span.includes c &&
            isBoundary commentedText.text c.start && isBoundary commentedText.text c.stop) &&
        found.1.comments == [⟨14, 19, by decide⟩, ⟨22, 27, by decide⟩] &&
        found.2.statements.all fun s =>
          (s.render commentedText).toOption == some "return /*p*/ c ? a /*q*/ + b : d;".toList &&
            s.substitutions.map (·.target.span) == [⟨20, 31, by decide⟩]) = true := by
    decide +kernel
  have hw : commentedTree.WellFormed := by decide
  obtain ⟨tree, r, htree, heval, hfound⟩ := exists_of_replacementAt? hcheck
  simp only [Bool.and_eq_true, Option.any_eq_true, List.all_eq_true, beq_iff_eq,
    toOption_eq_some] at hfound
  obtain ⟨⟨⟨hsafe, span, hspan, hends⟩, hcomments⟩, hstatements⟩ := hfound
  obtain ⟨span', s, rendered, hspan', hs, hrender, hall⟩ := safe_keeps_comments htree hw heval hsafe
  obtain rfl : span = span' := Except.ok.inj (hspan.symm.trans hspan')
  obtain ⟨htext, htarget⟩ := hstatements s (by simp [hs])
  refine ⟨tree, r, span, s, rendered, hw, htree, heval, hsafe, hspan, hs, hrender,
    Except.ok.inj (hrender.symm.trans htext), hcomments, htarget, ?_⟩
  intro comment hc
  obtain ⟨⟨hin, hstart⟩, hstop⟩ := hends comment hc
  obtain ⟨hinside, hplace, hshown⟩ := hall comment hc hin
  exact ⟨hinside, hplace, hshown hstart hstop⟩

end Lint

end IfCollapse
