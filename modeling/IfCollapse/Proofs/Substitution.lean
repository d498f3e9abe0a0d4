import IfCollapse.Proofs.Classification
import IfCollapse.Proofs.Rendering
import IfCollapse.Proofs.Splicing

/-! Conditional expressions in the text of a statement. The sites of two statements come in the order
of the source and do not overlap, and rendering the first statement with them is the same as editing
its text at every site. -/

namespace IfCollapse

namespace Span

def shift (s : Span) (amount : Nat) : Span where
  start := amount + s.start
  stop := amount + s.stop
  ordered := Nat.add_le_add_left s.ordered amount

def within (inner outer : Span) : Span where
  start := inner.start - outer.start
  stop := inner.stop - outer.start
  ordered := Nat.sub_le_sub_right inner.ordered outer.start

theorem shift_within {inner outer : Span} (h : outer.includes inner = true) :
    (inner.within outer).shift outer.start = inner := by
  obtain ⟨start, stop, hle⟩ := inner
  simp only [includes_iff] at h
  simp only [within, shift, mk.injEq]
  omega

theorem make_shift {start stop : Nat} {s : Span} (h : make start stop = .ok s) (amount : Nat) :
    make (amount + start) (amount + stop) = .ok (s.shift amount) := by
  obtain ⟨rfl, rfl⟩ := make_eq_ok.1 h
  exact make_of_le (Nat.add_le_add_left s.ordered amount)

end Span

section Slices

variable {text whole part left rest : List Char} {outer inner : Span} {n : Nat}

theorem isBoundary_append_left :
    isBoundary (left ++ rest) (byteLength left + n) = true ↔ isBoundary rest n = true := by
  constructor
  · intro h
    obtain ⟨before, middle, behind, htext, hleft, hn⟩ :=
      exists_between (isBoundary_append left rest) h (Nat.le_add_right _ n)
    have hcut : cut? (left ++ rest) (byteLength left) = some (before, middle ++ behind) :=
      cut?_eq_some.2 ⟨by rw [htext, List.append_assoc], hleft⟩
    rw [cut?_append, Option.some.injEq, Prod.mk.injEq] at hcut
    rw [byteLength_append] at hn
    have hmiddle : n = byteLength middle := by omega
    rw [hcut.2, hmiddle]
    exact isBoundary_append middle behind
  · intro h
    obtain ⟨before, behind, rfl, rfl⟩ := isBoundary_iff.1 h
    rw [← List.append_assoc, ← byteLength_append]
    exact isBoundary_append (left ++ before) behind

theorem byteLength_of_slice (h : slice text outer = .ok whole) :
    outer.stop = outer.start + byteLength whole := by
  obtain ⟨left, right, _, hstart, hstop⟩ := slice_eq_ok.1 h
  rw [hstop, byteLength_append, hstart]

theorem stop_le_of_slice (h : slice text outer = .ok whole) : outer.stop ≤ byteLength text := by
  obtain ⟨left, right, rfl, _, hstop⟩ := slice_eq_ok.1 h
  rw [hstop, byteLength_append (left ++ whole)]
  exact Nat.le_add_right _ _

theorem slice_shift (h : slice text outer = .ok whole) (hpart : slice whole inner = .ok part) :
    slice text (inner.shift outer.start) = .ok part := by
  obtain ⟨left, right, rfl, hstart, _⟩ := slice_eq_ok.1 h
  obtain ⟨before, behind, rfl, hfirst, hlast⟩ := slice_eq_ok.1 hpart
  refine slice_eq_ok.2 ⟨left ++ before, behind ++ right, by simp, ?_, ?_⟩
  · simp [Span.shift, hstart, hfirst]
  · simp [Span.shift, hstart, hlast]

theorem slice_within (h : slice text outer = .ok whole) (hin : outer.includes inner = true)
    (hpart : slice text inner = .ok part) : slice whole (inner.within outer) = .ok part := by
  have hinside : ∀ n, outer.start ≤ n → n ≤ outer.stop → isBoundary text n = true →
      isBoundary whole (n - outer.start) = true := by
    intro n hlo hhi hn
    have hlength := byteLength_of_slice h
    obtain ⟨left, right, htext, hstart, _⟩ := slice_eq_ok.1 h
    have hsplit : n = byteLength left + (n - outer.start) := by omega
    rw [hsplit, htext, List.append_assoc, isBoundary_append_left] at hn
    exact isBoundary_of_append hn (by omega)
  have hends := boundaries_of_slice hpart
  have hle := inner.ordered
  have hbounds := Span.includes_iff.1 hin
  have hcut : ∃ found, slice whole (inner.within outer) = .ok found :=
    exists_slice (hinside _ hbounds.1 (by omega) hends.1) (hinside _ (by omega) hbounds.2 hends.2)
  obtain ⟨found, hfound⟩ := hcut
  have hsame := slice_shift h hfound
  rw [Span.shift_within hin, hpart, Except.ok.injEq] at hsame
  rw [hfound, hsame]

end Slices

namespace Branch

open Java

def Conditional.edit (template : Place) (c : Conditional) : Edit :=
  ⟨c.target.span.within template.span, some c.render⟩

def Statement.edits (s : Statement) : List Edit :=
  (s.substitutions.map (Conditional.edit s.template)).reverse

theorem Statement.reverse_edits (s : Statement) :
    s.edits.reverse = s.substitutions.map (Conditional.edit s.template) :=
  List.reverse_reverse _

section Statements

variable {source : Source} {template : Place} {cs : List Conditional} {cursor : Nat}
  {pieces : List (List Char)}

theorem renderFrom_of_gaps (htext : slice source.text template.span = .ok template.text)
    (hin : ∀ c ∈ cs, template.span.includes c.target.span = true)
    (h : Edit.gaps template.text cursor (cs.map (Conditional.edit template)) = .ok pieces) :
    Statement.renderFrom source template.span.stop (template.span.start + cursor) cs =
      .ok (interleave pieces (cs.map Conditional.render)) := by
  induction cs generalizing cursor pieces with
  | nil =>
    obtain ⟨span, hspan, h⟩ := bind_eq_ok.1 h
    obtain ⟨piece, hpiece, h⟩ := bind_eq_ok.1 h
    have heq : [piece] = pieces := Except.ok.inj h
    have hcut : source.slice (span.shift template.span.start) = .ok piece :=
      slice_shift htext hpiece
    rw [Statement.renderFrom, byteLength_of_slice htext, Span.make_shift hspan, ← heq]
    simpa [interleave, bind, Except.bind] using hcut
  | cons c cs ih =>
    obtain ⟨span, hspan, h⟩ := bind_eq_ok.1 h
    obtain ⟨piece, hpiece, h⟩ := bind_eq_ok.1 h
    obtain ⟨later, hlater, h⟩ := bind_eq_ok.1 h
    have heq : piece :: later = pieces := Except.ok.inj h
    have hcut : source.slice (span.shift template.span.start) = .ok piece :=
      slice_shift htext hpiece
    have hc := Span.shift_within (hin c List.mem_cons_self)
    have hstart : template.span.start + (c.edit template).span.start = c.target.span.start :=
      congrArg Span.start hc
    have hstop : template.span.start + (c.edit template).span.stop = c.target.span.stop :=
      congrArg Span.stop hc
    have hrest := ih (fun d hd => hin d (List.mem_cons_of_mem c hd)) hlater
    rw [hstop] at hrest
    rw [Statement.renderFrom, ← hstart, Span.make_shift hspan, ← heq]
    simp only [bind, Except.bind, hcut, hrest, pure, Except.pure, List.map_cons, interleave]

theorem Statement.exists_spliced {s : Statement}
    (htext : slice source.text s.template.span = .ok s.template.text)
    (htargets : ∀ c ∈ s.substitutions, s.template.span.includes c.target.span = true ∧
      slice source.text c.target.span = .ok c.target.text)
    (hsorted : s.substitutions.Pairwise fun a b => a.target.span.stop ≤ b.target.span.start) :
    ∃ text pieces, s.render source = .ok text ∧
      Edit.Spliced s.template.text s.edits text pieces (s.substitutions.map (·.target.text)) := by
  have hcut : ∀ c ∈ s.substitutions,
      slice s.template.text (c.edit s.template).span = .ok c.target.text := by
    intro c hc
    exact slice_within htext (htargets c hc).1 (htargets c hc).2
  have hbounds : ∀ e ∈ s.edits, isBoundary s.template.text e.span.start = true ∧
      isBoundary s.template.text e.span.stop = true := by
    intro e he
    obtain ⟨c, hc, rfl⟩ := List.mem_map.1 (List.mem_reverse.1 he)
    exact boundaries_of_slice (hcut c hc)
  have hdescending : s.edits.Pairwise fun a b => b.span.stop ≤ a.span.start := by
    rw [Statement.edits, List.pairwise_reverse, List.pairwise_map]
    refine hsorted.imp ?_
    intro a b hab
    exact Nat.sub_le_sub_right hab _
  obtain ⟨text, pieces, removed, h⟩ := Edit.exists_spliced hbounds hdescending
  have hremoved : removed = s.substitutions.map (·.target.text) := by
    have hmap := h.covered
    rw [s.reverse_edits, List.map_map] at hmap
    apply List.map_injective_iff.2 fun _ _ => Except.ok.inj
    rw [← hmap, List.map_map]
    exact List.map_congr_left hcut
  subst hremoved
  refine ⟨text, pieces, ?_, h⟩
  have hgaps := h.between
  rw [s.reverse_edits] at hgaps
  have hrender := renderFrom_of_gaps htext (fun c hc => (htargets c hc).1) hgaps
  rw [Nat.add_zero] at hrender
  rw [Statement.render, hrender, h.result_eq, s.reverse_edits, List.map_map]
  rfl

end Statements

/-- The sites of two nodes lie in the first one, in the order of the source and apart. Whatever the
condition is, the statement with a conditional expression at every site can be rendered, and its text
is the text of the first node edited at the sites and nowhere else. -/
theorem classify_spliced {source : Source} {cst : Cst} {tree : Tree} {p q : Place} {b a : Nat}
    {sites : List Site} (htree : Tree.ofCst source cst = .ok tree) (hw : cst.WellFormed)
    (hp : tree.get? b = some p) (hq : tree.get? a = some q) (hpn : p.isToken = false)
    (hqn : q.isToken = false) (h : classify (differences p q) b a = .ok sites) :
    (∀ s ∈ sites, p.span.includes s.before.span = true) ∧
      sites.Pairwise (fun s t => s.before.span.start < t.before.span.start ∧
        s.before.span.stop ≤ t.before.span.start) ∧
      ∀ condition : Place, ∃ text pieces,
        Statement.render ⟨p, sites.map (Site.toConditional condition)⟩ source = .ok text ∧
        Edit.Spliced p.text (Statement.edits ⟨p, sites.map (Site.toConditional condition)⟩) text
          pieces (sites.map (·.before.text)) := by
  obtain ⟨root, hl⟩ := lowered_of_ofCst htree
  have hproot := hl.mem_below hp
  have hqroot := hl.mem_below hq
  have hord := hl.ordered hw
  rw [← hl.id_of_get? hp, ← hl.id_of_get? hq] at h
  have hbelow := before_mem_below_of_comparable (Or.inl ⟨hpn, hqn⟩) h
  have hsorted := separated_of_classify hl hord hproot hqroot (Or.inl ⟨hpn, hqn⟩) h
  have hinside : ∀ s ∈ sites, p.span.includes s.before.span = true := by
    intro s hs
    exact Span.includes_iff.2
      (Place.span_of_mem_below (Place.span_of_mem_below hord hproot).1 (hbelow s hs)).2
  refine ⟨hinside, ?_, ?_⟩
  · refine hsorted.imp_of_mem ?_
    intro s t hs _ hst
    have hnonempty : s.before.span.start < s.before.span.stop :=
      (Place.span_of_mem_below hord (Place.below_trans hproot (hbelow s hs))).1.nonempty
    exact ⟨by omega, hst⟩
  · intro condition
    have htexts : sites.map (·.before.text) =
        (sites.map (Site.toConditional condition)).map (·.target.text) := by
      rw [List.map_map]
      rfl
    rw [htexts]
    apply Statement.exists_spliced (hl.texts p hproot)
    · intro c hc
      obtain ⟨s, hs, rfl⟩ := List.mem_map.1 hc
      exact ⟨hinside s hs, hl.texts _ (Place.below_trans hproot (hbelow s hs))⟩
    · rw [List.pairwise_map]
      exact hsorted

def twoArguments (start : Nat) (field : String) : Cst :=
  .part "expression_statement" start 8 (some field) [
    .part "method_invocation" start 7 none [
      .part "identifier" start 1 (some "name") [],
      .part "argument_list" (start + 1) 6 (some "arguments") [
        .mark "(" (start + 1), .part "identifier" (start + 2) 1 none [],
        .mark "," (start + 3), .part "identifier" (start + 5) 1 none [],
        .mark ")" (start + 6)]],
    .mark ";" (start + 7)]

def twoArgumentsTree : Cst :=
  .part "if_statement" 0 29 none [
    .mark "if" 0,
    .part "parenthesized_expression" 3 3 (some "condition") [
      .mark "(" 3, .part "identifier" 4 1 none [], .mark ")" 5],
    twoArguments 7 "consequence", .mark "else" 16, twoArguments 21 "alternative"]

def twoArgumentsText : Source :=
  .ofText "if (x) f(a, b); else f(c, d);".toList

theorem both_arguments_are_spliced : ∃ tree p q condition sites pieces,
    Tree.ofCst twoArgumentsText twoArgumentsTree = .ok tree ∧ twoArgumentsTree.WellFormed ∧
    tree.get? 7 = some p ∧ tree.get? 21 = some q ∧ tree.get? 4 = some condition ∧
    p.isToken = false ∧ q.isToken = false ∧ classify (differences p q) 7 21 = .ok sites ∧
    sites.length = 2 ∧ (∀ s ∈ sites, p.span.includes s.before.span = true) ∧
    sites.Pairwise (fun s t => s.before.span.start < t.before.span.start ∧
      s.before.span.stop ≤ t.before.span.start) ∧
    Statement.render ⟨p, sites.map (Site.toConditional condition)⟩ twoArgumentsText =
      .ok "f(x ? a : c, x ? b : d);".toList ∧
    Edit.Spliced p.text (Statement.edits ⟨p, sites.map (Site.toConditional condition)⟩)
      "f(x ? a : c, x ? b : d);".toList pieces (sites.map (·.before.text)) := by
  have hcheck : (match Tree.ofCst twoArgumentsText twoArgumentsTree with
      | .ok tree => (tree.get? 7).any fun p => (tree.get? 21).any fun q =>
          (tree.get? 4).any fun condition => !p.isToken && !q.isToken &&
            (climbAll 7 21 (differences p q)).toOption.any fun climbed =>
              decide (climbed.Pairwise fun a b => a.precedes b = true) &&
                (dropNested [] climbed).length == 2 &&
                (Statement.render ⟨p, (dropNested [] climbed).map
                  (Site.toConditional condition)⟩ twoArgumentsText).toOption ==
                    some "f(x ? a : c, x ? b : d);".toList
      | .error _ => false) = true := by
    decide +kernel
  have hw : twoArgumentsTree.WellFormed := by decide
  split at hcheck
  · rename_i tree htree
    simp only [Bool.and_eq_true, Option.any_eq_true, Bool.not_eq_true', beq_iff_eq,
      decide_eq_true_eq, toOption_eq_some] at hcheck
    obtain ⟨p, hp, q, hq, condition, hcondition, ⟨hpn, hqn⟩, climbed, hclimbed, ⟨hsorted, htwo⟩,
      hrender⟩ := hcheck
    have hok := classify_of_sorted hclimbed hsorted
    obtain ⟨hinside, hpairwise, hall⟩ := classify_spliced htree hw hp hq hpn hqn hok
    obtain ⟨text, pieces, htext, hspliced⟩ := hall condition
    rw [hrender, Except.ok.injEq] at htext
    rw [← htext] at hspliced
    exact ⟨tree, p, q, condition, dropNested [] climbed, pieces, htree, hw, hp, hq, hcondition,
      hpn, hqn, hok, htwo, hinside, hpairwise, hrender, hspliced⟩
  · simp at hcheck

end Branch

end IfCollapse
