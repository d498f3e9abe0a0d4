import IfCollapse.Proofs.Verdict

/-! Sites outside the then-branch. A bare token has no differences of its own: where one faces
something unlike it, the nodes around the two are compared instead, and a climb that starts there
has already passed the statements at which it should stop. -/

namespace IfCollapse.Branch

open Java

/-- Two nodes, or two tokens that agree: nothing around them is needed to compare them. -/
def Comparable (p q : Place) : Prop :=
  (p.isToken = false ∧ q.isToken = false) ∨ Alike p.here q.here

section Pairs

variable {p q b a : Place} {part : List Site}

theorem compareAt_of_alike_tokens (hp : p.isToken = true) (h : Alike p.here q.here) :
    compareAt p q = some [] := by
  obtain ⟨s, above⟩ := p
  obtain ⟨t, above'⟩ := q
  cases s with
  | node x children => simp [Place.isToken, Shape.isToken] at hp
  | token x named =>
    cases t with
    | node y others => exact absurd h (by simp [Alike])
    | token y other =>
      have hname : x.name = y.name := h.1
      have htext : named = true ∨ (Kind.ofName x.name).carriesText = true → x.text = y.text := h.2
      have hsame : sameToken x named y = true := by
        by_cases hc : named = true ∨ (Kind.ofName x.name).carriesText = true
        · simp [sameToken, hname, htext hc]
        · simp only [not_or, Bool.not_eq_true] at hc
          simp [sameToken, hname, hc.1, hname ▸ hc.2]
      change compare above (.token x named) above' (.token y other) = some []
      rw [compare.eq_def]
      simp [hsame]

theorem compareAt_of_comparable (h : Comparable p q) :
    ∃ ds, compareAt p q = some ds ∧ differences p q = ds := by
  by_cases hnodes : p.isToken = false ∧ q.isToken = false
  · exact compareAt_of_nodes hnodes.1 hnodes.2
  · have halike : Alike p.here q.here := h.resolve_left hnodes
    cases hp : p.isToken with
    | true =>
      have hcompare := compareAt_of_alike_tokens hp halike
      refine ⟨[], hcompare, ?_⟩
      simp only [compareAt] at hcompare
      simp only [differences, hcompare]
    | false =>
      obtain ⟨s, above⟩ := p
      obtain ⟨t, above'⟩ := q
      cases s <;> cases t <;> simp_all [Place.isToken, Shape.isToken, Alike]

theorem compareAt_eq_none (hsame : p.id = q.id → p = q) (h : ¬Comparable p q) :
    compareAt p q = none := by
  by_contra hsome
  obtain ⟨ds, hds⟩ := Option.ne_none_iff_exists'.1 hsome
  apply h
  rcases compareAt_cases hds with ⟨hid, _⟩ | ⟨_, _, halike, _⟩ | ⟨hp, hq, _⟩ | ⟨hp, hq, _⟩
  · right
    rw [hsame hid]
    exact Alike.refl _
  · exact Or.inr halike
  · exact Or.inl ⟨hp, hq⟩
  · exact Or.inl ⟨hp, hq⟩

theorem before_mem_below_of_comparable (hc : Comparable p q)
    (h : classify (differences p q) p.id q.id = .ok part) : ∀ s ∈ part, s.before ∈ p.below := by
  obtain ⟨ds, hds, hdiff⟩ := compareAt_of_comparable hc
  rw [hdiff] at h
  obtain ⟨climbed, hclimb, rfl⟩ := fold_of_classify h
  intro s hs
  obtain ⟨d, hd, hds'⟩ := (climb_of_mem_climbAll hclimb).1 s (mem_of_mem_fold hs)
  obtain ⟨path, hbefore, hafter⟩ := descend_of_mem_compare hds hd
  obtain ⟨levels, hlevels⟩ := climbed_of_climb hds'
  obtain ⟨_, _, _, _, hmem, _⟩ := hlevels.descend hbefore hafter
  exact hmem

theorem stray_of_classify {limit limitAfter : Nat} (hnone : compareAt p q = none)
    (hb : p.parent? = some b) (ha : q.parent? = some a)
    (h : classify (differences p q) limit limitAfter = .ok part) :
    ∃ s, part = [s] ∧ s.before.line <:+ b.line := by
  have hdiff : differences p q = [⟨b, a⟩] := by
    simp only [compareAt] at hnone
    simp only [differences, hnone, hb, ha]
  rw [hdiff] at h
  obtain ⟨climbed, hclimb, rfl⟩ := fold_of_classify h
  rw [climbAll] at hclimb
  cases hs : climb limit limitAfter ⟨b, a⟩ with
  | error obstacle => simp [hs] at hclimb
  | ok s =>
    simp only [hs, climbAll, bind, Except.bind, pure, Except.pure, Except.ok.injEq] at hclimb
    subst hclimb
    obtain ⟨levels, hlevels⟩ := climbed_of_climb hs
    refine ⟨s, by simp [fold, dropNested], ?_⟩
    have hbefore : s.before.line = b.line.drop levels := hlevels.before
    rw [hbefore]
    exact List.drop_suffix levels b.line

end Pairs

theorem parent?_of_mem_children {p c : Place} (h : c ∈ p.children) : c.parent? = some p := by
  obtain ⟨s, _, rfl⟩ := List.mem_map.1 h
  rfl

theorem not_mem_below_of_suffix {p c q : Place} (hc : c ∈ p.children) (h : q.line <:+ p.line) :
    q ∉ c.below := by
  intro hq
  have hlong := ((Place.line_suffix_of_mem_below hq).trans h).length_le
  rw [Place.line_child hc, List.length_cons] at hlong
  omega

theorem exists_parent_of_branch {place branch : Place} (hb : branch ∈ place.children) :
    ∃ parent : Place, ∀ t ∈ branchStatements branch, t ∈ parent.children := by
  unfold branchStatements
  split
  · exact ⟨branch, fun t ht => (List.mem_filter.1 ht).1⟩
  · refine ⟨place, fun t ht => ?_⟩
    rw [List.mem_singleton.1 ht]
    exact hb

theorem exists_parent_thenBranch (place : Place) :
    ∃ parent : Place, ∀ t ∈ thenBranch place, t ∈ parent.children := by
  unfold thenBranch
  split
  · rename_i consequence hc
    exact exists_parent_of_branch (mem_children_of_childByField hc)
  · exact ⟨place, by simp⟩

theorem exists_parent_elseBranch (place : Place) :
    ∃ parent : Place, ∀ e ∈ elseBranch place, e ∈ parent.children := by
  unfold elseBranch
  split
  · rename_i alternative ha
    exact exists_parent_of_branch (mem_children_of_childByField ha)
  · unfold Place.followingSiblings
    split
    · exact ⟨place, by simp⟩
    · rename_i parent hparent
      refine ⟨parent, fun e he => ?_⟩
      have hlater := (List.mem_filter.1 (List.mem_of_mem_take he)).1
      exact (List.dropWhile_sublist _).subset (List.mem_of_mem_drop hlater)

section Branches

variable {source : Source} {cst : Cst} {tree : Tree} {root place condition t e : Place} {id i : Nat}
  {r : Replacement} {sites part : List Site} {borrowed : List Place}

theorem outside_of_not_comparable (hl : Lowered source cst tree root) (hplace : place ∈ root.below)
    (ht : t ∈ thenBranch place) (he : e ∈ elseBranch place) (hc : ¬Comparable t e)
    (h : classify (differences t e) t.id e.id = .ok part) :
    ∃ s, part = [s] ∧ ∀ u ∈ thenBranch place, s.before ∉ u.below := by
  have htroot := Place.below_trans hplace (mem_below_of_thenBranch ht)
  have heroot := mem_below_of_elseBranch hl.top hplace he
  have hnone := compareAt_eq_none (fun hid => hl.distinct.eq htroot heroot hid) hc
  obtain ⟨b, hb⟩ := exists_parent_thenBranch place
  obtain ⟨a, ha⟩ := exists_parent_elseBranch place
  obtain ⟨s, hs, hline⟩ := stray_of_classify hnone (parent?_of_mem_children (hb t ht))
    (parent?_of_mem_children (ha e he)) h
  exact ⟨s, hs, fun u hu => not_mem_below_of_suffix (hb u hu) hline⟩

theorem ownOrOutside (hl : Lowered source cst tree root) (hplace : place ∈ root.below) :
    OwnOrOutside (thenBranch place) (elseBranch place) := by
  intro i t e part ht he hclass s hs
  by_cases hc : Comparable t e
  · exact Or.inl (before_mem_below_of_comparable hc hclass s hs)
  · obtain ⟨stray, rfl, hout⟩ := outside_of_not_comparable hl hplace (List.mem_of_getElem? ht)
      (List.mem_of_getElem? he) hc hclass
    rw [List.mem_singleton.1 hs]
    exact Or.inr hout

theorem Replaced.count_eq (hl : Lowered source cst tree root)
    (h : Replaced tree id r place condition sites borrowed)
    (hcomp : ∀ (i : Nat) (t e : Place), (thenBranch place)[i]? = some t →
      (elseBranch place)[i]? = some e → Comparable t e) : r.count = sites.length := by
  obtain ⟨parts, hflat, hall, hback⟩ := classify_of_sitesOf h.sited
  have hsubs : (thenBranch place).map (substitutionsIn (innerCondition condition) sites) =
      parts.map (List.map (Site.toConditional (innerCondition condition))) := by
    apply List.ext_getElem?
    intro i
    rw [List.getElem?_map, List.getElem?_map]
    cases ht : (thenBranch place)[i]? with
    | none =>
      cases hpart : parts[i]? with
      | none => rfl
      | some part =>
        obtain ⟨t, _, ht', _⟩ := hback i part hpart
        rw [ht] at ht'
        simp at ht'
    | some t =>
      have hlt : i < (elseBranch place).length := by
        rw [← h.sameCount]
        exact (List.getElem?_eq_some_iff.1 ht).1
      have he : (elseBranch place)[i]? = some (elseBranch place)[i] := List.getElem?_eq_getElem hlt
      obtain ⟨part, hpart, hclass⟩ := hall i t _ ht he
      obtain ⟨part', hclass', heq⟩ :=
        h.substitutions_eq_filter hl (ownOrOutside hl (hl.mem_below h.get)) ht he
      rw [hclass] at hclass'
      cases hclass'
      have hkeep : part.filter (fun site => site.before.isWithin t.id) = part :=
        List.filter_eq_self.2 fun s hs => Place.isWithin_of_mem_below
          (before_mem_below_of_comparable (hcomp i t _ ht he) hclass s hs)
      rw [hpart, Option.map_some, Option.map_some, heq, hkeep]
  calc r.count
      = ((thenBranch place).map (substitutionsIn (innerCondition condition) sites)).flatten.length := by
        rw [Replacement.count, h.statements, List.flatMap_map, List.flatMap_def]
    _ = sites.length := by
        rw [hsubs, hflat, ← List.map_flatten, List.length_map]

end Branches

/-- All accepted sites of a replacement lie in the then-branch and become conditional expressions,
exactly if every statement is comparable with its counterpart. -/
theorem sites_in_then_iff {source : Source} {cst : Cst} {tree : Tree} {place : Place} {id : Nat}
    {r : Replacement} (htree : Tree.ofCst source cst = .ok tree) (hget : tree.get? id = some place)
    (h : evaluate tree id = .ok (.replace r)) :
    ∃ sites, sitesOf (thenBranch place) (elseBranch place) = .ok sites ∧
      ((∀ s ∈ sites, ∃ t ∈ thenBranch place, s.before ∈ t.below) ∧ r.count = sites.length ∧
          1 ≤ r.count ↔
        ∀ (i : Nat) (t e : Place), (thenBranch place)[i]? = some t →
          (elseBranch place)[i]? = some e → Comparable t e) := by
  obtain ⟨root, hl⟩ := lowered_of_ofCst htree
  obtain ⟨found, condition, sites, borrowed, hr⟩ := replaced_of_evaluate h
  have hfound : place = found := Option.some.inj (hget.symm.trans hr.get)
  subst hfound
  obtain ⟨parts, hflat, hall, hback⟩ := classify_of_sitesOf hr.sited
  refine ⟨sites, hr.sited, ?_, ?_⟩
  · rintro ⟨hinside, _⟩ i t e ht he
    by_contra hc
    obtain ⟨part, hpart, hclass⟩ := hall i t e ht he
    obtain ⟨s, rfl, hout⟩ := outside_of_not_comparable hl (hl.mem_below hr.get)
      (List.mem_of_getElem? ht) (List.mem_of_getElem? he) hc hclass
    have hs : s ∈ sites := by
      rw [hflat]
      exact List.mem_flatten.2 ⟨[s], List.mem_of_getElem? hpart, List.mem_singleton_self s⟩
    obtain ⟨u, hu, hin⟩ := hinside s hs
    exact hout u hu hin
  · intro hcomp
    have hcount := hr.count_eq hl hcomp
    refine ⟨?_, hcount, ?_⟩
    · intro s hs
      rw [hflat] at hs
      obtain ⟨part, hpart, hsp⟩ := List.mem_flatten.1 hs
      obtain ⟨i, hi⟩ := List.mem_iff_getElem?.1 hpart
      obtain ⟨t, e, ht, he, hclass⟩ := hback i part hi
      exact ⟨t, List.mem_of_getElem? ht,
        before_mem_below_of_comparable (hcomp i t e ht he) hclass s hsp⟩
    · rw [hcount]
      exact List.length_pos_of_ne_nil hr.nonempty

/-- The tree of `run(() -> { if (c) … else x = 1; });` for a consequence of the given length. -/
def lambdaCall (length : Nat) (consequence : Cst) : Cst :=
  .part "expression_statement" 0 (length + 35) none [
    .part "method_invocation" 0 (length + 34) none [
      .part "identifier" 0 3 (some "name") [],
      .part "argument_list" 3 (length + 31) (some "arguments") [
        .mark "(" 3,
        .part "lambda_expression" 4 (length + 29) none [
          .part "formal_parameters" 4 2 (some "parameters") [.mark "(" 4, .mark ")" 5],
          .mark "->" 7,
          .part "block" 10 (length + 23) (some "body") [
            .mark "\x7b" 10,
            .part "if_statement" 12 (length + 19) none [
              .mark "if" 12,
              .part "parenthesized_expression" 15 3 (some "condition") [
                .mark "(" 15, .part "identifier" 16 1 none [], .mark ")" 17],
              consequence, .mark "else" (length + 20),
              assignment (length + 25) "alternative"],
            .mark "\x7d" (length + 32)]],
        .mark ")" (length + 33)]],
    .mark ";" (length + 34)]
where
  assignment (start : Nat) (field : String) : Cst :=
    .part "expression_statement" start 6 (some field) [
      .part "assignment_expression" start 5 none [
        .part "identifier" start 1 (some "left") [], .mark "=" (start + 2),
        .part "decimal_integer_literal" (start + 4) 1 (some "right") []],
      .mark ";" (start + 5)]

def lambdaAssignment : Cst :=
  lambdaCall 6 (lambdaCall.assignment 19 "consequence")

def lambdaAssignmentText : Source :=
  .ofText "run(() -> \x7b if (c) x = 0; else x = 1; \x7d);".toList

/-- The consequence is the empty statement, a bare token. -/
def lambdaEmpty : Cst :=
  lambdaCall 1 (.node ⟨0, ";", false, false, false, ⟨19, 20, by decide⟩, some "consequence"⟩ 0 [])

def lambdaEmptyText : Source :=
  .ofText "run(() -> \x7b if (c) ; else x = 1; \x7d);".toList

theorem assignment_site_in_then : ∃ tree place r sites,
    Tree.ofCst lambdaAssignmentText lambdaAssignment = .ok tree ∧ tree.get? 13 = some place ∧
    evaluate tree 13 = .ok (.replace r) ∧
    sitesOf (thenBranch place) (elseBranch place) = .ok sites ∧
    (∀ s ∈ sites, ∃ t ∈ thenBranch place, s.before ∈ t.below) ∧ r.count = sites.length ∧
    1 ≤ r.count := by
  have hcheck : (replacementAt? lambdaAssignmentText lambdaAssignment 13).any (fun found =>
      (found.1.get? 13).all fun place =>
        (thenBranch place ++ elseBranch place).all fun s => !s.isToken) = true := by
    decide +kernel
  obtain ⟨tree, r, htree, heval, hall⟩ := exists_of_replacementAt? hcheck
  obtain ⟨place, _, _, _, hr⟩ := replaced_of_evaluate heval
  rw [hr.get, Option.all_some, List.all_eq_true] at hall
  obtain ⟨sites, hsites, hiff⟩ := sites_in_then_iff htree hr.get heval
  have hcomp : ∀ (i : Nat) (t e : Place), (thenBranch place)[i]? = some t →
      (elseBranch place)[i]? = some e → Comparable t e := by
    intro i t e ht he
    have htn := hall t (List.mem_append_left _ (List.mem_of_getElem? ht))
    have hen := hall e (List.mem_append_right _ (List.mem_of_getElem? he))
    exact Or.inl ⟨by simpa using htn, by simpa using hen⟩
  exact ⟨tree, place, r, sites, htree, hr.get, heval, hsites, hiff.2 hcomp⟩

/-- Facing an empty statement, the climb ends at the lambda around the `if`: the replacement drops
the else branch and has no conditional expression. -/
theorem empty_statement_strays : ∃ tree place r sites s,
    Tree.ofCst lambdaEmptyText lambdaEmpty = .ok tree ∧ tree.get? 13 = some place ∧
    evaluate tree 13 = .ok (.replace r) ∧
    sitesOf (thenBranch place) (elseBranch place) = .ok sites ∧ s ∈ sites ∧
    (∀ t ∈ thenBranch place, s.before ∉ t.below) ∧ sites.length = 1 ∧ r.count = 0 := by
  have hcheck : (replacementAt? lambdaEmptyText lambdaEmpty 13).any (fun found =>
      found.2.count == 0 && (found.1.get? 13).any fun place =>
        (thenBranch place).length == 1 && (thenBranch place).all (·.isToken) &&
          (elseBranch place).all fun e => !e.isToken) = true := by
    decide +kernel
  obtain ⟨tree, r, htree, heval, hfound⟩ := exists_of_replacementAt? hcheck
  obtain ⟨root, hl⟩ := lowered_of_ofCst htree
  obtain ⟨place, condition, sites, borrowed, hr⟩ := replaced_of_evaluate heval
  simp only [hr.get, Option.any_some, Bool.and_eq_true, beq_iff_eq, List.all_eq_true,
    Bool.not_eq_true'] at hfound
  obtain ⟨hcount, ⟨hone, htoken⟩, hnode⟩ := hfound
  obtain ⟨t, ht⟩ := List.length_eq_one_iff.1 hone
  obtain ⟨e, he⟩ := List.length_eq_one_iff.1 (hr.sameCount.symm.trans hone)
  have htt : t.isToken = true := htoken t (by simp [ht])
  have hen : e.isToken = false := hnode e (by simp [he])
  have hsited := hr.sited
  simp only [ht, he, sitesOf, bind, Except.bind, pure, Except.pure] at hsited
  cases hclass : classify (differences t e) t.id e.id with
  | error why => simp [hclass] at hsited
  | ok part =>
    simp only [hclass, List.append_nil, Except.ok.injEq] at hsited
    subst hsited
    have hc : ¬Comparable t e := by
      obtain ⟨x, above⟩ := t
      obtain ⟨y, above'⟩ := e
      cases x <;> cases y <;> simp_all [Comparable, Place.isToken, Shape.isToken, Alike]
    obtain ⟨s, hs, hout⟩ := outside_of_not_comparable hl (hl.mem_below hr.get) (by simp [ht])
      (by simp [he]) hc hclass
    exact ⟨tree, place, r, part, s, htree, hr.get, heval, hr.sited, by simp [hs], hout,
      by simp [hs], hcount⟩

end IfCollapse.Branch
