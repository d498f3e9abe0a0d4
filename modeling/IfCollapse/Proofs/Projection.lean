import IfCollapse.Proofs.Verdict

/-! A replacement holds both branches. Taking the true arm of every conditional expression gives the
statements of the then-branch, and taking the false arm gives statements like those of the
else-branch. -/

namespace IfCollapse.Branch

open Java

namespace Statement

def arm? (s : Statement) (holds : Bool) (id : Nat) : Option Shape :=
  (s.substitutions.find? (·.target.id == id)).map fun c =>
    if holds then c.whenTrue.here else c.whenFalse.here

def choose (s : Statement) (holds : Bool) : Shape :=
  graft (s.arm? holds) s.template.here

theorem arm?_eq_some {s : Statement} {holds : Bool} {id : Nat} {z : Shape}
    (h : s.arm? holds id = some z) : ∃ c ∈ s.substitutions, c.target.id = id ∧
      z = if holds then c.whenTrue.here else c.whenFalse.here :=
  exists_of_assigned h

theorem arm?_ne_none {s : Statement} {holds : Bool} {c : Conditional}
    (hc : c ∈ s.substitutions) : s.arm? holds c.target.id ≠ none :=
  assigned_ne_none hc

/-- A statement stands for its template and for `other`: it differs from them at conditional
expressions only, which do not overlap and have their arms in the two. -/
structure Projects (s : Statement) (other : Place) : Prop where
  target_eq : ∀ c ∈ s.substitutions, c.target = c.whenTrue
  target_mem : ∀ c ∈ s.substitutions, c.target ∈ s.template.below
  whenFalse_mem : ∀ c ∈ s.substitutions, c.whenFalse ∈ other.below
  unrelated : Place.Unrelated (s.substitutions.map Conditional.target)
  choose_true : s.choose true = s.template.here
  choose_false : Alike (s.choose false) other.here

theorem choose_true_eq {s : Statement} (hdist : s.template.Distinct)
    (hmem : ∀ c ∈ s.substitutions, c.target ∈ s.template.below)
    (hown : ∀ c ∈ s.substitutions, c.target = c.whenTrue) :
    s.choose true = s.template.here := by
  apply graft_eq_self
  intro q hq z hz
  obtain ⟨c, hc, hid, rfl⟩ := arm?_eq_some hz
  rw [← hdist.eq (hmem c hc) hq hid, hown c hc]
  rfl

end Statement

section Sides

variable {root p q condition : Place} {ds : List Difference} {sites : List Site}

theorem alike_choose_false (hroot : root.Distinct) (hp : p ∈ root.below) (hq : q ∈ root.below)
    (h : Accepted p q ds sites) :
    Alike (Statement.choose ⟨p, sites.map (Site.toConditional condition)⟩ false) q.here := by
  have hdist := hroot.of_mem_below hp
  apply alike_graft hroot hp hq h.compared
  · intro path x y z hx hy hz
    obtain ⟨c, hc, hid, rfl⟩ := Statement.arm?_eq_some hz
    obtain ⟨site, hsite, rfl⟩ := List.mem_map.1 hc
    obtain ⟨path', _, hb, ha⟩ := h.aligned site hsite
    have hbx : site.before = x := hdist.eq (Place.mem_below_iff_descend.2 ⟨path', hb⟩)
      (Place.mem_below_of_descend hx) hid
    rw [hbx] at hb
    rw [← hdist.path_eq hx hb, hy] at ha
    cases ha
    rfl
  · intro d hd
    obtain ⟨site, hsite, hin⟩ := h.covered d hd
    obtain ⟨path, _, hb, _⟩ := h.aligned site hsite
    have hc : site.toConditional condition ∈
        Statement.substitutions ⟨p, sites.map (Site.toConditional condition)⟩ :=
      List.mem_map_of_mem hsite
    exact ⟨site.before, Place.mem_below_of_descend hb, hin, Statement.arm?_ne_none hc⟩
  · intro x hx hne
    obtain ⟨z, hz⟩ := Option.ne_none_iff_exists'.1 hne
    obtain ⟨c, hc, hid, _⟩ := Statement.arm?_eq_some hz
    obtain ⟨site, hsite, rfl⟩ := List.mem_map.1 hc
    obtain ⟨path, _, hb, _⟩ := h.aligned site hsite
    have hbx : site.before = x := hdist.eq (Place.mem_below_of_descend hb) hx hid
    obtain ⟨d, hd, hin⟩ := h.tight site hsite
    exact ⟨d, hd, hbx ▸ hin⟩

theorem unrelated_of_apart (htop : root.above = [])
    (hmem : ∀ s ∈ sites, s.before ∈ root.below)
    (h : sites.Pairwise fun a b => a.Apart b) :
    Place.Unrelated (sites.map Site.before) := by
  rw [Place.Unrelated, List.pairwise_map]
  refine h.imp_of_mem ?_
  rintro a b ha hb ⟨hab, hba⟩ x hxa hxb
  -- two places with something in common lie on the line of it, so one holds the other
  have hline := List.suffix_or_suffix_of_suffix (Place.line_suffix_of_mem_below hxa)
    (Place.line_suffix_of_mem_below hxb)
  rcases hline with hline | hline
  · have hin := (Place.ancestor_mem_below htop (hmem b hb) hline).2
    rw [Place.isWithin_of_mem_below hin] at hba
    simp at hba
  · have hin := (Place.ancestor_mem_below htop (hmem a ha) hline).2
    rw [Place.isWithin_of_mem_below hin] at hab
    simp at hab

end Sides

section Replacements

variable {source : Source} {cst : Cst} {tree : Tree} {root place condition : Place} {id : Nat}
  {r : Replacement} {sites : List Site} {borrowed : List Place}

theorem Replaced.projects (hl : Lowered source cst tree root) (hord : root.here.Ordered)
    (h : Replaced tree id r place condition sites borrowed)
    (hnodes : ∀ s ∈ thenBranch place ++ elseBranch place, s.isToken = false) {i : Nat}
    {t e : Place} (ht : (thenBranch place)[i]? = some t) (he : (elseBranch place)[i]? = some e) :
    Statement.Projects ⟨t, substitutionsIn (innerCondition condition) sites t⟩ e := by
  obtain ⟨part, hclass, hsubs⟩ := h.substitutions hl hnodes ht he
  have hte : t ∈ thenBranch place := List.mem_of_getElem? ht
  have hee : e ∈ elseBranch place := List.mem_of_getElem? he
  have htroot := h.then_mem hl hte
  have heroot := h.else_mem hl hee
  have htn := hnodes t (List.mem_append_left _ hte)
  have hen := hnodes e (List.mem_append_right _ hee)
  obtain ⟨ds, hacc⟩ := accepted_of_classify hl.distinct hl.top htroot htn hen hclass
  have hapart := apart_of_classify hl.distinct hl.top hord htroot htn hen hclass
  have hbefore : ∀ s ∈ part, s.before ∈ t.below := by
    intro s hs
    obtain ⟨path, _, hb, _⟩ := hacc.aligned s hs
    exact Place.mem_below_of_descend hb
  have htarget : ∀ c ∈ part.map (Site.toConditional (innerCondition condition)),
      c.target ∈ t.below := by
    intro c hc
    obtain ⟨s, hs, rfl⟩ := List.mem_map.1 hc
    exact hbefore s hs
  have hown : ∀ c ∈ part.map (Site.toConditional (innerCondition condition)),
      c.target = c.whenTrue := by
    intro c hc
    rw [← hsubs] at hc
    have hs : ⟨t, substitutionsIn (innerCondition condition) sites t⟩ ∈ r.statements := by
      rw [h.statements]
      exact List.mem_map_of_mem hte
    exact h.target_eq hs hc
  rw [hsubs]
  refine ⟨hown, htarget, ?_, ?_, ?_, alike_choose_false hl.distinct htroot heroot hacc⟩
  · intro c hc
    obtain ⟨s, hs, rfl⟩ := List.mem_map.1 hc
    obtain ⟨path, _, _, ha⟩ := hacc.aligned s hs
    exact Place.mem_below_of_descend ha
  · have hun := unrelated_of_apart hl.top
      (fun s hs => Place.below_trans htroot (hbefore s hs)) hapart
    simpa [Site.toConditional, Function.comp_def] using hun
  · exact Statement.choose_true_eq (hl.distinct.of_mem_below htroot) htarget hown

theorem Replaced.exists_substitution (hl : Lowered source cst tree root)
    (h : Replaced tree id r place condition sites borrowed)
    (hnodes : ∀ s ∈ thenBranch place ++ elseBranch place, s.isToken = false) :
    ∃ s ∈ r.statements, s.substitutions ≠ [] := by
  obtain ⟨parts, hflat, _, hback⟩ := classify_of_sitesOf h.sited
  have hne := h.nonempty
  rw [hflat] at hne
  obtain ⟨site, hsite⟩ := List.exists_mem_of_ne_nil _ hne
  obtain ⟨part, hpart, hin⟩ := List.mem_flatten.1 hsite
  obtain ⟨i, hi⟩ := List.mem_iff_getElem?.1 hpart
  obtain ⟨t, e, ht, he, hclass⟩ := hback i part hi
  obtain ⟨part', hclass', hsubs⟩ := h.substitutions hl hnodes ht he
  rw [hclass] at hclass'
  cases hclass'
  refine ⟨⟨t, substitutionsIn (innerCondition condition) sites t⟩, ?_, ?_⟩
  · rw [h.statements]
    exact List.mem_map_of_mem (List.mem_of_getElem? ht)
  · intro hnil
    simp only [hsubs, List.map_eq_nil_iff] at hnil
    rw [hnil] at hin
    simp at hin

end Replacements

/-- Where the branches of an `if` consist of nodes, its replacement has the statements of the
then-branch, changes at least one of them, and each stands for itself and for the statement of the
else-branch at the same index. -/
theorem evaluate_projects {source : Source} {cst : Cst} {tree : Tree} {place : Place} {id : Nat}
    {r : Replacement} (hwell : cst.WellFormed) (htree : Tree.ofCst source cst = .ok tree)
    (hget : tree.get? id = some place)
    (hnodes : ∀ s ∈ thenBranch place ++ elseBranch place, s.isToken = false)
    (h : evaluate tree id = .ok (.replace r)) :
    r.statements.map (·.template) = thenBranch place ∧
      r.statements.length = (elseBranch place).length ∧
      (∃ s ∈ r.statements, s.substitutions ≠ []) ∧
      ∀ (i : Nat) (s : Statement) (e : Place), r.statements[i]? = some s →
        (elseBranch place)[i]? = some e → s.Projects e := by
  obtain ⟨root, hl⟩ := lowered_of_ofCst htree
  obtain ⟨found, condition, sites, borrowed, hr⟩ := replaced_of_evaluate h
  have hfound : place = found := Option.some.inj (hget.symm.trans hr.get)
  subst hfound
  refine ⟨?_, ?_, hr.exists_substitution hl hnodes, ?_⟩
  · rw [hr.statements, List.map_map]
    exact List.map_id _
  · rw [hr.statements, List.length_map, hr.sameCount]
  · intro i s e hs he
    rw [hr.statements, List.getElem?_map, Option.map_eq_some_iff] at hs
    obtain ⟨t, ht, rfl⟩ := hs
    exact hr.projects hl (hl.ordered hwell) hnodes ht he

/-- The trees of `x = 1; return f(a);`, whatever the number and the argument are. -/
def assignAndReturn (start : Nat) : List Cst := [
  .part "expression_statement" start 6 none [
    .part "assignment_expression" start 5 none [
      .part "identifier" start 1 (some "left") [], .mark "=" (start + 2),
      .part "decimal_integer_literal" (start + 4) 1 (some "right") []],
    .mark ";" (start + 5)],
  .part "return_statement" (start + 7) 12 none [
    .mark "return" (start + 7),
    .part "method_invocation" (start + 14) 4 none [
      .part "identifier" (start + 14) 1 (some "name") [],
      .part "argument_list" (start + 15) 3 (some "arguments") [
        .mark "(" (start + 15), .part "identifier" (start + 16) 1 none [],
        .mark ")" (start + 17)]],
    .mark ";" (start + 18)]]

def borrowingText : Source :=
  .ofText "\x7b if (c) \x7b x = 1; return f(a); \x7d x = 2; return f(b); \x7d".toList

def borrowingTree : Cst :=
  .part "block" 0 54 none (
    [.mark "\x7b" 0,
      .part "if_statement" 2 30 none [
        .mark "if" 2,
        .part "parenthesized_expression" 5 3 (some "condition") [
          .mark "(" 5, .part "identifier" 6 1 none [], .mark ")" 7],
        .part "block" 9 23 (some "consequence")
          (.mark "\x7b" 9 :: assignAndReturn 11 ++ [.mark "\x7d" 31])]] ++
      assignAndReturn 33 ++ [.mark "\x7d" 53])

theorem borrowing_projects : ∃ tree place r, borrowingTree.WellFormed ∧
    Tree.ofCst borrowingText borrowingTree = .ok tree ∧ tree.get? 2 = some place ∧
    (∀ s ∈ thenBranch place ++ elseBranch place, s.isToken = false) ∧
    evaluate tree 2 = .ok (.replace r) ∧ r.statements.map (·.template) = thenBranch place ∧
    r.statements.length = (elseBranch place).length ∧
    (∃ s ∈ r.statements, s.substitutions ≠ []) ∧
    ∀ (i : Nat) (s : Statement) (e : Place), r.statements[i]? = some s →
      (elseBranch place)[i]? = some e → s.Projects e := by
  have hwell : borrowingTree.WellFormed := by decide
  have hcheck : (replacementAt? borrowingText borrowingTree 2).any (fun found =>
      (found.1.get? 2).all fun place =>
        (thenBranch place ++ elseBranch place).all fun s => !s.isToken) = true := by
    decide +kernel
  obtain ⟨tree, r, htree, heval, hall⟩ := exists_of_replacementAt? hcheck
  obtain ⟨place, _, _, _, hreplaced⟩ := replaced_of_evaluate heval
  have hnodes : ∀ s ∈ thenBranch place ++ elseBranch place, s.isToken = false := by
    rw [hreplaced.get, Option.all_some, List.all_eq_true] at hall
    intro s hs
    simpa using hall s hs
  exact ⟨tree, place, r, hwell, htree, hreplaced.get, hnodes, heval,
    evaluate_projects hwell htree hreplaced.get hnodes heval⟩

end IfCollapse.Branch
